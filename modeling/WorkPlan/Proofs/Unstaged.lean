import Mathlib.Tactic
import WorkPlan.Proofs.Agreement

/-!
# Layers that need not be staged

The layers of a run may be in any order: a step may refer to one beside it, behind it or in
no layer at all.  One after another, steps find the results of those before them in their
own layer; side by side they do not.  So a run side by side is completed less often.  When
it is, every step had its arguments before its layer started, and results of other names
that are published in between make no difference.
-/

namespace WorkPlan

open Json

variable {σ : Type} {c : Catalog} {crew : Crew σ}
  {work : Nat → List Value → Except Failure Value} {results : Members Value}

/-- None of the steps has a result yet. -/
def Catalog.Unpublished (c : Catalog) (results : Members Value) (steps : List Nat) : Prop :=
  ∀ i ∈ steps, results.get? (c.name i) = none

namespace Catalog

theorem Unpublished.overlay
    {first steps : List Nat} (hnew : c.Unpublished results steps)
    (hapart : ∀ i ∈ steps, c.name i ∉ first.map c.name) {outputs : List (String × Value)}
    (houtputs : outputs.map Prod.fst = first.map c.name) :
    c.Unpublished (results.overlay outputs) steps := by
  intro i hi
  have hother : c.name i ∉ outputs.map Prod.fst := by
    rw [houtputs]
    exact hapart i hi
  rw [Members.get?_overlay_of_notMem hother]
  exact hnew i hi

end Catalog

namespace Run

variable {steps : List Nat} {outputs : List (String × Value)} {moves : List Move}

/-- A layer that is completed side by side had the arguments of all its steps, and it has
their answers. -/
theorem answers_of_layerTogether_ok
    {j : Journal σ} (hcrew : crew.Computes work steps) (hcomplete : Complete moves steps.length)
    (hlayer : (layerTogether c crew moves steps results j).result = .ok outputs) :
    (∀ i ∈ steps, ∃ args, c.argumentsFrom i results = .ok args) ∧
      c.answers work results steps = .ok outputs := by
  rcases layerTogether_result hcrew hcomplete j with
    ⟨i, -, e, -, herror⟩ | ⟨e, herror, -⟩ | ⟨outputs', hok, hargs, hanswers⟩
  · rw [hlayer] at herror
    cases herror
  · rw [hlayer] at herror
    cases herror
  · rw [hlayer] at hok
    cases hok
    exact ⟨hargs, hanswers⟩

theorem layer_of_layerTogether_ok
    {j : Journal σ} (hcrew : crew.Computes work steps)
    (hcomplete : Complete moves steps.length) (hnew : c.Unpublished results steps)
    (hlayer : (layerTogether c crew moves steps results j).result = .ok outputs)
    (j' : Journal σ) :
    (layer c crew steps results j').result = .ok (results.overlay outputs, outputs) ∧
      outputs.map Prod.fst = steps.map c.name := by
  obtain ⟨hargs, hanswers⟩ := answers_of_layerTogether_ok hcrew hcomplete hlayer
  -- What a step uses was there before, and nothing of the layer was.
  have hapart : ∀ i ∈ steps, ∀ k ∈ steps, c.name k ∉ c.sources i := by
    intro i hi k hk hsource
    obtain ⟨args, hfound⟩ := hargs i hi
    have hsome := Catalog.isSome_of_mem_sources hfound hsource
    rw [hnew k hk] at hsome
    cases hsome
  rw [layer_result hcrew hapart results j', hanswers]
  exact ⟨rfl, Catalog.answers_names hanswers⟩

theorem layersFrom_of_layersTogetherFrom_ok
    {schedule : Schedule} {index : Nat} {layers : List (List Nat)} {j : Journal σ}
    {all : List (List (String × Value))} (hcrew : crew.Computes work layers.flatten)
    (hschedule : schedule.CompletesFrom index layers)
    (hnames : (layers.flatten.map c.name).Nodup)
    (hnew : c.Unpublished results layers.flatten)
    (htogether : (layersTogetherFrom c crew schedule index layers results j).result = .ok all)
    (j' : Journal σ) :
    (layersFrom c crew index layers results j').result = .ok all := by
  induction layers generalizing results index j j' all with
  | nil => exact htogether
  | cons steps rest ih =>
      rw [List.flatten_cons, List.map_append, List.nodup_append] at hnames
      obtain ⟨-, hrest, hapart⟩ := hnames
      have hfirst : c.Unpublished results steps :=
        fun i hi => hnew i (List.mem_append_left _ hi)
      have hlater : c.Unpublished results rest.flatten :=
        fun i hi => hnew i (List.mem_append_right _ hi)
      cases hlayer : (layerTogether c crew (schedule index steps) steps results
          (j.log (.layerEntered index steps.length))).result with
      | error e =>
          rw [layersTogetherFrom_cons_error hlayer] at htogether
          cases htogether
      | ok outputs =>
          rw [layersTogetherFrom_cons_ok hlayer] at htogether
          obtain ⟨others, hothers, rfl⟩ := Except.map_eq_ok_iff.mp htogether
          obtain ⟨halone, houtputs⟩ :=
            layer_of_layerTogether_ok hcrew.head hschedule.head hfirst hlayer
              (j'.log (.layerEntered index steps.length))
          have hnew' : c.Unpublished (results.overlay outputs) rest.flatten := by
            refine hlater.overlay ?_ houtputs
            intro i hi hname
            exact hapart _ hname _ (List.mem_map_of_mem hi) rfl
          rw [layersFrom_cons_ok halone, ih hcrew.tail hschedule.tail hrest hnew' hothers _]
          rfl

/-- Whatever layers are run, as long as the names of their steps differ and their work is
given by functions: results of a run side by side are those of a run one after another, and
a run side by side fails if the other does, in whatever order the tasks are joined. -/
theorem sequential_of_concurrent
    {layers : List (List Nat)} {schedule : Schedule}
    (hnames : (layers.flatten.map c.name).Nodup)
    (hcrew : crew.Computes work layers.flatten) (hschedule : schedule.Completes layers)
    (s₁ s₂ : σ) :
    (∀ r, (concurrent c crew schedule layers s₂).result = .ok r →
      (sequential c crew layers s₁).result = .ok r) ∧
    (∀ e, (sequential c crew layers s₁).result = .error e →
      ∃ e', (concurrent c crew schedule layers s₂).result = .error e') := by
  have hcompleted : ∀ r, (concurrent c crew schedule layers s₂).result = .ok r →
      (sequential c crew layers s₁).result = .ok r := by
    intro r hr
    rw [concurrent_result_eq] at hr
    obtain ⟨outputs, htogether, rfl⟩ := Except.map_eq_ok_iff.mp hr
    have hnew : c.Unpublished [] layers.flatten := fun _ _ => rfl
    have halone := layersFrom_of_layersTogetherFrom_ok hcrew hschedule.from_zero hnames hnew
      htogether { state := s₁ }
    rw [sequential_result_eq, halone]
    rfl
  refine ⟨hcompleted, ?_⟩
  intro e he
  cases hresult : (concurrent c crew schedule layers s₂).result with
  | error e' => exact ⟨e', rfl⟩
  | ok r =>
      rw [hcompleted r hresult] at he
      cases he

/-- Every step answers with the list of its arguments. -/
def listing : Nat → List Value → Except Failure Value := fun _ args => .ok (.array args)

/-- In the diamond with a layer for each step, and one without steps, all results are there;
with its last step beside the first one both runs fail. -/
theorem sequential_of_concurrent_diamond :
    (∃ r : RunResult, r.layers.length = 5 ∧
      (concurrent Plan.diamond (Crew.pure listing) .backwards [[0], [], [1], [2], [3]]
        ()).result = .ok r ∧
      (sequential Plan.diamond (Crew.pure listing) [[0], [], [1], [2], [3]]
        ()).result = .ok r) ∧
    (sequential Plan.diamond (Crew.pure listing) [[0, 3], [2, 1]] ()).result =
      .error (.missingResult "join" "left") ∧
    ∃ e', (concurrent Plan.diamond (Crew.pure listing) .backwards [[0, 3], [2, 1]]
      ()).result = .error e' := by
  have hapart : ([[0], [], [1], [2], [3]].flatten.map Plan.diamond.name).Nodup := by decide
  have hbeside : ([[0, 3], [2, 1]].flatten.map Plan.diamond.name).Nodup := by decide
  have hcompleted := (sequential_of_concurrent hapart (Crew.pure_computes listing _)
    (Schedule.backwards_completes _) () ()).1
  have hfails := (sequential_of_concurrent hbeside (Crew.pure_computes listing _)
    (Schedule.backwards_completes _) () ()).2
  exact ⟨⟨_, rfl, rfl, hcompleted _ rfl⟩, rfl, hfails _ rfl⟩

/-- A step beside the one whose result it uses has it only when they run one after another. -/
example :
    (sequential Plan.diamond (Crew.pure listing) [[0, 1]] ()).result =
        .ok ⟨[[("load", .array []), ("right", .array [.array [], .string "-r"])]]⟩ ∧
      (concurrent Plan.diamond (Crew.pure listing) .inOrder [[0, 1]] ()).result =
        .error (.missingResult "right" "load") :=
  ⟨rfl, rfl⟩

end Run

end WorkPlan
