import Mathlib.Tactic
import WorkPlan.Proofs.Answers
import WorkPlan.Proofs.Layering
import WorkPlan.Proofs.Overlay

/-!
# Layers that can run one after another

Layers are staged when every step uses only results of earlier layers and bears none of
their names.  Then the results that are there when a layer starts are all that its steps
need, and nothing that its steps add changes what the others find.  The layers of a plan
are staged.
-/

namespace WorkPlan

open Json

/-- The steps use results of the known names or of earlier layers only, and take new
names. -/
def Catalog.Staged (c : Catalog) : List String → List (List Nat) → Prop
  | _, [] => True
  | known, steps :: rest =>
      (∀ i ∈ steps, c.name i ∉ known ∧ ∀ name ∈ c.sources i, name ∈ known) ∧
        Staged c (known ++ steps.map c.name) rest

/-- The members have exactly the known names as keys. -/
def Members.Covers (results : Members Value) (known : List String) : Prop :=
  ∀ name, (results.get? name).isSome ↔ name ∈ known

theorem Members.covers_nil : Members.Covers [] [] := by
  intro name
  simp

theorem Members.Covers.overlay
    {results : Members Value} {known : List String} (hcovers : results.Covers known)
    (outputs : List (String × Value)) :
    Members.Covers (results.overlay outputs) (known ++ outputs.map Prod.fst) := by
  intro name
  rw [get?_overlay_isSome_iff, hcovers name, List.mem_append]

theorem Members.Covers.answers
    {c : Catalog} {work : Nat → List Value → Except Failure Value}
    {results : Members Value} {known : List String} {steps : List Nat}
    {outputs : List (String × Value)} (hcovers : results.Covers known)
    (hanswers : c.answers work results steps = .ok outputs) :
    Members.Covers (results.overlay outputs) (known ++ steps.map c.name) := by
  rw [← Catalog.answers_names hanswers]
  exact hcovers.overlay outputs

namespace Catalog

variable {c : Catalog} {known : List String} {steps : List Nat} {rest : List (List Nat)}

theorem Staged.take
    {layers : List (List Nat)} (hstaged : c.Staged known layers) (k : Nat) :
    c.Staged known (layers.take k) := by
  induction layers generalizing known k with
  | nil => simpa using hstaged
  | cons steps rest ih =>
      cases k with
      | zero => trivial
      | succ k => exact ⟨hstaged.1, ih hstaged.2 k⟩

theorem Staged.exists_arguments
    (hstaged : c.Staged known (steps :: rest)) {i : Nat} (hi : i ∈ steps)
    {results : Members Value} (hcovers : results.Covers known) :
    ∃ args, c.argumentsFrom i results = .ok args := by
  apply Catalog.exists_arguments
  intro name hname
  exact (hcovers name).mpr ((hstaged.1 i hi).2 name hname)

theorem Staged.name_notMem_known
    {layers : List (List Nat)} (hstaged : c.Staged known layers) {i : Nat}
    (hi : i ∈ layers.flatten) :
    c.name i ∉ known := by
  induction layers generalizing known with
  | nil => cases hi
  | cons steps rest ih =>
      rcases List.mem_append.mp hi with hi | hi
      · exact (hstaged.1 i hi).1
      · exact fun hknown => ih hstaged.2 hi (List.mem_append_left _ hknown)

/-- A result of the layer is no source of a step in it. -/
theorem Staged.name_notMem_sources
    (hstaged : c.Staged known (steps :: rest)) {i k : Nat} (hi : i ∈ steps)
    (hk : k ∈ steps) :
    c.name k ∉ c.sources i := by
  intro hsource
  exact (hstaged.1 k hk).1 ((hstaged.1 i hi).2 _ hsource)

/-- Layers are staged when each step finds its sources, and not its own name, among the
names of the layers before its own. -/
theorem staged_of_split
    {layers : List (List Nat)} (done : List Nat)
    (hsplit : ∀ before steps after, layers = before ++ steps :: after →
      ∀ i ∈ steps, c.name i ∉ (done ++ before.flatten).map c.name ∧
        ∀ name ∈ c.sources i, name ∈ (done ++ before.flatten).map c.name) :
    c.Staged (done.map c.name) layers := by
  induction layers generalizing done with
  | nil => trivial
  | cons steps rest ih =>
      constructor
      · simpa using hsplit [] steps rest rfl
      · rw [← List.map_append]
        apply ih
        intro before other after hrest
        have hother := hsplit (steps :: before) other after (by rw [hrest, List.cons_append])
        simpa [List.append_assoc] using hother

end Catalog

namespace OrderedGraph

variable {c : Catalog} {roots : List Nat} {g : OrderedGraph}

theorem Valid.staged (hvalid : g.Valid c roots) : c.Staged [] (g.layers c) := by
  refine Catalog.staged_of_split [] ?_
  intro before steps after hsplit i hi
  have hlayer : (g.layers c)[before.length]? = some steps := by
    simp [hsplit]
  obtain ⟨-, rfl⟩ := layers_getElem?_eq_some.mp hlayer
  obtain ⟨hin, hdepth⟩ := mem_layerAt.mp hi
  have hreachable := hvalid.mem_order.mp hin
  rw [List.nil_append]
  constructor
  · intro hname
    obtain ⟨j, hj, hsame⟩ := List.mem_map.mp hname
    obtain ⟨hjin, hlt⟩ := (mem_flatten_before hsplit).mp hj
    have heq := hvalid.distinct j i (hvalid.mem_order.mp hjin) hreachable hsame
    rw [heq, hdepth] at hlt
    exact lt_irrefl _ hlt
  · intro name hname
    obtain ⟨j, hslot, rfl⟩ := Catalog.mem_sources.mp hname
    have hheld : j ∈ c.handles i := Catalog.mem_handles.mpr (Or.inl hslot)
    have hlt := hvalid.depth_lt (j := j) ⟨hreachable, Or.inl hheld⟩
    apply List.mem_map_of_mem
    rw [mem_flatten_before hsplit, ← hdepth]
    exact ⟨hvalid.mem_order.mpr (.held hreachable hheld), hlt⟩

end OrderedGraph

theorem Plan.build_staged
    {c : Catalog} {name : String} {roots : List Nat} {p : Plan}
    (hplan : Plan.build c name roots = .ok p) :
    c.Staged [] p.layers := by
  rw [(Plan.build_eq_ok hplan).2]
  exact (Plan.build_valid hplan).staged

end WorkPlan
