import Mathlib.Tactic
import WorkPlan.Plan
import WorkPlan.Proofs.HandedOn
import WorkPlan.Proofs.SequentialRun

/-!
# Runs that hand on their outputs

A deployed plan has no table of results.  Each step finds its arguments in the event that
the layer before it produced, and hands on what it received with its own result.  Where
the first event carries no output under the name of a step, such a run calls the same work
with the same arguments as a run that keeps a table, and in the end everything is handed
on.
-/

namespace WorkPlan

open Json

variable {σ : Type}

/-- The crew that also notes for which steps it is called, with which arguments, and how
their work ends. -/
def Crew.recorded (crew : Crew σ) : Crew (σ × List (Nat × List Value × Outcome)) :=
  fun i args state =>
    let (outcome, next) := crew i args state.1
    (outcome, (next, state.2 ++ [(i, args, outcome)]))

def Journal.withoutEvents (j : Journal σ) : Journal σ := { j with events := [] }

namespace Run

/-! ## The run -/

def relayStep (c : Catalog) (crew : Crew σ) (event : Value) (i : Nat) (j : Journal σ) :
    Run σ Value :=
  match c.argumentsFromPayload i (.object (Handoff.combine event)) with
  | .error e => ⟨.error e, j⟩
  | .ok args =>
    let (outcome, j) := j.call crew i args
    let j := j.mark (.ofOutcome i outcome)
    match outcome with
    | .returned v => ⟨.ok v, j⟩
    | .failed f => ⟨.error (.stepFailed (c.name i) f), j⟩
    | .crashed message => ⟨.error (.crashed (c.name i) message), j⟩

/-- Runs the steps of a layer, all of them on the same event. -/
def relayLayer (c : Catalog) (crew : Crew σ) (event : Value) :
    List Nat → Journal σ → Run σ (List (String × Value))
  | [], j => ⟨.ok [], j⟩
  | i :: rest, j =>
    match relayStep c crew event i j with
    | ⟨.error e, j⟩ => ⟨.error e, j⟩
    | ⟨.ok v, j⟩ =>
      match relayLayer c crew event rest j with
      | ⟨.error e, j⟩ => ⟨.error e, j⟩
      | ⟨.ok outputs, j⟩ => ⟨.ok ((c.name i, v) :: outputs), j⟩

/-- Runs layers, each on the event that the one before it hands on; gives back the results
of all layers and the last event. -/
def relay (c : Catalog) (crew : Crew σ) :
    List (List Nat) → Value → Journal σ → Run σ (List (List (String × Value)) × Value)
  | [], event, j => ⟨.ok ([], event), j⟩
  | steps :: rest, event, j =>
    match relayLayer c crew event steps j with
    | ⟨.error e, j⟩ => ⟨.error e, j⟩
    | ⟨.ok outputs, j⟩ =>
      match relay c crew rest (Handoff.next event outputs) j with
      | ⟨.error e, j⟩ => ⟨.error e, j⟩
      | ⟨.ok (layers, final), j⟩ => ⟨.ok (outputs :: layers, final), j⟩

variable {c : Catalog} {crew : Crew σ}

/-! ## One layer -/

theorem relayStep_eq
    {event : Value} {i : Nat} {results : Members Value}
    (hsame : ∀ name ∈ c.sources i, (Handoff.combine event).get? name = results.get? name)
    (j : Journal σ) :
    relayStep c crew event i j.withoutEvents =
      ⟨(step c crew i results j).result, (step c crew i results j).journal.withoutEvents⟩ := by
  have hargs : c.argumentsFromPayload i (.object (Handoff.combine event)) =
      c.argumentsFrom i results :=
    Catalog.arguments_congr hsame
  unfold relayStep step
  rw [hargs]
  cases c.argumentsFrom i results with
  | error e => rfl
  | ok args =>
      simp only [Journal.call, Journal.withoutEvents, Journal.log]
      cases (crew i args j.state).1 <;> rfl

theorem relayLayer_eq
    {event : Value} {steps : List Nat} {results : Members Value}
    (hapart : ∀ i ∈ steps, ∀ k ∈ steps, c.name k ∉ c.sources i)
    (hsame : ∀ i ∈ steps, ∀ name ∈ c.sources i,
      (Handoff.combine event).get? name = results.get? name)
    (j : Journal σ) :
    relayLayer c crew event steps j.withoutEvents =
      ⟨(layer c crew steps results j).result.map Prod.snd,
        (layer c crew steps results j).journal.withoutEvents⟩ := by
  induction steps generalizing results j with
  | nil => rfl
  | cons i steps ih =>
      rw [relayLayer, relayStep_eq (hsame i (by simp))]
      cases hstep : (step c crew i results j).result with
      | error e =>
          rw [layer_cons_error hstep]
          rfl
      | ok v =>
          have hlater : ∀ k ∈ steps, ∀ name ∈ c.sources k,
              (Handoff.combine event).get? name =
                (results.insert (c.name i) v).get? name := by
            intro k hk name hname
            have hne : name ≠ c.name i := by
              rintro rfl
              exact hapart k (by simp [hk]) i (by simp) hname
            rw [Members.get?_insert, if_neg hne]
            exact hsame k (by simp [hk]) name hname
          have hrest := ih (fun k hk l hl => hapart k (by simp [hk]) l (by simp [hl]))
            hlater (step c crew i results j).journal
          rw [layer_cons_ok hstep]
          simp only [hrest]
          rcases layer c crew steps (results.insert (c.name i) v)
            (step c crew i results j).journal with ⟨_ | ⟨_, _⟩, _⟩ <;> rfl

/-! ## All layers -/

/-- The event carries the known results, and none under the name of a later step. -/
structure Carries
    (c : Catalog) (event : Value) (results : Members Value) (known : List String)
    (later : List (List Nat)) : Prop where
  same : ∀ name ∈ known, (Handoff.combine event).get? name = results.get? name
  fresh : ∀ i ∈ later.flatten, (Handoff.combine event).get? (c.name i) = none

section Carries

variable {event : Value} {results : Members Value} {known : List String} {steps : List Nat}
  {rest : List (List Nat)} {outputs : List (String × Value)}

theorem Carries.fresh_outputs
    (hcarries : Carries c event results known (steps :: rest))
    (hnames : outputs.map Prod.fst = steps.map c.name) :
    ∀ entry ∈ outputs, (Handoff.combine event).get? entry.1 = none := by
  intro entry hentry
  have hmem : entry.1 ∈ steps.map c.name := hnames ▸ List.mem_map_of_mem hentry
  obtain ⟨i, hi, hname⟩ := List.mem_map.mp hmem
  rw [← hname]
  exact hcarries.fresh i (List.mem_append_left _ hi)

theorem Carries.next
    (hcarries : Carries c event results known (steps :: rest))
    (hstaged : c.Staged known (steps :: rest)) (hsteps : steps ≠ [])
    (hnames : outputs.map Prod.fst = steps.map c.name) :
    Handoff.combine (Handoff.next event outputs) = (Handoff.combine event).overlay outputs ∧
      Carries c (Handoff.next event outputs) (results.overlay outputs)
        (known ++ steps.map c.name) rest := by
  have houtputs : outputs ≠ [] := by
    rintro rfl
    exact hsteps (List.map_eq_nil_iff.mp hnames.symm)
  have hnext := Handoff.combine_next houtputs (hcarries.fresh_outputs hnames)
  refine ⟨hnext, ?_, ?_⟩
  · intro name hname
    rw [hnext, Members.get?_overlay, Members.get?_overlay]
    rcases List.mem_append.mp hname with hname | hname
    · rw [hcarries.same name hname]
    · -- The layer has a result of this name, so it does not count what lies under it.
      rw [← hnames, ← List.mem_reverse, ← List.map_reverse, ← Members.get?_isSome_iff] at hname
      obtain ⟨v, hv⟩ := Option.isSome_iff_exists.mp hname
      rw [hv, Option.some_or, Option.some_or]
  · intro i hi
    have hlater : c.name i ∉ known ++ steps.map c.name := hstaged.2.name_notMem_known hi
    have hother : c.name i ∉ outputs.map Prod.fst := by
      rw [hnames]
      exact fun hmem => hlater (List.mem_append_right _ hmem)
    rw [hnext, Members.get?_overlay_of_notMem hother]
    exact hcarries.fresh i (List.mem_append_right _ hi)

end Carries

theorem relay_cons_error
    {event : Value} {steps : List Nat} {j : Journal σ} {e : RunError}
    (hlayer : (relayLayer c crew event steps j).result = .error e) (rest : List (List Nat)) :
    relay c crew (steps :: rest) event j =
      ⟨.error e, (relayLayer c crew event steps j).journal⟩ := by
  unfold relay
  rcases hrun : relayLayer c crew event steps j with ⟨result, called⟩
  rw [hrun] at hlayer
  cases hlayer
  rfl

theorem relay_cons_ok
    {event : Value} {steps : List Nat} {j : Journal σ} {outputs : List (String × Value)}
    (hlayer : (relayLayer c crew event steps j).result = .ok outputs)
    (rest : List (List Nat)) :
    relay c crew (steps :: rest) event j =
      ⟨(relay c crew rest (Handoff.next event outputs)
          (relayLayer c crew event steps j).journal).result.map
            fun ended => (outputs :: ended.1, ended.2),
        (relay c crew rest (Handoff.next event outputs)
          (relayLayer c crew event steps j).journal).journal⟩ := by
  rw [relay]
  rcases hrun : relayLayer c crew event steps j with ⟨result, called⟩
  rw [hrun] at hlayer
  cases hlayer
  simp only
  rcases relay c crew rest (Handoff.next event outputs) called with ⟨_ | ⟨_, _⟩, _⟩ <;> rfl

/-- A relay that starts with the known results ends as a run on them, and hands on the
results of all layers. -/
theorem relay_eq
    {layers : List (List Nat)} {known : List String} {results : Members Value}
    {event : Value} (hstaged : c.Staged known layers) (hlayers : ∀ steps ∈ layers, steps ≠ [])
    (hcarries : Carries c event results known layers) (crew : Crew σ) (index : Nat)
    (j : Journal σ) :
    (relay c crew layers event j.withoutEvents).journal =
      (layersFrom c crew index layers results j).journal.withoutEvents ∧
    ((∃ e, (layersFrom c crew index layers results j).result = .error e ∧
        (relay c crew layers event j.withoutEvents).result = .error e) ∨
      ∃ outputs final, (layersFrom c crew index layers results j).result = .ok outputs ∧
        (relay c crew layers event j.withoutEvents).result = .ok (outputs, final) ∧
        Handoff.combine final = (Handoff.combine event).overlay outputs.flatten) := by
  induction layers generalizing known results event index j with
  | nil => exact ⟨rfl, Or.inr ⟨[], event, rfl, rfl, rfl⟩⟩
  | cons steps rest ih =>
      have hrelay : relayLayer c crew event steps j.withoutEvents =
          ⟨(layer c crew steps results
              (j.log (.layerEntered index steps.length))).result.map Prod.snd,
            (layer c crew steps results
              (j.log (.layerEntered index steps.length))).journal.withoutEvents⟩ :=
        relayLayer_eq (fun _ hi _ hk => hstaged.name_notMem_sources hi hk)
          (fun i hi name hname => hcarries.same name ((hstaged.1 i hi).2 name hname))
          (j.log (.layerEntered index steps.length))
      cases hlayer : (layer c crew steps results
          (j.log (.layerEntered index steps.length))).result with
      | error e =>
          rw [hlayer] at hrelay
          rw [layersFrom_cons_error hlayer, relay_cons_error (by rw [hrelay]; rfl), hrelay]
          exact ⟨rfl, Or.inl ⟨e, rfl, rfl⟩⟩
      | ok ended =>
          obtain ⟨results', outputs⟩ := ended
          obtain ⟨rfl, hnames⟩ := layer_ok hlayer
          obtain ⟨hnext, hcarries'⟩ := hcarries.next hstaged (hlayers steps (by simp)) hnames
          obtain ⟨hjournal, hends⟩ := ih hstaged.2
            (fun other hother => hlayers other (by simp [hother])) hcarries' (index + 1)
            (layer c crew steps results (j.log (.layerEntered index steps.length))).journal
          rw [hlayer] at hrelay
          rw [layersFrom_cons_ok hlayer, relay_cons_ok (by rw [hrelay]; rfl), hrelay]
          refine ⟨hjournal, ?_⟩
          rcases hends with ⟨e, herror, hstopped⟩ | ⟨others, final, hok, hpassed, hfinal⟩
          · exact Or.inl ⟨e, by rw [herror]; rfl, by rw [hstopped]; rfl⟩
          · refine Or.inr ⟨outputs :: others, final, by rw [hok]; rfl, by rw [hpassed]; rfl, ?_⟩
            rw [hfinal, hnext, List.flatten_cons, Members.overlay_append]

end Run

namespace Plan

variable {c : Catalog} {p : Plan}

/-- Runs the plan without a table of results, starting with an event; gives back the results
of all layers and the last event. -/
def relay (c : Catalog) (p : Plan) (crew : Crew σ) (event : Value) (s : σ) :
    Run σ (List (List (String × Value)) × Value) :=
  .relay c crew p.layers event { state := s }

theorem relay_spec
    {name : String} {roots : List Nat} (hplan : Plan.build c name roots = .ok p)
    {event : Value} (hfresh : ∀ i ∈ p.steps, (Handoff.combine event).get? (c.name i) = none)
    (crew : Crew σ) (s : σ) :
    (p.relay c crew event s).journal.state = (p.run c crew s).journal.state ∧
    ((∃ e, (p.run c crew s).result = .error e ∧
        (p.relay c crew event s).result = .error e) ∨
      ∃ r final, (p.run c crew s).result = .ok r ∧
        (p.relay c crew event s).result = .ok (r.layers, final) ∧
        Handoff.combine final = (Handoff.combine event).overlay r.outputs) := by
  have hcarries : Run.Carries c event [] [] p.layers := ⟨by simp, hfresh⟩
  obtain ⟨hjournal, hends⟩ := Run.relay_eq (Plan.build_staged hplan)
    (fun _ hsteps => Plan.layers_ne_nil hplan hsteps) hcarries crew 0 { state := s }
  have hstate := congrArg Journal.state hjournal
  rw [run_state, run_result]
  refine ⟨hstate, ?_⟩
  rcases hends with ⟨e, herror, hstopped⟩ | ⟨outputs, final, hok, hpassed, hfinal⟩
  · exact Or.inl ⟨e, by rw [herror]; rfl, hstopped⟩
  · refine Or.inr ⟨{ layers := outputs }, final, by rw [hok]; rfl, hpassed, ?_⟩
    rw [hfinal]
    exact (Members.overlay_ofEntries (Handoff.combine_sorted event) outputs.flatten).symm

/-- Where the first event has no output under the name of a step, a relay of an accepted
plan ends as a run of it, whatever the work does.  It calls the same work with the same
arguments and the same ends, no step misses a result, and all results are handed on. -/
theorem relay_refines_run
    {name : String} {roots : List Nat} (hplan : Plan.build c name roots = .ok p)
    {event : Value} (hfresh : ∀ i ∈ p.steps, (Handoff.combine event).get? (c.name i) = none)
    (crew : Crew σ) (s : σ) :
    (∀ e, (p.relay c crew event s).result = .error e ↔ (p.run c crew s).result = .error e) ∧
    (∀ r, (p.run c crew s).result = .ok r ↔
      ∃ final, (p.relay c crew event s).result = .ok (r.layers, final) ∧
        Handoff.combine final = (Handoff.combine event).overlay r.outputs) ∧
    (∀ step dependency,
      (p.relay c crew event s).result ≠ .error (.missingResult step dependency)) ∧
    (p.relay c crew event s).journal.state = (p.run c crew s).journal.state ∧
    (p.relay c crew.recorded event (s, [])).journal.state =
      (p.run c crew.recorded (s, [])).journal.state := by
  obtain ⟨hstate, hends⟩ := relay_spec hplan hfresh crew s
  refine ⟨?_, ?_, ?_, hstate, (relay_spec hplan hfresh crew.recorded (s, [])).1⟩
  · rcases hends with ⟨e, herror, hstopped⟩ | ⟨r, final, hok, hpassed, -⟩
    · rw [herror, hstopped]
      simp
    · rw [hok, hpassed]
      simp
  · rcases hends with ⟨e, herror, hstopped⟩ | ⟨r, final, hok, hpassed, hfinal⟩
    · rw [herror, hstopped]
      simp
    · intro r'
      rw [hok, hpassed]
      constructor
      · intro hr
        cases hr
        exact ⟨final, rfl, hfinal⟩
      · rintro ⟨_, hr, -⟩
        cases r
        cases r'
        cases hr
        rfl
  · intro step dependency hmissing
    rcases hends with ⟨e, herror, hstopped⟩ | ⟨r, final, -, hpassed, -⟩
    · rw [hstopped] at hmissing
      cases hmissing
      rw [run_result, Except.map_eq_error_iff] at herror
      exact Run.layersFrom_ne_missingResult (Plan.build_staged hplan) Members.covers_nil 0 _
        step dependency herror
    · rw [hpassed] at hmissing
      cases hmissing

/-- In the diamond every step counts its arguments, and the first event is empty. -/
theorem relay_refines_run_diamond :
    build diamond "diamond" [3] = .ok diamondPlan ∧
    (∀ i ∈ diamondPlan.steps,
      (Handoff.combine (.object [])).get? (diamond.name i) = none) ∧
    ∃ final,
      (diamondPlan.relay diamond (.pure fun _ args => .ok (.nat args.length))
        (.object []) ()).result =
          .ok ([[("load", .nat 0)], [("left", .nat 2), ("right", .nat 2)],
            [("join", .nat 2)]], final) ∧
      Handoff.combine final =
        [("join", .nat 2), ("left", .nat 2), ("load", .nat 0), ("right", .nat 2)] := by
  have hfresh : ∀ i ∈ diamondPlan.steps,
      (Handoff.combine (.object [])).get? (diamond.name i) = none :=
    fun _ _ => rfl
  refine ⟨build_diamond, hfresh, ?_⟩
  exact ((relay_refines_run build_diamond hfresh
    (.pure fun _ args => .ok (.nat args.length)) ()).2.1
      { layers := [[("load", .nat 0)], [("left", .nat 2), ("right", .nat 2)],
        [("join", .nat 2)]] }).mp rfl

end Plan

end WorkPlan
