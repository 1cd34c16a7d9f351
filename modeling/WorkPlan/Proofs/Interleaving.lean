import Mathlib.Tactic
import WorkPlan.Proofs.Agreement
import WorkPlan.Proofs.Traces

/-!
# All interleavings of a run side by side

Whatever happens next in a run side by side, the trace of the layer at work tells which of
its tasks have started and how they ended, and all layers before it are passed.  This is
kept by every move, also after an error, when tasks are called off and others go on.
-/

namespace WorkPlan

open Json

variable {σ : Type} {c : Catalog} {crew : Crew σ}

/-! ## The layer at work -/

namespace TaskState

/-- The work of the task has started. -/
def isStarted : TaskState → Bool
  | .running _ | .ended _ | .joined _ => true
  | .queued _ | .aborted => false

/-- How the work of the task ended. -/
def ending? : TaskState → Option Outcome
  | .ended outcome | .joined outcome => some outcome
  | .queued _ | .running _ | .aborted => none

/-- The task does not go back from what it has reached. -/
structure Extends (before after : TaskState) : Prop where
  started : before.isStarted → after.isStarted
  ending : ∀ outcome, before.ending? = some outcome → after.ending? = some outcome

theorem Extends.refl (task : TaskState) : task.Extends task := ⟨id, fun _ => id⟩

theorem extends_calledOff (task : TaskState) : task.Extends task.calledOff := by
  cases task with
  | queued args => exact ⟨nofun, nofun⟩
  | _ => exact .refl _

end TaskState

namespace LayerState

variable {steps : List Nat} {results : Members Value} {s next : LayerState σ} {move : Move}
  {trace : List Mark}

theorem extends_set
    {place : Nat} {before after : TaskState} (htask : s.tasks[place]? = some before)
    (hextends : before.Extends after) {other : Nat} {task : TaskState}
    (hother : s.tasks[other]? = some task) :
    ∃ task', (s.tasks.set place after)[other]? = some task' ∧ task.Extends task' := by
  by_cases hsame : place = other
  · subst hsame
    rw [htask] at hother
    cases hother
    exact ⟨after, List.getElem?_set_self (List.getElem?_eq_some_iff.mp htask).1, hextends⟩
  · exact ⟨task, by rw [List.getElem?_set_ne hsame, hother], .refl task⟩

/-- No task goes back in a move. -/
theorem Makes.extends
    (hmakes : s.Makes c crew steps results move next) {place : Nat} {task : TaskState}
    (htask : s.tasks[place]? = some task) :
    ∃ task', next.tasks[place]? = some task' ∧ task.Extends task' := by
  cases hmakes with
  | spawned =>
      have hin := (List.getElem?_eq_some_iff.mp htask).1
      exact ⟨task, by rw [List.getElem?_append_left hin, htask], .refl task⟩
  | missing => exact ⟨task, htask, .refl task⟩
  | started hstep hqueued => exact extends_set hqueued ⟨nofun, nofun⟩ htask
  | finished hstep hrunning => exact extends_set hrunning ⟨fun _ => rfl, nofun⟩ htask
  | @joined place i outcome hopen hall hstep hended =>
      have hextends : TaskState.Extends (.ended outcome) (.joined outcome) := ⟨id, fun _ => id⟩
      exact extends_set hended hextends htask
  | aborted =>
      refine ⟨task.calledOff, ?_, task.extends_calledOff⟩
      rw [List.getElem?_map, htask]
      rfl

/-- The trace of the layer tells which of its tasks have started and how they ended. -/
structure Recorded (steps : List Nat) (trace : List Mark) (s : LayerState σ) : Prop extends
    Within steps trace where
  started : ∀ (place i : Nat), steps[place]? = some i → .started i ∈ trace →
    ∃ task, s.tasks[place]? = some task ∧ task.isStarted
  returned : ∀ (place i : Nat) (task : TaskState) (v : Value), steps[place]? = some i →
    s.tasks[place]? = some task → task.ending? = some (.returned v) → .returned i ∈ trace
  broken : ∀ i ∈ breaks trace, ∃ (place : Nat) (task : TaskState) (outcome : Outcome),
    steps[place]? = some i ∧ s.tasks[place]? = some task ∧ task.ending? = some outcome ∧
      ∀ v, outcome ≠ .returned v

theorem recorded_empty (steps : List Nat) (j : Journal σ) :
    Recorded steps [] { journal := j } := by
  refine ⟨within_nil steps, ?_, ?_, ?_⟩
  · simp
  · simp
  · simp [breaks]

/-- Endings come from before, except for the task whose work ends. -/
theorem Makes.ending_before
    (hmakes : s.Makes c crew steps results move next) (hmove : ∀ place, move ≠ .finish place)
    {place : Nat} {task : TaskState} {outcome : Outcome}
    (htask : next.tasks[place]? = some task) (hending : task.ending? = some outcome) :
    ∃ task', s.tasks[place]? = some task' ∧ task'.ending? = some outcome := by
  cases hmakes with
  | spawned =>
      rcases getElem?_concat_cases htask with ⟨-, rfl⟩ | hbefore
      · cases hending
      · exact ⟨task, hbefore, hending⟩
  | missing => exact ⟨task, htask, hending⟩
  | started =>
      rcases getElem?_set_cases htask with ⟨-, rfl⟩ | hbefore
      · cases hending
      · exact ⟨task, hbefore, hending⟩
  | finished => exact absurd rfl (hmove _)
  | joined hopen hall hstep hended =>
      rcases getElem?_set_cases htask with ⟨rfl, rfl⟩ | hbefore
      · exact ⟨_, hended, hending⟩
      · exact ⟨task, hbefore, hending⟩
  | aborted =>
      rw [List.getElem?_map, Option.map_eq_some_iff] at htask
      obtain ⟨before, hbefore, rfl⟩ := htask
      cases before with
      | queued args => cases hending
      | _ => exact ⟨_, hbefore, hending⟩

/-- The trace goes on with marks for what the move has started and ended. -/
theorem Recorded.append
    (hrecorded : s.Recorded steps trace) (hmakes : s.Makes c crew steps results move next)
    {added : List Mark} (hwithin : Within steps (trace ++ added))
    (hstarted : ∀ (place i : Nat), steps[place]? = some i → .started i ∈ added →
      ∃ task, next.tasks[place]? = some task ∧ task.isStarted)
    (hreturned : ∀ (place i : Nat) (task : TaskState) (v : Value), steps[place]? = some i →
      next.tasks[place]? = some task → task.ending? = some (.returned v) →
        .returned i ∈ trace ++ added)
    (hbroken : ∀ i ∈ breaks added, ∃ (place : Nat) (task : TaskState) (outcome : Outcome),
      steps[place]? = some i ∧ next.tasks[place]? = some task ∧
        task.ending? = some outcome ∧ ∀ v, outcome ≠ .returned v) :
    next.Recorded steps (trace ++ added) := by
  refine ⟨hwithin, ?_, hreturned, ?_⟩
  · intro place i hstep hmark
    rcases List.mem_append.mp hmark with hmark | hmark
    · obtain ⟨task, htask, hbefore⟩ := hrecorded.started place i hstep hmark
      obtain ⟨task', htask', hextends⟩ := hmakes.extends htask
      exact ⟨task', htask', hextends.started hbefore⟩
    · exact hstarted place i hstep hmark
  · intro i hi
    rw [breaks_append, List.mem_append] at hi
    rcases hi with hi | hi
    · obtain ⟨place, task, outcome, hstep, htask, hending, hvalue⟩ := hrecorded.broken i hi
      obtain ⟨task', htask', hextends⟩ := hmakes.extends htask
      exact ⟨place, task', outcome, hstep, htask', hextends.ending outcome hending, hvalue⟩
    · exact hbroken i hi

/-- A move that leaves no mark. -/
theorem Recorded.quiet
    (hrecorded : s.Recorded steps trace) (hmakes : s.Makes c crew steps results move next)
    (hmove : ∀ place, move ≠ .finish place) :
    next.Recorded steps (trace ++ []) := by
  refine hrecorded.append hmakes ?_ ?_ ?_ ?_
  · rw [List.append_nil]
    exact hrecorded.toWithin
  · simp
  · intro place i task v hstep htask hending
    obtain ⟨task', htask', hending'⟩ := hmakes.ending_before hmove htask hending
    rw [List.append_nil]
    exact hrecorded.returned place i task' v hstep htask' hending'
  · simp [breaks]

theorem place_eq_of_step
    (hnodup : steps.Nodup) {place other i : Nat} (hstep : steps[place]? = some i)
    (hother : steps[other]? = some i) :
    other = place :=
  (List.getElem?_inj (List.getElem?_eq_some_iff.mp hother).1 hnodup).mp
    (hother.trans hstep.symm)

/-- Every move keeps the record, whatever the work does. -/
theorem Recorded.makes
    (hrecorded : s.Recorded steps trace) (hnodup : steps.Nodup)
    (hmakes : s.Makes c crew steps results move next) :
    ∃ added, next.journal.trace = s.journal.trace ++ added ∧
      next.Recorded steps (trace ++ added) := by
  have hmakes' := hmakes
  cases hmakes with
  | spawned => exact ⟨[], by simp, hrecorded.quiet hmakes' nofun⟩
  | missing => exact ⟨[], by simp, hrecorded.quiet hmakes' nofun⟩
  | joined => exact ⟨[], by simp, hrecorded.quiet hmakes' nofun⟩
  | aborted => exact ⟨[], by simp, hrecorded.quiet hmakes' nofun⟩
  | @started place i args hstep htask =>
      have hnew : .started i ∉ trace := by
        intro hmark
        obtain ⟨task, htask', hbefore⟩ := hrecorded.started place i hstep hmark
        rw [htask] at htask'
        cases htask'
        cases hbefore
      refine ⟨[.started i], rfl, hrecorded.append hmakes' ?_ ?_ ?_ ?_⟩
      · exact hrecorded.toWithin.add_started (List.mem_of_getElem? hstep) hnew
      · intro other k hother hmark
        obtain rfl : k = i := Mark.started.inj (List.mem_singleton.mp hmark)
        obtain rfl := place_eq_of_step hnodup hstep hother
        exact ⟨_, List.getElem?_set_self (List.getElem?_eq_some_iff.mp htask).1, rfl⟩
      · intro other k task v hother htask' hending
        obtain ⟨before, hbefore, hending'⟩ := hmakes'.ending_before nofun htask' hending
        exact List.mem_append_left _
          (hrecorded.returned other k before v hother hbefore hending')
      · simp [breaks, Mark.broken?]
  | @finished place i outcome hstep htask =>
      have hnow := List.getElem?_set_self (a := TaskState.ended outcome)
        (List.getElem?_eq_some_iff.mp htask).1
      refine ⟨[.ofOutcome i outcome], ?_, hrecorded.append hmakes' ?_ ?_ ?_ ?_⟩
      · cases outcome <;> rfl
      · exact hrecorded.toWithin.add_ended (List.mem_of_getElem? hstep) outcome
      · intro other k hother hmark
        cases outcome <;> simp [Mark.ofOutcome] at hmark
      · intro other k task v hother htask' hending
        rcases getElem?_set_cases htask' with ⟨rfl, rfl⟩ | hbefore
        · rw [hstep] at hother
          cases hother
          cases hending
          exact List.mem_append_right _ (List.mem_singleton_self _)
        · exact List.mem_append_left _
            (hrecorded.returned other k task v hother hbefore hending)
      · intro k hk
        have hends : k = i ∧ ∀ v, outcome ≠ .returned v := by
          cases outcome <;> simp_all [breaks, Mark.ofOutcome, Mark.broken?]
        obtain ⟨rfl, hvalue⟩ := hends
        exact ⟨place, _, outcome, hstep, hnow, rfl, hvalue⟩

/-- A layer that is done is passed. -/
theorem Recorded.passed
    (hrecorded : s.Recorded steps trace) (hsettled : s.Settled) (hdone : s.isDone steps) :
    Passed steps trace := by
  refine ⟨hrecorded.toWithin, ?_, ?_⟩
  · intro i hi
    obtain ⟨place, hstep⟩ := List.getElem?_of_mem hi
    obtain ⟨v, htask⟩ := hsettled.values hdone (List.getElem?_eq_some_iff.mp hstep).1
    exact hrecorded.returned place i _ v hstep htask rfl
  · rw [List.eq_nil_iff_forall_not_mem]
    intro i hi
    obtain ⟨place, task, outcome, hstep, htask, hending, hvalue⟩ := hrecorded.broken i hi
    obtain ⟨v, hjoined⟩ := hsettled.values hdone (List.getElem?_eq_some_iff.mp hstep).1
    rw [hjoined] at htask
    cases htask
    cases hending
    exact hvalue v rfl

end LayerState

/-! ## The run -/

namespace RunState

variable {layers : List (List Nat)} {state : σ} {s : RunState σ}

/-- The layer at work, or no steps when all are behind. -/
def steps (s : RunState σ) : List Nat := s.left.headD []

/-- The layers behind are passed, and the rest of the trace is that of the layer at work. -/
structure OnTrack (layers : List (List Nat)) (s : RunState σ) (behind : List (List Nat))
    (traces : List (List Mark)) (current : List Mark) : Prop where
  layers_eq : layers = behind ++ s.left
  trace_eq : s.layer.journal.trace = traces.flatten ++ current
  passed : List.Forall₂ Passed behind traces
  settled : s.layer.Settled
  recorded : s.layer.Recorded s.steps current

theorem OnTrack.staggered
    {behind : List (List Nat)} {traces : List (List Mark)} {current : List Mark}
    (htrack : s.OnTrack layers behind traces current) :
    Staggered layers s.layer.journal.trace := by
  rw [htrack.layers_eq, htrack.trace_eq]
  refine Staggered.after htrack.passed ?_
  have hwithin := htrack.recorded.toWithin
  cases hleft : s.left with
  | nil =>
      rw [steps, hleft] at hwithin
      rw [hwithin.eq_nil]
      exact .finished
  | cons own rest =>
      rw [steps, hleft] at hwithin
      exact .stopped hwithin

theorem onTrack_enter
    {behind : List (List Nat)} {traces : List (List Mark)} {left : List (List Nat)}
    {j : Journal σ} (hlayers : layers = behind ++ left) (htrace : j.trace = traces.flatten)
    (hpassed : List.Forall₂ Passed behind traces) (outputs : List (List (String × Value)))
    (results : Members Value) :
    (enter outputs results left j).OnTrack layers behind traces [] := by
  refine ⟨hlayers, ?_, hpassed, LayerState.settled_empty _, LayerState.recorded_empty _ _⟩
  rw [List.append_nil, ← htrace]
  cases left <;> rfl

theorem steps_eq {own : List Nat} {rest : List (List Nat)} (hleft : s.left = own :: rest) :
    s.steps = own := by
  rw [steps, hleft]
  rfl

/-- A move adds to the trace of the layer at work. -/
theorem OnTrack.moved
    {behind : List (List Nat)} {traces : List (List Mark)} {current : List Mark}
    {next : RunState σ} {move : Move} (htrack : s.OnTrack layers behind traces current)
    (hnodup : layers.flatten.Nodup) (hmove : s.move? c crew move = some next) :
    ∃ added, next.OnTrack layers behind traces (current ++ added) := by
  unfold move? at hmove
  split at hmove
  next => cases hmove
  next own rest hleft =>
    obtain ⟨layer, hlayer, rfl⟩ := Option.map_eq_some_iff.mp hmove
    have hmakes := LayerState.makes_of_move? hlayer
    have hown : own.Nodup := by
      rw [htrack.layers_eq, hleft] at hnodup
      exact (List.nodup_flatten.mp hnodup).1 own (by simp)
    obtain ⟨added, hadded, hrecorded⟩ :=
      (steps_eq hleft ▸ htrack.recorded).makes hown hmakes
    refine ⟨added, htrack.layers_eq, ?_, htrack.passed, htrack.settled.makes hmakes, ?_⟩
    · rw [hadded, htrack.trace_eq, List.append_assoc]
    · exact steps_eq hleft ▸ hrecorded

/-- The layer at work is passed when the next one is entered. -/
theorem OnTrack.advanced
    {behind : List (List Nat)} {traces : List (List Mark)} {current : List Mark}
    {next : RunState σ} (htrack : s.OnTrack layers behind traces current)
    (hadvance : s.advance? c = some next) :
    next.OnTrack layers (behind ++ [s.steps]) (traces ++ [current]) [] := by
  unfold advance? at hadvance
  split at hadvance
  next => cases hadvance
  next own rest hleft =>
    split at hadvance
    next hdone =>
      cases hadvance
      have hpassed : Passed own current :=
        (steps_eq hleft ▸ htrack.recorded).passed htrack.settled hdone
      rw [steps_eq hleft]
      apply onTrack_enter
      · rw [htrack.layers_eq, hleft, List.append_assoc]
        rfl
      · rw [htrack.trace_eq]
        simp
      · exact List.rel_append htrack.passed (.cons hpassed .nil)
    next => cases hadvance

theorem exists_onTrack
    (hreached : Reachable c crew layers state s) (hnodup : layers.flatten.Nodup) :
    ∃ behind traces current, s.OnTrack layers behind traces current := by
  induction hreached with
  | entered => exact ⟨[], [], [], onTrack_enter rfl rfl .nil [] []⟩
  | moved _ hmove ih =>
      obtain ⟨behind, traces, current, htrack⟩ := ih
      obtain ⟨added, hmoved⟩ := htrack.moved hnodup hmove
      exact ⟨behind, traces, current ++ added, hmoved⟩
  | advanced _ hadvance ih =>
      obtain ⟨behind, traces, current, htrack⟩ := ih
      exact ⟨_, _, [], htrack.advanced hadvance⟩

theorem reachable_staggered
    (hreached : Reachable c crew layers state s) (hnodup : layers.flatten.Nodup) :
    Staggered layers s.layer.journal.trace := by
  obtain ⟨behind, traces, current, htrack⟩ := exists_onTrack hreached hnodup
  exact htrack.staggered

/-- When the run has results, all layers are passed. -/
theorem reachable_passed
    (hreached : Reachable c crew layers state s) (hnodup : layers.flatten.Nodup)
    {r : RunResult} (hresult : s.result? = some (.ok r)) :
    Passed layers.flatten s.layer.journal.trace := by
  obtain ⟨behind, traces, current, htrack⟩ := exists_onTrack hreached hnodup
  have hleft : s.left = [] := by
    unfold result? at hresult
    split at hresult
    · cases hresult
    · assumption
    · cases hresult
  have hlayers := htrack.layers_eq
  have hwithin := htrack.recorded.toWithin
  rw [hleft, List.append_nil] at hlayers
  rw [steps, hleft] at hwithin
  rw [htrack.trace_eq, hwithin.eq_nil, List.append_nil, hlayers]
  exact passed_flatten htrack.passed (hlayers ▸ hnodup)

/-! ## Scheduled runs -/

theorem reachable_follow
    (hreached : Reachable c crew layers state s) {own : List Nat} {rest : List (List Nat)}
    (hleft : s.left = own :: rest) (moves : List Move) :
    Reachable c crew layers state
      { s with layer := s.layer.follow c crew own s.results moves } := by
  induction moves generalizing s with
  | nil => exact hreached
  | cons move moves ih =>
      cases hmove : s.layer.move? c crew own s.results move with
      | none =>
          simp only [LayerState.follow, hmove, Option.getD_none]
          exact ih hreached hleft
      | some next =>
          have hnext : s.move? c crew move = some { s with layer := next } := by
            simp [move?, hleft, hmove]
          have hgoesOn := ih (hreached.moved hnext) hleft
          simpa [LayerState.follow, hmove] using hgoesOn

/-- A run that follows a schedule ends in a state that a run of its layers may come to. -/
theorem exists_reachable_end
    {all left : List (List Nat)} {schedule : Schedule}
    {outputs : List (List (String × Value))} {results : Members Value} {j : Journal σ}
    (hreached : Reachable c crew all state (enter outputs results left j))
    (hschedule : schedule.CompletesFrom outputs.length left) :
    ∃ s, Reachable c crew all state s ∧
      s.layer.journal =
        (Run.layersTogetherFrom c crew schedule outputs.length left results j).journal ∧
      s.result? = some
        ((Run.layersTogetherFrom c crew schedule outputs.length left results j).result.map
          fun more => { layers := outputs ++ more }) := by
  induction left generalizing outputs results j with
  | nil => exact ⟨_, hreached, rfl, by simp [enter, result?, Run.layersTogetherFrom, Except.map]⟩
  | cons own rest ih =>
      let j' := j.log (.layerEntered outputs.length own.length)
      let moves := schedule outputs.length own
      let last := LayerState.follow c crew own results moves { journal := j' }
      have hlast : Reachable c crew all state
          { enter outputs results (own :: rest) j with layer := last } :=
        reachable_follow hreached rfl moves
      have hjournal : (Run.layerTogether c crew moves own results j').journal = last.journal :=
        Run.layerTogether_journal c crew moves own results j'
      cases herror : last.error? with
      | some e =>
          have hresult : (Run.layerTogether c crew moves own results j').result = .error e := by
            rw [Run.layerTogether_result_eq, herror]
          rw [Run.layersTogetherFrom_cons_error hresult, hjournal]
          refine ⟨_, hlast, rfl, ?_⟩
          simp [result?, herror, Except.map]
      | none =>
          have hresult : (Run.layerTogether c crew moves own results j').result =
              .ok (last.outputs c own) := by
            rw [Run.layerTogether_result_eq, herror]
          have hdone : last.isDone own :=
            LayerState.isDone_of_complete hschedule.head c crew results j' herror
          have hadvance : advance? c { enter outputs results (own :: rest) j with layer := last } =
              some (enter (outputs ++ [last.outputs c own])
                (results.overlay (last.outputs c own)) rest last.journal) := by
            simp [advance?, enter, hdone]
          have hlength : (outputs ++ [last.outputs c own]).length = outputs.length + 1 := by simp
          obtain ⟨s, hs, htrace, hmore⟩ := ih (hlast.advanced hadvance)
            (hlength ▸ hschedule.tail)
          rw [Run.layersTogetherFrom_cons_ok hresult, hjournal]
          refine ⟨s, hs, by rw [htrace, hlength], ?_⟩
          rw [hmore, hlength]
          cases (Run.layersTogetherFrom c crew schedule (outputs.length + 1) rest
            (results.overlay (last.outputs c own)) last.journal).result <;>
            simp [Except.map]

end RunState

end WorkPlan
