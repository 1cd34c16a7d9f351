import Mathlib.Tactic
import WorkPlan.Proofs.Completions
import WorkPlan.Proofs.SequentialRun

/-!
# What a move does

Each kind of move changes one thing in the state of a layer: it adds a task, takes one a
step further, or calls some off.  What every move preserves is preserved by all moves of a
layer.  As long as there is no error, the tasks are in the phases that the moves alone tell.
-/

namespace WorkPlan

open Json

variable {σ : Type}

/-! ## Tasks by place -/

section Lists

variable {α : Type} {tasks : List α} {place other : Nat} {task new : α}

theorem getElem?_set_cases (hother : (tasks.set place new)[other]? = some task) :
    (other = place ∧ task = new) ∨ tasks[other]? = some task := by
  by_cases hsame : place = other
  · subst hsame
    have hin : place < tasks.length := by
      simpa using (List.getElem?_eq_some_iff.mp hother).1
    rw [List.getElem?_set_self hin] at hother
    exact Or.inl ⟨rfl, (Option.some.inj hother).symm⟩
  · rw [List.getElem?_set_ne hsame] at hother
    exact Or.inr hother

theorem getElem?_concat_cases (hother : (tasks ++ [new])[other]? = some task) :
    (other = tasks.length ∧ task = new) ∨ tasks[other]? = some task := by
  rcases Nat.lt_or_ge other tasks.length with hbefore | hafter
  · rw [List.getElem?_append_left hbefore] at hother
    exact Or.inr hother
  · rw [List.getElem?_append_right hafter] at hother
    obtain ⟨hlast, hnew⟩ := List.getElem?_eq_some_iff.mp hother
    rw [List.length_singleton] at hlast
    refine Or.inl ⟨by omega, ?_⟩
    simpa using hnew.symm

end Lists

namespace LayerState

variable {c : Catalog} {crew : Crew σ} {steps : List Nat} {results : Members Value}
  {s next : LayerState σ} {move : Move}

/-! ## One move -/

/-- A move that is possible, and the state after it. -/
inductive Makes (c : Catalog) (crew : Crew σ) (steps : List Nat) (results : Members Value)
    (s : LayerState σ) : Move → LayerState σ → Prop
  | spawned {i : Nat} {args : List Value} (hopen : s.error? = none)
      (hstep : steps[s.tasks.length]? = some i) (hargs : c.argumentsFrom i results = .ok args) :
      Makes c crew steps results s .spawn { s with tasks := s.tasks ++ [.queued args] }
  | missing {i : Nat} {e : RunError} (hopen : s.error? = none)
      (hstep : steps[s.tasks.length]? = some i)
      (hargs : c.argumentsFrom i results = .error e) :
      Makes c crew steps results s .spawn { s with error? := some e }
  | started {place i : Nat} {args : List Value} (hstep : steps[place]? = some i)
      (htask : s.tasks[place]? = some (.queued args)) :
      Makes c crew steps results s (.start place)
        { s with
          tasks := s.tasks.set place (.running (s.journal.call crew i args).1)
          journal := (s.journal.call crew i args).2 }
  | finished {place i : Nat} {outcome : Outcome} (hstep : steps[place]? = some i)
      (htask : s.tasks[place]? = some (.running outcome)) :
      Makes c crew steps results s (.finish place)
        { s with
          tasks := s.tasks.set place (.ended outcome)
          journal := s.journal.finish c i outcome }
  | joined {place i : Nat} {outcome : Outcome} (hopen : s.error? = none)
      (hall : s.tasks.length = steps.length) (hstep : steps[place]? = some i)
      (htask : s.tasks[place]? = some (.ended outcome)) :
      Makes c crew steps results s (.join place)
        { s with
          tasks := s.tasks.set place (.joined outcome)
          error? := c.joinError? i outcome }
  | aborted {e : RunError} (herror : s.error? = some e) :
      Makes c crew steps results s .abort
        { s with tasks := s.tasks.map TaskState.calledOff }

theorem makes_of_move? (hmove : s.move? c crew steps results move = some next) :
    s.Makes c crew steps results move next := by
  cases move with
  | spawn =>
      simp only [move?, spawn?] at hmove
      split at hmove
      next i hopen hstep =>
        cases hargs : c.argumentsFrom i results with
        | ok args =>
            rw [hargs] at hmove
            cases hmove
            exact .spawned hopen hstep hargs
        | error e =>
            rw [hargs] at hmove
            cases hmove
            exact .missing hopen hstep hargs
      next => cases hmove
  | start place =>
      simp only [move?, start?] at hmove
      split at hmove
      next i args hstep htask =>
        cases hmove
        exact .started hstep htask
      next => cases hmove
  | finish place =>
      simp only [move?, finish?] at hmove
      split at hmove
      next i outcome hstep htask =>
        cases hmove
        exact .finished hstep htask
      next => cases hmove
  | join place =>
      simp only [move?, join?] at hmove
      split at hmove
      next i outcome hopen hstep htask =>
        split at hmove
        next hall =>
          cases hmove
          exact .joined hopen hall hstep htask
        next => cases hmove
      next => cases hmove
  | abort =>
      simp only [move?, abort?] at hmove
      split at hmove
      next e herror =>
        cases hmove
        exact .aborted herror
      next => cases hmove

theorem Makes.move?_eq (hmakes : s.Makes c crew steps results move next) :
    s.move? c crew steps results move = some next := by
  cases hmakes with
  | spawned hopen hstep hargs => simp [move?, spawn?, hopen, hstep, hargs]
  | missing hopen hstep hargs => simp [move?, spawn?, hopen, hstep, hargs]
  | started hstep htask => simp [move?, start?, hstep, htask]
  | finished hstep htask => simp [move?, finish?, hstep, htask]
  | joined hopen hall hstep htask => simp [move?, join?, hopen, hall, hstep, htask]
  | aborted herror => simp [move?, abort?, herror]

/-- What every possible move preserves holds after any moves. -/
theorem follow_preserves
    {holds : LayerState σ → Prop}
    (hmakes : ∀ s move next, holds s → s.Makes c crew steps results move next → holds next)
    (hholds : holds s) (moves : List Move) :
    holds (follow c crew steps results moves s) := by
  induction moves generalizing s with
  | nil => exact hholds
  | cons move moves ih =>
      apply ih
      cases hmove : s.move? c crew steps results move with
      | none => exact hholds
      | some next => exact hmakes s move next hholds (makes_of_move? hmove)

/-- An error stays, and it stays the same. -/
theorem follow_error? {e : RunError} (herror : s.error? = some e) (moves : List Move) :
    (follow c crew steps results moves s).error? = some e := by
  have hkeeps : ∀ (s : LayerState σ) (move : Move) (next : LayerState σ), s.error? = some e →
      s.Makes c crew steps results move next → next.error? = some e := by
    intro s move next herror hmakes
    cases hmakes with
    | spawned hopen => simp [hopen] at herror
    | missing hopen => simp [hopen] at herror
    | joined hopen => simp [hopen] at herror
    | _ => exact herror
  exact follow_preserves hkeeps herror moves

/-! ## Values of tasks -/

theorem joinError?_eq_none_iff {i : Nat} {outcome : Outcome} :
    c.joinError? i outcome = none ↔ ∃ v, outcome = .returned v := by
  cases outcome <;> simp [Catalog.joinError?]

/-- Without an error, the tasks that are joined have values. -/
def Settled (s : LayerState σ) : Prop :=
  s.error? = none → ∀ (place : Nat) (outcome : Outcome),
    s.tasks[place]? = some (.joined outcome) → ∃ v, outcome = .returned v

theorem settled_empty (j : Journal σ) : Settled { journal := j } := by
  intro _ place outcome hjoined
  cases hjoined

theorem Settled.makes
    (hsettled : s.Settled) (hmakes : s.Makes c crew steps results move next) :
    next.Settled := by
  intro hnone other outcome hother
  cases hmakes with
  | spawned hopen hstep hargs =>
      rcases getElem?_concat_cases hother with ⟨-, hnew⟩ | hbefore
      · cases hnew
      · exact hsettled hnone other outcome hbefore
  | missing => cases hnone
  | started hstep htask =>
      rcases getElem?_set_cases hother with ⟨-, hnew⟩ | hbefore
      · cases hnew
      · exact hsettled hnone other outcome hbefore
  | finished hstep htask =>
      rcases getElem?_set_cases hother with ⟨-, hnew⟩ | hbefore
      · cases hnew
      · exact hsettled hnone other outcome hbefore
  | joined hopen hall hstep htask =>
      rcases getElem?_set_cases hother with ⟨-, hnew⟩ | hbefore
      · cases hnew
        exact joinError?_eq_none_iff.mp hnone
      · exact hsettled hopen other outcome hbefore
  | aborted herror =>
      rw [herror] at hnone
      cases hnone

theorem settled_follow
    (c : Catalog) (crew : Crew σ) (steps : List Nat) (results : Members Value)
    (moves : List Move) (j : Journal σ) :
    (follow c crew steps results moves { journal := j }).Settled :=
  follow_preserves (fun _ _ _ => Settled.makes) (settled_empty j) moves

theorem isDone_iff :
    s.isDone steps ↔ s.error? = none ∧ s.tasks.length = steps.length ∧
      ∀ place < steps.length, ∃ outcome, s.tasks[place]? = some (.joined outcome) := by
  simp only [isDone, Bool.and_eq_true, Option.isNone_iff_eq_none, beq_iff_eq, and_assoc,
    List.all_eq_true]
  refine and_congr_right fun _ => and_congr_right fun hlength => ?_
  constructor
  · intro hjoined place hplace
    have hin : place < s.tasks.length := by omega
    have htask := hjoined _ (List.getElem_mem hin)
    rw [List.getElem?_eq_getElem hin]
    cases htask' : s.tasks[place] with
    | joined outcome => exact ⟨outcome, rfl⟩
    | _ =>
        rw [htask'] at htask
        cases htask
  · intro hjoined task htask
    obtain ⟨place, hplace, rfl⟩ := List.getElem_of_mem htask
    obtain ⟨outcome, houtcome⟩ := hjoined place (by omega)
    rw [List.getElem?_eq_getElem hplace] at houtcome
    rw [Option.some.inj houtcome]
    rfl

/-- When a layer is done, all its tasks have values. -/
theorem Settled.values
    (hsettled : s.Settled) (hdone : s.isDone steps) {place : Nat}
    (hplace : place < steps.length) :
    ∃ v, s.tasks[place]? = some (.joined (.returned v)) := by
  obtain ⟨hnone, -, hjoined⟩ := isDone_iff.mp hdone
  obtain ⟨outcome, houtcome⟩ := hjoined place hplace
  obtain ⟨v, rfl⟩ := hsettled hnone place outcome houtcome
  exact ⟨v, houtcome⟩

end LayerState

/-! ## Phases -/

/-- The phase of a task. -/
def TaskState.phase : TaskState → Phase
  | .queued _ => .queued
  | .running _ => .running
  | .ended _ => .ended
  | .joined _ => .joined
  | .aborted => .aborted

namespace LayerState

variable {c : Catalog} {crew : Crew σ} {steps : List Nat} {results : Members Value}
  {s : LayerState σ} {phases : List Phase} {place : Nat}

/-- There is no error, and the tasks are in the phases. -/
structure Phased (steps : List Nat) (phases : List Phase) (s : LayerState σ) : Prop where
  noError : s.error? = none
  phases_eq : s.tasks.map TaskState.phase = phases
  bounded : phases.length ≤ steps.length

theorem phased_empty (steps : List Nat) (j : Journal σ) :
    Phased steps [] { journal := j } :=
  ⟨rfl, rfl, Nat.zero_le _⟩

theorem Phased.length_eq (hphased : s.Phased steps phases) : s.tasks.length = phases.length := by
  rw [← hphased.phases_eq, List.length_map]

theorem Phased.getElem?_eq (hphased : s.Phased steps phases) (place : Nat) :
    phases[place]? = s.tasks[place]?.map TaskState.phase := by
  rw [← hphased.phases_eq, List.getElem?_map]

/-- A task stands for a step. -/
theorem Phased.exists_step
    (hphased : s.Phased steps phases) {task : TaskState} (htask : s.tasks[place]? = some task) :
    ∃ i, steps[place]? = some i := by
  have hin := (List.getElem?_eq_some_iff.mp htask).1
  have hlength := hphased.length_eq
  have hbounded := hphased.bounded
  exact ⟨steps[place], List.getElem?_eq_getElem (by omega)⟩

/-- A task goes on to another phase. -/
theorem Phased.set
    (hphased : s.Phased steps phases) (place : Nat) (task : TaskState) (journal : Journal σ) :
    Phased steps (phases.set place task.phase)
      { s with tasks := s.tasks.set place task, journal } := by
  refine ⟨hphased.noError, ?_, ?_⟩
  · rw [List.map_set, hphased.phases_eq]
  · rw [List.length_set]
    exact hphased.bounded

theorem Phased.exists_task
    (hphased : s.Phased steps phases) {phase : Phase} (hphase : phases[place]? = some phase) :
    ∃ i task, steps[place]? = some i ∧ s.tasks[place]? = some task ∧ task.phase = phase := by
  rw [hphased.getElem?_eq, Option.map_eq_some_iff] at hphase
  obtain ⟨task, htask, hphase⟩ := hphase
  obtain ⟨i, hstep⟩ := hphased.exists_step htask
  exact ⟨i, task, hstep, htask, hphase⟩

theorem Phased.phase_of_task
    (hphased : s.Phased steps phases) {task : TaskState} (htask : s.tasks[place]? = some task) :
    phases[place]? = some task.phase := by
  rw [hphased.getElem?_eq, htask]
  rfl

/-- What a move comes to when there was no error: an argument is missing, a task is joined
that may have failed, or the phases go on. -/
inductive Goes (c : Catalog) (steps : List Nat) (results : Members Value)
    (phases : List Phase) (s : LayerState σ) (move : Move) (next : LayerState σ) : Prop
  | missing {i : Nat} {e : RunError} (hmem : i ∈ steps)
      (hargs : c.argumentsFrom i results = .error e) (herror : next.error? = some e)
  | joins {place i : Nat} {outcome : Outcome}
      (hjoins : move.joins? steps.length phases = some place)
      (hstep : steps[place]? = some i) (htask : s.tasks[place]? = some (.ended outcome))
      (herror : next.error? = c.joinError? i outcome)
      (hphased : c.joinError? i outcome = none →
        next.Phased steps (move.phases steps.length phases))
  | goesOn (hjoins : move.joins? steps.length phases = none)
      (hphased : next.Phased steps (move.phases steps.length phases))

/-- A move that is not possible leaves the state and the phases as they are. -/
theorem Phased.goes_idle
    {move : Move} (hphased : s.Phased steps phases)
    (hjoins : move.joins? steps.length phases = none)
    (hkept : move.phases steps.length phases = phases)
    (hidle : ∀ next, ¬ s.Makes c crew steps results move next) :
    Goes c steps results phases s move ((s.move? c crew steps results move).getD s) := by
  have hnone : s.move? c crew steps results move = none := by
    cases hmove : s.move? c crew steps results move with
    | none => rfl
    | some next => exact absurd (makes_of_move? hmove) (hidle next)
  rw [hnone]
  exact .goesOn hjoins (hkept.symm ▸ hphased)

section Goes

variable (hphased : s.Phased steps phases) (c : Catalog) (crew : Crew σ)
  (results : Members Value) (place : Nat)

include hphased

theorem Phased.goes_spawn :
    Goes c steps results phases s .spawn
      ((s.move? c crew steps results .spawn).getD s) := by
  by_cases hroom : phases.length < steps.length
  · have hstep : steps[s.tasks.length]? = some steps[phases.length] := by
      rw [hphased.length_eq, List.getElem?_eq_getElem hroom]
    cases hargs : c.argumentsFrom steps[phases.length] results with
    | error e =>
        have hmakes : s.Makes c crew steps results _ _ :=
          .missing hphased.noError hstep hargs
        rw [hmakes.move?_eq]
        exact .missing (List.getElem_mem hroom) hargs rfl
    | ok args =>
        have hmakes : s.Makes c crew steps results _ _ :=
          .spawned hphased.noError hstep hargs
        rw [hmakes.move?_eq]
        refine .goesOn rfl ?_
        rw [Move.phases, if_pos hroom]
        refine ⟨hphased.noError, ?_, by simpa using hroom⟩
        simp [hphased.phases_eq, TaskState.phase]
  · refine hphased.goes_idle rfl (if_neg hroom) ?_
    intro next hmakes
    have hstep : ∃ i, steps[s.tasks.length]? = some i := by
      cases hmakes with
      | spawned hopen hstep hargs => exact ⟨_, hstep⟩
      | missing hopen hstep hargs => exact ⟨_, hstep⟩
    obtain ⟨i, hstep⟩ := hstep
    rw [hphased.length_eq] at hstep
    exact hroom (List.getElem?_eq_some_iff.mp hstep).1

theorem Phased.goes_start :
    Goes c steps results phases s (.start place)
      ((s.move? c crew steps results (.start place)).getD s) := by
  by_cases hphase : phases[place]? = some .queued
  · obtain ⟨i, task, hstep, htask, hqueued⟩ := hphased.exists_task hphase
    cases task with
    | queued args =>
        have hmakes : s.Makes c crew steps results _ _ := .started hstep htask
        rw [hmakes.move?_eq]
        refine .goesOn rfl ?_
        rw [Move.phases, if_pos hphase]
        exact hphased.set place (.running (s.journal.call crew i args).1) _
    | _ => cases hqueued
  · refine hphased.goes_idle rfl (if_neg hphase) ?_
    intro next hmakes
    cases hmakes with
    | started hstep htask => exact hphase (hphased.phase_of_task htask)

theorem Phased.goes_finish :
    Goes c steps results phases s (.finish place)
      ((s.move? c crew steps results (.finish place)).getD s) := by
  by_cases hphase : phases[place]? = some .running
  · obtain ⟨i, task, hstep, htask, hrunning⟩ := hphased.exists_task hphase
    cases task with
    | running outcome =>
        have hmakes : s.Makes c crew steps results _ _ := .finished hstep htask
        rw [hmakes.move?_eq]
        refine .goesOn rfl ?_
        rw [Move.phases, if_pos hphase]
        exact hphased.set place (.ended outcome) _
    | _ => cases hrunning
  · refine hphased.goes_idle rfl (if_neg hphase) ?_
    intro next hmakes
    cases hmakes with
    | finished hstep htask => exact hphase (hphased.phase_of_task htask)

theorem Phased.goes_join :
    Goes c steps results phases s (.join place)
      ((s.move? c crew steps results (.join place)).getD s) := by
  by_cases hready : phases.length = steps.length ∧ phases[place]? = some .ended
  · obtain ⟨i, task, hstep, htask, hended⟩ := hphased.exists_task hready.2
    cases task with
    | ended outcome =>
        have hall : s.tasks.length = steps.length := hphased.length_eq.trans hready.1
        have hmakes : s.Makes c crew steps results _ _ :=
          .joined hphased.noError hall hstep htask
        rw [hmakes.move?_eq]
        refine .joins (if_pos hready) hstep htask rfl ?_
        intro hvalue
        rw [Move.phases, if_pos hready]
        have hset := hphased.set place (.joined outcome) s.journal
        exact ⟨hvalue, hset.phases_eq, hset.bounded⟩
    | _ => cases hended
  · refine hphased.goes_idle (if_neg hready) (if_neg hready) ?_
    intro next hmakes
    cases hmakes with
    | joined hopen hall hstep htask =>
        exact hready ⟨hphased.length_eq.symm.trans hall, hphased.phase_of_task htask⟩

theorem Phased.goes_abort :
    Goes c steps results phases s .abort
      ((s.move? c crew steps results .abort).getD s) := by
  refine hphased.goes_idle rfl rfl ?_
  intro next hmakes
  cases hmakes with
  | aborted herror =>
      rw [hphased.noError] at herror
      cases herror

/-- A move that is possible comes to one of these, and one that is not would not change
the phases either. -/
theorem Phased.goes (move : Move) :
    Goes c steps results phases s move ((s.move? c crew steps results move).getD s) := by
  cases move with
  | spawn => exact hphased.goes_spawn c crew results
  | start place => exact hphased.goes_start c crew results place
  | finish place => exact hphased.goes_finish c crew results place
  | join place => exact hphased.goes_join c crew results place
  | abort => exact hphased.goes_abort c crew results

end Goes

/-- All moves come to an error, or the phases are those that the moves alone tell. -/
theorem Phased.follow
    (hphased : s.Phased steps phases) (c : Catalog) (crew : Crew σ) (results : Members Value)
    (moves : List Move) :
    (follow c crew steps results moves s).error? ≠ none ∨
      (follow c crew steps results moves s).Phased steps
        (moves.foldl (Move.phases steps.length) phases) := by
  induction moves generalizing s phases with
  | nil => exact Or.inr hphased
  | cons move moves ih =>
      rcases hphased.goes c crew results move with
        ⟨-, -, herror⟩ | @⟨place, i, outcome, -, -, -, herror, hnext⟩ | ⟨-, hnext⟩
      · refine Or.inl ?_
        rw [LayerState.follow, follow_error? herror]
        exact Option.some_ne_none _
      · cases hfailure : c.joinError? i outcome with
        | none => exact ih (hnext hfailure)
        | some e =>
            rw [hfailure] at herror
            refine Or.inl ?_
            rw [LayerState.follow, follow_error? herror]
            exact Option.some_ne_none _
      · exact ih hnext

/-- After the moves of a complete layer there is an error, or the layer is done. -/
theorem isDone_of_complete
    {moves : List Move} (hcomplete : Complete moves steps.length) (c : Catalog) (crew : Crew σ)
    (results : Members Value) (j : Journal σ)
    (hnone : (LayerState.follow c crew steps results moves { journal := j }).error? = none) :
    (LayerState.follow c crew steps results moves { journal := j }).isDone steps := by
  rcases (phased_empty steps j).follow c crew results moves with herror | hphased
  · exact absurd hnone herror
  · set last := LayerState.follow c crew steps results moves { journal := j }
    set phases := moves.foldl (Move.phases steps.length) []
    have hlength : last.tasks.length = steps.length := by
      rw [hphased.length_eq]
      refine le_antisymm hphased.bounded (Nat.le_of_not_lt fun hless => ?_)
      have hjoined := hcomplete.foldl_phases hless
      exact absurd (List.getElem?_eq_some_iff.mp hjoined).1 (Nat.lt_irrefl _)
    refine isDone_iff.mpr ⟨hnone, hlength, fun place hplace => ?_⟩
    obtain ⟨i, task, -, htask, hphase⟩ := hphased.exists_task (hcomplete.foldl_phases hplace)
    cases task with
    | joined outcome => exact ⟨outcome, htask⟩
    | _ => cases hphase

end LayerState

end WorkPlan
