import Mathlib.Tactic
import WorkPlan.Run.Concurrent

/-!
# The order in which tasks are joined

The moves of a layer may come in any order.  As long as no task fails, which of them are
possible depends on nothing but the moves before, so the order in which the tasks are
joined can be told without their work.  That order is what counts of a schedule.
-/

namespace WorkPlan

/-! ## The moves of a layer -/

/-- How far a task is, without what it works on. -/
inductive Phase
  | queued
  | running
  | ended
  | joined
  | aborted
deriving DecidableEq

/-- What a move makes of the phases of the tasks of a layer, when none has failed. -/
def Move.phases (width : Nat) (phases : List Phase) : Move → List Phase
  | .spawn => if phases.length < width then phases ++ [.queued] else phases
  | .start place =>
      if phases[place]? = some .queued then phases.set place .running else phases
  | .finish place =>
      if phases[place]? = some .running then phases.set place .ended else phases
  | .join place =>
      if phases.length = width ∧ phases[place]? = some .ended then phases.set place .joined
      else phases
  | .abort => phases

/-- The place whose task a move joins. -/
def Move.joins? (width : Nat) (phases : List Phase) : Move → Option Nat
  | .join place =>
      if phases.length = width ∧ phases[place]? = some .ended then some place else none
  | .spawn | .start _ | .finish _ | .abort => none

/-- The places whose tasks are joined by moves, in order, from given phases on. -/
def completionsFrom (width : Nat) : List Phase → List Move → List Nat
  | _, [] => []
  | phases, move :: rest =>
      (move.joins? width phases).toList ++
        completionsFrom width (move.phases width phases) rest

/-- The places of a layer in the order in which their tasks are joined when none fails. -/
def completions (width : Nat) (moves : List Move) : List Nat := completionsFrom width [] moves

/-- When none of them fails, all tasks of a layer are joined. -/
def Complete (moves : List Move) (width : Nat) : Prop :=
  ∀ place < width, place ∈ completions width moves

section Moves

variable {width : Nat} {phases : List Phase} {moves : List Move} {places : List Nat}
  {a b : Phase}

theorem getElem?_set_reached {place : Nat} (hplace : phases[place]? = some a) (b : Phase) :
    (phases.set place b)[place]? = some b :=
  List.getElem?_set_self (List.getElem?_eq_some_iff.mp hplace).1

theorem completionsFrom_append (first second : List Move) :
    completionsFrom width phases (first ++ second) =
      completionsFrom width phases first ++
        completionsFrom width (first.foldl (Move.phases width) phases) second := by
  induction first generalizing phases with
  | nil => rfl
  | cons move first ih =>
      rw [List.cons_append, completionsFrom, ih, completionsFrom, List.append_assoc]
      rfl

/-- A task that is joined stays so. -/
theorem Move.phases_of_joined
    {place : Nat} (hjoined : phases[place]? = some .joined) (move : Move) :
    (move.phases width phases)[place]? = some .joined := by
  have hin : place < phases.length := (List.getElem?_eq_some_iff.mp hjoined).1
  have hkept : ∀ (ready : Prop) [Decidable ready] (other : Nat) (b : Phase),
      (ready → phases[other]? ≠ some .joined) →
        (if ready then phases.set other b else phases)[place]? = some .joined := by
    intro ready _ other b hother
    split
    next hready =>
      have hne : other ≠ place := fun hsame => hother hready (hsame ▸ hjoined)
      rw [List.getElem?_set_ne hne, hjoined]
    next => exact hjoined
  cases move with
  | abort => exact hjoined
  | spawn =>
      simp only [Move.phases]
      split
      · rw [List.getElem?_append_left hin, hjoined]
      · exact hjoined
  | start other => exact hkept _ other .running fun hready => by simp [hready]
  | finish other => exact hkept _ other .ended fun hready => by simp [hready]
  | join other => exact hkept _ other .joined fun hready => by simp [hready.2]

theorem Move.phases_of_joins?
    {place : Nat} {move : Move} (hjoins : move.joins? width phases = some place) :
    (move.phases width phases)[place]? = some .joined := by
  cases move with
  | join other =>
      simp only [Move.joins?] at hjoins
      split at hjoins
      next hopen =>
        obtain rfl := Option.some.inj hjoins
        rw [Move.phases, if_pos hopen]
        exact getElem?_set_reached hopen.2 .joined
      next => cases hjoins
  | _ => cases hjoins

theorem foldl_phases_of_completed
    {place : Nat} (hplace : phases[place]? = some .joined ∨
      place ∈ completionsFrom width phases moves) :
    (moves.foldl (Move.phases width) phases)[place]? = some .joined := by
  induction moves generalizing phases with
  | nil => simpa [completionsFrom] using hplace
  | cons move moves ih =>
      rw [completionsFrom, List.mem_append, Option.mem_toList] at hplace
      apply ih
      rcases hplace with hjoined | hjoins | hlater
      · exact Or.inl (Move.phases_of_joined hjoined move)
      · exact Or.inl (Move.phases_of_joins? hjoins)
      · exact Or.inr hlater

/-- When none fails, all tasks are joined after the moves of a complete layer. -/
theorem Complete.foldl_phases
    (hcomplete : Complete moves width) {place : Nat} (hplace : place < width) :
    (moves.foldl (Move.phases width) [])[place]? = some .joined :=
  foldl_phases_of_completed (Or.inr (hcomplete place hplace))

theorem completionsFrom_eq_nil
    (hmoves : ∀ move ∈ moves, ∀ phases, move.joins? width phases = none) :
    completionsFrom width phases moves = [] := by
  induction moves generalizing phases with
  | nil => rfl
  | cons move moves ih =>
      rw [completionsFrom, hmoves move List.mem_cons_self,
        ih fun other hother => hmoves other (List.mem_cons_of_mem _ hother)]
      rfl

theorem foldl_phases_spawn {n : Nat} (hwidth : phases.length + n = width) :
    (List.replicate n Move.spawn).foldl (Move.phases width) phases =
      phases ++ List.replicate n .queued := by
  induction n generalizing phases with
  | zero => simp
  | succ n ih =>
      have hspawn : Move.phases width phases .spawn = phases ++ [.queued] :=
        if_pos (by omega)
      rw [List.replicate_succ, List.foldl_cons, hspawn,
        ih (by simp only [List.length_append, List.length_singleton]; omega),
        List.append_assoc]
      rfl

/-- The tasks of some places start, and the others stay as they are. -/
theorem foldl_phases_start
    (width : Nat) (hnodup : places.Nodup) (hopen : ∀ place ∈ places, phases[place]? = some .queued) :
    ((places.map .start).foldl (Move.phases width) phases).length = phases.length ∧
      (∀ place ∈ places,
        ((places.map .start).foldl (Move.phases width) phases)[place]? = some .running) ∧
      ∀ place ∉ places,
        ((places.map .start).foldl (Move.phases width) phases)[place]? = phases[place]? := by
  induction places generalizing phases with
  | nil => simp
  | cons first places ih =>
      obtain ⟨hnew, hrest⟩ := List.nodup_cons.mp hnodup
      have hfirst := hopen first List.mem_cons_self
      have hstart : Move.phases width phases (.start first) = phases.set first .running :=
        if_pos hfirst
      have hlater : ∀ place ∈ places, (phases.set first .running)[place]? = some .queued := by
        intro place hplace
        have hne : first ≠ place := fun hsame => hnew (hsame ▸ hplace)
        rw [List.getElem?_set_ne hne]
        exact hopen place (List.mem_cons_of_mem _ hplace)
      obtain ⟨hlength, hreached, hkept⟩ := ih hrest hlater
      simp only [List.map_cons, List.foldl_cons, hstart]
      refine ⟨by rw [hlength, List.length_set], ?_, ?_⟩
      · intro place hplace
        rcases List.mem_cons.mp hplace with rfl | hplace
        · rw [hkept place hnew, getElem?_set_reached hfirst]
        · exact hreached place hplace
      · intro place hplace
        obtain ⟨hne, hplace⟩ := not_or.mp (mt List.mem_cons.mpr hplace)
        rw [hkept place hplace, List.getElem?_set_ne (Ne.symm hne)]

/-- Blocks of moves of which each joins the task of its own place. -/
theorem completionsFrom_flatMap
    {block : Nat → List Move}
    (hblock : ∀ phases place, phases.length = width → phases[place]? = some a →
      ∀ rest, completionsFrom width phases (block place ++ rest) =
        place :: completionsFrom width (phases.set place .joined) rest)
    (hwidth : phases.length = width) (hnodup : places.Nodup)
    (hopen : ∀ place ∈ places, phases[place]? = some a) :
    completionsFrom width phases (places.flatMap block) = places := by
  induction places generalizing phases with
  | nil => rfl
  | cons first places ih =>
      obtain ⟨hnew, hrest⟩ := List.nodup_cons.mp hnodup
      rw [List.flatMap_cons, hblock phases first hwidth (hopen first List.mem_cons_self),
        ih (by rw [List.length_set, hwidth]) hrest]
      intro place hplace
      have hne : first ≠ place := fun hsame => hnew (hsame ▸ hplace)
      rw [List.getElem?_set_ne hne]
      exact hopen place (List.mem_cons_of_mem _ hplace)

end Moves

/-! ## Schedules -/

/-- In every one of the layers all tasks are joined when none fails. -/
def Schedule.Completes (schedule : Schedule) (layers : List (List Nat)) : Prop :=
  ∀ k steps, layers[k]? = some steps → Complete (schedule k steps) steps.length

/-- All tasks start, and then they end and are joined one by one, the last one first. -/
def Schedule.backwards : Schedule := fun _ steps =>
  List.replicate steps.length .spawn ++ (List.range steps.length).map .start ++
    (List.range steps.length).reverse.flatMap fun place => [.finish place, .join place]

theorem completions_backwards (k : Nat) (steps : List Nat) :
    completions steps.length (Schedule.backwards k steps) =
      (List.range steps.length).reverse := by
  have hspawned : (List.replicate steps.length Move.spawn).foldl (Move.phases steps.length) [] =
      List.replicate steps.length .queued :=
    foldl_phases_spawn (Nat.zero_add steps.length)
  have hqueued : ∀ place ∈ List.range steps.length,
      (List.replicate steps.length Phase.queued)[place]? = some .queued := by
    intro place hplace
    exact List.getElem?_replicate_of_lt (List.mem_range.mp hplace)
  obtain ⟨hlength, hrunning, -⟩ := foldl_phases_start steps.length List.nodup_range hqueued
  have hspawns : completionsFrom steps.length [] (List.replicate steps.length .spawn) = [] :=
    completionsFrom_eq_nil (by simp [Move.joins?])
  have hstarts : ∀ phases, completionsFrom steps.length phases
      ((List.range steps.length).map .start) = [] :=
    fun _ => completionsFrom_eq_nil (by simp [Move.joins?])
  rw [completions, Schedule.backwards, completionsFrom_append, completionsFrom_append,
    hspawns, hstarts, List.foldl_append, hspawned, List.nil_append, List.nil_append]
  refine completionsFrom_flatMap (a := .running) ?_ (by simpa using hlength)
    (List.nodup_reverse.mpr List.nodup_range)
    (fun place hplace => hrunning place (List.mem_reverse.mp hplace))
  intro phases place hwidth hplace rest
  simp [completionsFrom, Move.joins?, Move.phases, hwidth, hplace, getElem?_set_reached hplace]

theorem completions_inOrder (k : Nat) (steps : List Nat) :
    completions steps.length (Schedule.inOrder k steps) = List.range steps.length := by
  have hspawned : (List.replicate steps.length Move.spawn).foldl (Move.phases steps.length) [] =
      List.replicate steps.length .queued :=
    foldl_phases_spawn (Nat.zero_add steps.length)
  have hspawns : completionsFrom steps.length [] (List.replicate steps.length .spawn) = [] :=
    completionsFrom_eq_nil (by simp [Move.joins?])
  rw [completions, Schedule.inOrder, completionsFrom_append, hspawns, hspawned, List.nil_append]
  -- Nothing is called off, since no task fails.
  change completionsFrom _ (List.replicate steps.length .queued) _ = _
  refine completionsFrom_flatMap (a := .queued) ?_ List.length_replicate List.nodup_range ?_
  · intro phases place hwidth hplace rest
    simp [completionsFrom, Move.joins?, Move.phases, hwidth, hplace,
      getElem?_set_reached hplace]
  · intro place hplace
    exact List.getElem?_replicate_of_lt (List.mem_range.mp hplace)

theorem Schedule.backwards_completes (layers : List (List Nat)) :
    Schedule.backwards.Completes layers := by
  intro k steps _ place hplace
  rw [completions_backwards, List.mem_reverse]
  exact List.mem_range.mpr hplace

theorem Schedule.inOrder_completes (layers : List (List Nat)) :
    Schedule.inOrder.Completes layers := by
  intro k steps _ place hplace
  rw [completions_inOrder]
  exact List.mem_range.mpr hplace

/-- In every layer of a list, the first of which has the index, all tasks are joined when
none fails. -/
def Schedule.CompletesFrom (schedule : Schedule) (index : Nat) (layers : List (List Nat)) :
    Prop :=
  ∀ k steps, layers[k]? = some steps → Complete (schedule (index + k) steps) steps.length

variable {schedule : Schedule} {index : Nat} {steps : List Nat} {rest : List (List Nat)}

theorem Schedule.Completes.from_zero
    {layers : List (List Nat)} (hschedule : schedule.Completes layers) :
    schedule.CompletesFrom 0 layers := by
  intro k steps hlayer
  rw [Nat.zero_add]
  exact hschedule k steps hlayer

theorem Schedule.CompletesFrom.head (hschedule : schedule.CompletesFrom index (steps :: rest)) :
    Complete (schedule index steps) steps.length :=
  hschedule 0 steps rfl

theorem Schedule.CompletesFrom.tail (hschedule : schedule.CompletesFrom index (steps :: rest)) :
    schedule.CompletesFrom (index + 1) rest := by
  intro k other hother
  rw [Nat.add_assoc, Nat.add_comm 1 k]
  exact hschedule (k + 1) other hother

end WorkPlan
