import Mathlib.Tactic
import WorkPlan.Proofs.SequentialRun

/-!
# The value of a step

A step has a value on its own: what its work makes of its arguments, where the result of
another step is the value of that step.  A run knows nothing of this recursion.  It looks
results up by name in a table that fills step by step; what makes the two agree is that
the table holds the values of all steps before, each under a name that no other step
bears.
-/

namespace WorkPlan

open Json

namespace Catalog

variable {c : Catalog} {work : Nat → List Value → Except Failure Value}

/-! ## Values by recursion -/

/-- The value of a step, found by way of the steps whose results it uses. -/
def eval (c : Catalog) (work : Nat → List Value → Except Failure Value) (i : Nat) :
    Except Failure Value := do
  let args ← (c.step i).slots.attach.mapM fun
    | ⟨.literal v, _⟩ => .ok v
    | ⟨.result j, _⟩ => eval c work j
  work i args
termination_by i
decreasing_by
  rename_i hslot
  exact c.handle_lt (mem_handles.mpr (Or.inl hslot))

def slotValue (c : Catalog) (work : Nat → List Value → Except Failure Value) :
    Slot → Except Failure Value
  | .literal v => .ok v
  | .result j => c.eval work j

/-- The values of the arguments of a step. -/
def evalArguments
    (c : Catalog) (work : Nat → List Value → Except Failure Value) (i : Nat) :
    Except Failure (List Value) :=
  (c.step i).slots.mapM (c.slotValue work)

theorem eval_eq
    (c : Catalog) (work : Nat → List Value → Except Failure Value) (i : Nat) :
    c.eval work i = c.evalArguments work i >>= work i := by
  have hslots : ((c.step i).slots.attach.mapM fun
      | ⟨.literal v, _⟩ => .ok v
      | ⟨.result j, _⟩ => c.eval work j) =
      (c.step i).slots.attach.unattach.mapM (c.slotValue work) := by
    apply List.mapM_subtype
    intro slot _
    cases slot <;> rfl
  rw [List.unattach_attach] at hslots
  rw [eval, hslots]
  rfl

/-- Work that never fails gives every step a value. -/
theorem exists_eval
    (hwork : ∀ i args, ∃ v, work i args = .ok v) (i : Nat) :
    ∃ v, c.eval work i = .ok v := by
  induction i using Nat.strong_induction_on with
  | _ i ih =>
      have hslots : ∀ slot ∈ (c.step i).slots, ∃ v, c.slotValue work slot = .ok v := by
        intro slot hslot
        cases slot with
        | literal v => exact ⟨v, rfl⟩
        | result j => exact ih j (c.handle_lt (mem_handles.mpr (Or.inl hslot)))
      obtain ⟨args, hargs⟩ := exists_mapM_eq_ok_of_forall hslots
      rw [eval_eq, evalArguments, hargs]
      exact hwork i args

/-- The arguments of the step all have values, and its work fails on them. -/
def FailsWith
    (c : Catalog) (work : Nat → List Value → Except Failure Value) (i : Nat)
    (failure : Failure) : Prop :=
  ∃ args, c.evalArguments work i = .ok args ∧ work i args = .error failure

theorem FailsWith.eval_eq_error
    {i : Nat} {failure : Failure} (hfails : c.FailsWith work i failure) :
    c.eval work i = .error failure := by
  obtain ⟨args, hargs, hwork⟩ := hfails
  rw [eval_eq, hargs]
  exact hwork

/-- The error is that of the first of the steps without a value, and it is the work of
this step that fails. -/
def FirstFailure
    (c : Catalog) (work : Nat → List Value → Except Failure Value) (steps : List Nat)
    (e : RunError) : Prop :=
  ∃ before i after failure,
    steps = before ++ i :: after ∧ (∀ k ∈ before, ∃ v, c.eval work k = .ok v) ∧
    c.FailsWith work i failure ∧ e = .stepFailed (c.name i) failure

theorem FirstFailure.cons
    {i : Nat} {steps : List Nat} {e : RunError} {v : Value}
    (hvalue : c.eval work i = .ok v) (hfirst : c.FirstFailure work steps e) :
    c.FirstFailure work (i :: steps) e := by
  obtain ⟨before, k, after, failure, hsplit, hbefore, hfails, herror⟩ := hfirst
  refine ⟨i :: before, k, after, failure, by rw [hsplit, List.cons_append], ?_, hfails, herror⟩
  intro l hl
  rcases List.mem_cons.mp hl with rfl | hl
  · exact ⟨v, hvalue⟩
  · exact hbefore l hl

theorem FirstFailure.append_right
    {steps : List Nat} {e : RunError} (hfirst : c.FirstFailure work steps e)
    (later : List Nat) :
    c.FirstFailure work (steps ++ later) e := by
  obtain ⟨before, i, after, failure, hsplit, hrest⟩ := hfirst
  exact ⟨before, i, after ++ later, failure, by simp [hsplit], hrest⟩

/-! ## Entries with the values of steps -/

/-- The entry has the name and the value of the step. -/
def HasValue
    (c : Catalog) (work : Nat → List Value → Except Failure Value) (i : Nat)
    (entry : String × Value) : Prop :=
  entry.1 = c.name i ∧ c.eval work i = .ok entry.2

section Entries

variable {steps : List Nat} {entries : List (String × Value)}

theorem names_of_hasValue (hentries : List.Forall₂ (c.HasValue work) steps entries) :
    entries.map Prod.fst = steps.map c.name :=
  map_eq_map_of_forall₂ hentries fun _ _ hvalue => hvalue.1

theorem exists_value_of_hasValue
    (hentries : List.Forall₂ (c.HasValue work) steps entries) {i : Nat} (hi : i ∈ steps) :
    ∃ v, c.eval work i = .ok v ∧ (c.name i, v) ∈ entries := by
  obtain ⟨⟨key, v⟩, hmem, hkey, hvalue⟩ := exists_of_forall₂_left hentries hi
  obtain rfl : key = c.name i := hkey
  exact ⟨v, hvalue, hmem⟩

theorem FirstFailure.append_left
    (hentries : List.Forall₂ (c.HasValue work) steps entries) {later : List Nat}
    {e : RunError} (hfirst : c.FirstFailure work later e) :
    c.FirstFailure work (steps ++ later) e := by
  induction hentries with
  | nil => exact hfirst
  | cons hvalue _ ih => exact ih.cons hvalue.2

/-- Among entries of different names a lookup finds the value of the step. -/
theorem get?_of_hasValue
    (hentries : List.Forall₂ (c.HasValue work) steps entries)
    (hnames : (steps.map c.name).Nodup) {i : Nat} (hi : i ∈ steps) :
    ∃ v, c.eval work i = .ok v ∧ Members.get? (c.name i) entries = some v := by
  have hnodup : (entries.map Prod.fst).Nodup := by
    rw [names_of_hasValue hentries]
    exact hnames
  obtain ⟨v, hvalue, hmem⟩ := exists_value_of_hasValue hentries hi
  exact ⟨v, hvalue, (Members.mem_iff_get? hnodup).mp hmem⟩

end Entries

/-! ## Tables that hold values -/

/-- The results hold the values of the steps under their names. -/
def Holds
    (c : Catalog) (work : Nat → List Value → Except Failure Value)
    (results : Members Value) (done : List Nat) : Prop :=
  ∀ i ∈ done, ∃ v, c.eval work i = .ok v ∧ results.get? (c.name i) = some v

section Holds

variable {results : Members Value} {done steps : List Nat}

theorem Holds.arguments
    (hholds : c.Holds work results done) {i : Nat}
    (hsources : ∀ j, .result j ∈ (c.step i).slots → j ∈ done) :
    ∃ args, c.argumentsFrom i results = .ok args ∧ c.evalArguments work i = .ok args := by
  apply exists_mapM_eq_ok
  intro slot hslot
  cases slot with
  | literal v => exact ⟨v, rfl, rfl⟩
  | result j =>
      obtain ⟨v, hvalue, hfound⟩ := hholds j (hsources j hslot)
      exact ⟨v, by simp [Slot.value, hfound], hvalue⟩

/-- A step whose sources are in the table answers with its value, or with the failure of
its work. -/
theorem Holds.answer
    (hholds : c.Holds work results done) {i : Nat}
    (hsources : ∀ j, .result j ∈ (c.step i).slots → j ∈ done) :
    (∃ v, c.answer work results i = .ok v ∧ c.eval work i = .ok v) ∨
      ∃ failure, c.FailsWith work i failure ∧
        c.answer work results i = .error (.stepFailed (c.name i) failure) := by
  obtain ⟨args, hargs, heval⟩ := hholds.arguments hsources
  have hanswer : c.answer work results i =
      (work i args).mapError (.stepFailed (c.name i)) :=
    answer_of_arguments hargs
  have hvalue : c.eval work i = work i args := by
    rw [eval_eq, heval]
    rfl
  cases hwork : work i args with
  | ok v =>
      rw [hwork] at hanswer hvalue
      exact Or.inl ⟨v, hanswer, hvalue⟩
  | error failure =>
      rw [hwork] at hanswer
      exact Or.inr ⟨failure, ⟨args, heval, hwork⟩, hanswer⟩

theorem Holds.answers
    (hholds : c.Holds work results done)
    (hsources : ∀ i ∈ steps, ∀ j, .result j ∈ (c.step i).slots → j ∈ done) :
    (∃ outputs, c.answers work results steps = .ok outputs ∧
        List.Forall₂ (c.HasValue work) steps outputs) ∨
      ∃ e, c.answers work results steps = .error e ∧ c.FirstFailure work steps e := by
  induction steps with
  | nil => exact Or.inl ⟨[], rfl, .nil⟩
  | cons i steps ih =>
      rcases hholds.answer (hsources i (by simp)) with
        ⟨v, hanswer, hvalue⟩ | ⟨failure, hfails, hanswer⟩
      · rw [answers_cons_ok hanswer]
        rcases ih fun k hk => hsources k (by simp [hk]) with
          ⟨outputs, hok, hentries⟩ | ⟨e, herror, hfirst⟩
        · rw [hok]
          exact Or.inl ⟨(c.name i, v) :: outputs, rfl, .cons ⟨rfl, hvalue⟩ hentries⟩
        · rw [herror]
          exact Or.inr ⟨e, rfl, hfirst.cons hvalue⟩
      · rw [answers_cons_error hanswer]
        exact Or.inr ⟨_, rfl, [], i, steps, failure, rfl, by simp, hfails, rfl⟩

theorem holds_nil (results : Members Value) : c.Holds work results [] := by
  intro i hi
  cases hi

/-- What a layer publishes does not hide the values that are there, as all names differ. -/
theorem Holds.overlay
    {outputs : List (String × Value)} (hholds : c.Holds work results done)
    (hentries : List.Forall₂ (c.HasValue work) steps outputs)
    (hnames : ((done ++ steps).map c.name).Nodup) :
    c.Holds work (results.overlay outputs) (done ++ steps) := by
  rw [List.map_append, List.nodup_append] at hnames
  obtain ⟨-, hnew, hapart⟩ := hnames
  have houtputs := names_of_hasValue hentries
  intro i hi
  rcases List.mem_append.mp hi with hi | hi
  · obtain ⟨v, hvalue, hfound⟩ := hholds i hi
    have hother : c.name i ∉ outputs.map Prod.fst := by
      rw [houtputs]
      intro hmem
      exact hapart _ (List.mem_map_of_mem hi) _ hmem rfl
    exact ⟨v, hvalue, by rw [Members.get?_overlay_of_notMem hother, hfound]⟩
  · obtain ⟨v, hvalue, hfound⟩ := get?_of_hasValue hentries hnew hi
    rw [← houtputs] at hnew
    refine ⟨v, hvalue, ?_⟩
    rw [Members.get?_overlay_of_nodup hnew, hfound, Option.some_or]

end Holds

end Catalog

/-! ## Runs of a plan -/

namespace Plan

variable {σ : Type} {c : Catalog} {p : Plan} {crew : Crew σ}
  {work : Nat → List Value → Except Failure Value} {name : String} {roots : List Nat}

theorem layerAnswers_eval
    (work : Nat → List Value → Except Failure Value) (hplan : build c name roots = .ok p)
    {before later : List (List Nat)}
    (hsplit : p.layers = before ++ later) {results : Members Value}
    (hholds : c.Holds work results before.flatten) :
    (∃ outputs, c.layerAnswers work results later = .ok outputs ∧
        List.Forall₂ (List.Forall₂ (c.HasValue work)) later outputs) ∨
      ∃ e, c.layerAnswers work results later = .error e ∧
        c.FirstFailure work later.flatten e := by
  induction later generalizing before results with
  | nil => exact Or.inl ⟨[], rfl, .nil⟩
  | cons steps rest ih =>
      have hsources : ∀ i ∈ steps, ∀ j, .result j ∈ (c.step i).slots →
          j ∈ before.flatten := by
        intro i hi j hslot
        have hstep : i ∈ p.steps := by simp [Plan.steps, hsplit, hi]
        have hreachable := (mem_steps hplan).mp hstep
        have hheld : j ∈ c.handles i := Catalog.mem_handles.mpr (Or.inl hslot)
        exact mem_flatten_of_dependency hplan hsplit hi ⟨hreachable, Or.inl hheld⟩
      have hnames : ((before.flatten ++ steps).map c.name).Nodup := by
        have hall := names_nodup hplan
        rw [Plan.steps, hsplit, List.flatten_append, List.flatten_cons, ← List.append_assoc,
          List.map_append] at hall
        exact (List.nodup_append.mp hall).1
      rcases hholds.answers hsources with ⟨outputs, hok, hentries⟩ | ⟨e, herror, hfirst⟩
      · have hsplit' : p.layers = (before ++ [steps]) ++ rest := by simp [hsplit]
        have hholds' : c.Holds work (results.overlay outputs) (before ++ [steps]).flatten := by
          simpa using hholds.overlay hentries hnames
        rw [Catalog.layerAnswers_cons_ok hok]
        rcases ih hsplit' hholds' with ⟨others, hothers, hrest⟩ | ⟨e, herror, hfirst⟩
        · rw [hothers]
          exact Or.inl ⟨outputs :: others, rfl, .cons hentries hrest⟩
        · rw [herror]
          exact Or.inr ⟨e, rfl, hfirst.append_left hentries⟩
      · rw [Catalog.layerAnswers_cons_error herror]
        exact Or.inr ⟨e, rfl, hfirst.append_right rest.flatten⟩

theorem run_eval
    (hplan : build c name roots = .ok p) (hcrew : crew.Computes work p.steps) (s : σ) :
    (∃ r, (p.run c crew s).result = .ok r ∧
        List.Forall₂ (List.Forall₂ (c.HasValue work)) p.layers r.layers) ∨
      ∃ e, (p.run c crew s).result = .error e ∧ c.FirstFailure work p.steps e := by
  have hrun := run_result_of_staged hcrew (build_staged hplan) s
  have hbefore : p.layers = [] ++ p.layers := rfl
  rcases layerAnswers_eval work hplan hbefore (Catalog.holds_nil []) with
    ⟨outputs, hok, hentries⟩ | ⟨e, herror, hfirst⟩
  · rw [hok] at hrun
    exact Or.inl ⟨{ layers := outputs }, hrun, hentries⟩
  · rw [herror] at hrun
    exact Or.inr ⟨e, hrun, hfirst⟩

/-- The results of a run give the values of the steps, and nothing under any other name. -/
theorem lookups_of_hasValue
    (hplan : build c name roots = .ok p) {r : RunResult}
    (hentries : List.Forall₂ (List.Forall₂ (c.HasValue work)) p.layers r.layers) :
    (∀ i ∈ p.steps, ∀ v, c.eval work i = .ok v →
      r.get? (c.name i) = some v ∧ r.outputs.get? (c.name i) = some v) ∧
    ∀ other, other ∉ p.steps.map c.name →
      r.get? other = none ∧ r.outputs.get? other = none := by
  have hall : List.Forall₂ (c.HasValue work) p.steps r.layers.flatten :=
    List.rel_flatten hentries
  have hnames := names_nodup hplan
  have hkeys := Catalog.names_of_hasValue hall
  have hnodup : (r.layers.flatten.map Prod.fst).Nodup := hkeys ▸ hnames
  have hget : ∀ key, r.get? key = Members.get? key r.layers.flatten :=
    fun key => Members.lookup_eq_get? key _
  have houtputs : ∀ key, r.outputs.get? key = Members.get? key r.layers.flatten :=
    fun key => Members.get?_ofEntries_of_nodup hnodup key
  constructor
  · intro i hi v hvalue
    obtain ⟨v', hvalue', hfound⟩ := Catalog.get?_of_hasValue hall hnames hi
    have hsame : v' = v := Except.ok.inj (hvalue'.symm.trans hvalue)
    rw [hget, houtputs, hfound, hsame]
    exact ⟨rfl, rfl⟩
  · intro other hother
    rw [← hkeys, ← Members.get?_eq_none_iff] at hother
    rw [hget, houtputs, hother]
    exact ⟨rfl, rfl⟩

/-- A run of an accepted plan gives every step its value.  No step misses a result; when all
steps have values, these are the results, layer by layer and under their names alone; and
when the work of a step fails on arguments with values, the run ends with the failure of
the first such step. -/
theorem run_evaluates
    (hplan : build c name roots = .ok p) (hcrew : crew.Computes work p.steps) (s : σ) :
    (∀ step dependency, (p.run c crew s).result ≠ .error (.missingResult step dependency)) ∧
    ((∀ i ∈ p.steps, ∃ v, c.eval work i = .ok v) →
      ∃ r, (p.run c crew s).result = .ok r ∧
        List.Forall₂ (List.Forall₂ (c.HasValue work)) p.layers r.layers ∧
        (∀ i ∈ p.steps, ∀ v, c.eval work i = .ok v →
          r.get? (c.name i) = some v ∧ r.outputs.get? (c.name i) = some v) ∧
        ∀ other, other ∉ p.steps.map c.name →
          r.get? other = none ∧ r.outputs.get? other = none) ∧
    ∀ i ∈ p.steps, ∀ failure, c.FailsWith work i failure →
      ∃ e, (p.run c crew s).result = .error e ∧ c.FirstFailure work p.steps e := by
  rcases run_eval hplan hcrew s with ⟨r, hrun, hentries⟩ | ⟨e, hrun, hfirst⟩
  · rw [hrun]
    refine ⟨nofun, ?_, ?_⟩
    · intro _
      exact ⟨r, rfl, hentries, lookups_of_hasValue hplan hentries⟩
    · intro i hi failure hfails
      have hall : List.Forall₂ (c.HasValue work) p.steps r.layers.flatten :=
        List.rel_flatten hentries
      obtain ⟨v, hvalue, -⟩ := Catalog.exists_value_of_hasValue hall hi
      rw [hfails.eval_eq_error] at hvalue
      cases hvalue
  · rw [hrun]
    refine ⟨?_, ?_, fun _ _ _ _ => ⟨e, rfl, hfirst⟩⟩
    · obtain ⟨_, _, _, _, _, _, _, rfl⟩ := hfirst
      exact nofun
    · intro hvalues
      obtain ⟨before, i, after, failure, hsplit, -, hfails, -⟩ := hfirst
      have hi : i ∈ p.steps := by simp [hsplit]
      obtain ⟨v, hvalue⟩ := hvalues i hi
      rw [hfails.eval_eq_error] at hvalue
      cases hvalue

/-- In the diamond every step makes a list of its arguments. -/
def listed : Nat → List Value → Except Failure Value := fun _ args => .ok (.array args)

theorem eval_listed_last :
    diamond.eval listed 3 = .ok (.array
      [.array [.array [], .string "-l"], .array [.array [], .string "-r"]]) := by
  simp [Catalog.eval_eq, Catalog.evalArguments, Catalog.slotValue, Catalog.step, diamond, listed,
    bind, Except.bind, pure, Except.pure]

/-- The result of the last step is that of the recursion, and no other name is there. -/
theorem run_evaluates_diamond :
    build diamond "diamond" [3] = .ok diamondPlan ∧
    (Crew.pure listed : Crew Unit).Computes listed diamondPlan.steps ∧
    (∀ i ∈ diamondPlan.steps, ∃ v, diamond.eval listed i = .ok v) ∧
    ∃ r, (diamondPlan.run diamond (.pure listed) ()).result = .ok r ∧
      r.get? "join" = some (.array
        [.array [.array [], .string "-l"], .array [.array [], .string "-r"]]) ∧
      r.outputs.get? "middle" = none := by
  have hvalues : ∀ i ∈ diamondPlan.steps, ∃ v, diamond.eval listed i = .ok v :=
    fun i _ => Catalog.exists_eval (fun _ args => ⟨.array args, rfl⟩) i
  refine ⟨build_diamond, Crew.pure_computes _ _, hvalues, ?_⟩
  obtain ⟨r, hrun, -, hlookup, hother⟩ :=
    (run_evaluates build_diamond (Crew.pure_computes listed _) ()).2.1 hvalues
  have hmiddle : "middle" ∉ diamondPlan.steps.map diamond.name := by decide
  exact ⟨r, hrun, (hlookup 3 (by decide) _ eval_listed_last).1, (hother "middle" hmiddle).2⟩

end Plan

end WorkPlan
