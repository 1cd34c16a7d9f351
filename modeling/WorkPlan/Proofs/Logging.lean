import Mathlib.Tactic
import WorkPlan.Proofs.Calls

/-!
# What a sequential run logs

The log of a run tells its course.  A layer is announced when it is entered and a step when
its arguments are there, right before its work is called; a step that misses a result is
not announced.  Only work that fails is warned of, and the warning is the last line.
-/

namespace WorkPlan

open Json

variable {σ : Type}

namespace Log

/-- An event as a reader of the log sees it. -/
structure Line where
  level : Level
  message : String
  fields : List (String × Field)
deriving DecidableEq, Repr

def Event.line (e : Event) : Line := ⟨e.level, e.message, e.fields⟩

/-- The line for a layer that is entered. -/
def layerLine (index width : Nat) : Line :=
  ⟨.debug, "processing generation", [("generation", .count index), ("steps", .count width)]⟩

/-- The line for a step whose work is called. -/
def callLine (c : Catalog) (i : Nat) : Line :=
  ⟨.debug, "invoking step",
    [("step", .text (c.name i)), ("args", .count (c.step i).slots.length)]⟩

/-- The line for a step whose work failed. -/
def warningLine (step : String) (failure : Failure) : Line :=
  ⟨.warn, "step failed", [("step", .text step), ("error", .text failure.message)]⟩

/-- The lines for layers through which a run passes, the first of which has the index. -/
def layerLines (c : Catalog) : Nat → List (List Nat) → List Line
  | _, [] => []
  | index, steps :: rest =>
      layerLine index steps.length :: steps.map (callLine c) ++ layerLines c (index + 1) rest

/-- The lines for an error that ends a run. -/
def endLines : RunError → List Line
  | .stepFailed step failure => [warningLine step failure]
  | _ => []

def startLine (plan : String) : Line := ⟨.info, "starting local run", [("plan", .text plan)]⟩

def completionLine (plan : String) : Line :=
  ⟨.info, "local run completed", [("plan", .text plan)]⟩

namespace Line

/-- The line announces the call of a step. -/
def announcesCall (l : Line) : Bool := l.message = "invoking step"

def warns (l : Line) : Bool := l.level = .warn

end Line

/-! ### Lines of one kind -/

theorem callLines_announce (c : Catalog) (steps : List Nat) :
    (steps.map (callLine c)).filter Line.announcesCall = steps.map (callLine c) := by
  rw [List.filter_eq_self]
  intro l hl
  obtain ⟨i, -, rfl⟩ := List.mem_map.mp hl
  rfl

theorem callLines_warn (c : Catalog) (steps : List Nat) :
    (steps.map (callLine c)).filter Line.warns = [] := by
  rw [List.filter_eq_nil_iff]
  intro l hl
  obtain ⟨i, -, rfl⟩ := List.mem_map.mp hl
  exact nofun

theorem layerLines_announce (c : Catalog) (index : Nat) (layers : List (List Nat)) :
    (layerLines c index layers).filter Line.announcesCall =
      layers.flatten.map (callLine c) := by
  induction layers generalizing index with
  | nil => rfl
  | cons steps rest ih =>
      have hlayer : (layerLine index steps.length).announcesCall = false := rfl
      rw [layerLines, List.cons_append, List.filter_cons_of_neg (by simp [hlayer]),
        List.filter_append, callLines_announce, ih, List.flatten_cons, List.map_append]

theorem layerLines_warn (c : Catalog) (index : Nat) (layers : List (List Nat)) :
    (layerLines c index layers).filter Line.warns = [] := by
  induction layers generalizing index with
  | nil => rfl
  | cons steps rest ih =>
      have hlayer : (layerLine index steps.length).warns = false := rfl
      rw [layerLines, List.cons_append, List.filter_cons_of_neg (by simp [hlayer]),
        List.filter_append, callLines_warn, ih, List.append_nil]

theorem endLines_announce (e : RunError) : (endLines e).filter Line.announcesCall = [] := by
  cases e <;> rfl

theorem endLines_warn (e : RunError) : (endLines e).filter Line.warns = endLines e := by
  cases e <;> rfl

end Log

namespace Journal

def lines (j : Journal σ) : List Log.Line := j.events.map Log.Event.line

@[simp] theorem lines_start (s : σ) : ({ state := s } : Journal σ).lines = [] := rfl

@[simp] theorem calls_start (s : σ) : ({ state := s } : Journal σ).calls = [] := rfl

@[simp] theorem lines_log (j : Journal σ) (event : Log.Event) :
    (j.log event).lines = j.lines ++ [event.line] := by
  simp [lines, log]

@[simp] theorem lines_mark (j : Journal σ) (m : Mark) : (j.mark m).lines = j.lines := rfl

@[simp] theorem lines_call (crew : Crew σ) (step : Nat) (args : List Value) (j : Journal σ) :
    (j.call crew step args).2.lines = j.lines := rfl

end Journal

/-! ## Steps and layers -/

theorem Catalog.argumentsFrom_length
    {c : Catalog} {i : Nat} {results : Members Value} {args : List Value}
    (hargs : c.argumentsFrom i results = .ok args) :
    args.length = (c.step i).slots.length :=
  (mapM_eq_ok_iff.mp hargs).length_eq.symm

theorem Catalog.missing_of_argumentsFrom
    {c : Catalog} {i : Nat} {results : Members Value} {e : RunError}
    (hargs : c.argumentsFrom i results = .error e) :
    ∃ dependency, e = .missingResult (c.name i) dependency := by
  obtain ⟨_, slot, _, -, -, hslot⟩ := mapM_eq_error_iff.mp hargs
  obtain ⟨j, -, -, rfl⟩ := Slot.value_eq_error_iff.mp hslot
  exact ⟨c.name j, rfl⟩

namespace Run

/-- Which of some steps are called when an error ends the run among them: those up to the
step whose work fails or crashes, or those in front of the step that misses a result. -/
inductive Halts (c : Catalog) : List Nat → List Nat → RunError → Prop
  | failed (before : List Nat) (i : Nat) (after : List Nat) (failure : Failure) :
      Halts c (before ++ i :: after) (before ++ [i]) (.stepFailed (c.name i) failure)
  | crashed (before : List Nat) (i : Nat) (after : List Nat) (message : String) :
      Halts c (before ++ i :: after) (before ++ [i]) (.crashed (c.name i) message)
  | missing (before : List Nat) (i : Nat) (after : List Nat) (dependency : String) :
      Halts c (before ++ i :: after) before (.missingResult (c.name i) dependency)

/-- The run adds to a journal the calls of steps and a line for each, and a warning if it
ends with the failure of a step. -/
structure Noted {α : Type}
    (c : Catalog) (steps : List Nat) (j : Journal σ) (r : Run σ α) : Prop where
  completed : r.error? = none →
    r.journal.calls = j.calls ++ steps ∧
      r.journal.lines = j.lines ++ steps.map (Log.callLine c)
  halted : ∀ e, r.error? = some e → ∃ called, Halts c steps called e ∧
    r.journal.calls = j.calls ++ called ∧
      r.journal.lines = j.lines ++ called.map (Log.callLine c) ++ Log.endLines e

variable {c : Catalog} {crew : Crew σ} {results : Members Value}

theorem Halts.append_left {steps called : List Nat} {e : RunError}
    (hhalts : Halts c steps called e) (done : List Nat) :
    Halts c (done ++ steps) (done ++ called) e := by
  cases hhalts with
  | failed before i after failure =>
      simpa using Halts.failed (c := c) (done ++ before) i after failure
  | crashed before i after message =>
      simpa using Halts.crashed (c := c) (done ++ before) i after message
  | missing _ i after dependency =>
      simpa using Halts.missing (c := c) (done ++ called) i after dependency

theorem Halts.append_right {steps called : List Nat} {e : RunError}
    (hhalts : Halts c steps called e) (more : List Nat) :
    Halts c (steps ++ more) called e := by
  cases hhalts with
  | failed before i after failure =>
      simpa using Halts.failed (c := c) before i (after ++ more) failure
  | crashed before i after message =>
      simpa using Halts.crashed (c := c) before i (after ++ more) message
  | missing _ i after dependency =>
      simpa using Halts.missing (c := c) called i (after ++ more) dependency

theorem step_lines
    {i : Nat} {args : List Value} (hargs : c.argumentsFrom i results = .ok args)
    (crew : Crew σ) (j : Journal σ) :
    (step c crew i results j).journal.lines =
      j.lines ++ Log.callLine c i ::
        (step c crew i results j).error?.toList.flatMap Log.endLines := by
  have hline : (Log.Event.stepInvoked (c.name i) args.length).line = Log.callLine c i := by
    rw [Catalog.argumentsFrom_length hargs]
    rfl
  have hwarning : ∀ failure : Failure,
      (Log.Event.stepFailed (c.name i) failure.message).line =
        Log.warningLine (c.name i) failure :=
    fun _ => rfl
  simp only [step, hargs]
  cases (Journal.call crew i args (j.log (.stepInvoked (c.name i) args.length))).1 <;>
    simp [hline, hwarning, error?, Log.endLines]

section Noted

variable {α β : Type} {steps more : List Nat} {j : Journal σ} {r : Run σ α} {r' : Run σ β}

theorem noted_of_completed
    (hends : r.error? = none) (hcalls : r.journal.calls = j.calls ++ steps)
    (hlines : r.journal.lines = j.lines ++ steps.map (Log.callLine c)) :
    Noted c steps j r where
  completed := fun _ => ⟨hcalls, hlines⟩
  halted := by
    intro e he
    rw [hends] at he
    cases he

theorem noted_of_halted
    {called : List Nat} {e : RunError} (hends : r.error? = some e)
    (hhalts : Halts c steps called e) (hcalls : r.journal.calls = j.calls ++ called)
    (hlines : r.journal.lines = j.lines ++ called.map (Log.callLine c) ++ Log.endLines e) :
    Noted c steps j r where
  completed := by
    intro hcompleted
    rw [hends] at hcompleted
    cases hcompleted
  halted := by
    intro e' he
    obtain rfl := Option.some.inj (hends.symm.trans he)
    exact ⟨called, hhalts, hcalls, hlines⟩

theorem Noted.append
    (hfirst : Noted c steps j r) (hgoes : r.error? = none) (hrest : Noted c more r.journal r') :
    Noted c (steps ++ more) j r' := by
  obtain ⟨hcalls, hlines⟩ := hfirst.completed hgoes
  constructor
  · intro hcompleted
    obtain ⟨hcalls', hlines'⟩ := hrest.completed hcompleted
    exact ⟨by rw [hcalls', hcalls, List.append_assoc],
      by rw [hlines', hlines, List.map_append, List.append_assoc]⟩
  · intro e he
    obtain ⟨called, hhalts, hcalls', hlines'⟩ := hrest.halted e he
    exact ⟨steps ++ called, hhalts.append_left steps,
      by rw [hcalls', hcalls, List.append_assoc],
      by rw [hlines', hlines, List.map_append, List.append_assoc j.lines]⟩

theorem Noted.append_steps
    (hfirst : Noted c steps j r) {e : RunError} (hends : r.error? = some e) (more : List Nat) :
    Noted c (steps ++ more) j r := by
  obtain ⟨called, hhalts, hcalls, hlines⟩ := hfirst.halted e hends
  exact noted_of_halted hends (hhalts.append_right more) hcalls hlines

theorem Noted.congr
    (hnoted : Noted c steps j r) (herror : r'.error? = r.error?)
    (hjournal : r'.journal = r.journal) :
    Noted c steps j r' := by
  constructor
  · rw [herror, hjournal]
    exact hnoted.completed
  · rw [herror, hjournal]
    exact hnoted.halted

end Noted

theorem step_noted (c : Catalog) (crew : Crew σ) (i : Nat) (results : Members Value)
    (j : Journal σ) :
    Noted c [i] j (step c crew i results j) := by
  cases hargs : c.argumentsFrom i results with
  | error e =>
      obtain ⟨dependency, rfl⟩ := Catalog.missing_of_argumentsFrom hargs
      have hstep : step c crew i results j =
          ⟨.error (.missingResult (c.name i) dependency), j⟩ := by
        simp only [step, hargs]
      rw [hstep]
      have hhalts : Halts c [i] [] (.missingResult (c.name i) dependency) :=
        .missing [] i [] dependency
      exact noted_of_halted rfl hhalts (by simp) (by simp [Log.endLines])
  | ok args =>
      have hcalls := step_calls hargs crew j
      have hlines := step_lines hargs crew j
      have hresult := (step_of_arguments hargs crew j).2
      cases houtcome : (crew i args j.state).1 with
      | returned v =>
          rw [houtcome] at hresult
          have hends := error?_of_ok hresult
          rw [hends] at hlines
          exact noted_of_completed hends hcalls (by simpa using hlines)
      | failed failure =>
          rw [houtcome] at hresult
          have hends := error?_of_error hresult
          rw [hends] at hlines
          have hhalts : Halts c [i] [i] (.stepFailed (c.name i) failure) :=
            .failed [] i [] failure
          exact noted_of_halted hends hhalts hcalls (by simpa using hlines)
      | crashed message =>
          rw [houtcome] at hresult
          have hends := error?_of_error hresult
          rw [hends] at hlines
          have hhalts : Halts c [i] [i] (.crashed (c.name i) message) :=
            .crashed [] i [] message
          exact noted_of_halted hends hhalts hcalls (by simpa using hlines)

theorem layer_noted
    (c : Catalog) (crew : Crew σ) (steps : List Nat) (results : Members Value) (j : Journal σ) :
    Noted c steps j (layer c crew steps results j) := by
  induction steps generalizing results j with
  | nil => exact noted_of_completed rfl (by simp [layer]) (by simp [layer])
  | cons i steps ih =>
      have hfirst := step_noted c crew i results j
      cases hstep : (step c crew i results j).result with
      | error e =>
          have hends := error?_of_error hstep
          rw [layer_cons_error hstep]
          exact (hfirst.append_steps hends steps).congr hends.symm rfl
      | ok v =>
          rw [layer_cons_ok hstep]
          exact (hfirst.append (error?_of_ok hstep) (ih _ _)).congr (error?_map _ _ _ _) rfl

/-! ## Layers -/

/-- The run adds to a journal the lines and the calls of the layers through which it passes
and, if it ends with an error, those of the layer in which it ends. -/
structure NotedFrom {α : Type}
    (c : Catalog) (index : Nat) (layers : List (List Nat)) (j : Journal σ) (r : Run σ α) :
    Prop where
  completed : r.error? = none →
    r.journal.calls = j.calls ++ layers.flatten ∧
      r.journal.lines = j.lines ++ Log.layerLines c index layers
  halted : ∀ e, r.error? = some e → ∃ before steps after called,
    layers = before ++ steps :: after ∧ Halts c steps called e ∧
      r.journal.calls = j.calls ++ (before.flatten ++ called) ∧
      r.journal.lines = j.lines ++ (Log.layerLines c index before ++
        Log.layerLine (index + before.length) steps.length ::
          called.map (Log.callLine c) ++ Log.endLines e)

theorem layersFrom_noted
    (c : Catalog) (crew : Crew σ) (index : Nat) (layers : List (List Nat))
    (results : Members Value) (j : Journal σ) :
    NotedFrom c index layers j (layersFrom c crew index layers results j) := by
  induction layers generalizing index results j with
  | nil =>
      constructor
      · intro _
        simp [layersFrom, Log.layerLines]
      · intro e he
        cases he
  | cons steps rest ih =>
      have hentered : (Log.Event.layerEntered index steps.length).line =
          Log.layerLine index steps.length := rfl
      have hfirst := layer_noted c crew steps results (j.log (.layerEntered index steps.length))
      cases hlayer : (layer c crew steps results
          (j.log (.layerEntered index steps.length))).result with
      | error e =>
          rw [layersFrom_cons_error hlayer]
          obtain ⟨called, hhalts, hcalls, hlines⟩ := hfirst.halted e (error?_of_error hlayer)
          constructor
          · intro hcompleted
            cases hcompleted
          · intro e' he
            cases he
            refine ⟨[], steps, rest, called, rfl, hhalts, by simpa using hcalls, ?_⟩
            simpa [hentered, Log.layerLines] using hlines
      | ok ended =>
          rw [layersFrom_cons_ok hlayer]
          obtain ⟨hcalls, hlines⟩ := hfirst.completed (error?_of_ok hlayer)
          have hrest := ih (index + 1) ended.1 (layer c crew steps results
            (j.log (.layerEntered index steps.length))).journal
          rw [Journal.calls_log] at hcalls
          rw [Journal.lines_log, hentered] at hlines
          constructor
          · intro hcompleted
            rw [error?_map] at hcompleted
            obtain ⟨hcalls', hlines'⟩ := hrest.completed hcompleted
            exact ⟨by rw [hcalls', hcalls, List.flatten_cons, List.append_assoc],
              by simp [hlines', hlines, Log.layerLines]⟩
          · intro e he
            rw [error?_map] at he
            obtain ⟨before, halted, after, called, rfl, hhalts, hcalls', hlines'⟩ :=
              hrest.halted e he
            refine ⟨steps :: before, halted, after, called, rfl, hhalts, ?_, ?_⟩
            · simp [hcalls', hcalls]
            · have hplace : index + 1 + before.length = index + (steps :: before).length := by
                simp only [List.length_cons]
                omega
              rw [hlines', hlines, hplace]
              simp [Log.layerLines]

/-! ## Runs -/

/-- The log of a run of layers, in view of its end and of the calls that it makes. -/
structure Logged (c : Catalog) (layers : List (List Nat)) (r : Run σ RunResult) : Prop where
  completed : ∀ results, r.result = .ok results →
    r.journal.calls = layers.flatten ∧ r.journal.lines = Log.layerLines c 0 layers
  stopped : ∀ e, r.result = .error e → ∃ before steps after called,
    layers = before ++ steps :: after ∧ Halts c steps called e ∧
      r.journal.calls = before.flatten ++ called ∧
      r.journal.lines = Log.layerLines c 0 before ++
        Log.layerLine before.length steps.length ::
          called.map (Log.callLine c) ++ Log.endLines e
  announced : r.journal.lines.filter Log.Line.announcesCall =
    r.journal.calls.map (Log.callLine c)
  warned : ∀ step failure, r.result = .error (.stepFailed step failure) →
    r.journal.lines.filter Log.Line.warns = [Log.warningLine step failure] ∧
      r.journal.lines.getLast? = some (Log.warningLine step failure)
  quiet : (∀ step failure, r.result ≠ .error (.stepFailed step failure)) →
    r.journal.lines.filter Log.Line.warns = []
  missing : ∀ step dependency, r.result = .error (.missingResult step dependency) →
    ∃ before i after, layers.flatten = before ++ i :: after ∧ r.journal.calls = before ∧
      c.name i = step ∧ c.FirstMissing before i dependency

section NotedFrom

variable {α : Type} {layers : List (List Nat)} {s : σ} {r : Run σ α}

theorem NotedFrom.passed
    (hnoted : NotedFrom c 0 layers { state := s } r) (hends : r.error? = none) :
    r.journal.calls = layers.flatten ∧ r.journal.lines = Log.layerLines c 0 layers := by
  simpa using hnoted.completed hends

theorem NotedFrom.stopped
    (hnoted : NotedFrom c 0 layers { state := s } r) {e : RunError} (hends : r.error? = some e) :
    ∃ before steps after called, layers = before ++ steps :: after ∧ Halts c steps called e ∧
      r.journal.calls = before.flatten ++ called ∧
      r.journal.lines = Log.layerLines c 0 before ++
        Log.layerLine before.length steps.length ::
          called.map (Log.callLine c) ++ Log.endLines e := by
  simpa using hnoted.halted e hends

theorem NotedFrom.announced (hnoted : NotedFrom c 0 layers { state := s } r) :
    r.journal.lines.filter Log.Line.announcesCall = r.journal.calls.map (Log.callLine c) := by
  cases hends : r.error? with
  | none =>
      obtain ⟨hcalls, hlines⟩ := hnoted.passed hends
      rw [hcalls, hlines, Log.layerLines_announce]
  | some e =>
      obtain ⟨before, steps, after, called, -, -, hcalls, hlines⟩ := hnoted.stopped hends
      have hlayer : ¬ (Log.layerLine before.length steps.length).announcesCall = true := nofun
      rw [hcalls, hlines, List.filter_append, List.filter_append,
        List.filter_cons_of_neg hlayer, Log.layerLines_announce, Log.callLines_announce,
        Log.endLines_announce, List.append_nil, List.map_append]

theorem NotedFrom.warnings (hnoted : NotedFrom c 0 layers { state := s } r) :
    r.journal.lines.filter Log.Line.warns = r.error?.toList.flatMap Log.endLines := by
  cases hends : r.error? with
  | none =>
      obtain ⟨-, hlines⟩ := hnoted.passed hends
      rw [hlines, Log.layerLines_warn]
      rfl
  | some e =>
      obtain ⟨before, steps, after, called, -, -, -, hlines⟩ := hnoted.stopped hends
      have hlayer : ¬ (Log.layerLine before.length steps.length).warns = true := nofun
      rw [hlines, List.filter_append, List.filter_append, List.filter_cons_of_neg hlayer,
        Log.layerLines_warn, Log.callLines_warn, Log.endLines_warn, Option.toList_some,
        List.flatMap_singleton]
      rfl

end NotedFrom

theorem sequential_noted
    (c : Catalog) (crew : Crew σ) (layers : List (List Nat)) (s : σ) :
    NotedFrom c 0 layers { state := s } (sequential c crew layers s) := by
  have hlayers := layersFrom_noted c crew 0 layers [] { state := s }
  constructor <;> rw [sequential_error?, sequential_journal]
  · exact hlayers.completed
  · exact hlayers.halted

theorem sequential_logged
    (c : Catalog) (crew : Crew σ) (layers : List (List Nat)) (s : σ) :
    Logged c layers (sequential c crew layers s) := by
  have hnoted := sequential_noted c crew layers s
  obtain ⟨calls, hcalls, hcourse⟩ := sequential_course c crew layers s
  constructor
  · exact fun _ hresults => hnoted.passed (error?_of_ok hresults)
  · exact fun _ he => hnoted.stopped (error?_of_error he)
  · exact hnoted.announced
  · intro step failure hfailed
    have hends := error?_of_error hfailed
    obtain ⟨before, steps, after, called, -, -, -, hlines⟩ := hnoted.stopped hends
    refine ⟨by rw [hnoted.warnings, hends]; rfl, ?_⟩
    rw [hlines, Log.endLines, List.getLast?_concat]
  · intro hother
    rw [hnoted.warnings]
    cases hresult : (sequential c crew layers s).result with
    | ok results => rw [error?_of_ok hresult]; rfl
    | error e =>
        rw [error?_of_error hresult]
        cases e with
        | stepFailed step failure => exact absurd hresult (hother step failure)
        | missingResult | notCompleted | crashed => rfl
  · intro step dependency hmissing
    rw [error?_of_error hmissing] at hcourse
    rw [hcalls]
    exact hcourse.calls_of_missing

end Run

/-! ## Runs of a plan -/

namespace Plan

theorem report_lines (before after : Log.Event) (r : Run σ RunResult) :
    (report before after r).journal.lines =
      before.line :: r.journal.lines ++ if r.result.isOk then [after.line] else [] := by
  unfold report Journal.lines
  cases r.result <;> simp [Except.isOk, Except.toBool]

/-- The log of a run tells its course, whatever its layers are and whatever the work does.
The run of a plan adds a line at its start and, if there are results, one at its end. -/
theorem run_logged (c : Catalog) (crew : Crew σ) (s : σ) :
    (∀ layers, Run.Logged c layers (.sequential c crew layers s)) ∧
      ∀ p : Plan, (p.run c crew s).result = (Run.sequential c crew p.layers s).result ∧
        (p.run c crew s).journal.lines =
          Log.startLine p.name :: (Run.sequential c crew p.layers s).journal.lines ++
            if (p.run c crew s).result.isOk then [Log.completionLine p.name] else [] :=
  ⟨fun layers => Run.sequential_logged c crew layers s, fun p =>
    ⟨rfl, report_lines (.runStarted p.name) (.runCompleted p.name)
      (.sequential c crew p.layers s)⟩⟩

end Plan

end WorkPlan
