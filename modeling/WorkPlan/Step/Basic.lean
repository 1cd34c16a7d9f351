import WorkPlan.Step.Name
import WorkPlan.Step.Work
import WorkPlan.Workflow.Manifest

/-!
# Steps

A step wraps a work item.  Its arguments are values or the results of other steps; besides, it may
wait for steps whose results it does not use, held by number or known by name alone.  A draft
collects the parts of a step in any order.  A catalog holds the steps in the order in which they
were made; the place in it is the identity of a step, so steps of one name stay different, and a
step can only refer by number to steps made before it.
-/

namespace WorkPlan

open Json

inductive Slot
  | literal (value : Value)
  /-- The result of the step with the number. -/
  | result (step : Nat)

/-- A dependency that feeds no argument. -/
inductive Wait
  | step (step : Nat)
  | named (name : String)
deriving DecidableEq, Repr

namespace Slot

def step? : Slot → Option Nat
  | .literal _ => none
  | .result i => some i

end Slot

namespace Wait

def step? : Wait → Option Nat
  | .step i => some i
  | .named _ => none

def name? : Wait → Option String
  | .step _ => none
  | .named s => some s

end Wait

structure Step where
  name : String := ""
  description : Option String := none
  slots : List Slot := []
  waits : List Wait := []
  retry : Option Retry := none
  deployment : Deployment := {}
  work : Work := .nothing

instance : Inhabited Step := ⟨{}⟩

namespace Step

/-- The numbers of the steps that this one refers to, in the order in which it does. -/
def references (s : Step) : List Nat := s.slots.filterMap Slot.step? ++ s.waits.filterMap Wait.step?

/-- The steps held by number: those of arguments before the others, each once. -/
def handles (s : Step) : List Nat := s.references.eraseDups

/-- The dependencies known by name alone, in order and with repetitions. -/
def namedWaits (s : Step) : List String := s.waits.filterMap Wait.name?

end Step

/-! ## Drafts -/

/-- The parts of a step to be, as far as they are given. -/
structure Draft where
  name : Option String := none
  nameBase : Option String := none
  description : Option String := none
  slots : List Slot := []
  waits : List Wait := []
  retry : Option Retry := none
  deployment : Deployment := {}

/-- One addition to a draft. -/
inductive Addition
  | name (name : String)
  | nameBase (base : String)
  | description (text : String)
  | literal (value : Value)
  | result (step : Nat)
  | slots (slots : List Slot)
  | after (step : Nat)
  | afterNamed (name : String)
  | retry (retry : Retry)
  | deployment (deployment : Deployment)

namespace Draft

/-- Arguments and dependencies gather in order; of everything else the last addition counts. -/
def add (d : Draft) : Addition → Draft
  | .name s => { d with name := some s }
  | .nameBase s => { d with nameBase := some s }
  | .description s => { d with description := some s }
  | .literal v => { d with slots := d.slots ++ [.literal v] }
  | .result i => { d with slots := d.slots ++ [.result i] }
  | .slots more => { d with slots := d.slots ++ more }
  | .after i => { d with waits := d.waits ++ [.step i] }
  | .afterNamed s => { d with waits := d.waits ++ [.named s] }
  | .retry r => { d with retry := some r }
  | .deployment m => { d with deployment := m }

def ofAdditions (additions : List Addition) : Draft := additions.foldl add {}

/-- The name of the step: the given one, or one made unique from the given base. -/
def stepName (d : Draft) (unique : String) : String :=
  match d.name with
  | some name => name
  | none => uniqueName unique (d.nameBase.getD defaultNameBase) longestStepName

/-- The step with a work item; the unique part is for a name that is not given. -/
def build (d : Draft) (unique : String) (work : Work) : Step where
  name := d.stepName unique
  description := d.description
  slots := d.slots
  waits := d.waits
  retry := d.retry
  deployment := d.deployment
  work := work

end Draft

/-! ## Catalogs -/

/-- Steps by number, each referring only to earlier ones. -/
structure Catalog where
  steps : Array Step
  earlier : ∀ (i : Nat) (s : Step), steps[i]? = some s → ∀ j ∈ s.references, j < i

namespace Catalog

instance : EmptyCollection Catalog := ⟨⟨#[], by simp⟩⟩

def size (c : Catalog) : Nat := c.steps.size

/-- Adds a step, unless it refers to a step that is not there. -/
def push? (c : Catalog) (s : Step) : Option Catalog :=
  if h : ∀ j ∈ s.references, j < c.steps.size then
    some
      { steps := c.steps.push s
        earlier := by
          intro i t ht j hj
          rw [Array.getElem?_push] at ht
          split at ht
          · rename_i eq
            obtain rfl := Option.some.inj ht
            exact eq ▸ h j hj
          · exact c.earlier i t ht j hj }
  else none

/-- The step with a number; an empty step where there is none. -/
def step (c : Catalog) (i : Nat) : Step := c.steps[i]?.getD default

def name (c : Catalog) (i : Nat) : String := (c.step i).name

def handles (c : Catalog) (i : Nat) : List Nat := (c.step i).handles

theorem handle_lt (c : Catalog) {i j : Nat} (h : j ∈ c.handles i) : j < i := by
  unfold handles step at h
  cases found : c.steps[i]? with
  | none =>
    rw [found] at h
    simp [Step.handles, Step.references, default] at h
  | some s =>
    rw [found] at h
    exact c.earlier i s found j (by simpa [Step.handles] using h)

/-- All of a step but its work; a name that it waits for is listed once. -/
def manifest (c : Catalog) (i : Nat) : Manifest :=
  let s := c.step i
  let held := s.handles.map c.name
  { name := s.name
    description := s.description
    dependsOn := s.namedWaits.foldl (fun names n => if n ∈ names then names else names ++ [n]) held
    retry := s.retry
    deployment := s.deployment }

/-- The crew that calls the work items of the catalog; its state is the calls made so far. -/
def crew (c : Catalog) : Crew (List Nat) := fun i args earlier =>
  ((c.step i).work.call (earlier.count i) args, earlier ++ [i])

end Catalog

end WorkPlan
