import Mathlib.Tactic
import WorkPlan.Step.Basic

/-!
# How a step comes from its additions

Additions of one kind count in the order in which they were made; where those of other kinds
stand between them is of no account.  What a draft gathers is what its additions append, one
after the other, and of everything else the last addition stands.  A step lists what it holds
in the order of first mention, the arguments before the rest.
-/

namespace WorkPlan

open Json

/-! ## Lists by first mention -/

/-- The numbers of a list, each once, in the order of their first places. -/
structure ListedOnce (all once : List Nat) : Prop where
  mem_iff : ∀ i, i ∈ once ↔ i ∈ all
  nodup : once.Nodup
  in_order : once.Pairwise fun i j => all.idxOf i < all.idxOf j

section ListedOnce

variable {numbers : List Nat} {i j : Nat}

theorem idxOf_lt_of_filter
    {keep : Nat → Bool} (hi : keep i = true) (hj : keep j = true)
    (hlt : (numbers.filter keep).idxOf i < (numbers.filter keep).idxOf j) :
    numbers.idxOf i < numbers.idxOf j := by
  induction numbers with
  | nil => simp at hlt
  | cons first numbers ih =>
      by_cases hfirst : keep first = true
      · rw [List.filter_cons_of_pos hfirst] at hlt
        by_cases hsame : first = j
        · subst hsame
          simp at hlt
        · rw [List.idxOf_cons_ne _ hsame] at hlt ⊢
          by_cases hstart : first = i
          · subst hstart
            simp
          · rw [List.idxOf_cons_ne _ hstart] at hlt ⊢
            exact Nat.succ_lt_succ (ih (Nat.lt_of_succ_lt_succ hlt))
      · rw [List.filter_cons_of_neg hfirst] at hlt
        have hnot : ∀ {k}, keep k = true → first ≠ k := fun hk hsame => hfirst (hsame ▸ hk)
        rw [List.idxOf_cons_ne _ (hnot hi), List.idxOf_cons_ne _ (hnot hj)]
        exact Nat.succ_lt_succ (ih hlt)

theorem eraseDups_in_order :
    ∀ numbers : List Nat,
      numbers.eraseDups.Pairwise fun i j => numbers.idxOf i < numbers.idxOf j
  | [] => by simp
  | first :: numbers => by
      have hkept : ∀ {k}, k ∈ (numbers.filter fun k => !k == first).eraseDups →
          (!k == first) = true := fun hk => (List.mem_filter.mp (List.mem_eraseDups.mp hk)).2
      have hother : ∀ {k}, (!k == first) = true → first ≠ k := by
        rintro k hk rfl
        simp at hk
      rw [List.eraseDups_cons, List.pairwise_cons]
      constructor
      · intro j hj
        rw [List.idxOf_cons_self, List.idxOf_cons_ne _ (hother (hkept hj))]
        exact Nat.succ_pos _
      · apply (eraseDups_in_order (numbers.filter fun k => !k == first)).imp_of_mem
        intro i j hi hj hlt
        rw [List.idxOf_cons_ne _ (hother (hkept hi)), List.idxOf_cons_ne _ (hother (hkept hj))]
        exact Nat.succ_lt_succ (idxOf_lt_of_filter (hkept hi) (hkept hj) hlt)
termination_by numbers => numbers.length
decreasing_by
  exact Nat.lt_succ_of_le (List.length_filter_le _ _)

theorem listedOnce_eraseDups (numbers : List Nat) : ListedOnce numbers numbers.eraseDups where
  mem_iff := fun _ => List.mem_eraseDups
  nodup := by
    apply (eraseDups_in_order numbers).imp
    rintro i j hlt rfl
    exact lt_irrefl _ hlt
  in_order := eraseDups_in_order numbers

end ListedOnce

/-! ## What an addition gives -/

namespace Addition

/-- What an addition is made for. -/
inductive Kind
  | name
  | nameBase
  | description
  | argument
  | after
  | afterNamed
  | retry
  | deployment
deriving DecidableEq

def kind : Addition → Kind
  | .name _ => .name
  | .nameBase _ => .nameBase
  | .description _ => .description
  | .literal _ | .result _ | .slots _ => .argument
  | .after _ => .after
  | .afterNamed _ => .afterNamed
  | .retry _ => .retry
  | .deployment _ => .deployment

/-- The arguments that an addition appends. -/
def appended : Addition → List Slot
  | .literal v => [.literal v]
  | .result i => [.result i]
  | .slots more => more
  | _ => []

def wait? : Addition → Option Wait
  | .after i => some (.step i)
  | .afterNamed s => some (.named s)
  | _ => none

def after? : Addition → Option Nat
  | .after i => some i
  | _ => none

def afterNamed? : Addition → Option String
  | .afterNamed s => some s
  | _ => none

def name? : Addition → Option String
  | .name s => some s
  | _ => none

def nameBase? : Addition → Option String
  | .nameBase s => some s
  | _ => none

def description? : Addition → Option String
  | .description s => some s
  | _ => none

def retry? : Addition → Option Retry
  | .retry r => some r
  | _ => none

def deployment? : Addition → Option Deployment
  | .deployment m => some m
  | _ => none

/-- What the last addition that gives something of a sort gives. -/
def lastGiven {α : Type} (given : Addition → Option α) (additions : List Addition) : Option α :=
  (additions.filterMap given).getLast?

/-- The additions of each kind are the same, in the same order. -/
def SameByKind (additions others : List Addition) : Prop :=
  ∀ kind, additions.filter (fun a => a.kind = kind) = others.filter fun a => a.kind = kind

variable {α : Type} {additions others : List Addition} {kind : Kind}

theorem flatMap_filter_kind
    {given : Addition → List α} (hkind : ∀ a, a.kind ≠ kind → given a = []) :
    (additions.filter fun a => a.kind = kind).flatMap given = additions.flatMap given := by
  induction additions with
  | nil => rfl
  | cons a additions ih =>
      by_cases ha : a.kind = kind
      · rw [List.filter_cons_of_pos (by simpa using ha), List.flatMap_cons, List.flatMap_cons, ih]
      · rw [List.filter_cons_of_neg (by simpa using ha), List.flatMap_cons, hkind a ha,
          List.nil_append, ih]

theorem SameByKind.flatMap_eq
    (hsame : SameByKind additions others) (kind : Kind) {given : Addition → List α}
    (hkind : ∀ a, a.kind ≠ kind → given a = []) :
    additions.flatMap given = others.flatMap given := by
  rw [← flatMap_filter_kind hkind, hsame kind, flatMap_filter_kind hkind]

theorem SameByKind.filterMap_eq
    (hsame : SameByKind additions others) (kind : Kind) {given : Addition → Option α}
    (hkind : ∀ a, a.kind ≠ kind → given a = none) :
    additions.filterMap given = others.filterMap given := by
  rw [List.filterMap_eq_flatMap_toList, List.filterMap_eq_flatMap_toList]
  apply hsame.flatMap_eq kind
  intro a ha
  rw [hkind a ha]
  rfl

theorem SameByKind.lastGiven_eq
    (hsame : SameByKind additions others) (kind : Kind) {given : Addition → Option α}
    (hkind : ∀ a, a.kind ≠ kind → given a = none) :
    lastGiven given additions = lastGiven given others := by
  rw [lastGiven, hsame.filterMap_eq kind hkind]
  rfl

end Addition

/-! ## What a draft has gathered -/

namespace Draft

variable {α : Type} (additions : List Addition)

theorem ofAdditions_append (a : Addition) :
    ofAdditions (additions ++ [a]) = (ofAdditions additions).add a :=
  List.foldl_concat add {} a additions

/-- A part to which each addition may append is what they append, in order. -/
theorem ofAdditions_gathered
    (part : Draft → List α) {given : Addition → List α}
    (hadd : ∀ d a, part (d.add a) = part d ++ given a) (hempty : part {} = []) :
    part (ofAdditions additions) = additions.flatMap given := by
  induction additions using List.reverseRecOn with
  | nil => exact hempty
  | append_singleton additions a ih =>
      rw [ofAdditions_append, hadd, ih, List.flatMap_append, List.flatMap_singleton]

/-- A part that each addition may replace is what the last of these put there. -/
theorem ofAdditions_replaced
    (part : Draft → α) {given : Addition → Option α}
    (hadd : ∀ d a, part (d.add a) = (given a).getD (part d)) :
    part (ofAdditions additions) = (Addition.lastGiven given additions).getD (part {}) := by
  induction additions using List.reverseRecOn with
  | nil => rfl
  | append_singleton additions a ih =>
      rw [ofAdditions_append, hadd, ih]
      unfold Addition.lastGiven
      rw [List.filterMap_append, List.getLast?_append]
      cases hgiven : given a <;> simp [hgiven]

theorem ofAdditions_lastGiven
    (part : Draft → Option α) {given : Addition → Option α}
    (hadd : ∀ d a, part (d.add a) = (given a).or (part d)) (hempty : part {} = none) :
    part (ofAdditions additions) = Addition.lastGiven given additions := by
  have hreplaced : ∀ d a, part (d.add a) = ((given a).map some).getD (part d) := by
    intro d a
    rw [hadd]
    cases given a <;> rfl
  have hlast : Addition.lastGiven (fun a => (given a).map some) additions =
      (Addition.lastGiven given additions).map some := by
    rw [Addition.lastGiven, ← List.map_filterMap, List.getLast?_map]
    rfl
  rw [ofAdditions_replaced additions part hreplaced, hlast, hempty]
  cases Addition.lastGiven given additions <;> rfl

theorem ofAdditions_slots :
    (ofAdditions additions).slots = additions.flatMap Addition.appended := by
  refine ofAdditions_gathered additions Draft.slots ?_ rfl
  intro d a
  cases a <;> simp [add, Addition.appended]

theorem ofAdditions_waits :
    (ofAdditions additions).waits = additions.filterMap Addition.wait? := by
  rw [List.filterMap_eq_flatMap_toList]
  refine ofAdditions_gathered additions Draft.waits ?_ rfl
  intro d a
  cases a <;> simp [add, Addition.wait?]

theorem ofAdditions_name :
    (ofAdditions additions).name = Addition.lastGiven Addition.name? additions := by
  refine ofAdditions_lastGiven additions Draft.name ?_ rfl
  intro d a
  cases a <;> rfl

theorem ofAdditions_nameBase :
    (ofAdditions additions).nameBase = Addition.lastGiven Addition.nameBase? additions := by
  refine ofAdditions_lastGiven additions Draft.nameBase ?_ rfl
  intro d a
  cases a <;> rfl

theorem ofAdditions_description :
    (ofAdditions additions).description = Addition.lastGiven Addition.description? additions := by
  refine ofAdditions_lastGiven additions Draft.description ?_ rfl
  intro d a
  cases a <;> rfl

theorem ofAdditions_retry :
    (ofAdditions additions).retry = Addition.lastGiven Addition.retry? additions := by
  refine ofAdditions_lastGiven additions Draft.retry ?_ rfl
  intro d a
  cases a <;> rfl

theorem ofAdditions_deployment :
    (ofAdditions additions).deployment =
      (Addition.lastGiven Addition.deployment? additions).getD {} := by
  refine ofAdditions_replaced additions Draft.deployment ?_
  intro d a
  cases a <;> rfl

end Draft

/-! ## The step that is built -/

/-- The step has the parts that the additions to its draft give, kind by kind. -/
structure Step.MadeOf (additions : List Addition) (unique : String) (work : Work) (s : Step) :
    Prop where
  name : s.name = (Addition.lastGiven Addition.name? additions).getD
    (uniqueName unique
      ((Addition.lastGiven Addition.nameBase? additions).getD defaultNameBase) longestStepName)
  description : s.description = Addition.lastGiven Addition.description? additions
  slots : s.slots = additions.flatMap Addition.appended
  handles : ListedOnce
    ((additions.flatMap Addition.appended).filterMap Slot.step? ++
      additions.filterMap Addition.after?) s.handles
  namedWaits : s.namedWaits = additions.filterMap Addition.afterNamed?
  retry : s.retry = Addition.lastGiven Addition.retry? additions
  deployment : s.deployment = (Addition.lastGiven Addition.deployment? additions).getD {}
  work : s.work = work

/-- Nobody who uses the two steps finds a difference. -/
structure Step.Agrees (s t : Step) : Prop where
  name : s.name = t.name
  description : s.description = t.description
  slots : s.slots = t.slots
  handles : s.handles = t.handles
  namedWaits : s.namedWaits = t.namedWaits
  retry : s.retry = t.retry
  deployment : s.deployment = t.deployment
  work : s.work = t.work

theorem Step.Agrees.eq_of_waits
    {s t : Step} (hagrees : s.Agrees t) (hwaits : s.waits = t.waits) : s = t := by
  cases s
  cases t
  obtain ⟨rfl, rfl, rfl, -, -, rfl, rfl, rfl⟩ := hagrees
  obtain rfl := hwaits
  rfl

namespace Draft

variable (additions : List Addition) (unique : String) (work : Work)

theorem build_waits :
    ((ofAdditions additions).build unique work).waits = additions.filterMap Addition.wait? :=
  ofAdditions_waits additions

theorem build_references :
    ((ofAdditions additions).build unique work).references =
      (additions.flatMap Addition.appended).filterMap Slot.step? ++
        additions.filterMap Addition.after? := by
  have hslots : ((ofAdditions additions).build unique work).slots =
      additions.flatMap Addition.appended := ofAdditions_slots additions
  have hafter : (fun a => (Addition.wait? a).bind Wait.step?) = Addition.after? := by
    funext a
    cases a <;> rfl
  rw [Step.references, hslots, build_waits, List.filterMap_filterMap, hafter]

theorem build_namedWaits :
    ((ofAdditions additions).build unique work).namedWaits =
      additions.filterMap Addition.afterNamed? := by
  have hnamed : (fun a => (Addition.wait? a).bind Wait.name?) = Addition.afterNamed? := by
    funext a
    cases a <;> rfl
  rw [Step.namedWaits, build_waits, List.filterMap_filterMap, hnamed]

theorem build_name :
    ((ofAdditions additions).build unique work).name =
      (Addition.lastGiven Addition.name? additions).getD
        (uniqueName unique
          ((Addition.lastGiven Addition.nameBase? additions).getD defaultNameBase)
          longestStepName) := by
  rw [← ofAdditions_name, ← ofAdditions_nameBase]
  change (ofAdditions additions).stepName unique = _
  unfold stepName
  cases (ofAdditions additions).name <;> rfl

theorem build_madeOf :
    ((ofAdditions additions).build unique work).MadeOf additions unique work where
  name := build_name additions unique work
  description := ofAdditions_description additions
  slots := ofAdditions_slots additions
  handles := by
    rw [← build_references additions unique work]
    exact listedOnce_eraseDups _
  namedWaits := build_namedWaits additions unique work
  retry := ofAdditions_retry additions
  deployment := ofAdditions_deployment additions
  work := rfl

variable {additions} {others : List Addition}

theorem build_agrees (hsame : Addition.SameByKind additions others) :
    ((ofAdditions additions).build unique work).Agrees
      ((ofAdditions others).build unique work) := by
  have hmade := build_madeOf additions unique work
  have hother := build_madeOf others unique work
  have hname : Addition.lastGiven Addition.name? additions =
      Addition.lastGiven Addition.name? others :=
    hsame.lastGiven_eq .name fun a => by cases a <;> simp [Addition.kind, Addition.name?]
  have hbase : Addition.lastGiven Addition.nameBase? additions =
      Addition.lastGiven Addition.nameBase? others :=
    hsame.lastGiven_eq .nameBase fun a => by cases a <;> simp [Addition.kind, Addition.nameBase?]
  have hdescription : Addition.lastGiven Addition.description? additions =
      Addition.lastGiven Addition.description? others :=
    hsame.lastGiven_eq .description fun a => by
      cases a <;> simp [Addition.kind, Addition.description?]
  have hslots : additions.flatMap Addition.appended = others.flatMap Addition.appended :=
    hsame.flatMap_eq .argument fun a => by cases a <;> simp [Addition.kind, Addition.appended]
  have hafter : additions.filterMap Addition.after? = others.filterMap Addition.after? :=
    hsame.filterMap_eq .after fun a => by cases a <;> simp [Addition.kind, Addition.after?]
  have hnamed : additions.filterMap Addition.afterNamed? =
      others.filterMap Addition.afterNamed? :=
    hsame.filterMap_eq .afterNamed fun a => by
      cases a <;> simp [Addition.kind, Addition.afterNamed?]
  have hretry : Addition.lastGiven Addition.retry? additions =
      Addition.lastGiven Addition.retry? others :=
    hsame.lastGiven_eq .retry fun a => by cases a <;> simp [Addition.kind, Addition.retry?]
  have hdeployment : Addition.lastGiven Addition.deployment? additions =
      Addition.lastGiven Addition.deployment? others :=
    hsame.lastGiven_eq .deployment fun a => by
      cases a <;> simp [Addition.kind, Addition.deployment?]
  constructor
  · rw [hmade.name, hother.name, hname, hbase]
  · rw [hmade.description, hother.description, hdescription]
  · rw [hmade.slots, hother.slots, hslots]
  · rw [Step.handles, Step.handles, build_references, build_references, hslots, hafter]
  · rw [hmade.namedWaits, hother.namedWaits, hnamed]
  · rw [hmade.retry, hother.retry, hretry]
  · rw [hmade.deployment, hother.deployment, hdeployment]
  · rfl

variable (additions)

/-- The parts of a step are given by the additions of each kind, in their order.  Two sequences
of additions that differ in the order between kinds only make steps that agree, and the very
same step if they also take turns alike between what it waits for by number and by name. -/
theorem build_by_kinds :
    ((ofAdditions additions).build unique work).MadeOf additions unique work ∧
      ∀ others, Addition.SameByKind additions others →
        ((ofAdditions additions).build unique work).Agrees
            ((ofAdditions others).build unique work) ∧
          (additions.filterMap Addition.wait? = others.filterMap Addition.wait? →
            (ofAdditions additions).build unique work =
              (ofAdditions others).build unique work) := by
  refine ⟨build_madeOf additions unique work, fun others hsame => ?_⟩
  have hagrees := build_agrees unique work hsame
  refine ⟨hagrees, fun hwaits => hagrees.eq_of_waits ?_⟩
  rw [build_waits, build_waits, hwaits]

/-- Additions of several kinds in turn: all that is waited for is named before the arguments. -/
def mixedAdditions : List Addition :=
  [.after 2, .nameBase "load", .afterNamed "late", .after 1, .description "first", .name "mixed",
    .result 1, .afterNamed "late", .nameBase "store", .slots [.result 2, .literal .null, .result 0],
    .description "second", .result 2]

/-- The same additions, kind by kind. -/
def sortedAdditions : List Addition :=
  [.name "mixed", .nameBase "load", .nameBase "store", .description "first",
    .description "second", .result 1, .slots [.result 2, .literal .null, .result 0], .result 2,
    .after 2, .after 1, .afterNamed "late", .afterNamed "late"]

theorem build_by_kinds_mixed :
    Addition.SameByKind mixedAdditions sortedAdditions ∧
      ((ofAdditions mixedAdditions).build "" .nothing).Agrees
        ((ofAdditions sortedAdditions).build "" .nothing) ∧
      ((ofAdditions sortedAdditions).build "" .nothing).name = "mixed" ∧
      ((ofAdditions sortedAdditions).build "" .nothing).handles = [1, 2, 0] ∧
      ((ofAdditions sortedAdditions).build "" .nothing).namedWaits = ["late", "late"] := by
  have hsame : Addition.SameByKind mixedAdditions sortedAdditions := by
    intro kind
    cases kind <;> rfl
  exact ⟨hsame, ((build_by_kinds mixedAdditions "" .nothing).2 _ hsame).1, rfl, rfl, rfl⟩

end Draft

end WorkPlan
