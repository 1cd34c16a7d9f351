import Mathlib.Tactic
import WorkPlan.Proofs.Restoring

/-!
# What the reader of a record makes use of

A record in a JSON object is read off the values under the names of its fields.  Members
under other names are passed over, at every level of the object.  What a missing field is
read as depends on the field alone: some are read as null, others as their default, and
without the rest there is no record.  Of a record of several cases the same holds for the
tag and the fields of the case that it names.
-/

namespace WorkPlan

open Json

/-! ## The values under a name -/

namespace Members

universe u

variable {α : Type u} {key other : String} {members : Members α}

/-- The values under a name, which may be repeated. -/
def valuesOf (key : String) (members : Members α) : List α :=
  (members.filter (·.1 = key)).map Prod.snd

theorem valuesOf_cons (key : String) (entry : String × α) (members : Members α) :
    valuesOf key (entry :: members) =
      if entry.1 = key then entry.2 :: valuesOf key members else valuesOf key members := by
  by_cases hkey : entry.1 = key <;> simp [valuesOf, hkey]

theorem head?_valuesOf (key : String) (members : Members α) :
    (valuesOf key members).head? = get? key members := by
  induction members with
  | nil => rfl
  | cons entry members ih =>
      rw [valuesOf_cons]
      by_cases hkey : entry.1 = key
      · simp [get?, hkey]
      · simp [get?, hkey, Ne.symm hkey, ih]

theorem valuesOf_eq_nil_iff : valuesOf key members = [] ↔ get? key members = none := by
  rw [← head?_valuesOf, List.head?_eq_none_iff]

theorem get?_of_valuesOf {value : α} (hvalues : valuesOf key members = [value]) :
    get? key members = some value := by
  rw [← head?_valuesOf, hvalues, List.head?_cons]

theorem valuesOf_filter (keep : String → Bool) (hkeep : keep key = true) :
    valuesOf key (members.filter fun entry => keep entry.1) = valuesOf key members := by
  unfold valuesOf
  rw [List.filter_filter]
  congr 1
  apply List.filter_congr
  intro entry _
  by_cases hkey : entry.1 = key <;> simp [hkey, hkeep]

theorem valuesOf_filter_ne (hother : other ≠ key) :
    valuesOf other (members.filter (·.1 ≠ key)) = valuesOf other members := by
  have hkeep : decide (other ≠ key) = true := decide_eq_true hother
  exact valuesOf_filter (fun name => decide (name ≠ key)) hkeep

theorem valuesOf_insert_self (value : α) (hnone : get? key members = none) :
    valuesOf key (members.insert key value) = [value] := by
  induction members with
  | nil => simp [insert, valuesOf]
  | cons entry members ih =>
      unfold get? at hnone
      split at hnone
      next => cases hnone
      next hkey =>
        have hentry : entry.1 ≠ key := Ne.symm hkey
        have hrest : valuesOf key members = [] := valuesOf_eq_nil_iff.mpr hnone
        unfold insert
        split
        · simp [valuesOf_cons, hentry, hrest]
        · rw [valuesOf_cons, if_neg hentry]
          exact ih hnone

theorem valuesOf_insert_ne (value : α) (hother : other ≠ key) :
    valuesOf other (members.insert key value) = valuesOf other members := by
  induction members with
  | nil => simp [insert, valuesOf, Ne.symm hother]
  | cons entry members ih =>
      unfold insert
      split
      · simp [valuesOf_cons, Ne.symm hother]
      · split
        next hkey => simp [valuesOf_cons, ← hkey, Ne.symm hother]
        next => simp only [valuesOf_cons, ih]

end Members

namespace Codec

variable {members members' : Members Value} {d : Dialect} {names : List String} {tag : String}

theorem fields?_toTree (d : Dialect) (names : List String) (members : Members Value) :
    fields? d names (Value.object members).toTree =
      if ∀ name ∈ names, (members.valuesOf name).length ≤ 1 then
        some fun name => (members.valuesOf name).head?.map Value.toTree
      else none := by
  have hfield : (fun name => List.lookup name (Value.entriesOf members)) =
      fun name => (members.valuesOf name).head?.map Value.toTree := by
    funext name
    rw [Members.lookup_eq_get?, Value.entriesOf_eq_map, Members.get?_map_values,
      Members.head?_valuesOf]
  have hlength (name : String) : ((Value.entriesOf members).filter (·.1 = name)).length =
      (members.valuesOf name).length := by
    rw [Value.entriesOf_eq_map, List.filter_map, List.length_map, Members.valuesOf,
      List.length_map]
    rfl
  rw [Value.toTree, fields?, hfield]
  simp only [hlength, List.all_eq_true, decide_eq_true_eq]

theorem tagged?_toTree (tag : String) (members : Members Value) :
    tagged? tag (Value.object members).toTree =
      match members.valuesOf tag with
      | [v] => some (v.toTree, (Value.object (members.filter (·.1 ≠ tag))).toTree)
      | _ => none := by
  have htags : (Value.entriesOf members).filter (·.1 = tag) =
      (members.filter (·.1 = tag)).map fun entry => (entry.1, entry.2.toTree) := by
    rw [Value.entriesOf_eq_map, List.filter_map]
    rfl
  rw [Value.toTree, tagged?]
  simp only [htags, Members.valuesOf, Value.entriesOf_filter, Value.readableEntries_entriesOf,
    if_true]
  generalize members.filter (·.1 = tag) = entries
  rcases entries with - | ⟨entry, - | ⟨second, rest⟩⟩ <;> rfl

/-! ## Fields -/

/-- What becomes of a record in which a field is missing. -/
inductive Absence
  /-- There is no record. -/
  | rejected
  /-- It is read as though null were written there. -/
  | null
  /-- It is read as though a default were written there. -/
  | default (encoding : Value)

/-- What a missing field is read as. -/
def Absence.standIn? : Absence → Option Value
  | .rejected => none
  | .null => some .null
  | .default encoding => some encoding

/-- A field that a record may have. -/
structure Field where
  name : String
  absence : Absence := .rejected
  /-- What is left of a value in the field without the members that nobody reads. -/
  trim : Value → Value := id

/-- The members under the names of fields. -/
def keepFields (fields : List Field) (members : Members Value) : Members Value :=
  members.filter fun entry => entry.1 ∈ fields.map Field.name

/-- The members under the names of fields, with what is left of their values. -/
def trimFields (fields : List Field) (members : Members Value) : Members Value :=
  members.filterMap fun entry =>
    (fields.find? (·.name = entry.1)).map fun f => (entry.1, f.trim entry.2)

/-- What is left of a value whose members have the given fields. -/
def trim (fieldsOf : Members Value → List Field) : Value → Value
  | .object members => .object (trimFields (fieldsOf members) members)
  | v => v

def trimItems (trim : Value → Value) : Value → Value
  | .array items => .array (items.map trim)
  | v => v

/-- The fields of a tagged record: its tag and the fields of the case that the tag names. -/
def caseFields (d : Dialect) (tag : String) (cases : List (String × List Field))
    (members : Members Value) : List Field :=
  let chosen := do
    let v ← members.get? tag
    let place ← case? d (cases.map Prod.fst) v.toTree
    cases[place]?
  { name := tag } :: (chosen.map Prod.snd).getD []

/-- The laws of a reader for records with the given fields. -/
structure Tolerant {α : Type} (read : Tree → Option α) (fieldsOf : Members Value → List Field) :
    Prop where
  /-- Members that are no fields change nothing. -/
  passes_over : ∀ members : Members Value,
    read (Value.object (keepFields (fieldsOf members) members)).toTree =
      read (Value.object members).toTree
  /-- They change nothing inside of fields either. -/
  passes_over_inside : ∀ v : Value, read (trim fieldsOf v).toTree = read v.toTree
  /-- A missing field is read as what stands in for it. -/
  fills : ∀ members : Members Value, ∀ f ∈ fieldsOf members, members.get? f.name = none →
    ∀ v ∈ f.absence.standIn?,
      read (Value.object (members.insert f.name v)).toTree = read (Value.object members).toTree
  /-- Without a field for which nothing stands in there is no record. -/
  rejects : ∀ members : Members Value, ∀ f ∈ fieldsOf members, members.get? f.name = none →
    f.absence = .rejected → read (Value.object members).toTree = none

/-! ## Fields that are read alike -/

/-- The values under the name of the field are read alike by a reader of the field. -/
inductive Field.Alike (f : Field) : List Value → List Value → Prop
  | same (values : List Value) : Alike f values values
  | trimmed (values : List Value) : Alike f values (values.map f.trim)
  | filled (v : Value) (hstandIn : f.absence.standIn? = some v) : Alike f [] [v]

theorem Field.Alike.length_le_one_iff
    {f : Field} {values values' : List Value} (halike : f.Alike values values') :
    values.length ≤ 1 ↔ values'.length ≤ 1 := by
  cases halike <;> simp

/-- A reader of what may be written in a field. -/
structure ReadsField {β : Type} (f : Field) (read : Option Tree → Option β) : Prop where
  trimmed : ∀ v : Value, read (some (f.trim v).toTree) = read (some v.toTree)
  filled : ∀ v ∈ f.absence.standIn?, read (some v.toTree) = read none
  rejects : f.absence = .rejected → read none = none

theorem ReadsField.congr
    {β : Type} {f : Field} {read : Option Tree → Option β} (hreads : ReadsField f read)
    {values values' : List Value} (halike : f.Alike values values') :
    read (values.head?.map Value.toTree) = read (values'.head?.map Value.toTree) := by
  cases halike with
  | same => rfl
  | trimmed =>
      cases values with
      | nil => rfl
      | cons v values => exact (hreads.trimmed v).symm
  | filled v hstandIn => exact (hreads.filled v hstandIn).symm

/-- What a value is trimmed of is nothing that the reader makes use of. -/
def Trims {β : Type} (trim : Value → Value) (read : Tree → Option β) : Prop :=
  ∀ v : Value, read (trim v).toTree = read v.toTree

section ReadsField

variable {β : Type} {read : Tree → Option β} {trim : Value → Value}

theorem trims_id (read : Tree → Option β) : Trims id read := fun _ => rfl

theorem Trims.items (htrim : Trims trim read) : Trims (trimItems trim) (list? read) := by
  intro v
  cases v with
  | array items =>
      have hitems : read ∘ (Value.toTree ∘ trim) = read ∘ Value.toTree := funext htrim
      rw [trimItems, Value.toTree, Value.toTree, Value.treesOf_eq_map, Value.treesOf_eq_map,
        list?, list?, List.map_map, List.mapM_map, List.mapM_map, hitems]
  | null | bool | number | string | object => rfl

theorem readsField_required
    (name : String) (htrim : Trims trim read) :
    ReadsField { name, trim } fun part => required part read where
  trimmed := htrim
  filled := by simp [Absence.standIn?]
  rejects := fun _ => rfl

theorem readsField_defaulted
    (name : String) {t : Tree} {x : β} (hdefault : Restores read t x) (htrim : Trims trim read) :
    ReadsField { name, absence := .default (.ofTree t), trim }
      fun part => defaulted x part read where
  trimmed := htrim
  filled := by
    rintro v ⟨⟩
    exact hdefault.read_kept
  rejects := nofun

theorem optional_some_of_ne_null
    {t : Tree} (ht : t ≠ .null) : optional (some t) read = (read t).map some := by
  cases t with
  | null => exact absurd rfl ht
  | bool | int | float | text | list | table | unreadable => rfl

theorem toTree_eq_null_iff {v : Value} : v.toTree = .null ↔ v = .null := by
  cases v with
  | number n => cases n <;> simp [Value.toTree, Number.toTree]
  | null | bool | string | array | object => simp [Value.toTree]

theorem readsField_optional
    (name : String) (htrim : Trims trim read)
    (hnull : ∀ v, trim v = .null ↔ v = .null) :
    ReadsField { name, absence := .null, trim } fun part => optional part read where
  trimmed := by
    intro v
    by_cases hv : v = .null
    · have htrimmed : trim v = .null := (hnull v).mpr hv
      dsimp only
      rw [htrimmed, hv]
    · have htree : v.toTree ≠ .null := fun heq => hv (toTree_eq_null_iff.mp heq)
      have htrimmed : (trim v).toTree ≠ .null :=
        fun heq => hv ((hnull v).mp (toTree_eq_null_iff.mp heq))
      dsimp only
      rw [optional_some_of_ne_null htrimmed, optional_some_of_ne_null htree, htrim]
  filled := by
    rintro v ⟨⟩
    rfl
  rejects := nofun

end ReadsField

/-! ## Readers of records -/

/-- What a reader of records gives is decided by the fields, under whose names objects are
looked into. -/
structure Follows {α : Type} (read : Tree → Option α) (fieldsOf : Members Value → List Field) :
    Prop where
  nodup : ∀ members : Members Value, ((fieldsOf members).map Field.name).Nodup
  congr : ∀ members members' : Members Value,
    (∀ f ∈ fieldsOf members, f.Alike (members.valuesOf f.name) (members'.valuesOf f.name)) →
      read (Value.object members).toTree = read (Value.object members').toTree
  rejects : ∀ members : Members Value, ∀ f ∈ fieldsOf members, members.get? f.name = none →
    f.absence = .rejected → read (Value.object members).toTree = none

/-- The reader takes the fields one after the other. -/
inductive Reads {α : Type} : List Field → ((String → Option Tree) → Option α) → Prop
  | done (x : Option α) : Reads [] fun _ => x
  | field {β : Type} {f : Field} {fields : List Field} {read : Option Tree → Option β}
      {rest : β → (String → Option Tree) → Option α}
      (hfield : ReadsField f read) (hrest : ∀ x, Reads fields (rest x)) :
      Reads (f :: fields) fun field => read (field f.name) >>= fun x => rest x field

section Records

variable {α β : Type} {fields : List Field} {readFields : (String → Option Tree) → Option α}

theorem Reads.congr
    (hreads : Reads fields readFields)
    (halike : ∀ f ∈ fields, f.Alike (members.valuesOf f.name) (members'.valuesOf f.name)) :
    readFields (fun name => (members.valuesOf name).head?.map Value.toTree) =
      readFields fun name => (members'.valuesOf name).head?.map Value.toTree := by
  induction hreads with
  | done x => rfl
  | field hfield _ ih =>
      rw [List.forall_mem_cons] at halike
      dsimp only
      rw [hfield.congr halike.1]
      congr 1
      funext x
      exact ih x halike.2

theorem Reads.rejects
    (hreads : Reads fields readFields) {f : Field} (hf : f ∈ fields)
    (habsence : f.absence = .rejected) {field : String → Option Tree}
    (hmissing : field f.name = none) : readFields field = none := by
  induction hreads with
  | done x => cases hf
  | @field _ first _ read rest hfield _ ih =>
      rcases List.mem_cons.mp hf with rfl | hf
      · dsimp only
        rw [hmissing, hfield.rejects habsence]
        rfl
      · dsimp only
        cases read (field first.name) with
        | none => rfl
        | some x => exact ih x hf

theorem Reads.follows
    (hreads : Reads fields readFields) (hnames : fields.map Field.name = names)
    (hnodup : names.Nodup) :
    Follows (fun t => fields? d names t >>= readFields) fun _ => fields where
  nodup := fun _ => by rwa [hnames]
  congr := by
    intro members members' halike
    have honce : (∀ name ∈ names, (members.valuesOf name).length ≤ 1) ↔
        ∀ name ∈ names, (members'.valuesOf name).length ≤ 1 := by
      rw [← hnames, List.forall_mem_map, List.forall_mem_map]
      exact forall₂_congr fun f hf => (halike f hf).length_le_one_iff
    simp only [fields?_toTree, honce]
    split
    · exact hreads.congr halike
    · rfl
  rejects := by
    intro members f hf hmissing habsence
    rw [fields?_toTree]
    split
    · apply hreads.rejects hf habsence
      rw [Members.head?_valuesOf, hmissing]
      rfl
    · rfl

theorem Follows.bind
    {read : Tree → Option α} {fieldsOf : Members Value → List Field}
    (hfollows : Follows read fieldsOf) (next : α → Option β) :
    Follows (fun t => read t >>= next) fieldsOf where
  nodup := hfollows.nodup
  congr := by
    intro members members' halike
    rw [hfollows.congr members members' halike]
  rejects := by
    intro members f hf hmissing habsence
    rw [hfollows.rejects members f hf hmissing habsence]
    rfl

end Records

/-! ## From fields to laws -/

section Tolerant

variable {fields : List Field} {f : Field}

theorem valuesOf_keepFields (hf : f ∈ fields) :
    (keepFields fields members).valuesOf f.name = members.valuesOf f.name := by
  have hkeep : decide (f.name ∈ fields.map Field.name) = true :=
    decide_eq_true (List.mem_map_of_mem hf)
  exact Members.valuesOf_filter (fun name => decide (name ∈ fields.map Field.name)) hkeep

theorem find?_field (hnodup : (fields.map Field.name).Nodup) (hf : f ∈ fields) :
    fields.find? (·.name = f.name) = some f := by
  induction fields with
  | nil => cases hf
  | cons first fields ih =>
      rw [List.map_cons, List.nodup_cons] at hnodup
      rcases List.mem_cons.mp hf with rfl | hf
      · simp
      · have hname : first.name ≠ f.name := by
          intro hname
          apply hnodup.1
          rw [hname]
          exact List.mem_map_of_mem hf
        rw [List.find?_cons_of_neg (by simpa using hname)]
        exact ih hnodup.2 hf

theorem valuesOf_trimFields (hnodup : (fields.map Field.name).Nodup) (hf : f ∈ fields) :
    (trimFields fields members).valuesOf f.name = (members.valuesOf f.name).map f.trim := by
  induction members with
  | nil => rfl
  | cons entry members ih =>
      have hcons : trimFields fields (entry :: members) =
          ((fields.find? (·.name = entry.1)).map fun g => (entry.1, g.trim entry.2)).toList ++
            trimFields fields members := by
        unfold trimFields
        rw [List.filterMap_cons]
        cases fields.find? (·.name = entry.1) <;> rfl
      rw [hcons, Members.valuesOf_cons]
      by_cases hentry : entry.1 = f.name
      · rw [hentry, find?_field hnodup hf, if_pos rfl, List.map_cons, ← ih]
        exact (Members.valuesOf_cons _ _ _).trans (if_pos rfl)
      · rw [if_neg hentry, ← ih]
        cases fields.find? (·.name = entry.1) with
        | none => rfl
        | some g => exact (Members.valuesOf_cons _ _ _).trans (if_neg hentry)

theorem alike_insert
    (hnodup : (fields.map Field.name).Nodup) (hf : f ∈ fields)
    (hmissing : members.get? f.name = none) {v : Value} (hstandIn : f.absence.standIn? = some v)
    {g : Field} (hg : g ∈ fields) :
    g.Alike (members.valuesOf g.name) ((members.insert f.name v).valuesOf g.name) := by
  by_cases hname : g.name = f.name
  · obtain rfl : g = f := List.inj_on_of_nodup_map hnodup hg hf hname
    rw [Members.valuesOf_insert_self v hmissing, Members.valuesOf_eq_nil_iff.mpr hmissing]
    exact .filled v hstandIn
  · rw [Members.valuesOf_insert_ne v hname]
    exact .same _

theorem Follows.tolerant
    {α : Type} {read : Tree → Option α} {fieldsOf : Members Value → List Field}
    (hfollows : Follows read fieldsOf) : Tolerant read fieldsOf where
  passes_over := by
    intro members
    apply Eq.symm
    apply hfollows.congr
    intro f hf
    rw [valuesOf_keepFields hf]
    exact .same _
  passes_over_inside := by
    intro v
    cases v with
    | object members =>
        apply Eq.symm
        apply hfollows.congr
        intro f hf
        rw [valuesOf_trimFields (hfollows.nodup members) hf]
        exact .trimmed _
    | null | bool | number | string | array => rfl
  fills := by
    intro members f hf hmissing v hv
    apply Eq.symm
    apply hfollows.congr
    exact fun g => alike_insert (hfollows.nodup members) hf hmissing hv
  rejects := hfollows.rejects

theorem Follows.trims
    {α : Type} {read : Tree → Option α} {fieldsOf : Members Value → List Field}
    (hfollows : Follows read fieldsOf) : Trims (trim fieldsOf) read :=
  hfollows.tolerant.passes_over_inside

theorem trim_eq_null_iff {fieldsOf : Members Value → List Field} (v : Value) :
    trim fieldsOf v = .null ↔ v = .null := by
  cases v <;> simp [trim]

end Tolerant

/-! ## Records of several cases -/

theorem Field.Alike.eq_of_plain
    {name : String} {values values' : List Value}
    (halike : Field.Alike { name } values values') : values' = values := by
  cases halike with
  | same => rfl
  | trimmed => exact List.map_id values
  | filled v hstandIn => cases hstandIn

theorem ne_tag_of_mem
    {fields : List Field} (hnodup : (tag :: fields.map Field.name).Nodup) {f : Field}
    (hf : f ∈ fields) : f.name ≠ tag := by
  intro hname
  apply (List.nodup_cons.mp hnodup).1
  rw [← hname]
  exact List.mem_map_of_mem hf

theorem case?_lt {labels : List String} {t : Tree} {place : Nat}
    (hcase : case? d labels t = some place) : place < labels.length := by
  unfold case? at hcase
  split at hcase
  · exact (List.findIdx?_eq_some_iff_getElem.mp hcase).1
  · split at hcase
    next hplace =>
      cases hcase
      exact hplace.2
    next => cases hcase
  · cases hcase

section Cases

variable {α : Type} {cases : List (String × List Field)} {readCase : Nat → Tree × Tree → Option α}

theorem caseFields_of_case?
    {v : Value} {place : Nat} (htag : members.get? tag = some v)
    (hcase : case? d (cases.map Prod.fst) v.toTree = some place) :
    ∃ c, cases[place]? = some c ∧ caseFields d tag cases members = { name := tag } :: c.2 := by
  have hplace : place < cases.length := by simpa using case?_lt hcase
  refine ⟨cases[place], List.getElem?_eq_getElem hplace, ?_⟩
  simp [caseFields, htag, hcase, List.getElem?_eq_getElem hplace]

theorem caseFields_cases (d : Dialect) (tag : String) (cases : List (String × List Field))
    (members : Members Value) :
    caseFields d tag cases members = [{ name := tag }] ∨
      ∃ v place c, members.get? tag = some v ∧
        case? d (cases.map Prod.fst) v.toTree = some place ∧ cases[place]? = some c ∧
        caseFields d tag cases members = { name := tag } :: c.2 := by
  cases htag : members.get? tag with
  | none =>
      left
      simp [caseFields, htag]
  | some v =>
      cases hcase : case? d (cases.map Prod.fst) v.toTree with
      | none =>
          left
          simp [caseFields, htag, hcase]
      | some place =>
          obtain ⟨c, hc, hfields⟩ := caseFields_of_case? htag hcase
          exact Or.inr ⟨v, place, c, rfl, hcase, hc, hfields⟩

theorem follows_tagged
    (hnodup : ∀ c ∈ cases, (tag :: c.2.map Field.name).Nodup)
    (hcases : ∀ place c, cases[place]? = some c →
      ∀ label, Follows (fun contents => readCase place (label, contents)) fun _ => c.2) :
    Follows
      (fun t => tagged? tag t >>= fun parts =>
        case? d (cases.map Prod.fst) parts.1 >>= fun place => readCase place parts)
      (caseFields d tag cases) where
  nodup := by
    intro members
    rcases caseFields_cases d tag cases members with hfields | ⟨_, _, c, -, -, hc, hfields⟩
    · simp [hfields]
    · rw [hfields]
      exact hnodup c (List.mem_of_getElem? hc)
  congr := by
    intro members members' halike
    have htag : members'.valuesOf tag = members.valuesOf tag :=
      (halike { name := tag } List.mem_cons_self).eq_of_plain
    rw [tagged?_toTree, tagged?_toTree, htag]
    split
    next v hv =>
      have hget := Members.get?_of_valuesOf hv
      dsimp only [Option.bind_eq_bind, Option.bind_some]
      cases hcase : case? d (cases.map Prod.fst) v.toTree with
      | none => rfl
      | some place =>
          obtain ⟨c, hc, hfields⟩ := caseFields_of_case? hget hcase
          apply (hcases place c hc v.toTree).congr
          intro f hf
          have hname : f.name ≠ tag := ne_tag_of_mem (hnodup c (List.mem_of_getElem? hc)) hf
          rw [Members.valuesOf_filter_ne hname, Members.valuesOf_filter_ne hname]
          apply halike f
          rw [hfields]
          exact List.mem_cons_of_mem _ hf
    next => rfl
  rejects := by
    intro members f hf hmissing habsence
    rw [tagged?_toTree]
    split
    next v hv =>
      have hget := Members.get?_of_valuesOf hv
      have hname : f.name ≠ tag := by
        intro hname
        rw [hname, hget] at hmissing
        cases hmissing
      dsimp only [Option.bind_eq_bind, Option.bind_some]
      cases hcase : case? d (cases.map Prod.fst) v.toTree with
      | none => rfl
      | some place =>
          obtain ⟨c, hc, hfields⟩ := caseFields_of_case? hget hcase
          rw [hfields] at hf
          rcases List.mem_cons.mp hf with rfl | hf
          · exact absurd rfl hname
          · apply (hcases place c hc v.toTree).rejects _ f hf _ habsence
            rw [Members.get?_filter_ne, if_neg hname, hmissing]
    next => rfl

end Cases

end Codec

end WorkPlan
