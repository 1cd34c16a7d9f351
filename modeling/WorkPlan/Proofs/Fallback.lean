import Mathlib
import WorkPlan.Proofs.Tolerance
import WorkPlan.Settings.Loading

/-!
# Settings from a file, or all by default

The lenient loader gives what the strict one gives, and where the strict one reports an error,
the lenient one logs it in a single line and gives the defaults.  A table of settings is read
exactly when what stands under its known fields is of their types, at both levels, so one
value of a wrong type is enough for all settings to be the defaults.
-/

namespace WorkPlan

/-! ## Types of fields -/

namespace Codec

/-- The value stands in the record under the field: by name in a table, by place in a list. -/
inductive Stands (names : List String) (name : String) (v : Tree) : Tree → Prop
  | named {entries : List (String × Tree)} (hentry : (name, v) ∈ entries) :
      Stands names name v (.table entries)
  | placed {items : List Tree} (hitem : items[names.idxOf name]? = some v) :
      Stands names name v (.list items)

/-- A table in which no field stands twice, or a list. -/
inductive IsRecord (names : List String) : Tree → Prop
  | table {entries : List (String × Tree)}
      (honce : ∀ name ∈ names, (entries.filter (·.1 = name)).length ≤ 1) :
      IsRecord names (.table entries)
  | list (items : List Tree) : IsRecord names (.list items)

/-- A field that a record may have, and what it admits. -/
structure TypedField where
  name : String
  admits : Tree → Prop

/-- The known fields, as far as they are there, hold what they admit. -/
structure WellTyped (fields : List TypedField) (t : Tree) : Prop where
  isRecord : IsRecord (fields.map TypedField.name) t
  admits : ∀ f ∈ fields, ∀ v, Stands (fields.map TypedField.name) f.name v t → f.admits v

/-- Some known field holds what it does not admit. -/
def IllTyped (fields : List TypedField) (t : Tree) : Prop :=
  ∃ f ∈ fields, ∃ v, Stands (fields.map TypedField.name) f.name v t ∧ ¬ f.admits v

theorem IllTyped.not_wellTyped
    {fields : List TypedField} {t : Tree} (hill : IllTyped fields t) : ¬ WellTyped fields t := by
  obtain ⟨f, hf, v, hstands, hnot⟩ := hill
  exact fun hwell => hnot (hwell.admits f hf v hstands)

def IsText (t : Tree) : Prop := ∃ s, t = .text s

def AreTexts (t : Tree) : Prop := ∃ items, t = Tree.strings items

def IsFlag (t : Tree) : Prop := ∃ b, t = .bool b

/-- Null stands for a value that is not given. -/
def OrNull (admits : Tree → Prop) (t : Tree) : Prop := t = .null ∨ admits t

/-! ## What stands under a name -/

section Fields

variable {names : List String} {name : String} {t v : Tree} {entries : List (String × Tree)}
  {field : String → Option Tree}

theorem lookup_eq_some_iff_of_once (honce : (entries.filter (·.1 = name)).length ≤ 1) :
    entries.lookup name = some v ↔ (name, v) ∈ entries := by
  have hlength : (Members.valuesOf name entries).length ≤ 1 := by
    rwa [Members.valuesOf, List.length_map]
  have hmem : v ∈ Members.valuesOf name entries ↔ (name, v) ∈ entries := by
    simp [Members.valuesOf]
  rw [Members.lookup_eq_get?, ← Members.head?_valuesOf, ← hmem]
  generalize Members.valuesOf name entries = values at hlength
  rcases values with - | ⟨w, - | ⟨second, rest⟩⟩
  · simp
  · simp [eq_comm]
  · simp at hlength

theorem exists_fields?_iff : (∃ field, fields? .toml names t = some field) ↔ IsRecord names t := by
  constructor
  · rintro ⟨field, hfields⟩
    cases t with
    | table entries =>
        rw [fields?, Option.ite_none_right_eq_some, List.all_eq_true] at hfields
        exact .table fun name hname => of_decide_eq_true (hfields.1 name hname)
    | list items => exact .list items
    | null | bool | int | float | text | unreadable => cases hfields
  · rintro (honce | items)
    · rw [fields?, if_pos]
      · exact ⟨_, rfl⟩
      · rw [List.all_eq_true]
        exact fun name hname => decide_eq_true (honce name hname)
    · exact ⟨_, if_pos (Or.inr rfl)⟩

theorem eq_some_iff_stands
    (hfields : fields? .toml names t = some field) (hname : name ∈ names) :
    field name = some v ↔ Stands names name v t := by
  cases t with
  | table entries =>
      rw [fields?, Option.ite_none_right_eq_some, List.all_eq_true] at hfields
      obtain ⟨honce, hfield⟩ := hfields
      cases hfield
      rw [lookup_eq_some_iff_of_once (of_decide_eq_true (honce name hname))]
      refine ⟨.named, fun hstands => ?_⟩
      cases hstands with
      | named hentry => exact hentry
  | list items =>
      have hsurplus : items.length ≤ names.length ∨ Dialect.toml.surplus = true := Or.inr rfl
      rw [fields?, if_pos hsurplus] at hfields
      cases hfields
      refine ⟨.placed, fun hstands => ?_⟩
      cases hstands with
      | placed hitem => exact hitem
  | null | bool | int | float | text | unreadable => cases hfields

end Fields

/-! ## What readers accept -/

section Accepts

variable {α β : Type} {t : Tree} {read : Tree → Option β} {part : Option Tree}

theorem exists_defaulted_iff
    {admits : Tree → Prop} (hread : ∀ v, (∃ y, read v = some y) ↔ admits v) (x : β)
    (part : Option Tree) :
    (∃ y, defaulted x part read = some y) ↔ ∀ v, part = some v → admits v := by
  simp only [← hread]
  cases part <;> simp [defaulted]

theorem exists_optional_iff
    {admits : Tree → Prop} (hread : ∀ v, (∃ y, read v = some y) ↔ admits v)
    (part : Option Tree) :
    (∃ y, optional part read = some y) ↔ ∀ v, part = some v → OrNull admits v := by
  simp only [OrNull, ← hread]
  cases part with
  | none => simp [optional]
  | some v =>
      by_cases hv : v = .null
      · subst hv
        simp [optional]
      · rw [optional_some_of_ne_null hv]
        simp [hv]

theorem exists_text?_iff (t : Tree) : (∃ s, text? t = some s) ↔ IsText t := by
  cases t <;> simp [text?, IsText]

theorem exists_flag?_iff (t : Tree) : (∃ b, flag? t = some b) ↔ IsFlag t := by
  cases t <;> simp [flag?, IsFlag]

theorem mapM_text?_eq_some_iff {items : List Tree} {texts : List String} :
    items.mapM text? = some texts ↔ items = texts.map .text := by
  induction items generalizing texts with
  | nil => simp [eq_comm]
  | cons item items ih =>
      simp only [List.mapM_cons, Option.bind_eq_bind, Option.bind_eq_some_iff, ih]
      constructor
      · rintro ⟨s, hs, rest, rfl, ⟨⟩⟩
        obtain ⟨_, rfl⟩ := (exists_text?_iff item).mp ⟨s, hs⟩
        cases hs
        rfl
      · intro heq
        cases texts with
        | nil => cases heq
        | cons s rest =>
            obtain ⟨rfl, rfl⟩ := List.cons.inj heq
            exact ⟨s, rfl, rest, rfl, rfl⟩

theorem exists_texts?_iff (t : Tree) : (∃ items, texts? t = some items) ↔ AreTexts t := by
  cases t with
  | list items => simp [texts?, list?, AreTexts, Tree.strings, mapM_text?_eq_some_iff]
  | null | bool | int | float | text | table | unreadable =>
      simp [texts?, list?, AreTexts, Tree.strings]

/-- The reader takes the fields one after the other, and fails only where one of them holds
what it does not admit. -/
inductive Accepts : List TypedField → ((String → Option Tree) → Option α) → Prop
  | done (x : α) : Accepts [] fun _ => some x
  | field {name : String} {admits : Tree → Prop} {fields : List TypedField} {β : Type}
      {read : Option Tree → Option β} {rest : β → (String → Option Tree) → Option α}
      (hread : ∀ part, (∃ x, read part = some x) ↔ ∀ v, part = some v → admits v)
      (hrest : ∀ x, Accepts fields (rest x)) :
      Accepts (⟨name, admits⟩ :: fields) fun field => read (field name) >>= fun x => rest x field

theorem Accepts.exists_iff
    {fields : List TypedField} {readFields : (String → Option Tree) → Option α}
    (haccepts : Accepts fields readFields) {field : String → Option Tree} :
    (∃ x, readFields field = some x) ↔
      ∀ f ∈ fields, ∀ v, field f.name = some v → f.admits v := by
  induction haccepts with
  | done x => simp
  | field hread _ ih =>
      rw [List.forall_mem_cons, ← hread]
      simp only [Option.bind_eq_bind, Option.bind_eq_some_iff]
      constructor
      · rintro ⟨y, x, hx, hy⟩
        exact ⟨⟨x, hx⟩, (ih x).mp ⟨y, hy⟩⟩
      · rintro ⟨⟨x, hx⟩, hfields⟩
        obtain ⟨y, hy⟩ := (ih x).mpr hfields
        exact ⟨y, x, hx, hy⟩

theorem Accepts.exists_record_iff
    {fields : List TypedField} {readFields : (String → Option Tree) → Option α}
    (names : List String) (haccepts : Accepts fields readFields)
    (hnames : fields.map TypedField.name = names) :
    (∃ x, (fields? .toml names t >>= readFields) = some x) ↔ WellTyped fields t := by
  subst hnames
  simp only [Option.bind_eq_bind, Option.bind_eq_some_iff]
  constructor
  · rintro ⟨x, field, hfields, hx⟩
    refine ⟨exists_fields?_iff.mp ⟨field, hfields⟩, fun f hf v hstands => ?_⟩
    have hname : f.name ∈ fields.map TypedField.name := List.mem_map_of_mem hf
    exact haccepts.exists_iff.mp ⟨x, hx⟩ f hf v ((eq_some_iff_stands hfields hname).mpr hstands)
  · rintro ⟨hrecord, hadmits⟩
    obtain ⟨field, hfields⟩ := exists_fields?_iff.mpr hrecord
    obtain ⟨x, hx⟩ : ∃ x, readFields field = some x := by
      rw [haccepts.exists_iff]
      intro f hf v hv
      have hname : f.name ∈ fields.map TypedField.name := List.mem_map_of_mem hf
      exact hadmits f hf v ((eq_some_iff_stands hfields hname).mp hv)
    exact ⟨x, field, hfields, hx⟩

end Accepts

end Codec

/-! ## Settings -/

open Codec

def CompileSettings.typedFields : List TypedField :=
  [⟨"task_resource", IsText⟩, ⟨"retry_error_equals", AreTexts⟩, ⟨"comment", OrNull IsText⟩]

def LogSettings.typedFields : List TypedField :=
  [⟨"filter", IsText⟩, ⟨"json", IsFlag⟩, ⟨"otel", IsFlag⟩]

def Settings.typedFields : List TypedField :=
  [⟨"compiler", WellTyped CompileSettings.typedFields⟩,
    ⟨"tracing", WellTyped LogSettings.typedFields⟩]

theorem CompileSettings.exists_decode?_iff (t : Tree) :
    (∃ s, decode? .toml t = some s) ↔ WellTyped typedFields t := by
  have hresource := exists_defaulted_iff exists_text?_iff ({} : CompileSettings).taskResource
  have herrors := exists_defaulted_iff exists_texts?_iff ({} : CompileSettings).retryErrorEquals
  have hcomment := exists_optional_iff exists_text?_iff
  refine Accepts.exists_record_iff fieldNames ?_ rfl
  exact .field hresource fun _ => .field herrors fun _ => .field hcomment fun _ => .done _

theorem LogSettings.exists_decode?_iff (t : Tree) :
    (∃ s, decode? .toml t = some s) ↔ WellTyped typedFields t := by
  have hfilter := exists_defaulted_iff exists_text?_iff ({} : LogSettings).filter
  have hflag := exists_defaulted_iff exists_flag?_iff false
  refine Accepts.exists_record_iff fieldNames ?_ rfl
  exact .field hfilter fun _ => .field hflag fun _ => .field hflag fun _ => .done _

namespace Settings

theorem exists_decode?_iff (t : Tree) :
    (∃ s, decode? .toml t = some s) ↔ WellTyped typedFields t := by
  have hcompile := exists_defaulted_iff CompileSettings.exists_decode?_iff {}
  have hlog := exists_defaulted_iff LogSettings.exists_decode?_iff {}
  refine Accepts.exists_record_iff fieldNames ?_ rfl
  exact .field hcompile fun _ => .field hlog fun _ => .done _

/-- A known field of one of the sections holds a value of a wrong type, or a section is no
record at all. -/
inductive HasIllTypedField (root : Tree) : Prop
  | compile {v : Tree} (hstands : Stands fieldNames "compiler" v root)
      (hill : IllTyped CompileSettings.typedFields v)
  | log {v : Tree} (hstands : Stands fieldNames "tracing" v root)
      (hill : IllTyped LogSettings.typedFields v)
  | whole {name : String} {v : Tree} (hname : name ∈ fieldNames)
      (hstands : Stands fieldNames name v root) (htable : ∀ entries, v ≠ .table entries)
      (hlist : ∀ items, v ≠ .list items)

theorem not_wellTyped_of_shape
    {fields : List TypedField} {v : Tree} (htable : ∀ entries, v ≠ .table entries)
    (hlist : ∀ items, v ≠ .list items) : ¬ WellTyped fields v := by
  rintro ⟨honce | items, -⟩
  · exact htable _ rfl
  · exact hlist _ rfl

theorem HasIllTypedField.illTyped
    {root : Tree} (hill : HasIllTypedField root) : IllTyped typedFields root := by
  have hcompile : ⟨"compiler", WellTyped CompileSettings.typedFields⟩ ∈ typedFields :=
    List.mem_cons_self
  have hlog : ⟨"tracing", WellTyped LogSettings.typedFields⟩ ∈ typedFields :=
    List.mem_cons_of_mem _ List.mem_cons_self
  cases hill with
  | @compile v hstands hv => exact ⟨_, hcompile, v, hstands, hv.not_wellTyped⟩
  | @log v hstands hv => exact ⟨_, hlog, v, hstands, hv.not_wellTyped⟩
  | @whole name v hname hstands htable hlist =>
      have hsection : name = "compiler" ∨ name = "tracing" := by simpa [fieldNames] using hname
      rcases hsection with rfl | rfl
      · exact ⟨_, hcompile, v, hstands, not_wellTyped_of_shape htable hlist⟩
      · exact ⟨_, hlog, v, hstands, not_wellTyped_of_shape htable hlist⟩

theorem HasIllTypedField.decode?_eq_none
    {root : Tree} (hill : HasIllTypedField root) : decode? .toml root = none := by
  rw [Option.eq_none_iff_forall_ne_some]
  intro s hs
  exact hill.illTyped.not_wellTyped ((exists_decode?_iff root).mp ⟨s, hs⟩)

end Settings

/-! ## Both loaders -/

/-- The line that tells of an error. -/
def LoadError.event (path : String) : LoadError → Log.Event
  | .file .missing => .settingsMissing path
  | .file fault => .settingsUnreadable path fault.message
  | .malformed reason => .settingsMalformed path reason

theorem LoadError.event_level (path : String) (e : LoadError) :
    (e.event path).level = if e = .file .missing then .debug else .warn := by
  rcases e with (_ | _ | _ | message) | reason <;> rfl

namespace Settings

variable {decode : String → Except String Settings}

/-- The decoder accepts what is written in TOML, and says something about any other text. -/
def ReadsToml (decode : String → Except String Settings) : Prop :=
  ∀ text s, decode text = .ok s ↔ ofToml? text = some s

theorem load_eq (decode : String → Except String Settings) (path : String) (file : FileText) :
    load decode path file =
      match loadStrict decode file with
      | .ok s => (s, [])
      | .error e => ({}, [e.event path]) := by
  rcases file with (_ | _ | _ | message) | text
  · rfl
  · rfl
  · rfl
  · rfl
  · cases hdecode : decode text <;> simp only [load, loadStrict, hdecode, LoadError.event]

theorem ReadsToml.exists_error
    (hreads : ReadsToml decode) {text : String} (hnone : ofToml? text = none) :
    ∃ reason, decode text = .error reason := by
  cases hdecode : decode text with
  | error reason => exact ⟨reason, rfl⟩
  | ok s =>
      rw [hreads, hnone] at hdecode
      cases hdecode

theorem ofToml?_of_root {text : String} {root : Tree} (hroot : Toml.readTree? text = some root) :
    ofToml? text = decode? .toml root := by
  rw [ofToml?, hroot]
  rfl

/-- Whatever the state of the file and whatever texts are accepted: the lenient loader gives
the settings of the strict one and logs nothing, or the strict one reports an error and the
lenient one gives the defaults and logs a single line, which is a warning unless the file is
missing.  In TOML, settings of the right types are read, and one known field of a wrong type
in either section is an error for all. -/
theorem load_agrees_with_loadStrict
    (decode : String → Except String Settings) (path : String) (file : FileText) :
    (∀ s, loadStrict decode file = .ok s → load decode path file = (s, [])) ∧
      (∀ e, loadStrict decode file = .error e →
        ∃ event, load decode path file = ({}, [event]) ∧
          event.level = if e = .file .missing then .debug else .warn) ∧
      (ReadsToml decode → ∀ text root, Toml.readTree? text = some root →
        (WellTyped typedFields root →
          ∃ s, decode? .toml root = some s ∧ load decode path (.ok text) = (s, [])) ∧
        (HasIllTypedField root →
          ∃ reason, loadStrict decode (.ok text) = .error (.malformed reason) ∧
            load decode path (.ok text) = ({}, [.settingsMalformed path reason]))) := by
  refine ⟨?_, ?_, ?_⟩
  · intro s hs
    rw [load_eq, hs]
  · intro e he
    refine ⟨e.event path, ?_, e.event_level path⟩
    rw [load_eq, he]
  · intro hreads text root hroot
    constructor
    · intro hwell
      obtain ⟨s, hs⟩ := (exists_decode?_iff root).mpr hwell
      have hdecode : decode text = .ok s := (hreads text s).mpr (by rw [ofToml?_of_root hroot, hs])
      refine ⟨s, hs, ?_⟩
      simp only [load, hdecode]
    · intro hill
      have hnone : ofToml? text = none := by rw [ofToml?_of_root hroot, hill.decode?_eq_none]
      obtain ⟨reason, hreason⟩ := hreads.exists_error hnone
      refine ⟨reason, ?_, ?_⟩
      · simp only [loadStrict, hreason]
      · simp only [load, hreason]

/-- The decoder that has the same to say about every text that it does not accept. -/
def decodeToml (text : String) : Except String Settings :=
  match ofToml? text with
  | some s => .ok s
  | none => .error "not settings"

theorem decodeToml_readsToml : ReadsToml decodeToml := by
  intro text s
  unfold decodeToml
  cases ofToml? text <;> simp

/-- A number where a list of texts belongs, and a flag in the other section. -/
def misplacedNumber : String :=
  "[compiler]\nretry_error_equals = 3\n[tracing]\njson = true\n"

/-- The flag is not taken over. -/
theorem load_agrees_with_loadStrict_number :
    ReadsToml decodeToml ∧
      (∃ root, Toml.readTree? misplacedNumber = some root ∧ HasIllTypedField root) ∧
      ∃ reason, loadStrict decodeToml (.ok misplacedNumber) = .error (.malformed reason) ∧
        load decodeToml "settings.toml" (.ok misplacedNumber) =
          ({}, [.settingsMalformed "settings.toml" reason]) := by
  let compiler : Tree := .table [("retry_error_equals", .int 3)]
  have hroot : Toml.readTree? misplacedNumber =
      some (.table [("compiler", compiler), ("tracing", .table [("json", .bool true)])]) := by
    cbv
  have hnumber : IllTyped CompileSettings.typedFields compiler := by
    refine ⟨⟨"retry_error_equals", AreTexts⟩, by simp [CompileSettings.typedFields], .int 3,
      .named (by simp), ?_⟩
    rintro ⟨items, heq⟩
    cases heq
  have hill : HasIllTypedField
      (.table [("compiler", compiler), ("tracing", .table [("json", .bool true)])]) :=
    .compile (.named (by simp)) hnumber
  have hloaded := load_agrees_with_loadStrict decodeToml "settings.toml" (.ok misplacedNumber)
  exact ⟨decodeToml_readsToml, ⟨_, hroot, hill⟩,
    (hloaded.2.2 decodeToml_readsToml misplacedNumber _ hroot).2 hill⟩

end Settings

end WorkPlan
