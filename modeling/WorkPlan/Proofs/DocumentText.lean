import Mathlib.Tactic
import WorkPlan.Proofs.JsonText
import WorkPlan.Proofs.RoundTrip

/-!
# Texts of workflow documents

A workflow that is written as a JSON text is read back from the text, straight into its
records: the tree of the text has the fields in the order of their declaration, and every
table has each name once, so a field is found where it was written and one that was left out
has its default.  The texts of floats are assumed to be read back, and nothing else of them.
-/

namespace WorkPlan

open Json

/-! ## Printable trees -/

namespace Tree

theorem printableItems_iff {items : List Tree} :
    PrintableItems items ↔ ∀ t ∈ items, t.Printable := by
  induction items with
  | nil => simp [PrintableItems]
  | cons t items ih => simp [PrintableItems, ih]

theorem printableEntries_iff {entries : List (String × Tree)} :
    PrintableEntries entries ↔ ∀ entry ∈ entries, entry.2.Printable := by
  induction entries with
  | nil => simp [PrintableEntries]
  | cons entry entries ih => simp [PrintableEntries, ih]

mutual

theorem readable_of_printable (t : Tree) (hprintable : t.Printable) : t.readable = true := by
  cases t with
  | unreadable => cases hprintable
  | list items => exact readableItems_of_printable items hprintable
  | table entries => exact readableEntries_of_printable entries hprintable
  | _ => rfl

theorem readableItems_of_printable (items : List Tree) (hprintable : PrintableItems items) :
    readableItems items = true := by
  cases items with
  | nil => rfl
  | cons t items =>
      rw [readableItems, Bool.and_eq_true]
      exact ⟨readable_of_printable t hprintable.1, readableItems_of_printable items hprintable.2⟩

theorem readableEntries_of_printable
    (entries : List (String × Tree)) (hprintable : PrintableEntries entries) :
    readableEntries entries = true := by
  cases entries with
  | nil => rfl
  | cons entry entries =>
      rw [readableEntries, Bool.and_eq_true]
      exact ⟨readable_of_printable entry.2 hprintable.1,
        readableEntries_of_printable entries hprintable.2⟩

end

end Tree

mutual

theorem Json.Value.printable_toTree (v : Value) : v.toTree.Printable := by
  cases v with
  | number n =>
      cases n with
      | natural n =>
          have hsize : (n : Nat) < 18446744073709551616 := n.isLt
          constructor <;> omega
      | negative k =>
          have hsize : (k : Nat) < 9223372036854775808 := k.isLt
          constructor <;> omega
      | float x hfinite => exact hfinite
  | array items => exact Json.Value.printableItems_treesOf items
  | object members => exact Json.Value.printableEntries_entriesOf members
  | _ => trivial

theorem Json.Value.printableItems_treesOf (items : List Value) :
    Tree.PrintableItems (Value.treesOf items) := by
  cases items with
  | nil => trivial
  | cons v items =>
      exact ⟨Json.Value.printable_toTree v, Json.Value.printableItems_treesOf items⟩

theorem Json.Value.printableEntries_entriesOf (members : List (String × Value)) :
    Tree.PrintableEntries (Value.entriesOf members) := by
  cases members with
  | nil => trivial
  | cons entry members =>
      exact ⟨Json.Value.printable_toTree entry.2, Json.Value.printableEntries_entriesOf members⟩

end

/-! ## Reading what is printed -/

namespace Codec

variable {α : Type} {read : Tree → Option α} {encode : α → Tree} {t : Tree} {x : α}

/-- The tree has a text, and `x` is read from it. -/
structure Prints (read : Tree → Option α) (t : Tree) (x : α) : Prop where
  printable : t.Printable
  read : read t = some x

theorem prints_text (s : String) : Prints text? (.text s) s := ⟨trivial, rfl⟩

theorem prints_word32 (n : UInt32) : Prints word32? (.int n.toNat) n where
  printable := by
    have hsize : n.toNat < 4294967296 := n.toNat_lt
    constructor <;> omega
  read := by
    have hsize : n.toNat < UInt32.size := n.toNat_lt
    simp [word32?, natural?, hsize]

theorem prints_word64 (n : UInt64) : Prints word64? (.int n.toNat) n where
  printable := by
    have hsize : n.toNat < 18446744073709551616 := n.toNat_lt
    constructor <;> omega
  read := by
    have hsize : n.toNat < UInt64.size := n.toNat_lt
    simp [word64?, natural?, hsize]

theorem prints_float {f : Binary64} (hfinite : f.isFinite = true) :
    Prints float? (.float f) f := ⟨hfinite, rfl⟩

theorem prints_value {v : Value} (hnormal : v.Normal) : Prints Value.ofTree? v.toTree v :=
  ⟨v.printable_toTree, v.ofTree?_toTree hnormal⟩

theorem prints_list {xs : List α} (hitems : ∀ x ∈ xs, Prints read (encode x) x) :
    Prints (list? read) (.list (xs.map encode)) xs where
  printable := by
    apply Tree.printableItems_iff.mpr
    intro t ht
    obtain ⟨x, hx, rfl⟩ := List.mem_map.mp ht
    exact (hitems x hx).printable
  read := by
    have hread : ∀ x ∈ xs, read (encode x) = some (id x) := fun x hx => (hitems x hx).read
    rw [list?, mapM_map_eq_some hread, List.map_id]

theorem prints_texts (xs : List String) : Prints texts? (.strings xs) xs :=
  prints_list fun s _ => prints_text s

theorem fields?_table
    {entries : List (String × Tree)} (hnodup : (entries.map Prod.fst).Nodup) (d : Dialect)
    (names : List String) :
    fields? d names (.table entries) = some fun name => Members.get? name entries := by
  have honce : (names.all fun name =>
      decide ((entries.filter (·.1 = name)).length ≤ 1)) = true := by
    rw [List.all_eq_true]
    intro name _
    exact decide_eq_true (Members.length_filter_le_one hnodup name)
  rw [fields?, if_pos honce]
  congr 1
  funext name
  exact Members.lookup_eq_get? name entries

theorem tagged?_table
    {tag : String} {entries : List (String × Tree)}
    (hnodup : (((tag, t) :: entries).map Prod.fst).Nodup)
    (hprintable : ∀ entry ∈ entries, entry.2.Printable) :
    tagged? tag (.table ((tag, t) :: entries)) = some (t, .table entries) := by
  have hget : Members.get? tag ((tag, t) :: entries) = some t := by simp [Members.get?]
  have hrest : ((tag, t) :: entries).filter (·.1 ≠ tag) = entries := by
    rw [List.filter_cons_of_neg (by simp), List.filter_eq_self]
    intro entry hentry
    rw [List.map_cons, List.nodup_cons] at hnodup
    have hname : entry.1 ∈ entries.map Prod.fst := List.mem_map_of_mem hentry
    apply decide_eq_true
    rintro rfl
    exact hnodup.1 hname
  have hreadable := Tree.readableEntries_of_printable entries
    (Tree.printableEntries_iff.mpr hprintable)
  rw [tagged?]
  simp only [Members.filter_eq_singleton hnodup hget, hrest, hreadable, if_true]

/-! ## Parts that may be left out -/

theorem get?_optional_of_ne {key name : String} (hother : key ≠ name) (value : Option Tree) :
    Members.get? key (Tree.optional name value) = none := by
  cases value <;> simp [Tree.optional, Members.get?, hother]

theorem get?_unlessEmpty_of_ne {key name : String} (hother : key ≠ name) (items : List Tree) :
    Members.get? key (Tree.unlessEmpty name items) = none := by
  cases items <;> simp [Tree.unlessEmpty, Members.get?, hother]

theorem printable_optional
    (name : String) {value : Option α} (hvalue : ∀ x ∈ value, Prints read (encode x) x) :
    ∀ entry ∈ Tree.optional name (value.map encode), entry.2.Printable := by
  cases value with
  | none => simp [Tree.optional]
  | some x => simpa [Tree.optional] using (hvalue x rfl).printable

theorem printable_unlessEmpty
    (name : String) {xs : List α} (hitems : ∀ x ∈ xs, Prints read (encode x) x) :
    ∀ entry ∈ Tree.unlessEmpty name (xs.map encode), entry.2.Printable := by
  cases xs with
  | nil => simp [Tree.unlessEmpty]
  | cons x xs => simpa [Tree.unlessEmpty] using (prints_list hitems).printable

theorem optional_printed
    (name : String) {value : Option α} (hnull : read .null = none)
    (hvalue : ∀ x ∈ value, Prints read (encode x) x) :
    optional (Members.get? name (Tree.optional name (value.map encode))) read = some value := by
  cases value with
  | none => rfl
  | some x =>
      have hread := (hvalue x rfl).read
      have hsome : encode x ≠ .null := by
        intro heq
        rw [heq, hnull] at hread
        cases hread
      simp [Tree.optional, Members.get?, optional, hread]

theorem defaulted_printed
    (name : String) {xs : List α} (hitems : ∀ x ∈ xs, Prints read (encode x) x) :
    defaulted [] (Members.get? name (Tree.unlessEmpty name (xs.map encode))) (list? read) =
      some xs := by
  cases xs with
  | nil => rfl
  | cons x xs =>
      have hread := (prints_list hitems).read
      simpa [Tree.unlessEmpty, Members.get?, defaulted] using hread

end Codec

/-! ## Records -/

variable (d : Dialect)

theorem Retrier.prints {r : Retrier} (hexact : r.Exact) :
    Codec.Prints (decode? d) r.encode r := by
  have herrors := Codec.prints_texts r.errorEquals
  have hattempts := Codec.prints_word32 r.maxAttempts
  have hinterval := Codec.prints_word64 r.intervalSeconds
  have hrate := Codec.prints_float hexact
  constructor
  case printable =>
    exact ⟨herrors.printable, hattempts.printable, hinterval.printable, hrate.printable, trivial⟩
  case read =>
    rw [decode?, encode, Codec.fields?_table (by simp)]
    simp [Members.get?, Codec.required, herrors.read, hattempts.read, hinterval.read, hrate.read]

theorem InputMode.prints (mode : InputMode) : Codec.Prints (decode? d) mode.encode mode :=
  ⟨trivial, rfl⟩

theorem Argument.prints {argument : Argument} (hexact : argument.Exact) :
    Codec.Prints (decode? d) argument.encode argument := by
  cases argument with
  | literal value =>
      have hvalue := Codec.prints_value hexact
      constructor
      case printable => exact ⟨trivial, hvalue.printable, trivial⟩
      case read =>
        have hcase : Codec.case? d caseNames (.text "literal") = some 0 := rfl
        rw [decode?, encode, Codec.tagged?_table (by simp) (by simpa using hvalue.printable)]
        simp [hcase, Codec.fields?_table, Members.get?, Codec.required, hvalue.read]
  | output step =>
      constructor
      case printable => exact ⟨trivial, trivial, trivial⟩
      case read =>
        have hcase : Codec.case? d caseNames (.text "step_output") = some 1 := rfl
        rw [decode?, encode, Codec.tagged?_table (by simp) (by simp [Tree.Printable])]
        simp [hcase, Codec.fields?_table, Members.get?, Codec.required, Codec.text?]

namespace Task

variable {t : Task}

theorem printable_entries (hexact : t.Exact) : ∀ entry ∈ t.entries, entry.2.Printable := by
  have harguments := Codec.printable_unlessEmpty "arguments" fun argument hargument =>
    Argument.prints .json (hexact.arguments argument hargument)
  have hretry := Codec.printable_optional "retry" fun r hr =>
    Retrier.prints .json (hexact.retry r hr)
  have hcomment := Codec.printable_optional "comment" fun s (_ : s ∈ t.comment) =>
    Codec.prints_text s
  have hmode := (InputMode.prints .json t.inputMode).printable
  simp only [entries, List.forall_mem_append, List.forall_mem_cons]
  exact ⟨⟨⟨trivial, trivial, hmode, harguments⟩, hretry⟩, hcomment⟩

theorem get?_entries_arguments (t : Task) :
    Members.get? "arguments" t.entries =
      Members.get? "arguments" (Tree.unlessEmpty "arguments" (t.arguments.map Argument.encode)) := by
  simp [entries, Members.get?_append, Members.get?, Codec.get?_optional_of_ne]

theorem get?_entries_retry (t : Task) :
    Members.get? "retry" t.entries =
      Members.get? "retry" (Tree.optional "retry" (t.retry.map Retrier.encode)) := by
  simp [entries, Members.get?_append, Members.get?, Codec.get?_optional_of_ne,
    Codec.get?_unlessEmpty_of_ne]

theorem get?_entries_comment (t : Task) :
    Members.get? "comment" t.entries =
      Members.get? "comment" (Tree.optional "comment" (t.comment.map .text)) := by
  simp [entries, Members.get?_append, Members.get?, Codec.get?_optional_of_ne,
    Codec.get?_unlessEmpty_of_ne]

theorem prints (hexact : t.Exact) : Codec.Prints (decode? d) t.encode t := by
  have hnodup : (t.entries.map Prod.fst).Nodup := (parts d hexact).keys.nodup (by decide)
  have hname : Members.get? "name" t.entries = some (.text t.name) := by
    simp [entries, Members.get?]
  have htarget : Members.get? "target" t.entries = some (.text t.target) := by
    simp [entries, Members.get?]
  have hmode : Members.get? "input_mode" t.entries = some t.inputMode.encode := by
    simp [entries, Members.get?]
  have harguments := Codec.defaulted_printed "arguments" fun argument hargument =>
    Argument.prints d (hexact.arguments argument hargument)
  have hretry := Codec.optional_printed "retry" rfl fun r hr =>
    Retrier.prints d (hexact.retry r hr)
  have hcomment := Codec.optional_printed "comment" rfl fun s (_ : s ∈ t.comment) =>
    Codec.prints_text s
  rw [← get?_entries_arguments] at harguments
  rw [← get?_entries_retry] at hretry
  rw [← get?_entries_comment] at hcomment
  constructor
  case printable => exact Tree.printableEntries_iff.mpr (printable_entries hexact)
  case read =>
    rw [decode?, encode, Codec.fields?_table hnodup]
    simp only [Option.bind_eq_bind, Option.bind_some, Codec.required, hname, htarget, hmode,
      harguments, hretry, hcomment]
    rfl

end Task

theorem Stage.prints {stage : Stage} (hexact : stage.Exact) :
    Codec.Prints (decode? d) stage.encode stage := by
  cases stage with
  | task t =>
      have ht : t.Exact := hexact t List.mem_cons_self
      have htask := Task.prints d.inside ht
      have hprintable := Task.printable_entries ht
      have hnodup : (("type" :: t.entries.map Prod.fst)).Nodup :=
        ((Task.parts d ht).keys.cons_cons "type").nodup (by decide)
      have hcase : Codec.case? d caseNames (.text "task") = some 0 := rfl
      constructor
      case printable =>
        exact Tree.printableEntries_iff.mpr (List.forall_mem_cons.mpr ⟨trivial, hprintable⟩)
      case read =>
        have hread : Task.decode? d.inside (.table t.entries) = some t := htask.read
        rw [decode?, encode, Codec.tagged?_table hnodup hprintable]
        simp [hcase, hread]
  | parallel name branches =>
      have hbranches : Codec.Prints (Codec.list? (Task.decode? d.inside))
          (.list (branches.map Task.encode)) branches :=
        Codec.prints_list fun t ht => Task.prints d.inside (hexact t ht)
      have hcase : Codec.case? d caseNames (.text "parallel") = some 1 := rfl
      constructor
      case printable => exact ⟨trivial, trivial, hbranches.printable, trivial⟩
      case read =>
        rw [decode?, encode, Codec.tagged?_table (by simp)
          (by simpa [Tree.Printable] using hbranches.printable)]
        simp [hcase, Codec.fields?_table, Members.get?, Codec.required, Codec.text?,
          hbranches.read]

namespace Workflow

variable {w : Workflow}

def entries (w : Workflow) : List (String × Tree) :=
  ("name", .text w.name) :: Tree.optional "comment" (w.comment.map .text)
    ++ [("stages", .list (w.stages.map Stage.encode))]

theorem entries_keys_nodup (w : Workflow) : (w.entries.map Prod.fst).Nodup := by
  cases hcomment : w.comment <;> simp [entries, hcomment, Tree.optional]

theorem get?_entries_comment (w : Workflow) :
    Members.get? "comment" w.entries =
      Members.get? "comment" (Tree.optional "comment" (w.comment.map .text)) := by
  simp [entries, Members.get?_append, Members.get?]

theorem get?_entries_stages (w : Workflow) :
    Members.get? "stages" w.entries = some (.list (w.stages.map Stage.encode)) := by
  simp [entries, Members.get?_append, Members.get?, Codec.get?_optional_of_ne]

theorem prints (hexact : w.Exact) : Codec.Prints (decode? d) w.encode w := by
  have hencode : w.encode = .table w.entries := rfl
  have hname : Members.get? "name" w.entries = some (.text w.name) := by
    simp [entries, Members.get?]
  have hstages := Codec.prints_list fun stage hstage => Stage.prints d (hexact stage hstage)
  have hcomment := Codec.optional_printed "comment" rfl fun s (_ : s ∈ w.comment) =>
    Codec.prints_text s
  rw [← get?_entries_comment] at hcomment
  constructor
  case printable =>
    have hprintable := Codec.printable_optional "comment" fun s (_ : s ∈ w.comment) =>
      Codec.prints_text s
    rw [hencode]
    apply Tree.printableEntries_iff.mpr
    simp only [entries, List.forall_mem_append, List.forall_mem_cons]
    exact ⟨⟨trivial, hprintable⟩, hstages.printable, by simp⟩
  case read =>
    rw [decode?, hencode, Codec.fields?_table w.entries_keys_nodup]
    simp only [Option.bind_eq_bind, Option.bind_some, Codec.required, hname, hcomment,
      w.get?_entries_stages, hstages.read]
    rfl

/-- A document whose rates are finite, and whose containers do not stand too deep for the
reader, is read back from its text, if the texts of finite floats are. -/
theorem read_prettyText
    {write : Binary64 → List Char} {float : Reader.FloatReader}
    (hback : Reader.ReadsBack write float) (hexact : w.Exact)
    (hnesting : w.encode.nesting ≤ Reader.deepest) :
    (readTreeWith? float (prettyTextWith write w.encode)).bind (decode? .json) = some w := by
  have hprints := prints .json hexact
  rw [readTreeWith?_prettyTextWith hback hprints.printable hnesting, Option.bind_some,
    hprints.read]

/-- A task with quotes, a control character and a nested literal, and a stage without
branches. -/
def quoting : Workflow where
  name := "say \"hi\""
  comment := some ""
  stages :=
    [.task
        { name := "\x01\\"
          target := "naïve\n"
          arguments := [.literal (.object [("é", .array [.null, .number (.natural 1)])])]
          retry := some ⟨[], 3, 15, .ofInt 2⟩ },
      .parallel "none" []]

theorem read_prettyText_quoting :
    Reader.ReadsBack Printer.floats.write Reader.Numeral.nearest? ∧ quoting.Exact ∧
      quoting.encode.nesting ≤ Reader.deepest ∧
      (readTree? (prettyText quoting.encode)).bind (decode? .json) = some quoting := by
  have hrate : (Binary64.ofInt 2).isFinite = true := Binary64.isFinite_ofInt (by decide)
  have hliteral : (Value.object [("é", .array [.null, .number (.natural 1)])]).Normal := by
    simp [Value.Normal, Value.NormalMembers, Value.NormalItems, Members.Sorted]
  have hexact : quoting.Exact := by
    intro stage hstage t ht
    rcases List.mem_cons.mp hstage with rfl | hstage
    · obtain rfl := List.mem_singleton.mp ht
      constructor
      · intro argument hargument
        obtain rfl := List.mem_singleton.mp hargument
        exact hliteral
      · intro r hr
        obtain rfl := Option.some.inj hr
        exact hrate
    · obtain rfl := List.mem_singleton.mp hstage
      cases ht
  have hnesting : quoting.encode.nesting ≤ Reader.deepest := by decide
  have hback := Reader.readsBack_nearest
  exact ⟨hback, hexact, hnesting, read_prettyText hback hexact hnesting⟩

end Workflow

end WorkPlan
