import Mathlib.Tactic
import WorkPlan.Proofs.Numerals

/-!
# Trees in JSON texts

A tree that is laid out with one entry a line is read back.  The reader takes as many
characters as the printer wrote, whatever stands behind them, so that one value can be read
inside another.  A string is read piece by piece; what ends a number is never part of one.
Floats may be written and read in any way that reads back what it writes.
-/

namespace WorkPlan

namespace Tree

mutual

/-- The number of lists and tables around the innermost part. -/
def nesting : Tree → Nat
  | .list items => nestingItems items + 1
  | .table entries => nestingEntries entries + 1
  | _ => 0

def nestingItems : List Tree → Nat
  | [] => 0
  | t :: rest => max t.nesting (nestingItems rest)

def nestingEntries : List (String × Tree) → Nat
  | [] => 0
  | (_, t) :: rest => max t.nesting (nestingEntries rest)

end

mutual

/-- Every part of the tree has a JSON text of its own: integers are in the range of the
integer kinds, and floats are finite. -/
def Printable : Tree → Prop
  | .int i => -2 ^ 63 ≤ i ∧ i < 2 ^ 64
  | .float x => x.isFinite = true
  | .list items => PrintableItems items
  | .table entries => PrintableEntries entries
  | .unreadable => False
  | _ => True

def PrintableItems : List Tree → Prop
  | [] => True
  | t :: rest => t.Printable ∧ PrintableItems rest

def PrintableEntries : List (String × Tree) → Prop
  | [] => True
  | (_, t) :: rest => t.Printable ∧ PrintableEntries rest

end

end Tree

namespace Json.Reader

open Printer

/-! ## Strings -/

theorem hexValue?_hexDigit {n : Nat} (hn : n < 16) : Text.hexValue? (hexDigit n) = some n := by
  interval_cases n <;> rfl

theorem readPieces_escaped
    {e c : Char} (hu : e ≠ 'u') (he : escaped? e = some c) (text : List Char) :
    readPieces ('\\' :: e :: text) =
      (readPieces text).map fun read => (.char c :: read.1, read.2) := by
  rw [readPieces]
  · rw [he]
    cases readPieces text <;> rfl
  · simp [hu]

theorem readPieces_unit
    {a b c d : Char} {u : Nat} (hu : hexUnit? a b c d = some u) (text : List Char) :
    readPieces ('\\' :: 'u' :: a :: b :: c :: d :: text) =
      (readPieces text).map fun read => (.unit u :: read.1, read.2) := by
  rw [readPieces, hu]
  cases readPieces text <;> rfl

theorem readPieces_char
    {c : Char} (hquote : c ≠ '"') (hslash : c ≠ '\\') (hplain : 0x20 ≤ c.toNat)
    (text : List Char) :
    readPieces (c :: text) = (readPieces text).map fun read => (.char c :: read.1, read.2) := by
  have hallowed : ¬ (c.toNat < 0x20 ∨ c = '\\') := by simp [hslash, hplain]
  rw [readPieces]
  · rw [if_neg hallowed]
    cases readPieces text <;> rfl
  all_goals simp [hquote, hslash]

/-- A character is read back from what is written for it. -/
theorem exists_piece_escape (c : Char) :
    ∃ p : Piece, (∀ pieces, joinPieces (p :: pieces) = (joinPieces pieces).map (c :: ·)) ∧
      ∀ text, readPieces (escape c ++ text) =
        (readPieces text).map fun read => (p :: read.1, read.2) := by
  unfold escape
  split_ifs with hquote hslash hback hfeed hline hreturn htab hcontrol
  iterate 7
    subst c
    exact ⟨.char _, fun _ => rfl, readPieces_escaped (by decide) rfl⟩
  · refine ⟨.unit c.toNat, ?_, readPieces_unit ?_⟩
    · intro pieces
      have hsmall : c.toNat < 0xD800 ∨ 0xE000 ≤ c.toNat := by omega
      rw [joinPieces.eq_def]
      simp only [if_pos hsmall, Char.ofNat_toNat]
    · have hzero : Text.hexValue? '0' = some 0 := rfl
      have hhigh := hexValue?_hexDigit (n := c.toNat / 16) (by omega)
      have hlow := hexValue?_hexDigit (n := c.toNat % 16) (by omega)
      simp only [hexUnit?, hzero, hhigh, hlow]
      change some _ = some _
      congr 1
      omega
  · exact ⟨.char c, fun _ => rfl, readPieces_char hquote hslash (not_lt.mp hcontrol)⟩

theorem readString_quoted (s : String) (rest : List Char) :
    readString (s.toList.flatMap escape ++ '"' :: rest) = some (some s, rest) := by
  have hpieces : ∀ chars : List Char, ∃ pieces,
      readPieces (chars.flatMap escape ++ '"' :: rest) = some (pieces, rest) ∧
        joinPieces pieces = some chars := by
    intro chars
    induction chars with
    | nil => exact ⟨[], by rw [List.flatMap_nil, List.nil_append, readPieces], rfl⟩
    | cons c chars ih =>
        obtain ⟨pieces, hread, hjoin⟩ := ih
        obtain ⟨p, hjoined, hescaped⟩ := exists_piece_escape c
        refine ⟨p :: pieces, ?_, ?_⟩
        · rw [List.flatMap_cons, List.append_assoc, hescaped, hread, Option.map_some]
        · rw [hjoined, hjoin, Option.map_some]
  obtain ⟨pieces, hread, hjoin⟩ := hpieces s.toList
  simp [readString, hread, hjoin]

/-! ## Blanks -/

/-- The text begins with a character that is not blank and closes no container. -/
def Begins (text : List Char) : Prop :=
  ∃ c rest, text = c :: rest ∧ isBlank c = false ∧ c ≠ ']'

theorem Begins.append {text : List Char} (hbegins : Begins text) (rest : List Char) :
    Begins (text ++ rest) := by
  obtain ⟨c, more, rfl, hc⟩ := hbegins
  exact ⟨c, more ++ rest, rfl, hc⟩

theorem skipBlank_of_begins {text : List Char} (hbegins : Begins text) :
    skipBlank text = text := by
  obtain ⟨c, rest, rfl, hc, -⟩ := hbegins
  rw [skipBlank, List.dropWhile_cons_of_neg (by simp [hc])]

@[simp] theorem skipBlank_newLine (level : Nat) (text : List Char) :
    skipBlank (newLine level ++ text) = skipBlank text := by
  have hblank : ∀ c ∈ newLine level, isBlank c = true := by
    simp [newLine, isBlank]
  rw [skipBlank, List.dropWhile_append_of_pos hblank]
  rfl

theorem ends_newLine (level : Nat) (text : List Char) : Ends (newLine level ++ text) := by
  intro c hc
  cases hc
  decide

theorem ends_comma (text : List Char) : Ends (',' :: text) := by
  intro c hc
  cases hc
  decide

/-! ## Numbers as values -/

variable {float : FloatReader}

theorem exists_of_readNumber
    {text : List Char} {read : Tree × List Char} (hread : readNumber float text = some read) :
    ∃ c rest, text = c :: rest ∧ (c = '-' ∨ Decimal.isDigit c = true) := by
  cases text with
  | nil => cases hread
  | cons c rest =>
      refine ⟨c, rest, rfl, ?_⟩
      by_contra hother
      rw [not_or] at hother
      obtain ⟨hminus, hdigit⟩ := hother
      have hnone : spanDigits (c :: rest) = ([], c :: rest) := by
        simp [spanDigits, hdigit]
      rw [readNumber, readNumeral_cons hminus] at hread
      simp [readUnsigned, hnone, isWhole] at hread

theorem begins_of_readNumber
    {text : List Char} {read : Tree × List Char} (hread : readNumber float text = some read) :
    Begins text := by
  obtain ⟨c, rest, rfl, hc⟩ := exists_of_readNumber hread
  have hother : ∀ other : Char, other ≠ '-' → Decimal.isDigit other = false → c ≠ other := by
    rintro other hminus hdigit rfl
    rcases hc with hc | hc
    · exact hminus hc
    · rw [hdigit] at hc
      cases hc
  refine ⟨c, rest, rfl, ?_, hother _ (by decide) rfl⟩
  simp [isBlank, hother ' ' (by decide) rfl, hother '\n' (by decide) rfl,
    hother '\t' (by decide) rfl, hother '\r' (by decide) rfl]

/-- What is read as a number is read as a value. -/
theorem readValue_of_readNumber
    {text : List Char} {read : Tree × List Char} (hread : readNumber float text = some read)
    (fuel depth : Nat) :
    readValue float (fuel + 1) depth text = some read := by
  obtain ⟨c, rest, rfl, hc⟩ := exists_of_readNumber hread
  have hletters : c ≠ 'n' ∧ c ≠ 't' ∧ c ≠ 'f' ∧ c ≠ '"' ∧ c ≠ '[' ∧ c ≠ '\x7b' := by
    refine ⟨?_, ?_, ?_, ?_, ?_, ?_⟩
    all_goals
      rintro rfl
      rcases hc with hc | hc <;> cases hc
  rw [readValue]
  · exact hread
  all_goals simp [hletters]

/-! ## Values -/

variable {write : Binary64 → List Char}

theorem begins_pretty
    (hback : ReadsBack write float) {t : Tree} (hprintable : t.Printable) (level : Nat) :
    Begins (pretty write level t) := by
  cases t with
  | null => exact ⟨'n', _, rfl, rfl, by decide⟩
  | bool b => cases b <;> exact ⟨_, _, rfl, rfl, by decide⟩
  | int i =>
      exact begins_of_readNumber (readNumber_integerNumeral float hprintable.1 hprintable.2)
  | float x =>
      have htext : pretty write level (.float x) = write x := if_pos hprintable
      rw [htext]
      exact begins_of_readNumber (hback x hprintable)
  | text s => exact ⟨'"', _, rfl, rfl, by decide⟩
  | list items => cases items <;> exact ⟨'[', _, rfl, rfl, by decide⟩
  | table entries => cases entries <;> exact ⟨'\x7b', _, rfl, rfl, by decide⟩
  | unreadable => cases hprintable

variable {fuel depth level : Nat} {rest : List Char}

theorem readValue_text (s : String) :
    readValue float (fuel + 1) depth (quoted s ++ rest) = some (.text s, rest) := by
  have hquoted : quoted s ++ rest = '"' :: (s.toList.flatMap escape ++ '"' :: rest) := by
    simp [quoted]
  rw [hquoted, readValue, readString_quoted]
  rfl

theorem pretty_list {items : List Tree} (hsome : items ≠ []) :
    pretty write level (.list items) = '[' :: prettyItems write level items := by
  rw [pretty]
  exact hsome

theorem pretty_table {entries : List (String × Tree)} (hsome : entries ≠ []) :
    pretty write level (.table entries) = '\x7b' :: prettyEntries write level entries := by
  rw [pretty]
  exact hsome

/-- What is written behind an item. -/
def afterItem (write : Binary64 → List Char) (level : Nat) : List Tree → List Char
  | [] => newLine level ++ [']']
  | items => ',' :: prettyItems write level items

/-- What is written behind an entry. -/
def afterEntry (write : Binary64 → List Char) (level : Nat) :
    List (String × Tree) → List Char
  | [] => newLine level ++ ['\x7d']
  | entries => ',' :: prettyEntries write level entries

theorem prettyItems_cons (write : Binary64 → List Char) (level : Nat) (t : Tree) (items : List Tree) :
    prettyItems write level (t :: items) =
      newLine (level + 1) ++ (pretty write (level + 1) t ++ afterItem write level items) := by
  cases items <;> simp [prettyItems, afterItem]

theorem prettyEntries_cons
    (write : Binary64 → List Char) (level : Nat) (name : String) (t : Tree)
    (entries : List (String × Tree)) :
    prettyEntries write level ((name, t) :: entries) =
      newLine (level + 1) ++ (quoted name ++ ':' :: ' ' ::
        (pretty write (level + 1) t ++ afterEntry write level entries)) := by
  cases entries <;> simp [prettyEntries, afterEntry]

theorem afterItem_of_ne_nil {items : List Tree} (hsome : items ≠ []) :
    afterItem write level items = ',' :: prettyItems write level items := by
  rw [afterItem]
  exact hsome

theorem afterEntry_of_ne_nil {entries : List (String × Tree)} (hsome : entries ≠ []) :
    afterEntry write level entries = ',' :: prettyEntries write level entries := by
  rw [afterEntry]
  exact hsome

theorem ends_afterItem (items : List Tree) : Ends (afterItem write level items ++ rest) := by
  cases items with
  | nil =>
      rw [afterItem, List.append_assoc]
      exact ends_newLine level _
  | cons t items => exact ends_comma _

theorem ends_afterEntry (entries : List (String × Tree)) :
    Ends (afterEntry write level entries ++ rest) := by
  cases entries with
  | nil =>
      rw [afterEntry, List.append_assoc]
      exact ends_newLine level _
  | cons entry entries => exact ends_comma _

theorem readItems_cons
    {t : Tree} {items : List Tree} (hbegins : Begins (pretty write (level + 1) t))
    (hitem : readValue float fuel depth
      (pretty write (level + 1) t ++ (afterItem write level items ++ rest)) =
        some (t, afterItem write level items ++ rest))
    (hitems : items ≠ [] →
      readItems float fuel depth (prettyItems write level items ++ rest) = some (items, rest))
    {text : List Char}
    (htext : skipBlank text = skipBlank (prettyItems write level (t :: items) ++ rest)) :
    readItems float (fuel + 1) depth text = some (t :: items, rest) := by
  have hskip : skipBlank text =
      pretty write (level + 1) t ++ (afterItem write level items ++ rest) := by
    rw [htext, prettyItems_cons, List.append_assoc, skipBlank_newLine, List.append_assoc,
      skipBlank_of_begins (hbegins.append _)]
  rw [readItems, hskip, hitem]
  cases items with
  | nil =>
      have hclose : skipBlank (afterItem write level [] ++ rest) = ']' :: rest := by
        rw [afterItem, List.append_assoc, skipBlank_newLine]
        rfl
      simp [hclose]
  | cons t' items =>
      have hcomma : skipBlank (afterItem write level (t' :: items) ++ rest) =
          ',' :: (prettyItems write level (t' :: items) ++ rest) := rfl
      simp [hcomma, hitems]

theorem readMembers_cons
    {name : String} {t : Tree} {entries : List (String × Tree)}
    (hbegins : Begins (pretty write (level + 1) t))
    (hvalue : readValue float fuel depth
      (pretty write (level + 1) t ++ (afterEntry write level entries ++ rest)) =
        some (t, afterEntry write level entries ++ rest))
    (hentries : entries ≠ [] →
      readMembers float fuel depth (prettyEntries write level entries ++ rest) =
        some (some entries, rest))
    {text : List Char}
    (htext : skipBlank text = skipBlank (prettyEntries write level ((name, t) :: entries) ++ rest)) :
    readMembers float (fuel + 1) depth text = some (some ((name, t) :: entries), rest) := by
  have hskip : skipBlank text = '"' :: (name.toList.flatMap escape ++ '"' ::
      (':' :: ' ' :: (pretty write (level + 1) t ++ (afterEntry write level entries ++ rest)))) := by
    rw [htext, prettyEntries_cons, List.append_assoc, skipBlank_newLine]
    simp [quoted, skipBlank, isBlank]
  have hspace : skipBlank
      (' ' :: (pretty write (level + 1) t ++ (afterEntry write level entries ++ rest))) =
        pretty write (level + 1) t ++ (afterEntry write level entries ++ rest) :=
    skipBlank_of_begins (hbegins.append _)
  have hcolon : ∀ text, skipBlank (':' :: text) = ':' :: text := fun _ => rfl
  rw [readMembers, hskip]
  simp only [readString_quoted, hcolon, hspace, hvalue, Option.bind_eq_bind, Option.bind_some]
  cases entries with
  | nil =>
      have hclose : skipBlank (afterEntry write level [] ++ rest) = '\x7d' :: rest := by
        rw [afterEntry, List.append_assoc, skipBlank_newLine]
        rfl
      simp [hclose]
  | cons entry entries =>
      have hcomma : skipBlank (afterEntry write level (entry :: entries) ++ rest) =
          ',' :: (prettyEntries write level (entry :: entries) ++ rest) := rfl
      simp [hcomma, hentries]

theorem readValue_list
    (hback : ReadsBack write float) {items : List Tree} (hprintable : Tree.PrintableItems items) (hdepth : depth < deepest)
    (hitems : items ≠ [] → ∀ text,
      skipBlank text = skipBlank (prettyItems write level items ++ rest) →
        readItems float fuel (depth + 1) text = some (items, rest)) :
    readValue float (fuel + 1) depth (pretty write level (.list items) ++ rest) =
      some (.list items, rest) := by
  cases items with
  | nil => simp [pretty, readValue, skipBlank, isBlank, contained, hdepth]
  | cons t items =>
      have hsome := List.cons_ne_nil t items
      have hbegins := (begins_pretty hback hprintable.1 (level + 1)).append
        (afterItem write level items ++ rest)
      have hinside : Begins (skipBlank (prettyItems write level (t :: items) ++ rest)) := by
        rw [prettyItems_cons, List.append_assoc, skipBlank_newLine, List.append_assoc,
          skipBlank_of_begins hbegins]
        exact hbegins
      have hread := hitems hsome _ (skipBlank_of_begins hinside)
      obtain ⟨c, more, hskip, -, hclose⟩ := hinside
      rw [hskip] at hread
      rw [pretty_list hsome, List.cons_append, readValue, hskip]
      simp [hclose, hread, contained, hdepth]

theorem readValue_table
    {entries : List (String × Tree)} (hdepth : depth < deepest)
    (hentries : entries ≠ [] → ∀ text,
      skipBlank text = skipBlank (prettyEntries write level entries ++ rest) →
        readMembers float fuel (depth + 1) text = some (some entries, rest)) :
    readValue float (fuel + 1) depth (pretty write level (.table entries) ++ rest) =
      some (.table entries, rest) := by
  cases entries with
  | nil => simp [pretty, readValue, skipBlank, isBlank, contained, hdepth]
  | cons entry entries =>
      have hsome := List.cons_ne_nil entry entries
      obtain ⟨more, hskip⟩ : ∃ more,
          skipBlank (prettyEntries write level (entry :: entries) ++ rest) = '"' :: more := by
        rw [prettyEntries_cons, List.append_assoc, skipBlank_newLine]
        exact ⟨_, rfl⟩
      have hread := hentries hsome ('"' :: more) hskip.symm
      rw [pretty_table hsome, List.cons_append, readValue, hskip]
      simp [hread, contained, hdepth]

mutual

theorem readValue_pretty
    (hback : ReadsBack write float) (t : Tree) (hprintable : t.Printable) {fuel depth level : Nat} {rest : List Char}
    (hfuel : (pretty write level t).length ≤ fuel) (hdepth : depth + t.nesting ≤ deepest)
    (hrest : Ends rest) :
    readValue float fuel depth (pretty write level t ++ rest) = some (t, rest) := by
  obtain ⟨fuel, rfl⟩ : ∃ fuel', fuel = fuel' + 1 := by
    obtain ⟨c, more, htext, -⟩ := begins_pretty hback hprintable level
    rw [htext, List.length_cons] at hfuel
    exact Nat.exists_eq_succ_of_ne_zero (by omega)
  cases t with
  | null => rfl
  | bool b => cases b <;> rfl
  | int i =>
      have hread := readNumber_integerNumeral float hprintable.1 hprintable.2
      exact readValue_of_readNumber (readNumber_of_ends hrest hread) fuel depth
  | float x =>
      have htext : pretty write level (.float x) = write x := if_pos hprintable
      rw [htext]
      have hread := hback x hprintable
      exact readValue_of_readNumber (readNumber_of_ends hrest hread) fuel depth
  | text s => exact readValue_text s
  | list items =>
      rw [Tree.nesting] at hdepth
      apply readValue_list hback hprintable (by omega)
      intro hsome text htext
      rw [pretty_list hsome, List.length_cons] at hfuel
      exact readItems_pretty hback items hprintable hsome (by omega) (by omega) htext
  | table entries =>
      rw [Tree.nesting] at hdepth
      apply readValue_table (by omega)
      intro hsome text htext
      rw [pretty_table hsome, List.length_cons] at hfuel
      exact readMembers_pretty hback entries hprintable hsome (by omega) (by omega) htext
  | unreadable => cases hprintable

theorem readItems_pretty
    (hback : ReadsBack write float) (items : List Tree) (hprintable : Tree.PrintableItems items) (hsome : items ≠ [])
    {fuel depth level : Nat} {text rest : List Char}
    (hfuel : (prettyItems write level items).length ≤ fuel)
    (hdepth : depth + Tree.nestingItems items ≤ deepest)
    (htext : skipBlank text = skipBlank (prettyItems write level items ++ rest)) :
    readItems float fuel depth text = some (items, rest) := by
  cases items with
  | nil => exact absurd rfl hsome
  | cons t items =>
      rw [prettyItems_cons, List.length_append, List.length_append, newLine,
        List.length_cons] at hfuel
      rw [Tree.nestingItems] at hdepth
      obtain ⟨fuel, rfl⟩ : ∃ fuel', fuel = fuel' + 1 :=
        Nat.exists_eq_succ_of_ne_zero (by omega)
      have hitem : readValue float fuel depth
          (pretty write (level + 1) t ++ (afterItem write level items ++ rest)) =
            some (t, afterItem write level items ++ rest) :=
        readValue_pretty hback t hprintable.1 (by omega) (by omega) (ends_afterItem items)
      refine readItems_cons (begins_pretty hback hprintable.1 _) hitem ?_ htext
      intro hmore
      rw [afterItem_of_ne_nil hmore, List.length_cons] at hfuel
      exact readItems_pretty hback items hprintable.2 hmore (by omega) (by omega) rfl

theorem readMembers_pretty
    (hback : ReadsBack write float) (entries : List (String × Tree)) (hprintable : Tree.PrintableEntries entries)
    (hsome : entries ≠ []) {fuel depth level : Nat} {text rest : List Char}
    (hfuel : (prettyEntries write level entries).length ≤ fuel)
    (hdepth : depth + Tree.nestingEntries entries ≤ deepest)
    (htext : skipBlank text = skipBlank (prettyEntries write level entries ++ rest)) :
    readMembers float fuel depth text = some (some entries, rest) := by
  cases entries with
  | nil => exact absurd rfl hsome
  | cons entry entries =>
      rw [prettyEntries_cons, List.length_append, List.length_append, newLine,
        List.length_cons, List.length_cons, List.length_cons, List.length_append] at hfuel
      rw [Tree.nestingEntries] at hdepth
      obtain ⟨fuel, rfl⟩ : ∃ fuel', fuel = fuel' + 1 :=
        Nat.exists_eq_succ_of_ne_zero (by omega)
      have hvalue : readValue float fuel depth
          (pretty write (level + 1) entry.2 ++ (afterEntry write level entries ++ rest)) =
            some (entry.2, afterEntry write level entries ++ rest) :=
        readValue_pretty hback entry.2 hprintable.1 (by omega) (by omega) (ends_afterEntry entries)
      refine readMembers_cons (begins_pretty hback hprintable.1 _) hvalue ?_ htext
      intro hmore
      rw [afterEntry_of_ne_nil hmore, List.length_cons] at hfuel
      exact readMembers_pretty hback entries hprintable.2 hmore (by omega) (by omega) rfl

end

end Json.Reader

/-- A tree that is laid out as a text is read back from it, if floats are. -/
theorem Json.readTreeWith?_prettyTextWith
    {write : Binary64 → List Char} {float : Reader.FloatReader}
    (hback : Reader.ReadsBack write float) {t : Tree} (hprintable : t.Printable)
    (hnesting : t.nesting ≤ Reader.deepest) :
    readTreeWith? float (prettyTextWith write t) = some t := by
  have hbegins := Reader.begins_pretty hback hprintable 0
  have hfuel : (Printer.pretty write 0 t).length ≤ 2 * (Printer.pretty write 0 t).length + 2 := by
    omega
  have hdepth : 0 + t.nesting ≤ Reader.deepest := by omega
  have hread := Reader.readValue_pretty hback t hprintable hfuel hdepth Reader.ends_nil
  rw [List.append_nil] at hread
  rw [readTreeWith?, prettyTextWith, String.toList_ofList, Reader.readTree?,
    Reader.skipBlank_of_begins hbegins, hread]
  rfl

end WorkPlan
