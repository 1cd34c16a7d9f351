import Mathlib.Tactic
import WorkPlan.Codec.Record
import WorkPlan.Proofs.Finite
import WorkPlan.Proofs.HandedOn

/-!
# Trees kept as JSON values

A tree that is kept as a JSON value comes back with the entries of its tables in the order
of their names.  A record looks its fields up by name and its tag too, so it cannot tell
the tree that comes back from the one that was written, except that floats which are not
finite come back as null and repeated names as one.
-/

namespace WorkPlan

open Json

namespace Members

universe u v

variable {α : Type u} {β : Type v}

theorem mem_of_mem_overlay
    {under : Members α} {added : List (String × α)} {entry : String × α}
    (hentry : entry ∈ under.overlay added) :
    entry ∈ under ∨ entry ∈ added := by
  induction added generalizing under with
  | nil => exact Or.inl hentry
  | cons first added ih =>
      rw [overlay_cons] at hentry
      rcases ih hentry with hentry | hentry
      · rcases mem_insert hentry with rfl | hentry
        · exact Or.inr (by simp)
        · exact Or.inl hentry
      · exact Or.inr (List.mem_cons_of_mem _ hentry)

theorem mem_of_mem_ofEntries {entries : List (String × α)} {entry : String × α}
    (hentry : entry ∈ ofEntries entries) : entry ∈ entries := by
  simpa using mem_of_mem_overlay hentry

theorem get?_map_values (f : α → β) (key : String) (members : List (String × α)) :
    get? key (members.map fun entry => (entry.1, f entry.2)) = (get? key members).map f := by
  induction members with
  | nil => rfl
  | cons entry members ih =>
      by_cases hkey : key = entry.1
      · simp [get?, hkey]
      · simp [get?, hkey, ih]

theorem get?_filter_ne (key tag : String) (members : List (String × α)) :
    get? key (members.filter (·.1 ≠ tag)) = if key = tag then none else get? key members := by
  induction members with
  | nil => simp
  | cons entry members ih =>
      by_cases htag : entry.1 = tag
      · rw [List.filter_cons_of_neg (by simpa using htag), ih]
        by_cases hkey : key = tag
        · simp [hkey]
        · simp [get?, hkey, htag]
      · rw [List.filter_cons_of_pos (by simpa using htag)]
        by_cases hkey : key = entry.1
        · simp [get?, hkey, htag]
        · simpa [get?, hkey] using ih

theorem filter_eq_singleton
    {members : List (String × α)} (hnodup : (members.map Prod.fst).Nodup)
    {key : String} {value : α} (hget : get? key members = some value) :
    members.filter (·.1 = key) = [(key, value)] := by
  induction members with
  | nil => cases hget
  | cons entry members ih =>
      rw [List.map_cons, List.nodup_cons] at hnodup
      unfold get? at hget
      split at hget
      next hkey =>
        cases hget
        have hrest : members.filter (·.1 = key) = [] := by
          rw [List.filter_eq_nil_iff]
          intro other hother hsame
          apply hnodup.1
          rw [← hkey, ← of_decide_eq_true hsame]
          exact List.mem_map_of_mem hother
        rw [List.filter_cons_of_pos (by simpa using hkey.symm), hrest, hkey]
      next hkey =>
        rw [List.filter_cons_of_neg (by simpa using Ne.symm hkey)]
        exact ih hnodup.2 hget

theorem length_filter_le_one
    {members : List (String × α)} (hnodup : (members.map Prod.fst).Nodup) (key : String) :
    (members.filter (·.1 = key)).length ≤ 1 := by
  cases hget : get? key members with
  | some value => simp [filter_eq_singleton hnodup hget]
  | none =>
      have hnone : members.filter (·.1 = key) = [] := by
        rw [List.filter_eq_nil_iff]
        intro entry hentry hsame
        apply get?_eq_none_iff.mp hget
        rw [← of_decide_eq_true hsame]
        exact List.mem_map_of_mem hentry
      simp [hnone]

end Members

/-! ## Values as trees -/

namespace Json.Value

theorem treesOf_eq_map (items : List Value) : treesOf items = items.map toTree := by
  induction items with
  | nil => rfl
  | cons v items ih => rw [treesOf, ih, List.map_cons]

theorem entriesOf_eq_map (members : List (String × Value)) :
    entriesOf members = members.map fun entry => (entry.1, entry.2.toTree) := by
  induction members with
  | nil => rfl
  | cons entry members ih => rw [entriesOf, ih, List.map_cons]

theorem entriesOf_filter (tag : String) (members : List (String × Value)) :
    (entriesOf members).filter (·.1 ≠ tag) = entriesOf (members.filter (·.1 ≠ tag)) := by
  rw [entriesOf_eq_map, entriesOf_eq_map, List.filter_map]
  rfl

@[simp] theorem entriesOf_keys (members : List (String × Value)) :
    (entriesOf members).map Prod.fst = members.map Prod.fst := by
  rw [entriesOf_eq_map, List.map_map]
  rfl

mutual

theorem readable_toTree (v : Value) : v.toTree.readable = true := by
  cases v with
  | null => rfl
  | bool b => rfl
  | number n => cases n <;> rfl
  | string s => rfl
  | array items => exact readableItems_treesOf items
  | object members => exact readableEntries_entriesOf members

theorem readableItems_treesOf (items : List Value) :
    Tree.readableItems (treesOf items) = true := by
  cases items with
  | nil => rfl
  | cons v items =>
      simp only [treesOf, Tree.readableItems, Bool.and_eq_true]
      exact ⟨readable_toTree v, readableItems_treesOf items⟩

theorem readableEntries_entriesOf (members : List (String × Value)) :
    Tree.readableEntries (entriesOf members) = true := by
  cases members with
  | nil => rfl
  | cons entry members =>
      simp only [entriesOf, Tree.readableEntries, Bool.and_eq_true]
      exact ⟨readable_toTree entry.2, readableEntries_entriesOf members⟩

end

theorem normalMembers_iff {members : List (String × Value)} :
    NormalMembers members ↔ ∀ entry ∈ members, entry.2.Normal := by
  induction members with
  | nil => simp [NormalMembers]
  | cons entry members ih => simp [NormalMembers, ih]

theorem normalItems_iff {items : List Value} :
    NormalItems items ↔ ∀ item ∈ items, item.Normal := by
  induction items with
  | nil => simp [NormalItems]
  | cons item items ih => simp [NormalItems, ih]

theorem ofTree?_number (n : Number) : ofTree? n.toTree = some (.number n) := by
  cases n with
  | natural n =>
      have hsize : (n : Nat) < UInt64.size := n.isLt
      simp [Number.toTree, ofTree?, Number.ofInt?, hsize]
  | negative k =>
      have hsize : (k : Nat) < UInt64.size / 2 := k.isLt
      simp only [Number.toTree, ofTree?, Number.ofInt?, dif_pos hsize]
      rfl
  | float x hfinite => simp [Number.toTree, ofTree?, Number.ofFloat?, hfinite]

mutual

theorem ofTree?_toTree (v : Value) (hnormal : v.Normal) : ofTree? v.toTree = some v := by
  cases v with
  | null => rfl
  | bool b => rfl
  | number n => exact ofTree?_number n
  | string s => rfl
  | array items =>
      simp only [toTree, ofTree?, ofTrees?_treesOf items hnormal, Option.map_some]
  | object members =>
      obtain ⟨hsorted, hmembers⟩ := hnormal
      simp only [toTree, ofTree?, ofEntries?_entriesOf members hmembers, Option.map_some]
      rw [ofEntries, Members.ofEntries_of_sorted hsorted]

theorem ofTrees?_treesOf (items : List Value) (hnormal : NormalItems items) :
    ofTrees? (treesOf items) = some items := by
  cases items with
  | nil => rfl
  | cons v items =>
      simp only [treesOf, ofTrees?, ofTree?_toTree v hnormal.1, ofTrees?_treesOf items hnormal.2]

theorem ofEntries?_entriesOf (members : List (String × Value)) (hnormal : NormalMembers members) :
    ofEntries? (entriesOf members) = some members := by
  cases members with
  | nil => rfl
  | cons entry members =>
      simp only [entriesOf, ofEntries?, ofTree?_toTree entry.2 hnormal.1,
        ofEntries?_entriesOf members hnormal.2]

end

mutual

theorem normal_of_ofTree? (t : Tree) {v : Value} (hvalue : ofTree? t = some v) : v.Normal := by
  cases t with
  | null | bool _ | text _ =>
      cases hvalue
      trivial
  | int i =>
      obtain ⟨n, -, rfl⟩ := Option.map_eq_some_iff.mp hvalue
      trivial
  | float x =>
      unfold ofTree? at hvalue
      split at hvalue <;> cases hvalue <;> trivial
  | list items =>
      obtain ⟨vs, hitems, rfl⟩ := Option.map_eq_some_iff.mp hvalue
      exact normal_of_ofTrees? items hitems
  | table entries =>
      obtain ⟨members, hmembers, rfl⟩ := Option.map_eq_some_iff.mp hvalue
      have hnormal := normalMembers_iff.mp (normal_of_ofEntries? entries hmembers)
      refine ⟨Members.sorted_ofEntries members, normalMembers_iff.mpr ?_⟩
      intro entry hentry
      exact hnormal entry (Members.mem_of_mem_ofEntries hentry)
  | unreadable => cases hvalue

theorem normal_of_ofTrees? (items : List Tree) {vs : List Value}
    (hvalues : ofTrees? items = some vs) : NormalItems vs := by
  cases items with
  | nil =>
      cases hvalues
      trivial
  | cons t items =>
      unfold ofTrees? at hvalues
      split at hvalues
      next v rest hv hrest =>
        cases hvalues
        exact ⟨normal_of_ofTree? t hv, normal_of_ofTrees? items hrest⟩
      next => cases hvalues

theorem normal_of_ofEntries? (entries : List (String × Tree)) {members : List (String × Value)}
    (hvalues : ofEntries? entries = some members) : NormalMembers members := by
  cases entries with
  | nil =>
      cases hvalues
      trivial
  | cons entry entries =>
      unfold ofEntries? at hvalues
      split at hvalues
      next v rest hv hrest =>
        cases hvalues
        exact ⟨normal_of_ofTree? entry.2 hv, normal_of_ofEntries? entries hrest⟩
      next => cases hvalues

end

end Json.Value

/-! ## Keeping trees -/

namespace Tree

/-- Every part of the tree is a JSON value. -/
def Storable (t : Tree) : Prop := ∃ v, Value.ofTree? t = some v

/-- The tree that comes back. -/
def kept (t : Tree) : Tree := (Value.ofTree t).toTree

theorem Storable.ofTree? {t : Tree} (hstorable : t.Storable) :
    Value.ofTree? t = some (Value.ofTree t) := by
  obtain ⟨v, hv⟩ := hstorable
  rw [Value.ofTree, hv, Option.getD_some]

theorem kept_of_ofTree? {t : Tree} {v : Value} (hvalue : Value.ofTree? t = some v) :
    t.kept = v.toTree := by
  rw [kept, Value.ofTree, hvalue, Option.getD_some]

end Tree

namespace Json.Value

theorem ofTrees?_eq_map {items : List Tree} (hitems : ∀ t ∈ items, t.Storable) :
    ofTrees? items = some (items.map ofTree) := by
  induction items with
  | nil => rfl
  | cons t items ih =>
      rw [List.forall_mem_cons] at hitems
      simp [ofTrees?, hitems.1.ofTree?, ih hitems.2]

theorem ofEntries?_eq_map
    {entries : List (String × Tree)} (hentries : ∀ entry ∈ entries, entry.2.Storable) :
    ofEntries? entries = some (entries.map fun entry => (entry.1, ofTree entry.2)) := by
  induction entries with
  | nil => rfl
  | cons entry entries ih =>
      rw [List.forall_mem_cons] at hentries
      simp [ofEntries?, hentries.1.ofTree?, ih hentries.2]

end Json.Value

namespace Tree

/-- The members of the object that a table is kept as. -/
def keptMembers (entries : List (String × Tree)) : Members Value :=
  Members.ofEntries (entries.map fun entry => (entry.1, Value.ofTree entry.2))

variable {items : List Tree} {entries : List (String × Tree)}

theorem ofTree?_list (hitems : ∀ t ∈ items, t.Storable) :
    Value.ofTree? (.list items) = some (.array (items.map Value.ofTree)) := by
  rw [Value.ofTree?, Value.ofTrees?_eq_map hitems, Option.map_some]

theorem ofTree?_table (hentries : ∀ entry ∈ entries, entry.2.Storable) :
    Value.ofTree? (.table entries) = some (.object (keptMembers entries)) := by
  rw [Value.ofTree?, Value.ofEntries?_eq_map hentries, Option.map_some]
  rfl

theorem kept_list (hitems : ∀ t ∈ items, t.Storable) :
    kept (.list items) = .list (items.map kept) := by
  rw [kept_of_ofTree? (ofTree?_list hitems), Value.toTree, Value.treesOf_eq_map, List.map_map]
  rfl

theorem kept_table (hentries : ∀ entry ∈ entries, entry.2.Storable) :
    kept (.table entries) = (Value.object (keptMembers entries)).toTree :=
  kept_of_ofTree? (ofTree?_table hentries)

theorem keptMembers_keys_nodup : ((keptMembers entries).map Prod.fst).Nodup :=
  (Members.sorted_ofEntries _).keys_nodup

theorem get?_keptMembers (hnodup : (entries.map Prod.fst).Nodup) (key : String) :
    (keptMembers entries).get? key = (Members.get? key entries).map Value.ofTree := by
  have hkeys : ((entries.map fun entry => (entry.1, Value.ofTree entry.2)).map Prod.fst).Nodup := by
    simpa [Function.comp_def] using hnodup
  rw [keptMembers, Members.get?_ofEntries_of_nodup hkeys, Members.get?_map_values]

/-- An entry of a new name changes nothing but the lookups of this name. -/
theorem keptMembers_cons_filter
    {tag : String} {t : Tree} (hnodup : (((tag, t) :: entries).map Prod.fst).Nodup) :
    (keptMembers ((tag, t) :: entries)).filter (·.1 ≠ tag) = keptMembers entries := by
  have hsorted : Members.Sorted ((keptMembers ((tag, t) :: entries)).filter (·.1 ≠ tag)) :=
    (Members.sorted_ofEntries _).filter _
  have hnew := List.nodup_cons.mp hnodup
  refine hsorted.ext (Members.sorted_ofEntries _) ?_
  intro key
  rw [Members.get?_filter_ne, get?_keptMembers hnodup, get?_keptMembers hnew.2]
  by_cases hkey : key = tag
  · have hnone : Members.get? tag entries = none := Members.get?_eq_none_iff.mpr hnew.1
    simp [hkey, hnone]
  · simp [hkey, Members.get?]

end Tree

end WorkPlan
