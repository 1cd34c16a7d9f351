import Mathlib.Tactic
import WorkPlan.Proofs.Storing

/-!
# Reading back what was kept

Every reader of a part of a record finds in the tree that comes back what was written
there.  A record is read field by field, so it is read back when each of its parts is: a
part that was left out has its default, and a part that was written is found under its
name.  What is read out of a JSON value in the first place has only finite floats and
literals in their normal form, so it can be written again.
-/

namespace WorkPlan

open Json

/-! ## Looking into what comes back -/

namespace Codec

variable {members : Members Value} {entries : List (String × Tree)} {tag : String}

theorem fields?_object
    (hnodup : (members.map Prod.fst).Nodup) (d : Dialect) (names : List String) :
    fields? d names (Value.object members).toTree =
      some fun name => (members.get? name).map Value.toTree := by
  have hkeys : ((Value.entriesOf members).map Prod.fst).Nodup := by
    rwa [Value.entriesOf_keys]
  have honce : (names.all fun name =>
      decide (((Value.entriesOf members).filter (·.1 = name)).length ≤ 1)) = true := by
    rw [List.all_eq_true]
    intro name _
    exact decide_eq_true (Members.length_filter_le_one hkeys name)
  rw [Value.toTree, fields?, if_pos honce]
  congr 1
  funext name
  rw [Members.lookup_eq_get?, Value.entriesOf_eq_map, Members.get?_map_values]

theorem tagged?_object
    (hnodup : (members.map Prod.fst).Nodup) {v : Value} (htag : members.get? tag = some v) :
    tagged? tag (Value.object members).toTree =
      some (v.toTree, (Value.object (members.filter (·.1 ≠ tag))).toTree) := by
  have hkeys : ((Value.entriesOf members).map Prod.fst).Nodup := by
    rwa [Value.entriesOf_keys]
  have hget : Members.get? tag (Value.entriesOf members) = some v.toTree := by
    rw [Value.entriesOf_eq_map, Members.get?_map_values, htag, Option.map_some]
  rw [Value.toTree, tagged?]
  simp only [Members.filter_eq_singleton hkeys hget, Value.entriesOf_filter,
    Value.readableEntries_entriesOf, if_true]
  rfl

theorem fields?_kept
    (hnodup : (entries.map Prod.fst).Nodup) (hentries : ∀ entry ∈ entries, entry.2.Storable)
    (d : Dialect) (names : List String) :
    fields? d names (Tree.kept (.table entries)) =
      some fun name => (Members.get? name entries).map Tree.kept := by
  rw [Tree.kept_table hentries, fields?_object Tree.keptMembers_keys_nodup]
  congr 1
  funext name
  rw [Tree.get?_keptMembers hnodup, Option.map_map]
  rfl

theorem tagged?_kept
    {t : Tree} (hnodup : (((tag, t) :: entries).map Prod.fst).Nodup) (ht : t.Storable)
    (hentries : ∀ entry ∈ entries, entry.2.Storable) :
    tagged? tag (Tree.kept (.table ((tag, t) :: entries))) =
      some (t.kept, Tree.kept (.table entries)) := by
  have hall : ∀ entry ∈ (tag, t) :: entries, entry.2.Storable :=
    List.forall_mem_cons.mpr ⟨ht, hentries⟩
  have hget : (Tree.keptMembers ((tag, t) :: entries)).get? tag = some (Value.ofTree t) := by
    rw [Tree.get?_keptMembers hnodup]
    simp [Members.get?]
  rw [Tree.kept_table hall, tagged?_object Tree.keptMembers_keys_nodup hget,
    Tree.keptMembers_cons_filter hnodup, Tree.kept_table hentries]
  rfl

/-! ## Reading back what was written -/

theorem mapM_map_eq_some
    {α β γ : Type} {write : α → β} {read : β → Option γ} {meaning : α → γ} {xs : List α}
    (hitems : ∀ x ∈ xs, read (write x) = some (meaning x)) :
    (xs.map write).mapM read = some (xs.map meaning) := by
  induction xs with
  | nil => rfl
  | cons x xs ih =>
      rw [List.forall_mem_cons] at hitems
      rw [List.map_cons, List.mapM_cons, hitems.1, ih hitems.2]
      rfl

variable {α : Type} {read : Tree → Option α} {t : Tree} {x : α}

/-- The tree can be kept as a JSON value, from which `x` is read. -/
def Restores (read : Tree → Option α) (t : Tree) (x : α) : Prop :=
  ∃ v, Value.ofTree? t = some v ∧ read v.toTree = some x

theorem Restores.storable (hrestores : Restores read t x) : t.Storable := by
  obtain ⟨v, hv, -⟩ := hrestores
  exact ⟨v, hv⟩

theorem Restores.read_kept (hrestores : Restores read t x) : read t.kept = some x := by
  obtain ⟨v, hv, hread⟩ := hrestores
  rwa [Tree.kept_of_ofTree? hv]

theorem restores_of_kept (hstorable : t.Storable) (hread : read t.kept = some x) :
    Restores read t x := by
  obtain ⟨v, hv⟩ := hstorable
  refine ⟨v, hv, ?_⟩
  rwa [← Tree.kept_of_ofTree? hv]

theorem restores_text (s : String) : Restores text? (.text s) s := ⟨.string s, rfl, rfl⟩

theorem restores_flag (b : Bool) : Restores flag? (.bool b) b := ⟨.bool b, rfl, rfl⟩

theorem restores_value {v : Value} (hnormal : v.Normal) : Restores Value.ofTree? v.toTree v :=
  ⟨v, Value.ofTree?_toTree v hnormal, Value.ofTree?_toTree v hnormal⟩

theorem restores_float {f : Binary64} (hfinite : f.isFinite = true) :
    Restores float? (.float f) f :=
  ⟨_, Value.ofTree?_number (.float f hfinite), rfl⟩

theorem restores_word32 (n : UInt32) : Restores word32? (.int n.toNat) n := by
  have hsize : n.toNat < UInt64.size := n.toNat_lt.trans (by decide)
  refine ⟨_, Value.ofTree?_number (.natural ⟨n.toNat, hsize⟩), ?_⟩
  have hbound : n.toNat < UInt32.size := n.toNat_lt
  simp [Value.toTree, Number.toTree, word32?, natural?, hbound]

theorem restores_word64 (n : UInt64) : Restores word64? (.int n.toNat) n := by
  have hsize : n.toNat < UInt64.size := n.toNat_lt
  refine ⟨_, Value.ofTree?_number (.natural ⟨n.toNat, hsize⟩), ?_⟩
  simp [Value.toTree, Number.toTree, word64?, natural?, hsize]

theorem restores_list
    {encode : α → Tree} {xs : List α} (hitems : ∀ x ∈ xs, Restores read (encode x) x) :
    Restores (list? read) (.list (xs.map encode)) xs := by
  have hstorable : ∀ t ∈ xs.map encode, t.Storable := by
    intro t ht
    obtain ⟨x, hx, rfl⟩ := List.mem_map.mp ht
    exact (hitems x hx).storable
  apply restores_of_kept ⟨_, Tree.ofTree?_list hstorable⟩
  have hread : ∀ x ∈ xs, read (encode x).kept = some (id x) :=
    fun x hx => (hitems x hx).read_kept
  rw [Tree.kept_list hstorable, list?, List.map_map]
  exact (mapM_map_eq_some hread).trans (by rw [List.map_id])

theorem restores_texts (xs : List String) : Restores texts? (.list (xs.map .text)) xs :=
  restores_list fun x _ => restores_text x

theorem restores_dictionary (map : Dictionary String) :
    Restores dictionary? (.table (map.members.map fun entry => (entry.1, .text entry.2))) map := by
  let entries : List (String × Tree) := map.members.map fun entry => (entry.1, .text entry.2)
  have hstorable : ∀ entry ∈ entries, entry.2.Storable := by
    intro entry hentry
    obtain ⟨member, -, rfl⟩ := List.mem_map.mp hentry
    exact (restores_text member.2).storable
  have hsorted : Members.Sorted (map.members.map fun entry => (entry.1, Value.string entry.2)) :=
    List.pairwise_map.mpr map.sorted
  have hkept : Tree.kept (.table entries) = .table entries := by
    rw [Tree.kept_table hstorable, Value.toTree, Value.entriesOf_eq_map, Tree.keptMembers,
      List.map_map]
    change Tree.table ((Members.ofEntries (map.members.map
      fun entry => (entry.1, Value.string entry.2))).map _) = _
    rw [Members.ofEntries_of_sorted hsorted, List.map_map]
    rfl
  apply restores_of_kept ⟨_, Tree.ofTree?_table hstorable⟩
  have hentries : (entries.mapM fun entry => (text? entry.2).map fun s => (entry.1, s)) =
      some (map.members.map id) :=
    mapM_map_eq_some fun _ _ => rfl
  rw [hkept, dictionary?, hentries, List.map_id, Option.map_some, Dictionary.ofEntries]
  simp only [Members.ofEntries_of_sorted map.sorted]

/-! ## Parts of a record -/

variable {names others : List String} {added : List (String × Tree)}
  {found foundToo : (String → Option Tree) → Prop}

/-- The entries are JSON values under some of the names, in the order of the names, and
whoever looks under the names at what is kept of them sees it as `found` says. -/
structure Parts (names : List String) (entries : List (String × Tree))
    (found : (String → Option Tree) → Prop) : Prop where
  keys : (entries.map Prod.fst).Sublist names
  storable : ∀ entry ∈ entries, entry.2.Storable
  found : names.Nodup → ∀ field : String → Option Tree,
    (∀ name ∈ names, field name = (Members.get? name entries).map Tree.kept) → found field

theorem Parts.get?_eq_none
    (hparts : Parts names entries found) {name : String} (hname : name ∉ names) :
    Members.get? name entries = none :=
  Members.get?_eq_none_iff.mpr fun hkey => hname (hparts.keys.subset hkey)

theorem Parts.append
    (hparts : Parts names entries found) (hadded : Parts others added foundToo) :
    Parts (names ++ others) (entries ++ added) fun field => found field ∧ foundToo field where
  keys := by
    rw [List.map_append]
    exact hparts.keys.append hadded.keys
  storable := List.forall_mem_append.mpr ⟨hparts.storable, hadded.storable⟩
  found := by
    intro hnodup field hfield
    obtain ⟨hnames, hothers, hapart⟩ := List.nodup_append.mp hnodup
    constructor
    · apply hparts.found hnames
      intro name hname
      have hnone := hadded.get?_eq_none fun hother => hapart name hname name hother rfl
      rw [hfield name (List.mem_append_left _ hname), Members.get?_append, hnone,
        Option.or_none]
    · apply hadded.found hothers
      intro name hother
      have hnone := hparts.get?_eq_none fun hname => hapart name hname name hother rfl
      rw [hfield name (List.mem_append_right _ hother), Members.get?_append, hnone,
        Option.none_or]

theorem parts_absent
    {name : String}
    (hfound : ∀ field : String → Option Tree, field name = none → found field) :
    Parts [name] [] found where
  keys := List.nil_sublist _
  storable := by simp
  found := fun _ field hfield => hfound field (hfield name (by simp))

theorem parts_entry
    {name : String} (hstorable : t.Storable)
    (hfound : ∀ field : String → Option Tree, field name = some t.kept → found field) :
    Parts [name] [(name, t)] found where
  keys := List.Sublist.refl _
  storable := by simpa using hstorable
  found := by
    intro _ field hfield
    apply hfound
    rw [hfield name (by simp)]
    simp [Members.get?]

variable {encode : α → Tree} {value : Option α} {xs : List α}

theorem parts_required
    (name : String) (hrestores : Restores read t x) :
    Parts [name] [(name, t)] fun field => required (field name) read = some x := by
  apply parts_entry hrestores.storable
  intro field hfield
  rw [hfield]
  exact hrestores.read_kept

theorem parts_defaulted
    (name : String) (y : α) (hrestores : Restores read t x) :
    Parts [name] [(name, t)] fun field => defaulted y (field name) read = some x := by
  apply parts_entry hrestores.storable
  intro field hfield
  rw [hfield]
  exact hrestores.read_kept

theorem parts_optional
    (name : String) (hnull : read .null = none)
    (hrestores : ∀ x ∈ value, Restores read (encode x) x) :
    Parts [name] (Tree.optional name (value.map encode))
      fun field => optional (field name) read = some value := by
  cases value with
  | none =>
      apply parts_absent
      intro field hfield
      rw [hfield]
      rfl
  | some x =>
      have hread := (hrestores x rfl).read_kept
      have hsome : (encode x).kept ≠ .null := by
        intro heq
        rw [heq, hnull] at hread
        cases hread
      apply parts_entry (hrestores x rfl).storable
      intro field hfield
      simp only [hfield, optional, hread, Option.map_some]

theorem parts_unlessEmpty
    (name : String) (hitems : ∀ x ∈ xs, Restores read (encode x) x) :
    Parts [name] (Tree.unlessEmpty name (xs.map encode))
      fun field => defaulted [] (field name) (list? read) = some xs := by
  cases xs with
  | nil =>
      apply parts_absent
      intro field hfield
      rw [hfield]
      rfl
  | cons x xs => exact parts_defaulted name [] (restores_list hitems)

theorem restores_record
    {d : Dialect} {readFields : (String → Option Tree) → Option α}
    (hparts : Parts names entries found) (hnames : names.Nodup)
    (hread : ∀ field, found field → readFields field = some x) :
    Restores (fun t => fields? d names t >>= readFields) (.table entries) x := by
  apply restores_of_kept ⟨_, Tree.ofTree?_table hparts.storable⟩
  rw [fields?_kept (hparts.keys.nodup hnames) hparts.storable]
  exact hread _ (hparts.found hnames _ fun _ _ => rfl)

theorem restores_tagged
    {label : String} {readCase : Tree × Tree → Option α}
    (hparts : Parts names entries found) (hnames : (tag :: names).Nodup)
    (hread : Restores (fun contents => readCase (.text label, contents)) (.table entries) x) :
    Restores (fun t => tagged? tag t >>= readCase) (.table ((tag, .text label) :: entries))
      x := by
  have hlabel : (Tree.text label).Storable := (restores_text label).storable
  have hkeys : (((tag, Tree.text label) :: entries).map Prod.fst).Sublist (tag :: names) :=
    hparts.keys.cons_cons tag
  have hentries : ∀ entry ∈ (tag, Tree.text label) :: entries, entry.2.Storable :=
    List.forall_mem_cons.mpr ⟨hlabel, hparts.storable⟩
  apply restores_of_kept ⟨_, Tree.ofTree?_table hentries⟩
  rw [tagged?_kept (hkeys.nodup hnames) hlabel hparts.storable]
  exact hread.read_kept

/-! ## Parts of JSON values -/

variable {part : Option Tree}

/-- Whatever is read out of a JSON value has the property. -/
def Yields (read : Tree → Option α) (P : α → Prop) : Prop :=
  ∀ (v : Value) (x : α), read v.toTree = some x → P x

variable {P : α → Prop}

theorem yields_float : Yields float? fun f => f.isFinite = true := by
  intro v f hread
  cases v with
  | number n =>
      cases n with
      | natural n =>
          cases hread
          exact Binary64.isFinite_ofInt n.isLt
      | negative k =>
          cases hread
          have hsize : (k : Nat) < 2 ^ 63 := k.isLt
          apply Binary64.isFinite_ofInt
          simp only [Int.natAbs_negSucc]
          omega
      | float f hfinite =>
          cases hread
          exact hfinite
  | null | bool _ | string _ | array _ | object _ => cases hread

theorem yields_value : Yields Value.ofTree? Value.Normal :=
  fun v _ hread => Value.normal_of_ofTree? v.toTree hread

theorem Yields.list (hread : Yields read P) : Yields (list? read) fun xs => ∀ x ∈ xs, P x := by
  intro v xs hxs
  cases v with
  | array items =>
      rw [Value.toTree, Value.treesOf_eq_map, list?] at hxs
      induction items generalizing xs with
      | nil =>
          cases hxs
          simp
      | cons v items ih =>
          rw [List.map_cons, List.mapM_cons] at hxs
          obtain ⟨x, hx, hrest⟩ := Option.bind_eq_some_iff.mp hxs
          obtain ⟨rest, hitems, hcons⟩ := Option.bind_eq_some_iff.mp hrest
          cases hcons
          exact List.forall_mem_cons.mpr ⟨hread v x hx, ih rest hitems⟩
  | number n => cases n <;> cases hxs
  | null | bool _ | string _ | object _ => cases hxs

/-- A field of a record in a JSON value is a JSON value. -/
theorem toTree_of_fields?
    {d : Dialect} {v : Value} {field : String → Option Tree} {name : String}
    (hfields : fields? d names v.toTree = some field) (hpart : field name = some t) :
    ∃ u : Value, u.toTree = t := by
  cases v with
  | object members =>
      rw [Value.toTree, fields?] at hfields
      split at hfields
      next =>
        cases hfields
        dsimp only at hpart
        rw [Members.lookup_eq_get?, Value.entriesOf_eq_map, Members.get?_map_values] at hpart
        obtain ⟨u, -, hu⟩ := Option.map_eq_some_iff.mp hpart
        exact ⟨u, hu⟩
      next => cases hfields
  | array items =>
      rw [Value.toTree, fields?] at hfields
      split at hfields
      next =>
        cases hfields
        dsimp only at hpart
        rw [Value.treesOf_eq_map, List.getElem?_map] at hpart
        obtain ⟨u, -, hu⟩ := Option.map_eq_some_iff.mp hpart
        exact ⟨u, hu⟩
      next => cases hfields
  | number n => cases n <;> cases hfields
  | null | bool _ | string _ => cases hfields

theorem toTree_of_tagged?
    {v : Value} {rest : Tree} (htagged : tagged? tag v.toTree = some (t, rest)) :
    ∃ w : Value, w.toTree = rest := by
  cases v with
  | object members =>
      rw [Value.toTree, tagged?, Value.entriesOf_filter] at htagged
      split at htagged
      next =>
        split at htagged
        next =>
          cases htagged
          exact ⟨.object (members.filter (·.1 ≠ tag)), rfl⟩
        next => cases htagged
      next => cases htagged
  | array items =>
      cases items with
      | nil => cases htagged
      | cons v items =>
          rw [Value.toTree, Value.treesOf, tagged?] at htagged
          split at htagged
          next =>
            cases htagged
            exact ⟨.array items, rfl⟩
          next => cases htagged
  | number n => cases n <;> cases htagged
  | null | bool _ | string _ => cases htagged

theorem yields_record
    {d : Dialect} {readFields : (String → Option Tree) → Option α}
    (hread : ∀ field : String → Option Tree,
      (∀ name, ∀ t ∈ field name, ∃ v : Value, v.toTree = t) →
        ∀ x, readFields field = some x → P x) :
    Yields (fun t => fields? d names t >>= readFields) P := by
  intro v x hx
  obtain ⟨field, hfields, hrest⟩ := Option.bind_eq_some_iff.mp hx
  exact hread field (fun name t ht => toTree_of_fields? hfields ht) x hrest

theorem yields_tagged
    {readCase : Tree × Tree → Option α}
    (hread : ∀ label : Tree, Yields (fun contents => readCase (label, contents)) P) :
    Yields (fun t => tagged? tag t >>= readCase) P := by
  intro v x hx
  obtain ⟨⟨label, rest⟩, htagged, hcase⟩ := Option.bind_eq_some_iff.mp hx
  obtain ⟨w, rfl⟩ := toTree_of_tagged? htagged
  exact hread label w x hcase

theorem Yields.required
    (hread : Yields read P) (hpart : ∀ t ∈ part, ∃ v : Value, v.toTree = t)
    (hrequired : Codec.required part read = some x) : P x := by
  obtain ⟨t, ht, hx⟩ := Option.bind_eq_some_iff.mp hrequired
  obtain ⟨v, rfl⟩ := hpart t ht
  exact hread v x hx

theorem Yields.defaulted
    (hread : Yields read P) (hpart : ∀ t ∈ part, ∃ v : Value, v.toTree = t)
    {value : α} (hvalue : P value) (hdefaulted : Codec.defaulted value part read = some x) :
    P x := by
  cases part with
  | none =>
      cases hdefaulted
      exact hvalue
  | some t =>
      obtain ⟨v, rfl⟩ := hpart t rfl
      exact hread v x hdefaulted

theorem Yields.optional
    (hread : Yields read P) (hpart : ∀ t ∈ part, ∃ v : Value, v.toTree = t)
    (hoptional : Codec.optional part read = some value) :
    ∀ x ∈ value, P x := by
  unfold Codec.optional at hoptional
  split at hoptional
  next =>
    cases hoptional
    simp
  next =>
    cases hoptional
    simp
  next t _ =>
    obtain ⟨x, hx, rfl⟩ := Option.map_eq_some_iff.mp hoptional
    obtain ⟨v, rfl⟩ := hpart t rfl
    intro y hy
    cases hy
    exact hread v x hx

end Codec

end WorkPlan
