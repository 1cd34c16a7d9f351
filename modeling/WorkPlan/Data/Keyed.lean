/-!
# Members in the order of their keys

An association list whose keys increase strictly is the normal form of a finite map from names.
Names are ordered by their code points.  Storing under a present name replaces what is there.
-/

namespace WorkPlan

/-- The members of a map from names, in list form. -/
abbrev Members (α : Type u) := List (String × α)

namespace Members

variable {α : Type u} {β : Type v}

/-- The keys increase strictly. -/
def Sorted (members : Members α) : Prop := members.Pairwise fun a b => a.1 < b.1

def insert (key : String) (value : α) : Members α → Members α
  | [] => [(key, value)]
  | (k, v) :: rest =>
    if key < k then (key, value) :: (k, v) :: rest
    else if key = k then (key, value) :: rest
    else (k, v) :: insert key value rest

def get? (key : String) : Members α → Option α
  | [] => none
  | (k, v) :: rest => if key = k then some v else get? key rest

/-- Lays the members of the second list over the first, each in turn. -/
def overlay (under : Members α) (added : List (String × α)) : Members α :=
  added.foldl (fun members entry => members.insert entry.1 entry.2) under

/-- The map that stores the entries one after the other, so that the last of a name wins. -/
def ofEntries (entries : List (String × α)) : Members α := overlay [] entries

@[simp] theorem get?_nil (key : String) : get? key ([] : Members α) = none := rfl

theorem get?_insert (key other : String) (value : α) (members : Members α) :
    get? other (members.insert key value) = if other = key then some value else get? other members := by
  induction members with
  | nil => simp [insert, get?]
  | cons first rest ih =>
    unfold insert
    grind [get?]

@[simp] theorem overlay_nil (under : Members α) : overlay under [] = under := rfl

@[simp] theorem overlay_cons (under : Members α) (entry : String × α) (added : List (String × α)) :
    overlay under (entry :: added) = overlay (under.insert entry.1 entry.2) added := rfl

theorem overlay_append (under : Members α) (first second : List (String × α)) :
    overlay under (first ++ second) = overlay (overlay under first) second := by
  simp [overlay]

/-! ## Keys stay in order -/

theorem mem_insert {key : String} {value : α} {members : Members α} {entry : String × α}
    (h : entry ∈ members.insert key value) : entry = (key, value) ∨ entry ∈ members := by
  induction members with
  | nil => simpa [insert] using h
  | cons first rest ih =>
    unfold insert at h
    grind

theorem Sorted.insert {members : Members α} (h : members.Sorted) (key : String) (value : α) :
    (members.insert key value).Sorted := by
  induction members with
  | nil => simp [Members.insert, Sorted]
  | cons first rest ih =>
    obtain ⟨k, v⟩ := first
    simp only [Sorted, List.pairwise_cons] at h ih ⊢
    unfold Members.insert
    split
    · rename_i lt
      refine List.pairwise_cons.2 ⟨fun entry mem => ?_, List.pairwise_cons.2 h⟩
      rcases List.mem_cons.1 mem with rfl | mem
      · exact lt
      · exact String.lt_trans lt (h.1 entry mem)
    · split
      · rename_i eq
        subst eq
        exact List.pairwise_cons.2 h
      · rename_i not_lt not_eq
        have lt : k < key :=
          Std.lt_of_le_of_ne (String.not_lt.1 not_lt) fun eq => not_eq eq.symm
        refine List.pairwise_cons.2 ⟨fun entry mem => ?_, ih h.2⟩
        rcases mem_insert mem with rfl | mem
        · exact lt
        · exact h.1 entry mem

theorem Sorted.overlay {under : Members α} (h : under.Sorted) (added : List (String × α)) :
    (under.overlay added).Sorted := by
  induction added generalizing under with
  | nil => exact h
  | cons entry added ih => exact ih (h.insert entry.1 entry.2)

theorem sorted_ofEntries (entries : List (String × α)) : (ofEntries entries).Sorted :=
  Sorted.overlay .nil entries

end Members

/-- A finite map from names, as its members in the order of their names. -/
structure Dictionary (α : Type u) where
  members : Members α
  sorted : members.Sorted

namespace Dictionary

variable {α : Type u}

/-- The map that stores the entries one after the other. -/
def ofEntries (entries : List (String × α)) : Dictionary α :=
  ⟨Members.ofEntries entries, Members.sorted_ofEntries entries⟩

instance : EmptyCollection (Dictionary α) := ⟨⟨[], .nil⟩⟩

def get? (map : Dictionary α) (key : String) : Option α := map.members.get? key

def isEmpty (map : Dictionary α) : Bool := map.members.isEmpty

end Dictionary

end WorkPlan
