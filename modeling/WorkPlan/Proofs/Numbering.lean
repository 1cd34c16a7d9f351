import Mathlib.Data.Set.Card
import Mathlib.Tactic
import WorkPlan.Proofs.FirstError
import WorkPlan.Proofs.Reachability

/-!
# Every step is looked at once

The discovery looks at each step of a plan exactly once, however many ways lead to it, so it
ends after as many looks as there are steps.  It can be carried out on numbers: the nodes are
numbered as they are found, an index tells the numbers of steps, and edges join numbers.  The
index is the inverse of the list of nodes throughout, and never fails on a step that is on
the stack.
-/

namespace WorkPlan

/-! ## Look after look -/

namespace Discovery

variable {c : Catalog} {roots : List Nat} {s : Discovery} {k n : Nat}

/-- The discovery after so many looks. -/
def after (c : Catalog) (roots : List Nat) : Nat → Discovery
  | 0 => start roots
  | k + 1 => (after c roots k).look c

/-- The steps that so many looks are at, in order. -/
def looked (c : Catalog) (roots : List Nat) : Nat → List Nat
  | 0 => []
  | k + 1 => looked c roots k ++ (after c roots k).pending.head?.toList

theorem after_sound (c : Catalog) (roots : List Nat) (k : Nat) :
    (after c roots k).Sound c roots := by
  induction k with
  | zero => exact start_sound c roots
  | succ k ih => exact ih.look

theorem after_add (hended : (after c roots k).pending = []) (m : Nat) :
    after c roots (k + m) = after c roots k := by
  induction m with
  | zero => rfl
  | succ m ih =>
      rw [← Nat.add_assoc, after, ih]
      simp only [look, hended]

theorem run_after (c : Catalog) (roots : List Nat) (k fuel : Nat) :
    run c fuel (after c roots k) = after c roots (k + fuel) := by
  induction fuel generalizing k with
  | zero => rfl
  | succ fuel ih =>
      rw [run]
      split
      next hended => exact (after_add (List.isEmpty_iff.mp hended) _).symm
      next =>
        have hlooked := ih (k + 1)
        rw [after, Nat.add_right_comm] at hlooked
        exact hlooked

/-- The steps that were looked at are the nodes that are off the stack, each once. -/
structure LookedAt (order : List Nat) (s : Discovery) : Prop where
  nodup : order.Nodup
  mem_iff : ∀ i, i ∈ order ↔ i ∈ s.graph.nodes ∧ i ∉ s.pending

theorem LookedAt.look
    {order : List Nat} (hlooked : LookedAt order s) (htidy : s.Tidy) {i : Nat} {rest : List Nat}
    (hpending : s.pending = i :: rest) : LookedAt (order ++ [i]) (s.look c) := by
  have hnodup : i ∉ rest ∧ rest.Nodup := by simpa [hpending] using htidy.pending
  have htop : i ∈ s.graph.nodes := htidy.pending_found i (by simp [hpending])
  have hnew : i ∉ order := fun hi => ((hlooked.mem_iff i).mp hi).2 (by simp [hpending])
  constructor
  · rw [← List.concat_eq_append]
    exact hlooked.nodup.concat hnew
  · intro j
    rw [Discovery.look, hpending]
    dsimp only
    rw [mem_drawAll_nodes, mem_drawAll_pending, List.mem_append, hlooked.mem_iff, hpending,
      List.mem_cons, List.mem_singleton]
    by_cases hj : j = i
    · subst hj
      simp [htop, hnodup.1]
    · by_cases hnode : j ∈ s.graph.nodes
      · simp [hj, hnode]
      · simp +contextual [hj, hnode]

theorem looked_lookedAt (c : Catalog) (roots : List Nat) (k : Nat) :
    LookedAt (looked c roots k) (after c roots k) := by
  induction k with
  | zero =>
      have hstart := start_unlooked roots
      refine ⟨List.nodup_nil, fun i => ?_⟩
      simpa [looked, after] using hstart.nodes_pending i
  | succ k ih =>
      rw [looked]
      cases hpending : (after c roots k).pending with
      | nil =>
          have hsame : after c roots (k + 1) = after c roots k := after_add hpending 1
          rw [hsame, List.head?_nil, Option.toList_none, List.append_nil]
          exact ih
      | cons i rest => exact ih.look (after_sound c roots k).toTidy hpending

/-! ## The end -/

theorem looked_grows (c : Catalog) (roots : List Nat) (k m : Nat) :
    looked c roots k <+: looked c roots (k + m) := by
  induction m with
  | zero => exact List.prefix_rfl
  | succ m ih => exact ih.trans (List.prefix_append _ _)

section Unended

variable (hunended : ∀ l < n, (after c roots l).pending ≠ [])
include hunended

theorem looked_length (hk : k ≤ n) : (looked c roots k).length = k := by
  induction k with
  | zero => rfl
  | succ k ih =>
      obtain ⟨i, rest, hpending⟩ := List.exists_cons_of_ne_nil (hunended k hk)
      rw [looked, hpending, List.length_append, ih (Nat.le_of_succ_le hk)]
      rfl

theorem take_looked (hk : k ≤ n) : (looked c roots n).take k = looked c roots k := by
  obtain ⟨m, rfl⟩ := Nat.exists_eq_add_of_le hk
  have hprefix := List.prefix_iff_eq_take.mp (looked_grows c roots k m)
  rw [looked_length hunended hk] at hprefix
  exact hprefix.symm

theorem getElem?_looked (hk : k < n) :
    (looked c roots n)[k]? = (after c roots k).pending.head? := by
  obtain ⟨i, rest, hpending⟩ := List.exists_cons_of_ne_nil (hunended k hk)
  have hlength := looked_length hunended hk.le
  rw [← List.getElem?_take_of_lt (Nat.lt_succ_self k), take_looked hunended hk, looked, hpending,
    List.getElem?_append_right hlength.le, hlength, Nat.sub_self]
  rfl

end Unended

end Discovery

/-! ## Numbered nodes -/

/-- A discovery that numbers the steps it finds. -/
structure Numbering where
  /-- The found steps, each in the place of its number. -/
  nodes : List Nat := []
  /-- Steps with their numbers. -/
  index : List (Nat × Nat) := []
  /-- Pairs of the numbers of a dependency and its dependent. -/
  edges : List (Nat × Nat) := []
  pending : List Nat := []

namespace Numbering

def number? (s : Numbering) (i : Nat) : Option Nat := s.index.lookup i

/-- Gives a step the next number. -/
def add (s : Numbering) (i : Nat) : Numbering :=
  { s with
    nodes := s.nodes ++ [i], index := (i, s.nodes.length) :: s.index, pending := i :: s.pending }

def connect (s : Numbering) (dependency dependent : Nat) : Numbering :=
  if s.edges.contains (dependency, dependent) then s
  else { s with edges := s.edges ++ [(dependency, dependent)] }

def find (s : Numbering) (i : Nat) : Numbering :=
  match s.number? i with
  | some _ => s
  | none => s.add i

/-- Takes in a dependency and draws its edge to the node with a number. -/
def draw (dependent : Nat) (s : Numbering) (i : Nat) : Numbering :=
  match s.number? i with
  | some k => s.connect k dependent
  | none => (s.add i).connect s.nodes.length dependent

/-- Looks at the step on top of the stack, if the index has it. -/
def look? (c : Catalog) (s : Numbering) : Option Numbering :=
  match s.pending with
  | [] => some s
  | i :: rest =>
    (s.number? i).map fun k => (c.handles i).foldl (draw k) { s with pending := rest }

def start (roots : List Nat) : Numbering := roots.foldl find {}

/-- The numbering after so many looks, as long as the index has every step on top. -/
def after? (c : Catalog) (roots : List Nat) : Nat → Option Numbering
  | 0 => some (start roots)
  | k + 1 => (after? c roots k).bind (look? c)

/-- The numbering has the nodes and the stack of the discovery, its index is the inverse of
the list of nodes, and its edges are those of the discovery by numbers. -/
structure Shows (s : Numbering) (d : Discovery) : Prop where
  nodes : s.nodes = d.graph.nodes
  pending : s.pending = d.pending
  number?_iff : ∀ i k, s.number? i = some k ↔ s.nodes[k]? = some i
  edges : List.Forall₂
    (fun numbered edge => s.number? edge.1 = some numbered.1 ∧ s.number? edge.2 = some numbered.2)
    s.edges d.graph.edges

variable {c : Catalog} {roots : List Nat} {s : Numbering} {d : Discovery} {i j k l : Nat}

theorem number?_add : (s.add i).number? j = if j = i then some s.nodes.length else s.number? j := by
  unfold number? add
  rw [List.lookup_cons]
  by_cases hj : j = i
  · simp [hj]
  · simp [hj, beq_eq_false_iff_ne.mpr hj]

theorem number?_add_of_some
    (hnew : s.number? i = none) (hj : s.number? j = some k) : (s.add i).number? j = some k := by
  have hne : j ≠ i := by
    rintro rfl
    rw [hnew] at hj
    cases hj
  rw [number?_add, if_neg hne, hj]

theorem getElem?_concat_eq_some_iff {nodes : List Nat} :
    (nodes ++ [i])[k]? = some j ↔ nodes[k]? = some j ∨ k = nodes.length ∧ i = j := by
  grind

theorem connect_number? : (s.connect k l).number? i = s.number? i := by
  unfold connect
  split <;> rfl

namespace Shows

theorem inj (hshows : s.Shows d) (hi : s.number? i = some k) (hj : s.number? j = some k) :
    i = j := by
  rw [hshows.number?_iff] at hi hj
  exact Option.some.inj (hi.symm.trans hj)

theorem exists_number?_iff (hshows : s.Shows d) :
    (∃ k, s.number? i = some k) ↔ i ∈ d.graph.nodes := by
  rw [← hshows.nodes, List.mem_iff_getElem?]
  exact exists_congr fun k => hshows.number?_iff i k

theorem mem_edges_iff
    (hshows : s.Shows d) (hi : s.number? i = some k) (hj : s.number? j = some l) :
    (k, l) ∈ s.edges ↔ (i, j) ∈ d.graph.edges := by
  constructor
  · intro hedge
    obtain ⟨edge, hmem, hfirst, hsecond⟩ := exists_of_forall₂_left hshows.edges hedge
    rwa [hshows.inj hi hfirst, hshows.inj hj hsecond]
  · intro hedge
    obtain ⟨numbered, hmem, hfirst, hsecond⟩ := exists_of_forall₂_right hshows.edges hedge
    obtain rfl : numbered.1 = k := Option.some.inj (hfirst.symm.trans hi)
    obtain rfl : numbered.2 = l := Option.some.inj (hsecond.symm.trans hj)
    exact hmem

theorem add (hshows : s.Shows d) (hnew : s.number? i = none) : (s.add i).Shows (d.find i) := by
  have hnode : i ∉ d.graph.nodes := by
    intro hi
    obtain ⟨k, hk⟩ := hshows.exists_number?_iff.mpr hi
    rw [hnew] at hk
    cases hk
  unfold Discovery.find
  rw [if_neg hnode]
  refine ⟨congrArg (· ++ [i]) hshows.nodes, congrArg (i :: ·) hshows.pending, ?_, ?_⟩
  · intro j k
    change _ ↔ (s.nodes ++ [i])[k]? = some j
    rw [number?_add]
    rw [getElem?_concat_eq_some_iff, ← hshows.number?_iff]
    by_cases hj : j = i
    · subst hj
      simp [hnew, eq_comm]
    · simp [hj, Ne.symm hj]
  · exact hshows.edges.imp fun _ _ hsame =>
      ⟨number?_add_of_some hnew hsame.1, number?_add_of_some hnew hsame.2⟩

theorem connect
    (hshows : s.Shows d) (hi : s.number? i = some k) (hj : s.number? j = some l) :
    (s.connect k l).Shows { d with graph := d.graph.connect i j } := by
  have hmem := hshows.mem_edges_iff hi hj
  unfold Numbering.connect Graph.connect
  by_cases hedge : (k, l) ∈ s.edges
  · rw [if_pos (List.contains_iff_mem.mpr hedge), if_pos (hmem.mp hedge)]
    exact hshows
  · rw [if_neg (mt List.contains_iff_mem.mp hedge), if_neg (mt hmem.mpr hedge)]
    exact ⟨hshows.nodes, hshows.pending, hshows.number?_iff,
      List.rel_append hshows.edges (.cons ⟨hi, hj⟩ .nil)⟩

theorem draw
    (hshows : s.Shows d) (hj : s.number? j = some l) (i : Nat) :
    (s.draw l i).Shows (d.draw j i) ∧ (s.draw l i).number? j = some l := by
  unfold Numbering.draw Discovery.draw
  cases hi : s.number? i with
  | some k =>
      have hnode : i ∈ d.graph.nodes := hshows.exists_number?_iff.mp ⟨k, hi⟩
      have hfind : d.find i = d := if_pos hnode
      rw [hfind]
      exact ⟨hshows.connect hi hj, connect_number?.trans hj⟩
  | none =>
      have hadded := hshows.add hi
      have hlast : (s.add i).number? i = some s.nodes.length := by rw [number?_add, if_pos rfl]
      have hkept := number?_add_of_some hi hj
      exact ⟨hadded.connect hlast hkept, connect_number?.trans hkept⟩

theorem drawAll
    (hshows : s.Shows d) (hj : s.number? j = some l) (held : List Nat) :
    (held.foldl (Numbering.draw l) s).Shows (held.foldl (Discovery.draw j) d) := by
  induction held generalizing s d with
  | nil => exact hshows
  | cons i held ih =>
      obtain ⟨hdrawn, hkept⟩ := hshows.draw hj i
      exact ih hdrawn hkept

theorem find (hshows : s.Shows d) (i : Nat) : (s.find i).Shows (d.find i) := by
  unfold Numbering.find
  cases hi : s.number? i with
  | some k =>
      have hfind : d.find i = d := if_pos (hshows.exists_number?_iff.mp ⟨k, hi⟩)
      rw [hfind]
      exact hshows
  | none => exact hshows.add hi

theorem findAll (hshows : s.Shows d) (roots : List Nat) :
    (roots.foldl Numbering.find s).Shows (roots.foldl Discovery.find d) := by
  induction roots generalizing s d with
  | nil => exact hshows
  | cons i roots ih => exact ih (hshows.find i)

/-- What is on the stack has a number, so the look is not held up. -/
theorem look? (hshows : s.Shows d) (htidy : d.Tidy) :
    ∃ s', s.look? c = some s' ∧ s'.Shows (d.look c) := by
  unfold Numbering.look? Discovery.look
  rw [hshows.pending]
  cases hpending : d.pending with
  | nil => exact ⟨s, rfl, hshows⟩
  | cons i rest =>
      have hnode : i ∈ d.graph.nodes := htidy.pending_found i (by simp [hpending])
      obtain ⟨k, hk⟩ := hshows.exists_number?_iff.mpr hnode
      have hpopped : Shows { s with pending := rest } { d with pending := rest } :=
        ⟨hshows.nodes, rfl, hshows.number?_iff, hshows.edges⟩
      dsimp only
      rw [hk]
      exact ⟨_, rfl, hpopped.drawAll hk (c.handles i)⟩

end Shows

theorem start_shows (roots : List Nat) : (start roots).Shows (.start roots) := by
  have hempty : Shows {} {} := ⟨rfl, rfl, by simp [number?], .nil⟩
  exact hempty.findAll roots

theorem exists_after? (c : Catalog) (roots : List Nat) (k : Nat) :
    ∃ s, after? c roots k = some s ∧ s.Shows (.after c roots k) := by
  induction k with
  | zero => exact ⟨_, rfl, start_shows roots⟩
  | succ k ih =>
      obtain ⟨s, hs, hshows⟩ := ih
      obtain ⟨s', hs', hshows'⟩ := hshows.look? (Discovery.after_sound c roots k).toTidy
      exact ⟨s', by rw [after?, hs, Option.bind_some, hs'], hshows'⟩

/-- What holds between two looks, when the steps of a list were looked at so far. -/
structure Consistent (c : Catalog) (order : List Nat) (s : Numbering) : Prop where
  pending_numbered : ∀ i ∈ s.pending, ∃ k, s.number? i = some k
  pending_nodup : s.pending.Nodup
  not_again : ∀ i ∈ order, i ∉ s.pending
  number?_iff : ∀ i k, s.number? i = some k ↔ s.nodes[k]? = some i
  drawn : ∀ i ∈ order, ∀ j ∈ c.handles i,
    ∃ k l, s.number? j = some k ∧ s.number? i = some l ∧ (k, l) ∈ s.edges

theorem Shows.consistent
    {order : List Nat} (hshows : s.Shows d) (hsound : d.Sound c roots)
    (hlooked : d.LookedAt order) : s.Consistent c order where
  pending_numbered := by
    intro i hi
    rw [hshows.pending] at hi
    exact hshows.exists_number?_iff.mpr (hsound.pending_found i hi)
  pending_nodup := hshows.pending ▸ hsound.pending
  not_again := by
    intro i hi
    rw [hshows.pending]
    exact ((hlooked.mem_iff i).mp hi).2
  number?_iff := hshows.number?_iff
  drawn := by
    intro i hi j hj
    obtain ⟨hnode, hoff⟩ := (hlooked.mem_iff i).mp hi
    have hedge : (j, i) ∈ d.graph.edges := (hsound.drawn j i).mpr ⟨hnode, hoff, hj⟩
    obtain ⟨k, hk⟩ := hshows.exists_number?_iff.mpr (hsound.closed j i hedge)
    obtain ⟨l, hl⟩ := hshows.exists_number?_iff.mpr hnode
    exact ⟨k, l, hk, hl, (hshows.mem_edges_iff hk hl).mpr hedge⟩

end Numbering

/-! ## The whole discovery -/

namespace Discovery

theorem ends_within (c : Catalog) (roots : List Nat) :
    (after c roots (roots.length + c.size)).pending = [] := by
  have hrun := run_after c roots 0 (roots.length + c.size)
  rw [Nat.zero_add] at hrun
  rw [← hrun]
  exact run_start_pending c roots

theorem run_of_le (hended : (after c roots n).pending = []) {fuel : Nat} (hfuel : n ≤ fuel) :
    run c fuel (start roots) = after c roots n := by
  obtain ⟨m, rfl⟩ := Nat.exists_eq_add_of_le hfuel
  have hrun := run_after c roots 0 (n + m)
  rw [Nat.zero_add, after_add hended] at hrun
  exact hrun

theorem exists_first_end (c : Catalog) (roots : List Nat) :
    ∃ n ≤ roots.length + c.size, (after c roots n).pending = [] ∧
      ∀ l < n, (after c roots l).pending ≠ [] := by
  have hends : ∃ n, (after c roots n).pending = [] := ⟨_, ends_within c roots⟩
  exact ⟨Nat.find hends, Nat.find_min' hends (ends_within c roots), Nat.find_spec hends,
    fun _ hl => Nat.find_min hends hl⟩

end Discovery

/-- The discovery looks at every step of the plan, at each once, and at no other, and then its
stack is empty.  Before each look the numbering has got there too: it has the same stack, every
step on the stack has a number and none is there twice or again, the index is the inverse of the
list of nodes, and all edges into the steps that were looked at are drawn. -/
theorem Graph.discover_looks_once (c : Catalog) (roots : List Nat) :
    ∃ order : List Nat, order.Nodup ∧ (∀ i, i ∈ order ↔ c.Reachable roots i) ∧
      order.length = {i | c.Reachable roots i}.ncard ∧
      (∀ k ≤ order.length, ∃ s, Numbering.after? c roots k = some s ∧
        s.Shows (.after c roots k) ∧ s.pending.head? = order[k]? ∧
        s.Consistent c (order.take k)) ∧
      (∀ fuel, order.length ≤ fuel →
        Discovery.run c fuel (.start roots) = .after c roots order.length) ∧
      Graph.discover c roots = (Discovery.after c roots order.length).graph ∧
      ∀ i ∈ (Graph.discover c roots).nodes, ∀ j ∈ c.handles i,
        j ∈ (Graph.discover c roots).nodes := by
  obtain ⟨n, hbound, hended, hunended⟩ := Discovery.exists_first_end c roots
  have hgraph : discover c roots = (Discovery.after c roots n).graph := by
    rw [discover, Discovery.run_of_le hended hbound]
  have hlooked := Discovery.looked_lookedAt c roots n
  have hlength : (Discovery.looked c roots n).length = n :=
    Discovery.looked_length hunended le_rfl
  have hmem : ∀ i, i ∈ Discovery.looked c roots n ↔ c.Reachable roots i := by
    intro i
    rw [← mem_discover_nodes, hgraph, hlooked.mem_iff, hended]
    simp
  refine ⟨Discovery.looked c roots n, hlooked.nodup, hmem, ?_, ?_, ?_, ?_, ?_⟩
  · have hset : {i | c.Reachable roots i} = ((Discovery.looked c roots n).toFinset : Set Nat) := by
      ext i
      simp [hmem]
    rw [hset, Set.ncard_coe_finset, List.toFinset_card_of_nodup hlooked.nodup]
  · rw [hlength]
    intro k hk
    obtain ⟨s, hs, hshows⟩ := Numbering.exists_after? c roots k
    refine ⟨s, hs, hshows, ?_, ?_⟩
    · rw [hshows.pending]
      rcases hk.lt_or_eq with hk | rfl
      · exact (Discovery.getElem?_looked hunended hk).symm
      · rw [hended, List.getElem?_eq_none hlength.le]
        rfl
    · rw [Discovery.take_looked hunended hk]
      exact hshows.consistent (Discovery.after_sound c roots k)
        (Discovery.looked_lookedAt c roots k)
  · rw [hlength]
    exact fun fuel hfuel => Discovery.run_of_le hended hfuel
  · rw [hlength, hgraph]
  · intro i hi j hj
    rw [mem_discover_nodes] at hi ⊢
    exact .held hi hj

end WorkPlan
