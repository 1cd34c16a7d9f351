import Mathlib.Tactic

/-!
# Passes that end with the first error

A pass over a list either answers every item or stops at the first item without an answer.
-/

namespace WorkPlan

universe u v w

variable {α : Type u} {β : Type v} {ε : Type w}

@[simp] theorem Except.map_eq_ok_iff {x : Except ε α} {f : α → β} {y : β} :
    x.map f = .ok y ↔ ∃ z, x = .ok z ∧ f z = y := by
  cases x <;> simp [Except.map]

@[simp] theorem Except.map_eq_error_iff {x : Except ε α} {f : α → β} {e : ε} :
    x.map f = .error e ↔ x = .error e := by
  cases x <;> simp [Except.map]

theorem mapM_cons_of_ok
    {f : α → Except ε β} {x : α} {y : β} (hfirst : f x = .ok y) (xs : List α) :
    (x :: xs).mapM f = (xs.mapM f).map (y :: ·) := by
  rw [List.mapM_cons, hfirst]
  cases xs.mapM f <;> rfl

theorem mapM_cons_of_error
    {f : α → Except ε β} {x : α} {e : ε} (hfirst : f x = .error e) (xs : List α) :
    (x :: xs).mapM f = .error e := by
  rw [List.mapM_cons, hfirst]
  rfl

theorem mapM_congr_of_mem
    {f g : α → Except ε β} {xs : List α} (hsame : ∀ x ∈ xs, f x = g x) :
    xs.mapM f = xs.mapM g := by
  induction xs with
  | nil => rfl
  | cons x xs ih =>
      rw [List.mapM_cons, List.mapM_cons, hsame x (by simp),
        ih fun y hy => hsame y (by simp [hy])]

theorem mapM_mapError
    {ε' : Type w} (f : α → Except ε β) (g : ε → ε') (xs : List α) :
    (xs.mapM f).mapError g = xs.mapM fun x => (f x).mapError g := by
  induction xs with
  | nil => rfl
  | cons x xs ih =>
      let f' (x : α) : Except ε' β := (f x).mapError g
      cases hfirst : f x with
      | error e =>
          have hmapped : f' x = .error (g e) := congrArg (Except.mapError g) hfirst
          rw [mapM_cons_of_error hfirst, mapM_cons_of_error hmapped]
          rfl
      | ok y =>
          have hmapped : f' x = .ok y := congrArg (Except.mapError g) hfirst
          rw [mapM_cons_of_ok hfirst, mapM_cons_of_ok hmapped, ← ih]
          cases xs.mapM f <;> rfl

theorem mapM_eq_ok_iff {f : α → Except ε β} {xs : List α} {ys : List β} :
    xs.mapM f = .ok ys ↔ List.Forall₂ (fun x y => f x = .ok y) xs ys := by
  induction xs generalizing ys with
  | nil =>
      rw [List.mapM_nil, List.forall₂_nil_left_iff]
      exact ⟨fun hys => (Except.ok.inj hys).symm, fun hys => congrArg Except.ok hys.symm⟩
  | cons x xs ih =>
      rw [List.forall₂_cons_left_iff]
      cases hfirst : f x with
      | error e => simp [mapM_cons_of_error hfirst]
      | ok y =>
          rw [mapM_cons_of_ok hfirst]
          cases hrest : xs.mapM f with
          | error e => simp [← ih, hrest, Except.map]
          | ok rest =>
              simp only [Except.map, Except.ok.injEq, ← ih, hrest]
              constructor
              · rintro rfl
                exact ⟨y, rest, rfl, rfl, rfl⟩
              · rintro ⟨_, _, rfl, rfl, rfl⟩
                rfl

/-- Two passes that answer every item alike are both completed, with the same answers. -/
theorem exists_mapM_eq_ok
    {ε' : Type w} {f : α → Except ε β} {g : α → Except ε' β} {xs : List α}
    (hitems : ∀ x ∈ xs, ∃ y, f x = .ok y ∧ g x = .ok y) :
    ∃ ys, xs.mapM f = .ok ys ∧ xs.mapM g = .ok ys := by
  induction xs with
  | nil => exact ⟨[], rfl, rfl⟩
  | cons x xs ih =>
      obtain ⟨y, hf, hg⟩ := hitems x (by simp)
      obtain ⟨ys, hfs, hgs⟩ := ih fun z hz => hitems z (by simp [hz])
      refine ⟨y :: ys, ?_, ?_⟩
      · rw [mapM_cons_of_ok hf, hfs]
        rfl
      · rw [mapM_cons_of_ok hg, hgs]
        rfl

theorem exists_mapM_eq_ok_of_forall
    {f : α → Except ε β} {xs : List α} (hitems : ∀ x ∈ xs, ∃ y, f x = .ok y) :
    ∃ ys, xs.mapM f = .ok ys := by
  obtain ⟨ys, hys, -⟩ := exists_mapM_eq_ok (f := f) (g := f) fun x hx =>
    (hitems x hx).imp fun y hy => ⟨hy, hy⟩
  exact ⟨ys, hys⟩

theorem mapM_eq_error_iff {f : α → Except ε β} {xs : List α} {e : ε} :
    xs.mapM f = .error e ↔
      ∃ before x after, xs = before ++ x :: after ∧
        (∀ y ∈ before, ∃ z, f y = .ok z) ∧ f x = .error e := by
  induction xs with
  | nil => simp [pure, Except.pure]
  | cons x xs ih =>
      cases hfirst : f x with
      | error e' =>
          rw [mapM_cons_of_error hfirst]
          constructor
          · rintro ⟨⟩
            exact ⟨[], x, xs, rfl, by simp, hfirst⟩
          · rintro ⟨before, y, after, hsplit, hbefore, hy⟩
            cases before with
            | nil =>
                obtain ⟨rfl, -⟩ := List.cons.inj hsplit
                rw [hfirst] at hy
                cases hy
                rfl
            | cons z before =>
                obtain ⟨rfl, -⟩ := List.cons.inj hsplit
                obtain ⟨z, hz⟩ := hbefore x (by simp)
                rw [hfirst] at hz
                cases hz
      | ok y =>
          have hrest : (x :: xs).mapM f = .error e ↔ xs.mapM f = .error e := by
            rw [mapM_cons_of_ok hfirst]
            cases xs.mapM f <;> simp [Except.map]
          rw [hrest, ih]
          constructor
          · rintro ⟨before, z, after, rfl, hbefore, hz⟩
            refine ⟨x :: before, z, after, rfl, ?_, hz⟩
            intro w hw
            rcases List.mem_cons.mp hw with rfl | hw
            · exact ⟨y, hfirst⟩
            · exact hbefore w hw
          · rintro ⟨before, z, after, hsplit, hbefore, hz⟩
            cases before with
            | nil =>
                obtain ⟨rfl, -⟩ := List.cons.inj hsplit
                rw [hfirst] at hz
                cases hz
            | cons w before =>
                obtain ⟨rfl, rfl⟩ := List.cons.inj hsplit
                exact ⟨before, z, after, rfl, fun v hv => hbefore v (by simp [hv]), hz⟩

theorem map_eq_map_of_forall₂
    {γ : Type u} {R : α → β → Prop} {f : α → γ} {g : β → γ} {xs : List α} {ys : List β}
    (hpairs : List.Forall₂ R xs ys) (hsame : ∀ x y, R x y → g y = f x) :
    ys.map g = xs.map f := by
  induction hpairs with
  | nil => rfl
  | cons hfirst _ ih => rw [List.map_cons, List.map_cons, hsame _ _ hfirst, ih]

theorem exists_of_forall₂_left
    {R : α → β → Prop} {xs : List α} {ys : List β} (hpairs : List.Forall₂ R xs ys)
    {x : α} (hx : x ∈ xs) :
    ∃ y ∈ ys, R x y := by
  induction hpairs with
  | nil => cases hx
  | cons hfirst _ ih =>
      rcases List.mem_cons.mp hx with rfl | hx
      · exact ⟨_, List.mem_cons_self, hfirst⟩
      · obtain ⟨y, hy, hpair⟩ := ih hx
        exact ⟨y, List.mem_cons_of_mem _ hy, hpair⟩

theorem exists_of_forall₂_right
    {R : α → β → Prop} {xs : List α} {ys : List β} (hpairs : List.Forall₂ R xs ys)
    {y : β} (hy : y ∈ ys) :
    ∃ x ∈ xs, R x y :=
  exists_of_forall₂_left (R := flip R) hpairs.flip hy

theorem exists_of_mapM_eq_ok
    {f : α → Except ε β} {xs : List α} {ys : List β} (hpass : xs.mapM f = .ok ys)
    {x : α} (hx : x ∈ xs) :
    ∃ y, f x = .ok y := by
  obtain ⟨y, -, hy⟩ := exists_of_forall₂_left (mapM_eq_ok_iff.mp hpass) hx
  exact ⟨y, hy⟩

theorem mem_of_mapM_eq_ok
    {f : α → Except ε β} {xs : List α} {ys : List β} (hpass : xs.mapM f = .ok ys) {y : β} :
    y ∈ ys ↔ ∃ x ∈ xs, f x = .ok y := by
  have hanswers := mapM_eq_ok_iff.mp hpass
  constructor
  · exact exists_of_forall₂_right hanswers
  · rintro ⟨x, hx, hanswer⟩
    obtain ⟨y', hy', hanswer'⟩ := exists_of_forall₂_left hanswers hx
    rw [hanswer] at hanswer'
    rwa [Except.ok.inj hanswer']

end WorkPlan
