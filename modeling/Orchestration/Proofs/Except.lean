import Mathlib.Data.List.Forall2

/-!
# Computations that may fail

When a sequence of computations that may fail gives a value, and when it fails.
-/

namespace Orchestration

variable {ε ε' α β γ δ : Type}

/-- A sequence gives a value exactly if both of its parts do. -/
theorem bind_eq_ok_iff {x : Except ε α} {f : α → Except ε β} {b : β} :
    (x >>= f) = .ok b ↔ ∃ a, x = .ok a ∧ f a = .ok b := by
  cases x with
  | error e =>
    constructor
    · intro h
      cases h
    · rintro ⟨a, h, -⟩
      cases h
  | ok a =>
    constructor
    · intro h
      exact ⟨a, rfl, h⟩
    · rintro ⟨a', ha, h⟩
      cases ha
      exact h

theorem pure_eq_ok_iff {a b : α} : (pure a : Except ε α) = .ok b ↔ a = b := by
  constructor
  · intro h
    cases h
    rfl
  · rintro rfl
    rfl

/-- Rewording errors changes no value. -/
theorem mapError_eq_ok_iff {x : Except ε α} {f : ε → ε'} {a : α} :
    Except.mapError f x = .ok a ↔ x = .ok a := by
  cases x with
  | error e =>
    constructor
    · intro h
      cases h
    · intro h
      cases h
  | ok b =>
    constructor
    · intro h
      cases h
      rfl
    · intro h
      cases h
      rfl

/-- A computation whose value passes a test has a value that does. -/
theorem exists_ok_of_any {x : Except ε α} {P : α → Prop} [DecidablePred P]
    (h : x.toOption.any (fun a => decide (P a)) = true) : ∃ a, x = .ok a ∧ P a := by
  cases x with
  | error e => cases h
  | ok a => exact ⟨a, rfl, of_decide_eq_true h⟩

/-- A sequence fails exactly if its first part does, or its second part after the value of the
first. -/
theorem bind_eq_error_iff {x : Except ε α} {f : α → Except ε β} {e : ε} :
    (x >>= f) = .error e ↔ x = .error e ∨ ∃ a, x = .ok a ∧ f a = .error e := by
  cases x with
  | error e' =>
    constructor
    · intro h
      cases h
      exact Or.inl rfl
    · rintro (h | ⟨a, h, -⟩)
      · cases h
        rfl
      · cases h
  | ok a =>
    constructor
    · intro h
      exact Or.inr ⟨a, rfl, h⟩
    · rintro (h | ⟨a', ha, h⟩)
      · cases h
      · cases ha
        exact h

theorem mapError_eq_error_iff {x : Except ε α} {f : ε → ε'} {e' : ε'} :
    Except.mapError f x = .error e' ↔ ∃ e, x = .error e ∧ f e = e' := by
  cases x with
  | error e =>
    constructor
    · intro h
      cases h
      exact ⟨e, rfl, rfl⟩
    · rintro ⟨_, h, rfl⟩
      cases h
      rfl
  | ok a =>
    constructor
    · intro h
      cases h
    · rintro ⟨_, h, -⟩
      cases h

/-- Two computations fail with one error, or give related values. -/
inductive Related (R : α → β → Prop) : Except ε α → Except ε β → Prop where
  | error (e : ε) : Related R (.error e) (.error e)
  | ok {a : α} {b : β} (h : R a b) : Related R (.ok a) (.ok b)

/-! ## One computation after another -/

theorem mapM_congr {f g : α → Except ε β} {xs : List α} (h : ∀ x ∈ xs, f x = g x) :
    xs.mapM f = xs.mapM g := by
  induction xs with
  | nil => rfl
  | cons x xs ih =>
    rw [List.mapM_cons, List.mapM_cons, h x (List.mem_cons_self ..),
      ih fun y hy => h y (List.mem_cons_of_mem x hy)]

/-- The values of several computations are those of each, in order. -/
theorem forall₂_of_mapM {f : α → Except ε β} {xs : List α} {ys : List β} (h : xs.mapM f = .ok ys) :
    List.Forall₂ (fun x y => f x = .ok y) xs ys := by
  induction xs generalizing ys with
  | nil =>
    rw [List.mapM_nil, pure_eq_ok_iff] at h
    rw [← h]
    exact List.Forall₂.nil
  | cons x xs ih =>
    rw [List.mapM_cons] at h
    obtain ⟨y, hy, h⟩ := bind_eq_ok_iff.1 h
    obtain ⟨rest, hrest, h⟩ := bind_eq_ok_iff.1 h
    rw [← pure_eq_ok_iff.1 h]
    exact List.Forall₂.cons hy (ih hrest)

/-- What every computation keeps is kept by all of them. -/
theorem map_eq_of_mapM {f : α → Except ε β} {p : β → γ} {q : α → γ} {xs : List α} {ys : List β}
    (hkeep : ∀ x y, f x = .ok y → p y = q x) (h : xs.mapM f = .ok ys) : ys.map p = xs.map q := by
  replace h := forall₂_of_mapM h
  induction h with
  | nil => rfl
  | @cons x y _ _ hy _ ih => rw [List.map_cons, List.map_cons, hkeep x y hy, ih]

theorem length_of_mapM {f : α → Except ε β} {xs : List α} {ys : List β}
    (h : xs.mapM f = .ok ys) : ys.length = xs.length :=
  (forall₂_of_mapM h).length_eq.symm

/-- The error of several computations is that of one of them. -/
theorem exists_error_of_mapM {f : α → Except ε β} {xs : List α} {e : ε}
    (h : xs.mapM f = .error e) : ∃ x ∈ xs, f x = .error e := by
  induction xs with
  | nil => cases h
  | cons x xs ih =>
    rw [List.mapM_cons] at h
    rcases bind_eq_error_iff.1 h with hx | ⟨y, -, h⟩
    · exact ⟨x, List.mem_cons_self .., hx⟩
    · rcases bind_eq_error_iff.1 h with hrest | ⟨rest, -, h⟩
      · obtain ⟨x', hx', heq⟩ := ih hrest
        exact ⟨x', List.mem_cons_of_mem x hx', heq⟩
      · cases h

/-- Computations that are related one by one are related as a whole. -/
theorem Related.mapM {R : α → β → Prop} {S : γ → δ → Prop} {f : α → Except ε γ}
    {f' : β → Except ε δ} {xs : List α} {ys : List β}
    (hstep : ∀ x y, R x y → Related S (f x) (f' y)) (h : List.Forall₂ R xs ys) :
    Related (List.Forall₂ S) (xs.mapM f) (ys.mapM f') := by
  induction h with
  | nil => exact Related.ok List.Forall₂.nil
  | @cons x y xs ys hxy _ ih =>
    have hfirst := hstep x y hxy
    rw [List.mapM_cons, List.mapM_cons]
    generalize f x = first, f' y = first' at hfirst
    generalize xs.mapM f = rest, ys.mapM f' = rest' at ih
    cases hfirst with
    | error e => exact Related.error e
    | ok hfirst =>
      cases ih with
      | error e => exact Related.error e
      | ok hrest => exact Related.ok (List.Forall₂.cons hfirst hrest)

end Orchestration
