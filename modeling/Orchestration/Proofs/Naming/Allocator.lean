import Orchestration.Naming.Allocator
import Mathlib.Data.List.Nodup
import Mathlib.Data.List.Perm.Subperm

/-!
# Allocated names are new

What is taken only grows, an explicit claim succeeds exactly on the free names, and a derived name is
always free. The last fact rests on the numbered forms of a base being pairwise distinct: among one
more of them than there are taken names, one is free.
-/

namespace Orchestration.Naming.TakenNames

variable {t t' : TakenNames} {x y base : String}

@[simp]
theorem contains_eq_true_iff : t.contains x = true ↔ x ∈ t.names :=
  List.contains_iff_mem

@[simp]
theorem contains_eq_false_iff : t.contains x = false ↔ x ∉ t.names := by
  rw [← contains_eq_true_iff, Bool.not_eq_true]

@[simp]
theorem mem_insert : x ∈ (t.insert y).names ↔ x = y ∨ x ∈ t.names := by
  unfold insert
  split
  · rename_i h
    rw [contains_eq_true_iff] at h
    constructor
    · exact Or.inr
    · rintro (rfl | hx)
      · exact h
      · exact hx
  · exact List.mem_cons

theorem mem_foldl_insert (xs : List String) (t : TakenNames) :
    x ∈ (xs.foldl insert t).names ↔ x ∈ xs ∨ x ∈ t.names := by
  induction xs generalizing t with
  | nil => simp
  | cons y ys ih =>
    rw [List.foldl_cons, ih, mem_insert, List.mem_cons]
    tauto

/-- A claim of exactly one name succeeds if and only if the name is free. -/
theorem claim?_eq_some_iff : t.claim? x = some t' ↔ x ∉ t.names ∧ t' = t.insert x := by
  unfold claim?
  split
  · rename_i h
    simp [contains_eq_true_iff.1 h]
  · rename_i h
    have hx : x ∉ t.names := fun hx => h (contains_eq_true_iff.2 hx)
    simp [hx, eq_comm]

/-! ## Numbered names -/

/-- Different numbers give different names. -/
theorem numbered_injective (base : String) : Function.Injective (numbered base) := by
  intro i j h
  have h' : toString i = toString j := (String.append_right_inj (base ++ "_")).1 h
  rw [Nat.toString_eq_repr, Nat.toString_eq_repr, ← String.toList_inj, Nat.toList_repr,
    Nat.toList_repr] at h'
  rw [← Nat.ofDigitChars_ten_toDigits (n := i), h', Nat.ofDigitChars_ten_toDigits]

/-- Of one more number than there are taken names, one is free. -/
theorem exists_free_number (t : TakenNames) (base : String) :
    ∃ k ∈ List.range (t.names.length + 1), numbered base (k + 2) ∉ t.names := by
  by_contra h
  push Not at h
  set candidates := (List.range (t.names.length + 1)).map fun k => numbered base (k + 2) with hc
  have hnodup : candidates.Nodup := by
    refine List.Nodup.map (fun i j hij => ?_) List.nodup_range
    have := numbered_injective base hij
    omega
  have hsub : candidates ⊆ t.names := by
    intro x hx
    obtain ⟨k, hk, rfl⟩ := List.mem_map.mp hx
    exact h k hk
  have hlen := (List.subperm_of_subset hnodup hsub).length_le
  rw [hc, List.length_map, List.length_range] at hlen
  omega

/-- The number handed out is the least from 2 on that is free. -/
theorem freeNumber_spec (t : TakenNames) (base : String) :
    2 ≤ t.freeNumber base ∧ numbered base (t.freeNumber base) ∉ t.names ∧
      ∀ n, 2 ≤ n → n < t.freeNumber base → numbered base n ∈ t.names := by
  unfold freeNumber
  rw [List.find?_map]
  obtain ⟨k, hk, hfree⟩ := exists_free_number t base
  cases hfind : (List.range (t.names.length + 1)).find?
      ((fun n => !t.contains (numbered base n)) ∘ (· + 2)) with
  | none =>
    have := List.find?_eq_none.1 hfind k hk
    simp [hfree] at this
  | some i =>
    rw [List.find?_range_eq_some] at hfind
    obtain ⟨hi, -, hleast⟩ := hfind
    refine ⟨Nat.le_add_left 2 i, by simpa using hi, fun n h2 hn => ?_⟩
    have hlt : n < i + 2 := by simpa only [Option.map_some, Option.getD_some] using hn
    have := hleast (n - 2) (by omega)
    simpa [Nat.sub_add_cancel h2] using this

/-- What a derived claim starts from: the base, or `value` for an empty one. -/
def baseOr (base : String) : String :=
  if base.isEmpty then "value" else base

/-- A derived name is the base if that is free, and a numbered form of it otherwise. -/
theorem derivedName_eq (t : TakenNames) (base : String) :
    (baseOr base ∉ t.names ∧ t.derivedName base = baseOr base) ∨
      (baseOr base ∈ t.names ∧
        t.derivedName base = numbered (baseOr base) (t.freeNumber (baseOr base))) := by
  unfold derivedName
  by_cases h : baseOr base ∈ t.names
  · exact Or.inr ⟨h, if_pos (contains_eq_true_iff.2 h)⟩
  · exact Or.inl ⟨h, if_neg (by rwa [contains_eq_true_iff])⟩

/-- A derived name is new. -/
theorem derivedName_notMem (t : TakenNames) (base : String) : t.derivedName base ∉ t.names := by
  rcases derivedName_eq t base with ⟨h, he⟩ | ⟨-, he⟩
  · rwa [he]
  · rw [he]
    exact (freeNumber_spec t _).2.1

end Orchestration.Naming.TakenNames
