import Orchestration.Naming.Identifier
import Orchestration.Text.Blank

/-!
# Identifier form

An identifier matches `[A-Za-z_][A-Za-z0-9_]*`. All of its characters are ASCII, and none is white space.
-/

namespace Orchestration.Naming

open Orchestration.Text

variable {c : Char} {p : List Char} {name : String}

/-- The characters `[A-Za-z_]`. -/
def IsLetter (c : Char) : Prop :=
  ('A' ≤ c ∧ c ≤ 'Z') ∨ ('a' ≤ c ∧ c ≤ 'z') ∨ c = '_'

/-- The texts that match `[A-Za-z_][A-Za-z0-9_]*`. -/
def IsIdentifier (name : String) : Prop :=
  ∃ first rest, name.toList = first :: rest ∧ IsLetter first ∧
    ∀ c ∈ rest, IsLetter c ∨ ('0' ≤ c ∧ c ≤ '9')

/-! ## Characters -/

theorem isUpper_iff_toNat : c.isUpper = true ↔ 65 ≤ c.toNat ∧ c.toNat ≤ 90 :=
  decide_eq_true_iff

theorem isLower_iff_toNat : c.isLower = true ↔ 97 ≤ c.toNat ∧ c.toNat ≤ 122 := by
  show (decide (97 ≤ c.toNat) && decide (c.toNat ≤ 122)) = true ↔ _
  rw [Bool.and_eq_true, decide_eq_true_iff, decide_eq_true_iff]

theorem isIdentifierStart_iff : isIdentifierStart c = true ↔ IsLetter c := by
  show ((c.isUpper || c.isLower) || decide (c = '_')) = true ↔ IsLetter c
  rw [Bool.or_assoc, Bool.or_eq_true, Bool.or_eq_true, isUpper_iff_toNat, isLower_iff_toNat,
    decide_eq_true_iff]
  rfl

theorem isIdentifierRest_iff : isIdentifierRest c = true ↔ IsLetter c ∨ ('0' ≤ c ∧ c ≤ '9') := by
  show ((c.isAlpha || c.isDigit) || decide (c = '_')) = true ↔ _
  rw [Bool.or_right_comm, Bool.or_eq_true, Char.isDigit_iff_toNat, ← isIdentifierStart_iff]
  rfl

theorem isIdentifierRest_of_start (h : isIdentifierStart c = true) : isIdentifierRest c = true :=
  isIdentifierRest_iff.2 (Or.inl (isIdentifierStart_iff.1 h))

theorem toNat_of_isIdentifierRest (h : isIdentifierRest c = true) :
    (48 ≤ c.toNat ∧ c.toNat ≤ 57) ∨ (65 ≤ c.toNat ∧ c.toNat ≤ 90) ∨ c.toNat = 95 ∨
      (97 ≤ c.toNat ∧ c.toNat ≤ 122) := by
  rcases isIdentifierRest_iff.1 h with (hupper | hlower | rfl) | hdigit
  · exact Or.inr (Or.inl hupper)
  · exact Or.inr (Or.inr (Or.inr hlower))
  · decide
  · exact Or.inl hdigit

/-- No white space stands in an identifier. -/
theorem isBlank_of_isIdentifierRest (h : isIdentifierRest c = true) : isBlank c = false := by
  have := toNat_of_isIdentifierRest h
  rw [← Bool.not_eq_true]
  intro hblank
  simp [isBlank, blankRanges] at hblank
  omega

/-! ## Texts -/

theorem isIdentifierRest_of_mem (h : isIdentifierText p = true) (hc : c ∈ p) :
    isIdentifierRest c = true := by
  cases p with
  | nil => exact absurd hc List.not_mem_nil
  | cons first rest =>
    unfold isIdentifierText at h
    rw [Bool.and_eq_true, List.all_eq_true] at h
    rcases List.mem_cons.1 hc with rfl | hc
    · exact isIdentifierRest_of_start h.1
    · exact h.2 c hc

theorem isIdentifier_iff : isIdentifier name = true ↔ IsIdentifier name := by
  unfold isIdentifier IsIdentifier
  cases name.toList with
  | nil => simp [isIdentifierText]
  | cons first rest =>
    simp only [isIdentifierText, Bool.and_eq_true, List.all_eq_true, isIdentifierStart_iff,
      isIdentifierRest_iff]
    constructor
    · exact fun h => ⟨first, rest, rfl, h⟩
    · rintro ⟨_, _, he, h⟩
      cases he
      exact h

instance (name : String) : Decidable (IsIdentifier name) :=
  decidable_of_iff _ isIdentifier_iff

theorem IsIdentifier.isIdentifierRest (h : IsIdentifier name) (hc : c ∈ name.toList) :
    isIdentifierRest c = true :=
  isIdentifierRest_of_mem (isIdentifier_iff.2 h) hc

end Orchestration.Naming
