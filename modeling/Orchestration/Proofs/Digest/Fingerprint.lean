import Orchestration.Digest.Fingerprint
import Orchestration.Proofs.Json.Compact
import Mathlib.Data.List.Basic

/-!
# What a fingerprint says

A fingerprint tells the hash that it was made from. So two texts have one fingerprint exactly if their
bytes have one hash: if the texts are the same, or their bytes collide.
-/

namespace Orchestration.Digest

theorem hexByte_injective : Function.Injective hexByte := by
  intro a b h
  obtain ⟨hhigh, hlow⟩ : Json.hexDigit (a.toNat / 16) = Json.hexDigit (b.toNat / 16) ∧
      Json.hexDigit (a.toNat % 16) = Json.hexDigit (b.toNat % 16) := by
    simpa [hexByte] using h
  have ha := a.toNat_lt
  have hb := b.toNat_lt
  have hdiv := congrArg Json.hexValue hhigh
  have hmod := congrArg Json.hexValue hlow
  rw [Json.hexValue_hexDigit _ (by omega), Json.hexValue_hexDigit _ (by omega)] at hdiv hmod
  exact UInt8.toNat_inj.1 (by omega)

theorem flatMap_hexByte_injective : Function.Injective fun bs : List UInt8 => bs.flatMap hexByte := by
  intro as bs h
  induction as generalizing bs with
  | nil =>
    cases bs with
    | nil => rfl
    | cons b bs => cases h
  | cons a as ih =>
    cases bs with
    | nil => cases h
    | cons b bs =>
      simp only [List.flatMap_cons] at h
      obtain ⟨hbyte, hrest⟩ := List.append_inj h rfl
      rw [hexByte_injective hbyte, ih hrest]

/-- Two byte strings collide if they differ and have one hash. -/
def Blake3.Collide (a b : ByteArray) : Prop :=
  a ≠ b ∧ hash a = hash b

theorem ofText_eq_ofText_iff {s t : String} :
    ofText s = ofText t ↔ Blake3.hash s.toUTF8 = Blake3.hash t.toUTF8 := by
  constructor
  · intro h
    exact flatMap_hexByte_injective (String.ofList_injective ((String.append_right_inj _).1 h))
  · intro h
    rw [ofText, ofText, h]

/-- Texts have one fingerprint only if they are the same, or by a collision. -/
theorem ofText_eq_iff {s t : String} :
    ofText s = ofText t ↔ s = t ∨ Blake3.Collide s.toUTF8 t.toUTF8 := by
  rw [ofText_eq_ofText_iff]
  constructor
  · intro h
    by_cases hst : s = t
    · exact Or.inl hst
    · exact Or.inr ⟨fun hbytes => hst (String.toByteArray_inj.1 hbytes), h⟩
  · rintro (rfl | ⟨-, h⟩)
    · rfl
    · exact h

end Orchestration.Digest
