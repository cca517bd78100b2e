import Orchestration.Proofs.Naming.Allocator
import Mathlib.Data.List.Basic

/-!
# Reserved names

A name is reserved if it is a keyword, a name of the generated body or a task handle. No name ending
in `_param` or `_arg` is, and of the numbered forms of a base exactly those of `task` are. A derived
name is therefore a handle if its base is one and free, or if it had to number `task`.
-/

namespace Orchestration.Naming

variable {name base : String} {cs : List Char}

theorem isReserved_iff :
    isReserved name = true ↔
      name ∈ bodyNames ∨ name ∈ keywords ∨ isTaskHandle name.toList = true := by
  simp only [isReserved, isKeyword, Bool.or_eq_true, List.contains_iff_mem]
  tauto

/-- A task handle is `task_` with at least one digit after it, and nothing else. -/
theorem isTaskHandle_iff :
    isTaskHandle cs = true ↔
      ∃ digits, cs = "task_".toList ++ digits ∧ digits ≠ [] ∧ ∀ c ∈ digits, c.isDigit = true := by
  constructor
  · intro h
    unfold isTaskHandle at h
    split at h
    · rename_i digits
      simp only [Bool.and_eq_true, Bool.not_eq_true', List.isEmpty_eq_false_iff,
        List.all_eq_true] at h
      exact ⟨digits, rfl, h.1, h.2⟩
    · cases h
  · rintro ⟨digits, rfl, hne, hd⟩
    show (!digits.isEmpty && digits.all Char.isDigit) = true
    simp only [Bool.and_eq_true, Bool.not_eq_true', List.isEmpty_eq_false_iff, List.all_eq_true]
    exact ⟨hne, hd⟩

/-- A task handle ends in a digit. -/
theorem isDigit_of_isTaskHandle {c : Char} (h : isTaskHandle (cs ++ [c]) = true) :
    c.isDigit = true := by
  obtain ⟨digits, he, hne, hd⟩ := isTaskHandle_iff.1 h
  have hlast : (cs ++ [c]).getLast? = digits.getLast? := by
    rw [he, List.getLast?_append_of_ne_nil _ hne]
  rw [List.getLast?_concat] at hlast
  exact hd c (List.mem_of_getLast? hlast.symm)

/-- A name with an ending that no keyword and no name of the body has, and that is no digit, is not
reserved. -/
theorem isReserved_append_eq_false (name : String) {ending : String} (front : List Char) (c : Char)
    (hend : ending.toList = front ++ [c]) (hc : c.isDigit = false)
    (h : (bodyNames ++ keywords).all (fun k => !ending.toList.isSuffixOf k.toList) = true) :
    isReserved (name ++ ending) = false := by
  have hnot : ∀ k ∈ bodyNames ++ keywords, name ++ ending ≠ k := by
    rintro k hk rfl
    have hno := List.all_eq_true.1 h _ hk
    have hsuffix : ending.toList.isSuffixOf (name ++ ending).toList = true := by
      rw [String.toList_append, List.isSuffixOf_iff_suffix]
      exact List.suffix_append _ _
    rw [hsuffix] at hno
    cases hno
  rw [← Bool.not_eq_true, isReserved_iff]
  rintro (hb | hk | ht)
  · exact hnot _ (List.mem_append_left _ hb) rfl
  · exact hnot _ (List.mem_append_right _ hk) rfl
  · rw [String.toList_append, hend, ← List.append_assoc] at ht
    rw [isDigit_of_isTaskHandle ht] at hc
    cases hc

theorem isReserved_param (name : String) : isReserved (name ++ "_param") = false :=
  isReserved_append_eq_false name "_para".toList 'm' (by decide) (by decide) (by decide)

theorem isReserved_arg (name : String) : isReserved (name ++ "_arg") = false :=
  isReserved_append_eq_false name "_ar".toList 'g' (by decide) (by decide) (by decide)

/-- A numbered name is its base with an underscore and some digits behind it. -/
theorem exists_digits_of_numbered (base : String) (n : Nat) :
    ∃ digits, (TakenNames.numbered base n).toList = base.toList ++ '_' :: digits ∧ digits ≠ [] ∧
      ∀ c ∈ digits, c.isDigit = true := by
  refine ⟨Nat.toDigits 10 n, ?_, Nat.toDigits_ne_nil, fun c hc => ?_⟩
  · simp [TakenNames.numbered, Nat.toString_eq_repr, Nat.toList_repr]
  · exact Nat.isDigit_of_mem_toDigits (by omega) (by omega) hc

/-- A numbered name is a task handle exactly if its base is `task`. -/
theorem isTaskHandle_numbered_iff (base : String) (n : Nat) :
    isTaskHandle (TakenNames.numbered base n).toList = true ↔ base = "task" := by
  obtain ⟨number, hn, hne, hd⟩ := exists_digits_of_numbered base n
  rw [hn, isTaskHandle_iff]
  constructor
  · rintro ⟨digits, he, -, hdigits⟩
    have hnot : '_' ∉ digits := fun h => absurd (hdigits _ h) (by decide)
    have he' : "task".toList ++ '_' :: digits = base.toList ++ '_' :: number := by
      rw [he]
      rfl
    have := (List.append_cons_inj_of_notMem (by decide) hnot).1 he'
    exact (String.toList_inj.1 this.1).symm
  · rintro rfl
    exact ⟨number, rfl, hne, hd⟩

/-- No numbered name is `task`: it has an underscore. -/
theorem numbered_ne_task (base : String) (n : Nat) : TakenNames.numbered base n ≠ "task" := by
  intro h
  have hmem : '_' ∈ (TakenNames.numbered base n).toList := by
    simp [TakenNames.numbered]
  rw [h] at hmem
  exact absurd hmem (by decide)

/-! ## Derived names -/

namespace TakenNames

variable {t : TakenNames}

/-- What holds neither of the empty name nor of the one that stands for it holds of a base exactly if
it holds of what a derived claim starts from. -/
theorem baseOr_iff {P : String → Prop} (hempty : ¬ P "") (hvalue : ¬ P "value") :
    P (baseOr base) ↔ P base := by
  unfold baseOr
  by_cases h : base.isEmpty = true
  · rw [if_pos h, String.isEmpty_iff.1 h]
    exact iff_of_false hvalue hempty
  · rw [if_neg h]

theorem baseOr_eq_task_iff : baseOr base = "task" ↔ base = "task" :=
  baseOr_iff (P := fun name => name = "task") (by decide) (by decide)

theorem isTaskHandle_baseOr_iff :
    isTaskHandle (baseOr base).toList = true ↔ isTaskHandle base.toList = true :=
  baseOr_iff (P := fun name => isTaskHandle name.toList = true) (by decide) (by decide)

theorem baseOr_of_isTaskHandle (h : isTaskHandle base.toList = true) : baseOr base = base := by
  unfold baseOr
  rw [if_neg]
  intro he
  rw [String.isEmpty_iff.1 he] at h
  cases h

/-- A derived name is a handle if its base is a free one, or is `task` and taken. -/
theorem isTaskHandle_derivedName_iff :
    isTaskHandle (t.derivedName base).toList = true ↔
      (isTaskHandle base.toList = true ∧ base ∉ t.names) ∨ (base = "task" ∧ "task" ∈ t.names) := by
  rcases derivedName_eq t base with ⟨hfree, he⟩ | ⟨htaken, he⟩
  · rw [he, isTaskHandle_baseOr_iff]
    constructor
    · intro h
      rw [baseOr_of_isTaskHandle h] at hfree
      exact Or.inl ⟨h, hfree⟩
    · rintro (⟨h, -⟩ | ⟨rfl, h⟩)
      · exact h
      · exact absurd h hfree
  · rw [he, isTaskHandle_numbered_iff, baseOr_eq_task_iff]
    constructor
    · rintro rfl
      exact Or.inr ⟨rfl, htaken⟩
    · rintro (⟨h, hfree⟩ | ⟨h, -⟩)
      · rw [baseOr_of_isTaskHandle h] at htaken
        exact absurd htaken hfree
      · exact h

theorem derivedName_eq_task_iff :
    t.derivedName base = "task" ↔ base = "task" ∧ "task" ∉ t.names := by
  rcases derivedName_eq t base with ⟨hfree, he⟩ | ⟨htaken, he⟩
  · rw [he, baseOr_eq_task_iff]
    constructor
    · rintro rfl
      exact ⟨rfl, hfree⟩
    · exact fun h => h.1
  · rw [he]
    constructor
    · intro h
      exact absurd h (numbered_ne_task _ _)
    · rintro ⟨rfl, hfree⟩
      exact absurd htaken hfree

end TakenNames

end Orchestration.Naming
