import Orchestration.Naming.Plural
import Orchestration.Proofs.Naming.Identifier
import Orchestration.Proofs.Naming.SnakeCase

/-!
# Identifiers made from names

The snake form of a name starts with the first letter or digit of the name, and so does everything that
is made of it: plurals, numbered names and names with an ending. All of their characters may stand in
an identifier, so whether they are identifiers is a matter of the first one.
-/

namespace Orchestration.Naming

variable {name base ending : String} {c : Char} {cs : List Char} {t : TakenNames}

/-! ## The first letter or digit -/

/-- The first letter or digit of a name. -/
def lead? (name : String) : Option Char :=
  name.toList.find? Char.isAlphanum

/-- Whether there is a letter in the name, and no digit before it. -/
def leadsWithLetter (name : String) : Bool :=
  (lead? name).any Char.isAlpha

/-- Whether there is a digit in the name, and no letter before it. -/
def leadsWithDigit (name : String) : Bool :=
  (lead? name).any Char.isDigit

theorem words_cases (cs : List Char) :
    (words cs = [] ∧ cs.find? Char.isAlphanum = none) ∨
      ∃ c w ws, words cs = (c :: w) :: ws ∧ cs.find? Char.isAlphanum = some c := by
  induction cs using words.induct with
  | case1 => exact Or.inl ⟨rfl, rfl⟩
  | case2 d hd =>
    refine Or.inr ⟨d, [], [], ?_, ?_⟩
    · rw [words, if_pos hd]
    · rw [List.find?_cons_of_pos hd]
  | case3 d hd e es hjoin ih =>
    rw [words, if_pos hd, if_pos hjoin, List.find?_cons_of_pos hd]
    cases words (e :: es) with
    | nil => exact Or.inr ⟨d, [], [], rfl, rfl⟩
    | cons w ws => exact Or.inr ⟨d, w, ws, rfl, rfl⟩
  | case4 d hd e es hsplit ih =>
    rw [words, if_pos hd, if_neg hsplit, List.find?_cons_of_pos hd]
    exact Or.inr ⟨d, [], words (e :: es), rfl, rfl⟩
  | case5 d ds hd ih =>
    unfold words
    rw [if_neg hd, List.find?_cons_of_neg hd]
    exact ih

/-- The snake form starts with the first letter or digit, in lower case. -/
theorem head?_snakeCase (name : String) :
    (snakeCase name).toList.head? = (lead? name).map Char.toLower := by
  rw [toList_snakeCase, snakeText, lead?]
  rcases words_cases name.toList with ⟨hwords, hfind⟩ | ⟨c, w, ws, hwords, hfind⟩
  · rw [hwords, hfind]
    rfl
  · rw [hwords, hfind]
    cases ws <;> rfl

/-- An identifier starts with a letter in lower case exactly if it starts with a letter. -/
theorem isIdentifierStart_toLower (h : c.isAlphanum = true) :
    isIdentifierStart c.toLower = c.isAlpha := by
  cases hupper : c.isUpper with
  | true =>
    have halpha : c.isAlpha = true := Bool.or_eq_true_iff.2 (Or.inl hupper)
    have hlower : c.toLower.isAlpha = true :=
      Bool.or_eq_true_iff.2 (Or.inr (isLower_toLower hupper))
    rw [isIdentifierStart, hlower, halpha, Bool.true_or]
  | false =>
    have hne : c ≠ '_' := by
      rintro rfl
      cases h
    rw [toLower_of_not_isUpper hupper, isIdentifierStart, decide_eq_false hne, Bool.or_false]

theorem isAlpha_eq_not_isDigit (h : c.isAlphanum = true) : c.isAlpha = !c.isDigit := by
  cases hdigit : c.isDigit with
  | false => rwa [Char.isAlphanum, hdigit, Bool.or_false] at h
  | true =>
    have hrange : 48 ≤ c.toNat ∧ c.toNat ≤ 57 := Char.isDigit_iff_toNat.1 hdigit
    rw [Bool.not_true, ← Bool.not_eq_true]
    intro halpha
    rcases Bool.or_eq_true_iff.1 halpha with hupper | hlower
    · have := isUpper_iff_toNat.1 hupper
      omega
    · have := isLower_iff_toNat.1 hlower
      omega

theorem isAlphanum_of_lead? (h : lead? name = some c) : c.isAlphanum = true :=
  List.find?_some h

theorem leadsWithDigit_of_letter (h : leadsWithLetter name = true) : leadsWithDigit name = false := by
  unfold leadsWithLetter at h
  unfold leadsWithDigit
  cases hlead : lead? name with
  | none => rfl
  | some c =>
    rw [hlead, Option.any_some, isAlpha_eq_not_isDigit (isAlphanum_of_lead? hlead)] at h
    simpa using h

theorem any_isIdentifierStart_lead (name : String) :
    ((lead? name).map Char.toLower).any isIdentifierStart = leadsWithLetter name := by
  unfold leadsWithLetter
  cases hlead : lead? name with
  | none => rfl
  | some c => exact isIdentifierStart_toLower (isAlphanum_of_lead? hlead)

theorem all_isIdentifierStart_lead (name : String) :
    ((lead? name).map Char.toLower).all isIdentifierStart = !leadsWithDigit name := by
  unfold leadsWithDigit
  cases hlead : lead? name with
  | none => rfl
  | some c =>
    have halnum := isAlphanum_of_lead? hlead
    exact (isIdentifierStart_toLower halnum).trans (isAlpha_eq_not_isDigit halnum)

/-! ## Texts of an identifier's characters -/

/-- Whether characters that may stand in an identifier form one is decided by the first. -/
theorem isIdentifierText_eq (h : ∀ c ∈ cs, isIdentifierRest c = true) :
    isIdentifierText cs = cs.head?.any isIdentifierStart := by
  cases cs with
  | nil => rfl
  | cons c cs =>
    have hall : cs.all isIdentifierRest = true :=
      List.all_eq_true.2 fun d hd => h d (List.mem_cons_of_mem c hd)
    rw [isIdentifierText, hall, Bool.and_true]
    rfl

theorem isIdentifierRest_of_mem_snakeCase (h : c ∈ (snakeCase name).toList) :
    isIdentifierRest c = true := by
  rcases mem_snakeCase h with rfl | halnum
  · rfl
  · rw [isIdentifierRest, halnum, Bool.true_or]

/-! ## Plurals -/

theorem isIdentifierRest_of_mem_pluralText (h : ∀ c ∈ cs, isIdentifierRest c = true)
    (hc : c ∈ pluralText cs) : isIdentifierRest c = true := by
  have hending : ∀ d ∈ ['i', 'e', 's'], isIdentifierRest d = true := List.all_eq_true.1 (by decide)
  unfold pluralText at hc
  split at hc
  · exact absurd hc List.not_mem_nil
  · split at hc
    · rcases List.mem_append.1 hc with hc | hc
      · exact h c hc
      · exact hending c (List.mem_cons_of_mem 'i' hc)
    · split at hc
      · rcases List.mem_append.1 hc with hc | hc
        · exact h c ((List.dropLast_sublist cs).subset hc)
        · exact hending c hc
      · rcases List.mem_append.1 hc with hc | hc
        · exact h c hc
        · exact hending c (List.mem_cons_of_mem 'i' (List.mem_cons_of_mem 'e' hc))

/-- A plural starts as its word does. -/
theorem head?_pluralText (cs : List Char) : (pluralText cs).head? = cs.head? := by
  unfold pluralText
  cases cs with
  | nil => rfl
  | cons c rest =>
    rw [if_neg (by simp)]
    split
    · rfl
    · split
      · rename_i hy
        -- There is a consonant before the `y`, so the first character is not the last.
        cases rest with
        | nil =>
          unfold endsInConsonantY at hy
          split at hy
          · rename_i heq
            cases heq
          · cases hy
        | cons d rest => rfl
      · rfl

/-! ## Names made from a name -/

theorem isIdentifier_eq (h : ∀ c ∈ name.toList, isIdentifierRest c = true) :
    isIdentifier name = name.toList.head?.any isIdentifierStart :=
  isIdentifierText_eq h

/-- The snake form of a name is an identifier exactly if a letter comes first. -/
theorem isIdentifier_snakeCase (name : String) :
    isIdentifier (snakeCase name) = leadsWithLetter name := by
  rw [isIdentifier_eq fun _ => isIdentifierRest_of_mem_snakeCase, head?_snakeCase,
    any_isIdentifierStart_lead]

/-- Behind an underscore more may follow, and then a name without letters and digits is none the
worse. -/
theorem isIdentifier_snakeCase_append (name : String) (hfirst : ending.toList.head? = some '_')
    (hrest : ending.toList.all isIdentifierRest = true) :
    isIdentifier (snakeCase name ++ ending) = !leadsWithDigit name := by
  have hall : ∀ c ∈ (snakeCase name ++ ending).toList, isIdentifierRest c = true := by
    intro c hc
    rw [String.toList_append] at hc
    rcases List.mem_append.1 hc with hc | hc
    · exact isIdentifierRest_of_mem_snakeCase hc
    · exact List.all_eq_true.1 hrest c hc
  rw [isIdentifier_eq hall, String.toList_append, List.head?_append, hfirst, head?_snakeCase,
    ← all_isIdentifierStart_lead]
  cases (lead? name).map Char.toLower <;> rfl

/-- Every reserved name is an identifier. -/
theorem isIdentifier_of_isReserved (h : isReserved name = true) : isIdentifier name = true := by
  have hlisted : ∀ k ∈ bodyNames ++ keywords, isIdentifier k = true := by decide
  rcases isReserved_iff.1 h with hbody | hkeyword | hhandle
  · exact hlisted name (List.mem_append_left _ hbody)
  · exact hlisted name (List.mem_append_right _ hkeyword)
  · obtain ⟨digits, heq, -, hdigits⟩ := isTaskHandle_iff.1 hhandle
    have htask : ∀ d ∈ "task_".toList, isIdentifierRest d = true :=
      List.all_eq_true.1 (by decide)
    have hall : ∀ c ∈ name.toList, isIdentifierRest c = true := by
      intro c hc
      rw [heq] at hc
      rcases List.mem_append.1 hc with hc | hc
      · exact htask c hc
      · rw [isIdentifierRest, Char.isAlphanum, hdigits c hc, Bool.or_true, Bool.true_or]
    rw [isIdentifier_eq hall, heq]
    rfl

/-! ## Names of results -/

theorem resultName_toList (typeName : String) (collection : Bool) :
    (resultName typeName collection).toList = (snakeCase typeName).toList ∨
      (resultName typeName collection).toList = pluralText (snakeCase typeName).toList := by
  cases collection with
  | false => exact Or.inl rfl
  | true => exact Or.inr (by rw [resultName, if_pos rfl, pluralize, String.toList_ofList])

theorem isIdentifierRest_of_mem_resultName {typeName : String} {collection : Bool}
    (h : c ∈ (resultName typeName collection).toList) : isIdentifierRest c = true := by
  have hsnake : ∀ d ∈ (snakeCase typeName).toList, isIdentifierRest d = true :=
    fun _ => isIdentifierRest_of_mem_snakeCase
  rcases resultName_toList typeName collection with heq | heq
  · rw [heq] at h
    exact hsnake c h
  · rw [heq] at h
    exact isIdentifierRest_of_mem_pluralText hsnake h

theorem head?_resultName (typeName : String) (collection : Bool) :
    (resultName typeName collection).toList.head? = (lead? typeName).map Char.toLower := by
  rcases resultName_toList typeName collection with heq | heq
  · rw [heq, head?_snakeCase]
  · rw [heq, head?_pluralText, head?_snakeCase]

theorem baseOr_ne_nil (base : String) : (TakenNames.baseOr base).toList ≠ [] := by
  unfold TakenNames.baseOr
  by_cases hbase : base.isEmpty = true
  · rw [if_pos hbase]
    decide
  · rw [if_neg hbase]
    intro hnil
    exact hbase (String.isEmpty_iff.2 (String.toList_eq_nil_iff.1 hnil))

/-- The stand-in for an empty base is an identifier, so only what a base starts with can be wrong. -/
theorem isIdentifier_baseOr (h : ∀ c ∈ base.toList, isIdentifierRest c = true) :
    (∀ c ∈ (TakenNames.baseOr base).toList, isIdentifierRest c = true) ∧
      (TakenNames.baseOr base).toList.head?.any isIdentifierStart =
        base.toList.head?.all isIdentifierStart := by
  unfold TakenNames.baseOr
  by_cases hbase : base.isEmpty = true
  · rw [if_pos hbase, String.isEmpty_iff.1 hbase]
    exact ⟨List.all_eq_true.1 (by decide), by decide⟩
  · rw [if_neg hbase]
    refine ⟨h, ?_⟩
    cases hlist : base.toList with
    | nil => exact absurd (String.isEmpty_iff.2 (String.toList_eq_nil_iff.1 hlist)) hbase
    | cons c cs => rfl

/-- A derived name, numbered or not, is an identifier unless its base starts as none does. -/
theorem isIdentifier_derivedName (t : TakenNames)
    (h : ∀ c ∈ base.toList, isIdentifierRest c = true) :
    isIdentifier (t.derivedName base) = base.toList.head?.all isIdentifierStart := by
  obtain ⟨hrest, hhead⟩ := isIdentifier_baseOr h
  rw [← hhead]
  rcases TakenNames.derivedName_eq t base with ⟨-, he⟩ | ⟨-, he⟩
  · rw [he, isIdentifier_eq hrest]
  · obtain ⟨digits, hnumbered, -, hdigits⟩ :=
      exists_digits_of_numbered (TakenNames.baseOr base) (t.freeNumber (TakenNames.baseOr base))
    have hall : ∀ c ∈ (t.derivedName base).toList, isIdentifierRest c = true := by
      intro c hc
      rw [he, hnumbered] at hc
      rcases List.mem_append.1 hc with hc | hc
      · exact hrest c hc
      · rcases List.mem_cons.1 hc with rfl | hc
        · rfl
        · rw [isIdentifierRest, Char.isAlphanum, hdigits c hc, Bool.or_true, Bool.true_or]
    rw [isIdentifier_eq hall, he, hnumbered, List.head?_append_of_ne_nil _ (baseOr_ne_nil base)]

theorem derivedName_ne_empty (t : TakenNames) (base : String) : t.derivedName base ≠ "" := by
  intro hempty
  rcases TakenNames.derivedName_eq t base with ⟨-, he⟩ | ⟨-, he⟩
  · exact baseOr_ne_nil base (String.toList_eq_nil_iff.2 (he.symm.trans hempty))
  · obtain ⟨digits, hnumbered, -, -⟩ :=
      exists_digits_of_numbered (TakenNames.baseOr base) (t.freeNumber (TakenNames.baseOr base))
    rw [← he, hempty] at hnumbered
    exact List.append_ne_nil_of_right_ne_nil _ (List.cons_ne_nil _ _) hnumbered.symm

/-- The default name of a result is an identifier, however it is numbered, unless the name of its type
leads with a digit. -/
theorem isIdentifier_derivedName_resultName (t : TakenNames) (typeName : String)
    (collection : Bool) :
    isIdentifier (t.derivedName (resultName typeName collection)) = !leadsWithDigit typeName := by
  rw [isIdentifier_derivedName t fun _ => isIdentifierRest_of_mem_resultName, head?_resultName,
    all_isIdentifierStart_lead]

end Orchestration.Naming
