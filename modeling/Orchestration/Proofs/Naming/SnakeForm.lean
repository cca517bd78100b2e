import Orchestration.Proofs.Naming.SnakeCase

/-!
# Snake form

A text has snake form if it consists of words of small letters and digits with one underscore between
each two of them. The snake form of a name has the letters and digits of the name, in lower case and in
order, and nothing else but underscores. A text that has snake form already, or is empty, is kept; so
these are the fixed points, and taking the snake form twice is taking it once.
-/

namespace Orchestration.Naming

variable {c d : Char} {cs ds w : List Char} {ws : List (List Char)} {name : String}

/-! ## Statements -/

/-- Whether a character is a small letter or a digit. -/
def isSmall (c : Char) : Bool :=
  c.isLower || c.isDigit

/-- The texts that match `[a-z0-9]+(_[a-z0-9]+)*`. None of them is empty, starts or ends with an
underscore, or has two in a row. -/
inductive SnakeForm : List Char → Prop where
  /-- A word of one character. -/
  | single {c : Char} (small : isSmall c = true) : SnakeForm [c]
  /-- One more character in front of the first word. -/
  | cons {c : Char} {cs : List Char} (small : isSmall c = true) (rest : SnakeForm cs) :
      SnakeForm (c :: cs)
  /-- One more word in front, so far of one character. -/
  | underscore {c : Char} {cs : List Char} (small : isSmall c = true) (rest : SnakeForm cs) :
      SnakeForm (c :: '_' :: cs)

/-! ## Small letters and digits -/

theorem isAlphanum_eq (c : Char) : c.isAlphanum = (c.isUpper || isSmall c) :=
  Bool.or_assoc c.isUpper c.isLower c.isDigit

theorem isSmall_toLower (h : c.isAlphanum = true) : isSmall c.toLower = true := by
  cases hupper : c.isUpper with
  | true =>
    rw [isSmall, isLower_toLower hupper, Bool.true_or]
  | false =>
    rw [toLower_of_not_isUpper hupper]
    rwa [isAlphanum_eq, hupper, Bool.false_or] at h

theorem isAlphanum_of_isSmall (h : isSmall c = true) : c.isAlphanum = true := by
  rw [isAlphanum_eq]
  exact Bool.or_eq_true_iff.2 (Or.inr h)

theorem isUpper_of_isSmall (h : isSmall c = true) : c.isUpper = false := by
  rw [← Bool.not_eq_true]
  intro hupper
  have hrange := isUpper_iff_toNat.1 hupper
  rcases Bool.or_eq_true_iff.1 h with hlower | hdigit
  · have := isLower_iff_toNat.1 hlower
    omega
  · have : 48 ≤ c.toNat ∧ c.toNat ≤ 57 := Char.isDigit_iff_toNat.1 hdigit
    omega

/-! ## Words -/

theorem words_ne_nil_of_mem (h : w ∈ words cs) : w ≠ [] := by
  induction cs using words.induct generalizing w with
  | case1 => exact absurd h List.not_mem_nil
  | case2 d hd =>
    rw [words, if_pos hd, List.mem_singleton] at h
    rw [h]
    exact List.cons_ne_nil d []
  | case3 d hd e es hjoin ih =>
    rw [words, if_pos hd, if_pos hjoin] at h
    cases hwords : words (e :: es) with
    | nil =>
      rw [hwords, prependToFirst, List.mem_singleton] at h
      rw [h]
      exact List.cons_ne_nil d []
    | cons first others =>
      rw [hwords, prependToFirst, List.mem_cons] at h
      rcases h with rfl | h
      · exact List.cons_ne_nil d first
      · exact ih (hwords ▸ List.mem_cons_of_mem first h)
  | case4 d hd e es hsplit ih =>
    rw [words, if_pos hd, if_neg hsplit, List.mem_cons] at h
    rcases h with rfl | h
    · exact List.cons_ne_nil d []
    · exact ih h
  | case5 d ds hd ih =>
    unfold words at h
    rw [if_neg hd] at h
    exact ih h

/-! ## The snake form of a name -/

theorem filter_joinWith (h : ∀ w ∈ ws, ∀ c ∈ w, c.isAlphanum = true) :
    (Text.joinWith ['_'] ws).filter Char.isAlphanum = ws.flatten := by
  have hword : ∀ w ∈ ws, w.filter Char.isAlphanum = w := fun w hw => List.filter_eq_self.2 (h w hw)
  induction ws using Text.joinWith.induct with
  | case1 => rfl
  | case2 w => simpa [Text.joinWith] using h
  | case3 w v rest ih =>
    have hrest := ih (fun u hu => h u (List.mem_cons_of_mem w hu))
      (fun u hu => hword u (List.mem_cons_of_mem w hu))
    have hfirst := hword w (List.mem_cons_self ..)
    rw [Text.joinWith, List.filter_append, List.filter_append, hfirst, hrest, List.flatten_cons]
    simp

theorem SnakeForm.append (hw : ∀ c ∈ w, isSmall c = true) (h : SnakeForm cs) : SnakeForm (w ++ cs) := by
  induction w with
  | nil => exact h
  | cons c w ih =>
    obtain ⟨hc, hw⟩ := List.forall_mem_cons.1 hw
    exact .cons hc (ih hw)

theorem exists_last (hne : w ≠ []) (hw : ∀ c ∈ w, isSmall c = true) :
    ∃ front last, w = front ++ [last] ∧ (∀ c ∈ front, isSmall c = true) ∧ isSmall last = true := by
  refine ⟨w.dropLast, w.getLast hne, (List.dropLast_concat_getLast hne).symm, fun c hc => ?_, ?_⟩
  · exact hw c ((List.dropLast_sublist w).subset hc)
  · exact hw _ (List.getLast_mem hne)

/-- Words of small letters and digits make a text in snake form. -/
theorem snakeForm_joinWith (hne : ws ≠ []) (hws : ∀ w ∈ ws, w ≠ [] ∧ ∀ c ∈ w, isSmall c = true) :
    SnakeForm (Text.joinWith ['_'] ws) := by
  induction ws using Text.joinWith.induct with
  | case1 => exact absurd rfl hne
  | case2 w =>
    obtain ⟨hw, hsmall⟩ := hws w (List.mem_singleton_self w)
    obtain ⟨front, last, rfl, hfront, hlast⟩ := exists_last hw hsmall
    exact .append hfront (.single hlast)
  | case3 w v rest ih =>
    obtain ⟨hw, hsmall⟩ := hws w (List.mem_cons_self ..)
    obtain ⟨front, last, rfl, hfront, hlast⟩ := exists_last hw hsmall
    have hrest := ih (List.cons_ne_nil v rest) fun u hu => hws u (List.mem_cons_of_mem _ hu)
    rw [Text.joinWith, List.append_assoc, List.append_assoc]
    exact .append hfront (.underscore hlast hrest)

/-- The snake form of a text is empty or in snake form. -/
theorem snakeForm_snakeText (cs : List Char) : snakeText cs = [] ∨ SnakeForm (snakeText cs) := by
  by_cases hnil : words cs = []
  · left
    rw [snakeText, hnil]
    rfl
  · right
    refine snakeForm_joinWith (fun h => hnil (List.map_eq_nil_iff.1 h)) fun w hw => ?_
    obtain ⟨v, hv, rfl⟩ := List.mem_map.1 hw
    refine ⟨fun h => words_ne_nil_of_mem hv (List.map_eq_nil_iff.1 h), fun c hc => ?_⟩
    obtain ⟨d, hd, rfl⟩ := List.mem_map.1 hc
    exact isSmall_toLower (isAlphanum_of_mem_words hv hd)

theorem filter_snakeText (cs : List Char) :
    (snakeText cs).filter Char.isAlphanum = (cs.filter Char.isAlphanum).map Char.toLower := by
  have hwords : ∀ w ∈ (words cs).map fun w => w.map Char.toLower, ∀ c ∈ w, c.isAlphanum = true := by
    intro w hw c hc
    obtain ⟨v, hv, rfl⟩ := List.mem_map.1 hw
    obtain ⟨d, hd, rfl⟩ := List.mem_map.1 hc
    exact isAlphanum_toLower (isAlphanum_of_mem_words hv hd)
  rw [snakeText, filter_joinWith hwords, ← flatten_words, List.map_flatten]

/-! ## Fixed points -/

/-- A character that is a word of its own before an underscore. -/
theorem snakeText_underscore (hc : c.isAlphanum = true) (hcs : words cs ≠ []) :
    snakeText (c :: '_' :: cs) = c.toLower :: '_' :: snakeText cs := by
  have hmark : words ('_' :: cs) = words cs := by
    rw [words.eq_def]
    exact if_neg (by decide)
  have hwords : words (c :: '_' :: cs) = [c] :: words cs := by
    rw [words, if_pos hc, if_neg (by simp), hmark]
  obtain ⟨w, ws, he⟩ := List.exists_cons_of_ne_nil hcs
  rw [snakeText, snakeText, hwords, he]
  rfl

theorem words_ne_nil_of_snakeForm (h : SnakeForm cs) : words cs ≠ [] := by
  cases h with
  | single hc => exact words_ne_nil (List.mem_cons_self ..) (isAlphanum_of_isSmall hc)
  | cons hc _ => exact words_ne_nil (List.mem_cons_self ..) (isAlphanum_of_isSmall hc)
  | underscore hc _ => exact words_ne_nil (List.mem_cons_self ..) (isAlphanum_of_isSmall hc)

theorem SnakeForm.exists_cons (h : SnakeForm cs) : ∃ c rest, cs = c :: rest ∧ isSmall c = true := by
  cases h with
  | single hc => exact ⟨_, _, rfl, hc⟩
  | cons hc _ => exact ⟨_, _, rfl, hc⟩
  | underscore hc _ => exact ⟨_, _, rfl, hc⟩

/-- A text in snake form is kept. -/
theorem SnakeForm.snakeText_eq (h : SnakeForm cs) : snakeText cs = cs := by
  induction h with
  | @single c hc =>
    have hwords : words [c] = [[c]] := by rw [words, if_pos (isAlphanum_of_isSmall hc)]
    rw [snakeText, hwords]
    exact congrArg (fun d => [d]) (toLower_of_not_isUpper (isUpper_of_isSmall hc))
  | @cons c cs hc hrest ih =>
    obtain ⟨d, ds, rfl, hd⟩ := hrest.exists_cons
    have hjoin : startsWord c d ds.head? = false := by
      rw [startsWord, isUpper_of_isSmall hd, Bool.false_and]
    rw [snakeText_of_inside (isAlphanum_of_isSmall hc) (isAlphanum_of_isSmall hd) hjoin, ih,
      toLower_of_not_isUpper (isUpper_of_isSmall hc)]
  | @underscore c cs hc hrest ih =>
    rw [snakeText_underscore (isAlphanum_of_isSmall hc) (words_ne_nil_of_snakeForm hrest), ih,
      toLower_of_not_isUpper (isUpper_of_isSmall hc)]

theorem snakeCase_eq_self_iff : snakeCase name = name ↔ name = "" ∨ SnakeForm name.toList := by
  have htext : snakeCase name = name ↔ snakeText name.toList = name.toList := by
    rw [← String.toList_inj, toList_snakeCase]
  rw [htext]
  constructor
  · intro h
    rcases snakeForm_snakeText name.toList with hnil | hform
    · rw [hnil] at h
      exact Or.inl (String.toList_eq_nil_iff.1 h.symm)
    · rw [h] at hform
      exact Or.inr hform
  · rintro (rfl | h)
    · rfl
    · exact h.snakeText_eq

/-- **Taking the snake form is a normalization.** What it gives is empty or in snake form and has the
letters and digits of the name, in lower case and in order; it keeps exactly the empty name and those
that are in snake form, so a second time changes nothing. -/
theorem snakeCase_normalizes (name : String) :
    (snakeCase name = "" ∨ SnakeForm (snakeCase name).toList) ∧
      (snakeCase name).toList.filter Char.isAlphanum =
        (name.toList.filter Char.isAlphanum).map Char.toLower ∧
      (snakeCase name = name ↔ name = "" ∨ SnakeForm name.toList) ∧
      snakeCase (snakeCase name) = snakeCase name := by
  have hform : snakeCase name = "" ∨ SnakeForm (snakeCase name).toList := by
    rw [← String.toList_eq_nil_iff, toList_snakeCase]
    exact snakeForm_snakeText name.toList
  refine ⟨hform, ?_, snakeCase_eq_self_iff, snakeCase_eq_self_iff.2 hform⟩
  rw [toList_snakeCase]
  exact filter_snakeText name.toList

example : snakeCase "_HTTPServer__é2Go\u3000" = "http_server_2_go" := by decide +kernel

end Orchestration.Naming
