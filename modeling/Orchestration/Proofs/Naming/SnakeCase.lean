import Orchestration.Naming.SnakeCase
import Orchestration.Proofs.Naming.IdentifierForm
import Orchestration.Proofs.Text.Segments

/-!
# The words of a name

Written on a buffer, the snake form of a name is the list of its words in lower case, joined by
underscores. So its characters are ASCII letters and digits, and underscores between words.
-/

namespace Orchestration

variable {c d p : Char} {cs w : List Char}

namespace Naming

/-- A list of words with `c` put in front of the first of them. -/
def prependToFirst (c : Char) : List (List Char) → List (List Char)
  | [] => [[c]]
  | w :: ws => (c :: w) :: ws

/-- The words of a name, in order. None of them is empty. -/
def words : List Char → List (List Char)
  | [] => []
  | c :: cs =>
    if c.isAlphanum then
      match cs with
      | [] => [[c]]
      | d :: ds =>
        if d.isAlphanum && !startsWord c d ds.head? then prependToFirst c (words (d :: ds))
        else [c] :: words (d :: ds)
    else words cs

/-- The words in lower case, joined by underscores. -/
def snakeText (cs : List Char) : List Char :=
  Text.joinWith ['_'] ((words cs).map fun w => w.map Char.toLower)

/-! ## Characters -/

theorem isLower_toLower (h : c.isUpper = true) : c.toLower.isLower = true := by
  have hupper : c.val ≥ 'A'.val ∧ c.val ≤ 'Z'.val := of_decide_eq_true h
  have hbounds : 65 ≤ c.toNat ∧ c.toNat ≤ 90 := hupper
  have hval : (c.val + 32).toNat = c.toNat + 32 := by
    rw [UInt32.toNat_add]
    exact Nat.mod_eq_of_lt (by simp; omega)
  have hbounds' : 97 ≤ (c.val + 32).toNat ∧ (c.val + 32).toNat ≤ 122 := by omega
  unfold Char.toLower
  rw [dif_pos hupper]
  exact isLower_iff_toNat.2 hbounds'

theorem toLower_of_not_isUpper (h : c.isUpper = false) : c.toLower = c := by
  unfold Char.toLower
  rw [dif_neg]
  intro hbounds
  rw [isUpper_iff_toNat.2 hbounds] at h
  cases h

theorem isAlphanum_toLower (h : c.isAlphanum = true) : c.toLower.isAlphanum = true := by
  cases hupper : c.isUpper with
  | true =>
    have halpha : c.toLower.isAlpha = true :=
      Bool.or_eq_true_iff.2 (Or.inr (isLower_toLower hupper))
    rw [Char.isAlphanum, halpha, Bool.true_or]
  | false => rwa [toLower_of_not_isUpper hupper]

theorem isAlphanum_of_mem_words (hw : w ∈ words cs) (hc : c ∈ w) : c.isAlphanum = true := by
  induction cs using words.induct generalizing w with
  | case1 => exact absurd hw List.not_mem_nil
  | case2 d hd =>
    rw [words, if_pos hd] at hw
    rcases List.mem_singleton.1 hw with rfl
    rcases List.mem_singleton.1 hc with rfl
    exact hd
  | case3 d hd e es hjoin ih =>
    rw [words, if_pos hd, if_pos hjoin] at hw
    cases hwords : words (e :: es) with
    | nil =>
      rw [hwords] at hw
      rcases List.mem_singleton.1 hw with rfl
      rcases List.mem_singleton.1 hc with rfl
      exact hd
    | cons w' ws =>
      rw [hwords] at hw ih
      rcases List.mem_cons.1 hw with rfl | hw
      · rcases List.mem_cons.1 hc with rfl | hc
        · exact hd
        · exact ih (List.mem_cons_self ..) hc
      · exact ih (List.mem_cons_of_mem _ hw) hc
  | case4 d hd e es hsplit ih =>
    rw [words, if_pos hd, if_neg hsplit] at hw
    rcases List.mem_cons.1 hw with rfl | hw
    · rcases List.mem_singleton.1 hc with rfl
      exact hd
    · exact ih hw hc
  | case5 d ds hd ih =>
    unfold words at hw
    rw [if_neg hd] at hw
    exact ih hw hc

/-! ## Words -/

theorem flatten_prependToFirst (c : Char) (ws : List (List Char)) :
    (prependToFirst c ws).flatten = c :: ws.flatten := by
  cases ws <;> rfl

/-- The words have all letters and digits of the name, in order. -/
theorem flatten_words (cs : List Char) : (words cs).flatten = cs.filter Char.isAlphanum := by
  induction cs using words.induct with
  | case1 => rfl
  | case2 d hd => rw [words, if_pos hd, List.filter_cons_of_pos hd]; rfl
  | case3 d hd e es hjoin ih =>
    rw [words, if_pos hd, if_pos hjoin, flatten_prependToFirst, ih, List.filter_cons_of_pos hd]
  | case4 d hd e es hsplit ih =>
    rw [words, if_pos hd, if_neg hsplit, List.flatten_cons, ih, List.filter_cons_of_pos hd,
      List.singleton_append]
  | case5 d ds hd ih =>
    unfold words
    rw [if_neg hd, ih, List.filter_cons_of_neg hd]

theorem words_ne_nil (hmem : c ∈ cs) (hc : c.isAlphanum = true) : words cs ≠ [] := by
  intro hnil
  have hflat := flatten_words cs
  rw [hnil] at hflat
  exact absurd (List.mem_filter.2 ⟨hmem, hc⟩) (hflat ▸ List.not_mem_nil)

theorem words_of_mark (hc : c.isAlphanum = false) : words (c :: cs) = words cs := by
  rw [words.eq_def]
  exact if_neg (ne_true_of_eq_false hc)

theorem words_of_inside (hp : p.isAlphanum = true) (hc : c.isAlphanum = true)
    (hinside : startsWord p c cs.head? = false) :
    words (p :: c :: cs) = prependToFirst p (words (c :: cs)) := by
  rw [words, if_pos hp, if_pos (by rw [hc, hinside]; rfl)]

theorem words_of_end (hp : p.isAlphanum = true)
    (hend : c.isAlphanum = false ∨ startsWord p c cs.head? = true) :
    words (p :: c :: cs) = [p] :: words (c :: cs) := by
  rw [words, if_pos hp, if_neg]
  rcases hend with hc | hstarts
  · simp [hc]
  · simp [hstarts]

/-- A character that belongs to the first word of what comes after it. -/
theorem snakeText_of_inside (hp : p.isAlphanum = true) (hc : c.isAlphanum = true)
    (hinside : startsWord p c cs.head? = false) :
    snakeText (p :: c :: cs) = p.toLower :: snakeText (c :: cs) := by
  unfold snakeText
  rw [words_of_inside hp hc hinside]
  rcases words (c :: cs) with - | ⟨w, - | ⟨v, ws⟩⟩ <;> rfl

/-- A word of one character. -/
theorem snakeText_of_end (hp : p.isAlphanum = true)
    (hend : c.isAlphanum = false ∨ startsWord p c cs.head? = true) :
    snakeText (p :: c :: cs) =
      Text.joinWith ['_'] ([p.toLower] :: (words (c :: cs)).map fun w => w.map Char.toLower) := by
  rw [snakeText, words_of_end hp hend]
  rfl

/-! ## Writing the words -/

theorem toLower_ne_underscore (h : c.isAlphanum = true) : c.toLower ≠ '_' := by
  intro heq
  have hlower := isAlphanum_toLower h
  rw [heq] at hlower
  cases hlower

theorem head?_of_letter (h : c.isAlphanum = true) (buffer : List Char) :
    (c.toLower :: buffer).head? ≠ some '_' :=
  fun heq => toLower_ne_underscore h (Option.some.inj heq)

theorem endWord_of_ne (h : c ≠ '_') (buffer : List Char) :
    endWord (c :: buffer) = '_' :: c :: buffer :=
  if_neg h

theorem finish_of_head? {buffer : List Char} (h : buffer.head? ≠ some '_') :
    finish buffer = buffer.reverse := by
  cases buffer with
  | nil => rfl
  | cons c buffer =>
    have hc : c ≠ '_' := fun hc => h (congrArg some hc)
    rw [finish, List.dropWhile_cons_of_neg (by simpa using hc)]

/-- Words with something written in front of the first of them. -/
theorem joinWith_append (v : List Char) (ws : List (List Char)) :
    Text.joinWith ['_'] ((w ++ v) :: ws) = w ++ Text.joinWith ['_'] (v :: ws) := by
  cases ws with
  | nil => rfl
  | cons u ws => simp [Text.joinWith]

/-- Once a word ends, the others follow behind an underscore. -/
theorem joinWith_snakeText (hcs : words cs ≠ []) :
    Text.joinWith ['_'] (w :: (words cs).map fun w => w.map Char.toLower) =
      w ++ '_' :: snakeText cs := by
  obtain ⟨v, ws, hwords⟩ := List.exists_cons_of_ne_nil hcs
  rw [snakeText, hwords, List.map_cons, Text.joinWith, List.append_assoc]
  rfl

/-- What comes of the rest of a name, by what is on the buffer before it. -/
structure WritesWords (cs : List Char) : Prop where
  /-- On an empty buffer: its words. -/
  start : ∀ p, finish (write p [] cs) = snakeText cs
  /-- Behind a mark: its words, after what was written. -/
  mark : ∀ p buffer, buffer.head? ≠ some '_' → finish (write p ('_' :: buffer) cs) =
    Text.joinWith ['_'] (buffer.reverse :: (words cs).map fun w => w.map Char.toLower)
  /-- In a word: this word first. -/
  inside : ∀ p buffer, p.isAlphanum = true →
    finish (write (some p) (p.toLower :: buffer) cs) = buffer.reverse ++ snakeText (p :: cs)

theorem writesWords (cs : List Char) : WritesWords cs := by
  induction cs with
  | nil =>
    constructor
    case start => exact fun p => rfl
    case mark => exact fun p buffer hbuffer => finish_of_head? hbuffer
    case inside =>
      intro p buffer hp
      rw [write, finish_of_head? (head?_of_letter hp buffer),
        List.reverse_cons, snakeText, words, if_pos hp]
      rfl
  | cons c cs ih =>
    cases hc : c.isAlphanum with
    | true =>
      -- `c` is written, behind an underscore if it starts a word
      have hwrite : ∀ p buffer, write p buffer (c :: cs) =
          write (some c) (c.toLower :: if p.any fun p => startsWord p c cs.head?
            then endWord buffer else buffer) cs := fun p buffer => if_pos hc
      have hwords : words (c :: cs) ≠ [] := words_ne_nil List.mem_cons_self hc
      constructor
      case start =>
        intro p
        rw [hwrite, show endWord [] = [] from rfl, ite_self]
        exact ih.inside c [] hc
      case mark =>
        intro p buffer hbuffer
        rw [hwrite, show endWord ('_' :: buffer) = '_' :: buffer from rfl, ite_self,
          ih.inside c _ hc, joinWith_snakeText hwords, List.reverse_cons, List.append_assoc,
          List.singleton_append]
      case inside =>
        intro p buffer hp
        rw [hwrite, Option.any_some]
        cases hstarts : startsWord p c cs.head? with
        | true =>
          rw [if_pos rfl, endWord_of_ne (toLower_ne_underscore hp), ih.inside c _ hc,
            snakeText_of_end hp (Or.inr hstarts), joinWith_snakeText hwords]
          simp
        | false =>
          rw [if_neg Bool.false_ne_true, ih.inside c _ hc, snakeText_of_inside hp hc hstarts]
          simp
    | false =>
      -- `c` is a mark
      have hwrite : ∀ p buffer, write p buffer (c :: cs) = write (some c) (endWord buffer) cs :=
        fun p buffer => if_neg (ne_true_of_eq_false hc)
      constructor
      case start =>
        intro p
        rw [hwrite, snakeText, words_of_mark hc]
        exact ih.start (some c)
      case mark =>
        intro p buffer hbuffer
        rw [hwrite, words_of_mark hc]
        exact ih.mark (some c) buffer hbuffer
      case inside =>
        intro p buffer hp
        rw [hwrite, endWord_of_ne (toLower_ne_underscore hp),
          ih.mark (some c) _ (head?_of_letter hp buffer), snakeText_of_end hp (Or.inl hc),
          words_of_mark hc, List.reverse_cons, joinWith_append]

/-- The snake form is the words in lower case, joined by underscores. -/
theorem toList_snakeCase (name : String) : (snakeCase name).toList = snakeText name.toList := by
  rw [snakeCase, String.toList_ofList]
  exact (writesWords name.toList).start none

/-! ## Characters of the snake form -/

theorem mem_snakeCase {name : String} (h : c ∈ (snakeCase name).toList) :
    c = '_' ∨ c.isAlphanum = true := by
  rw [toList_snakeCase, snakeText] at h
  rcases Text.mem_joinWith h with h | ⟨xs, hxs, hc⟩
  · exact Or.inl (List.mem_singleton.1 h)
  · obtain ⟨w, hw, rfl⟩ := List.mem_map.1 hxs
    obtain ⟨d, hd, rfl⟩ := List.mem_map.1 hc
    exact Or.inr (isAlphanum_toLower (isAlphanum_of_mem_words hw hd))

end Naming

end Orchestration
