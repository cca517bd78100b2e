import Orchestration.Proofs.TypeExpr.Display

/-!
# The canonical form of a type expression

What an expression denotes is printed without white space, with `[ ]` for every collection and `&` for
every reference, and with one spelling of the context and of the error slot. This form depends on the
tree of the expression alone. It denotes what the expression does, so two expressions denote the same
exactly if they have one canonical form.
-/

namespace Orchestration.TypeExpr

open Text Naming

variable {types : TypeTable} {cs name : List Char} {t : Tree} {c : Char}

/-! ## Statements -/

/-- The one spelling of a path. -/
def canonicalName (name : List Char) : List Char :=
  if String.ofList name ∈ ["ctx", "context", "Context"] then "ctx".toList
  else if String.ofList name ∈ ["error", "Error"] then "error".toList
  else name

namespace Tree

/-- The tree with one kind of bracket, and with one spelling of each path. -/
def canonical : Tree → Tree
  | path name => .path (canonicalName name)
  | reference inner => .reference inner.canonical
  | enclosed .square inner => .enclosed .square inner.canonical
  | enclosed .vec inner => .enclosed .square inner.canonical
  | enclosed .option inner => .reference inner.canonical

/-- The text of a tree without any white space. -/
def text : Tree → List Char
  | path name => name
  | reference inner => '&' :: inner.text
  | enclosed b inner => b.enclose inner.text

end Tree

/-! ## Texts of trees -/

theorem Derives.text (h : Derives t cs) : Derives t t.text := by
  induction h with
  | path _ hname _ => exact derives_path hname
  | reference _ _ ih =>
    have hderives := Derives.reference .nil ih
    rwa [List.nil_append] at hderives
  | enclosed b _ _ _ ih =>
    have hderives := Derives.enclosed b .nil ih .nil
    rwa [List.nil_append, List.append_nil] at hderives

theorem isBlank_eq_false_of_bracket (b : Bracket) :
    (∀ c ∈ b.opening, isBlank c = false) ∧ isBlank b.closing = false := by
  have hopening : (b.opening.all fun c => !isBlank c) = true := by cases b <;> decide
  refine ⟨fun c hc => ?_, by cases b <;> decide⟩
  have hc := List.all_eq_true.1 hopening c hc
  rwa [Bool.not_eq_true'] at hc

theorem Derives.notBlank_of_mem_text (h : Derives t cs) (hc : c ∈ t.text) : isBlank c = false := by
  induction h with
  | path _ hname _ => exact hname.isBlank_eq_false hc
  | reference _ _ ih =>
    rcases List.mem_cons.1 hc with rfl | hc
    · decide
    · exact ih hc
  | enclosed b _ _ _ ih =>
    obtain ⟨hopening, hclosing⟩ := isBlank_eq_false_of_bracket b
    rcases List.mem_append.1 hc with hc | hc
    · rcases List.mem_append.1 hc with hc | hc
      · exact hopening c hc
      · exact ih hc
    · rw [List.mem_singleton.1 hc]
      exact hclosing

/-! ## Canonical trees -/

theorem isPath_canonicalName (h : IsPath name) : IsPath (canonicalName name) := by
  unfold canonicalName
  split
  · exact isModulePath_iff.1 (by decide)
  split
  · exact isModulePath_iff.1 (by decide)
  · exact h

theorem Derives.canonical (h : Derives t cs) : Derives t.canonical t.canonical.text := by
  induction h with
  | path _ hname _ => exact derives_path (isPath_canonicalName hname)
  | reference _ _ ih => exact (Derives.reference .nil ih).text
  | enclosed b _ _ _ ih =>
    cases b with
    | square => exact (Derives.enclosed .square .nil ih .nil).text
    | vec => exact (Derives.enclosed .square .nil ih .nil).text
    | option => exact (Derives.reference .nil ih).text

theorem display_leaf (types : TypeTable) (name : List Char) :
    (leaf types (String.ofList name)).display.toList = canonicalName name := by
  unfold leaf lookUp canonicalName
  split
  · rfl
  split
  · rfl
  split <;> simp [TypeShape.display]

/-- What a tree denotes is printed as the text of its canonical tree. -/
theorem display_denote (types : TypeTable) (t : Tree) :
    (t.denote types).display.toList = t.canonical.text := by
  induction t with
  | path name => exact display_leaf types name
  | reference inner ih =>
    show ("&" ++ (inner.denote types).display).toList = '&' :: inner.canonical.text
    rw [String.toList_append, ih]
    rfl
  | enclosed b inner ih =>
    have hlist : ("[" ++ (inner.denote types).display ++ "]").toList =
        Bracket.square.enclose inner.canonical.text := by
      rw [String.toList_append, String.toList_append, ih]
      rfl
    cases b with
    | square => exact hlist
    | vec => exact hlist
    | option =>
      show ("&" ++ (inner.denote types).display).toList = '&' :: inner.canonical.text
      rw [String.toList_append, ih]
      rfl

/-- **What an expression denotes is printed in the canonical form of the expression.** This form has no
white space, and it denotes what the expression does; so expressions denote the same exactly if what
they denote is printed alike. -/
theorem display_canonical {expr other : String} (hknown : ∀ text, parse types expr ≠ .unknown text)
    (hother : ∀ text, parse types other ≠ .unknown text) :
    parse types (parse types expr).display = parse types expr ∧
      (∃ t, Derives t expr.toList ∧ (parse types expr).display.toList = t.canonical.text ∧
        Derives t.canonical (parse types expr).display.toList) ∧
      (∀ c ∈ (parse types expr).display.toList, isBlank c = false) ∧
      (parse types expr = parse types other ↔
        (parse types expr).display = (parse types other).display) := by
  obtain ⟨t, ht⟩ := exists_derives hknown
  have hread : parse types expr = t.denote types := ht.read_eq
  have hdisplay : (parse types expr).display.toList = t.canonical.text := by
    rw [hread, display_denote]
  have hcanonical : Derives t.canonical (parse types expr).display.toList := by
    rw [hdisplay]
    exact ht.canonical
  refine ⟨parse_display hknown, ⟨t, ht, hdisplay, hcanonical⟩, fun c hc => ?_, ?_, fun hsame => ?_⟩
  · rw [hdisplay] at hc
    exact hcanonical.notBlank_of_mem_text hc
  · exact fun hsame => congrArg TypeShape.display hsame
  · rw [← parse_display hknown, hsame, parse_display hother]

theorem display_canonical_users :
    let types := Table.ofList [("User", Table.ofList [("id", "i64")])]
    let expr := " Vec< Option< User > > "
    (∀ text, parse types expr ≠ .unknown text) ∧ (∀ text, parse types "[ & User]" ≠ .unknown text) ∧
      (parse types expr).display = "[&User]" ∧ parse types "[&User]" = parse types expr ∧
      parse types expr = parse types "[ & User]" := by
  intro types expr
  have hexpr : parse types expr = .list (.ref (.struct "User" (Table.ofList [("id", "i64")]))) := by
    decide +kernel
  have hother : parse types "[ & User]" = parse types expr := by decide +kernel
  have hknown : ∀ text, parse types expr ≠ .unknown text := by
    rw [hexpr]
    exact nofun
  have hknown' : ∀ text, parse types "[ & User]" ≠ .unknown text := by rwa [hother]
  have hdisplay : (parse types expr).display = "[&User]" := by
    rw [hexpr]
    rfl
  obtain ⟨hparse, -, -, hiff⟩ := display_canonical hknown hknown'
  rw [hdisplay] at hparse
  exact ⟨hknown, hknown', hdisplay, hparse, hiff.2 (by rw [hother])⟩

end Orchestration.TypeExpr
