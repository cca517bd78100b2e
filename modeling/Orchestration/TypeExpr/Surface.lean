import Orchestration.TypeExpr.Parser

/-!
# Type expressions as text

Three questions are answered from the text of a type alone, because field types are kept as written:
whether it is a collection, what its innermost name is, and how it is written as an owned type in
generated code.
-/

namespace Orchestration.TypeExpr

open Orchestration.Text

/-- Whether the text, references aside, is a collection. -/
def isCollectionText (cs : List Char) : Bool :=
  let body := (trim cs).dropWhile fun c => c = '&' || isBlank c
  ['['].isPrefixOf body || "Vec<".toList.isPrefixOf body

/-- Whether a type expression is a collection: `[Post]`, `&[Post]` and `Vec<Post>` are. -/
def isCollection (expr : String) : Bool :=
  isCollectionText expr.toList

/-- The innermost text, with every wrapper taken off. -/
def bareText (cs : List Char) : List Char :=
  match _h : peel (trim cs) with
  | none => trim cs
  | some (_, inner) => bareText inner
termination_by cs.length
decreasing_by exact Nat.lt_of_lt_of_le (peel_length_lt _h) (trim_length_le cs)

/-- The innermost name of a type expression: `&[Post]` and `Vec<&Post>` give `Post`. -/
def bareName (expr : String) : String :=
  String.ofList (bareText expr.toList)

/-- The wrappers of the printed form, `&` and `[ ]`, and the text inside. -/
def peelPrinted (cs : List Char) : Option (Wrapper × List Char) :=
  match after? ['&'] cs with
  | some inner => some (.ref, inner)
  | none => (between? ['['] ']' cs).map fun inner => (.list, inner)

theorem peelPrinted_length_lt {cs inner : List Char} {w : Wrapper}
    (h : peelPrinted cs = some (w, inner)) : inner.length < cs.length := by
  unfold peelPrinted at h
  split at h
  · next hi =>
    cases h
    have := after?_length hi
    simp at this; omega
  · obtain ⟨i, hi, he⟩ := Option.map_eq_some_iff.1 h
    cases he
    exact between?_length_lt (by simp) hi

/-- The owned type that a printed type becomes, as characters. -/
def ownedText (cs : List Char) : List Char :=
  match _h : peelPrinted (trim cs) with
  | none => if trim cs = "str".toList then "String".toList else trim cs
  | some (.ref, inner) => ownedText inner
  | some (.list, inner) => "Vec<".toList ++ ownedText inner ++ ['>']
termination_by cs.length
decreasing_by all_goals exact Nat.lt_of_lt_of_le (peelPrinted_length_lt _h) (trim_length_le cs)

/-- The owned type in generated code: `&User`, `[&Post]` and `&str` give `User`, `Vec<Post>` and
`String`. -/
def owned (expr : String) : String :=
  String.ofList (ownedText expr.toList)

end Orchestration.TypeExpr
