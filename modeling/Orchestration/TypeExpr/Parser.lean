import Orchestration.Naming.Identifier
import Orchestration.Text.Blank
import Orchestration.TypeExpr.Basic

/-!
# Reading type expressions

A type expression is a type path, or `&` before an expression, or an expression inside `[ ]`,
`Vec< >` or `Option< >`; white space may stand around every part. A path that names a composite type
denotes that composite, any other path a plain value. Reading never fails: what is no expression
denotes an unknown shape that holds the whole text, however deep inside it the fault lies.
-/

namespace Orchestration.TypeExpr

open Orchestration.Text

/-- The rest of `cs` after `lead`, if it starts with it. -/
def after? (lead cs : List Char) : Option (List Char) :=
  if lead.isPrefixOf cs then some (cs.drop lead.length) else none

/-- The part of `cs` between `opening` and `closing`, if it starts and ends with them. -/
def between? (opening : List Char) (closing : Char) (cs : List Char) : Option (List Char) :=
  match after? opening cs with
  | none => none
  | some rest => if rest.getLast? = some closing then some rest.dropLast else none

/-- The outermost wrapper of a trimmed expression and the text inside it. -/
def peel (cs : List Char) : Option (Wrapper × List Char) :=
  match after? ['&'] cs with
  | some inner => some (.ref, inner)
  | none =>
    match between? ['['] ']' cs with
    | some inner => some (.list, inner)
    | none =>
      match between? "Vec<".toList '>' cs with
      | some inner => some (.list, inner)
      | none =>
        match between? "Option<".toList '>' cs with
        | some inner => some (.ref, inner)
        | none => none

theorem after?_length {lead cs rest : List Char} (h : after? lead cs = some rest) :
    rest.length + lead.length = cs.length := by
  unfold after? at h
  split at h
  · next hp =>
    cases h
    have := (List.isPrefixOf_iff_prefix.1 hp).length_le
    simp; omega
  · simp at h

theorem between?_length_lt {opening cs inner : List Char} {closing : Char} (h₀ : opening ≠ [])
    (h : between? opening closing cs = some inner) : inner.length < cs.length := by
  unfold between? at h
  split at h
  · simp at h
  · next rest hr =>
    split at h
    · cases h
      have h₁ := after?_length hr
      have h₂ : 0 < opening.length := List.length_pos_iff.2 h₀
      have h₃ : rest.dropLast.length ≤ rest.length := by simp
      omega
    · simp at h

/-- What stands inside a wrapper is shorter than the whole. -/
theorem peel_length_lt {cs inner : List Char} {w : Wrapper} (h : peel cs = some (w, inner)) :
    inner.length < cs.length := by
  unfold peel at h
  split at h
  · next hi =>
    cases h
    have := after?_length hi
    simp at this; omega
  · split at h
    · next hi => cases h; exact between?_length_lt (by simp) hi
    · split at h
      · next hi => cases h; exact between?_length_lt (by simp) hi
      · split at h
        · next hi => cases h; exact between?_length_lt (by simp) hi
        · simp at h

/-- The spellings of the invocation context. -/
def contextNames : List String := ["ctx", "context", "Context"]

/-- The spellings of the error slot. -/
def errorNames : List String := ["error", "Error"]

/-- What a path denotes: a composite if the table has it, else a plain value. -/
def lookUp (types : TypeTable) (path : String) : TypeShape :=
  match types.get? path with
  | some fields => .struct path fields
  | none => .scalar path

/-- What a trimmed expression without a wrapper denotes. -/
def readLeaf (types : TypeTable) (cs : List Char) : TypeShape :=
  let name := String.ofList cs
  if contextNames.contains name then .context
  else if errorNames.contains name then .error
  else if Naming.isModulePath cs then lookUp types name
  else .unknown name

/-- What the expression `cs` denotes. -/
def read (types : TypeTable) (cs : List Char) : TypeShape :=
  match _h : peel (trim cs) with
  | none => readLeaf types (trim cs)
  | some (w, inner) =>
    match read types inner with
    | .unknown _ => .unknown (String.ofList (trim cs))
    | shape => w.apply shape
termination_by cs.length
decreasing_by exact Nat.lt_of_lt_of_le (peel_length_lt _h) (trim_length_le cs)

/-- What a type expression denotes. -/
def parse (types : TypeTable) (expr : String) : TypeShape :=
  read types expr.toList

end Orchestration.TypeExpr
