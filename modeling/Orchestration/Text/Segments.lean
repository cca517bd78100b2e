/-!
# Segments

Splitting a text at every occurrence of a separator. A text has one more segment than it has
separators, so no text splits into nothing.
-/

namespace Orchestration.Text

/-- The pieces of a text between the occurrences of `sep`. -/
def segments (sep : Char) : List Char → List (List Char)
  | [] => [[]]
  | c :: cs =>
    if c = sep then [] :: segments sep cs
    else
      match segments sep cs with
      | [] => [[c]]
      | s :: rest => (c :: s) :: rest

/-- The pieces of a string between the occurrences of `sep`. -/
def split (sep : Char) (s : String) : List String :=
  (segments sep s.toList).map String.ofList

/-- A splitting is never empty. -/
theorem segments_ne_nil (sep : Char) (cs : List Char) : segments sep cs ≠ [] := by
  induction cs with
  | nil => simp [segments]
  | cons c cs ih =>
    by_cases h : c = sep
    · simp [segments, h]
    · cases hs : segments sep cs with
      | nil => exact absurd hs ih
      | cons s rest => simp [segments, h, hs]

end Orchestration.Text
