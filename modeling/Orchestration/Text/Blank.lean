/-!
# White space

Trimming and blank tests follow the Unicode property `White_Space`: the no-break space and the
ideographic space count, the zero-width space and the byte order mark do not. Text is handled as a
list of characters, so that a statement about trimming is a statement about lists.
-/

namespace Orchestration.Text

/-- The characters of the Unicode property `White_Space`, as inclusive ranges of code points. -/
def blankRanges : List (Nat × Nat) :=
  [(0x0009, 0x000D), (0x0020, 0x0020), (0x0085, 0x0085), (0x00A0, 0x00A0), (0x1680, 0x1680),
   (0x2000, 0x200A), (0x2028, 0x2029), (0x202F, 0x202F), (0x205F, 0x205F), (0x3000, 0x3000)]

/-- Whether a character is white space. -/
def isBlank (c : Char) : Bool :=
  blankRanges.any fun r => r.1 ≤ c.toNat && c.toNat ≤ r.2

/-- The text without its leading white space. -/
def trimLeft (cs : List Char) : List Char :=
  cs.dropWhile isBlank

/-- The text without its trailing white space. -/
def trimRight (cs : List Char) : List Char :=
  (cs.reverse.dropWhile isBlank).reverse

/-- The text without white space at either end. -/
def trim (cs : List Char) : List Char :=
  trimRight (trimLeft cs)

/-- A string without white space at either end. -/
def trimmed (s : String) : String :=
  String.ofList (trim s.toList)

/-! ## First facts -/

theorem trimLeft_length_le (cs : List Char) : (trimLeft cs).length ≤ cs.length :=
  (List.dropWhile_sublist isBlank).length_le

theorem trimRight_length_le (cs : List Char) : (trimRight cs).length ≤ cs.length := by
  have h := (List.dropWhile_sublist (l := cs.reverse) isBlank).length_le
  simpa [trimRight] using h

/-- Trimming never lengthens a text. -/
theorem trim_length_le (cs : List Char) : (trim cs).length ≤ cs.length :=
  Nat.le_trans (trimRight_length_le _) (trimLeft_length_le cs)

end Orchestration.Text
