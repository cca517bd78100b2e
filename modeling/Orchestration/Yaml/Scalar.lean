import Orchestration.Yaml.Source

/-!
# Scalars

Single-quoted, double-quoted and plain texts. All three may go over several lines, which are folded:
blanks around a line break disappear, a single break becomes a blank and of several breaks one is
dropped.
-/

namespace Orchestration.Yaml

theorem length_dropSpaces_le (cells : List Cell) :
    (cells.dropWhile fun c => isSpace c.char).length ≤ cells.length :=
  (List.dropWhile_sublist _).length_le

/-- The rest of a single-quoted text after its opening quote, and what follows the closing one. Two
quotes stand for one. -/
def singleQuoted : List Cell → Option (List Char × List Cell)
  | [] => none
  | c :: rest =>
    if c.char = '\'' then
      match rest with
      | d :: more =>
        if d.char = '\'' then (singleQuoted more).map fun r => ('\'' :: r.1, r.2)
        else some ([], d :: more)
      | [] => some ([], [])
    else if isSpace c.char then
      let run := c :: rest.takeWhile fun c => isSpace c.char
      let next := rest.dropWhile fun c => isSpace c.char
      if startsDocumentMark next then none
      else (singleQuoted next).map fun r => (fold (chars run) ++ r.1, r.2)
    else (singleQuoted rest).map fun r => (c.char :: r.1, r.2)
termination_by cells => cells.length
decreasing_by
  · simp only [List.length_cons]; omega
  · have := length_dropSpaces_le rest; simp only [List.length_cons]; omega
  · simp only [List.length_cons]; omega

/-- The number that hexadecimal digits write, if there are as many as wanted. -/
def hexNumber? (count : Nat) (cells : List Cell) : Option Nat :=
  let digits := chars (cells.take count)
  if digits.length = count then
    digits.foldlM (fun n c =>
      if c.isDigit then some (16 * n + (c.toNat - '0'.toNat))
      else if 'a' ≤ c && c ≤ 'f' then some (16 * n + (c.toNat - 'a'.toNat + 10))
      else if 'A' ≤ c && c ≤ 'F' then some (16 * n + (c.toNat - 'A'.toNat + 10))
      else none) 0
  else none

/-- The character with a number, if there is one. -/
def charOf? (n : Nat) : Option Char :=
  if h : n.isValidChar then some (Char.ofNatAux n h) else none

/-- What a backslash and a letter stand for, where that is a single character. -/
def simpleEscape? : Char → Option Char
  | '0' => some '\x00'
  | 'a' => some '\x07'
  | 'b' => some '\x08'
  | 't' | '\t' => some '\t'
  | 'n' => some '\n'
  | 'v' => some '\x0b'
  | 'f' => some '\x0c'
  | 'r' => some '\r'
  | 'e' => some '\x1b'
  | ' ' => some ' '
  | '"' => some '"'
  | '/' => some '/'
  | '\\' => some '\\'
  | 'N' => some '\u0085'
  | '_' => some '\u00a0'
  | 'L' => some '\u2028'
  | 'P' => some '\u2029'
  | _ => none

/-- How many hexadecimal digits follow a backslash and this letter. -/
def escapeLength? : Char → Option Nat
  | 'x' => some 2
  | 'u' => some 4
  | 'U' => some 8
  | _ => none

/-- The rest of a double-quoted text after its opening quote, and what follows the closing one. A
backslash in front of a line break joins the lines without a blank. -/
def doubleQuoted : List Cell → Option (List Char × List Cell)
  | [] => none
  | c :: rest =>
    if c.char = '"' then some ([], rest)
    else if c.char = '\\' then
      match rest with
      | [] => none
      | d :: more =>
        if isBreak d.char then
          let run := (d :: more).takeWhile fun c => isSpace c.char
          let next := (d :: more).dropWhile fun c => isSpace c.char
          if startsDocumentMark next then none
          else (doubleQuoted next).map fun r => ((breaksIn (chars run)).drop 1 ++ r.1, r.2)
        else
          match simpleEscape? d.char, escapeLength? d.char with
          | some e, _ => (doubleQuoted more).map fun r => (e :: r.1, r.2)
          | none, some count =>
            match (hexNumber? count more).bind charOf? with
            | none => none
            | some e => (doubleQuoted (more.drop count)).map fun r => (e :: r.1, r.2)
          | none, none => none
    else if isSpace c.char then
      let run := c :: rest.takeWhile fun c => isSpace c.char
      let next := rest.dropWhile fun c => isSpace c.char
      if startsDocumentMark next then none
      else (doubleQuoted next).map fun r => (fold (chars run) ++ r.1, r.2)
    else (doubleQuoted rest).map fun r => (c.char :: r.1, r.2)
termination_by cells => cells.length
decreasing_by
  · have := length_dropSpaces_le (d :: more)
    simp only [List.length_cons] at this ⊢
    omega
  · simp only [List.length_cons]; omega
  · simp only [List.length_cons, List.length_drop]; omega
  · have := length_dropSpaces_le rest; simp only [List.length_cons]; omega
  · simp only [List.length_cons]; omega

/-- A character that ends a plain text, or separates, inside brackets. -/
def isFlowMark (c : Char) : Bool :=
  c = ',' || c = '[' || c = ']' || c = '\x7b' || c = '\x7d'

/-- The end of a piece of a plain text: the text up to the next blank or end mark, and what follows.
Inside brackets a colon must not stand right before a mark. -/
def plainPiece (flow : Bool) : List Cell → Option (List Char × List Cell)
  | [] => some ([], [])
  | c :: rest =>
    let next := rest.head?.map Cell.char
    if isSpace c.char then some ([], c :: rest)
    else if flow && c.char = ':' && next.any (fun d => isFlowMark d || d = '?') then none
    else if c.char = ':' && atSpace rest then some ([], c :: rest)
    else if flow && isFlowMark c.char then some ([], c :: rest)
    else (plainPiece flow rest).map fun r => (c.char :: r.1, r.2)

theorem plainPiece_length_le {flow : Bool} {cells : List Cell} {r : List Char × List Cell}
    (h : plainPiece flow cells = some r) : r.2.length ≤ cells.length := by
  induction cells generalizing r with
  | nil => simp [plainPiece] at h; simp [← h]
  | cons c rest ih =>
    simp only [plainPiece] at h
    split at h
    · cases h; simp
    · split at h
      · simp at h
      · split at h
        · cases h; simp
        · split at h
          · cases h; simp
          · obtain ⟨s, hs, he⟩ := Option.map_eq_some_iff.1 h
            have := ih hs
            cases he
            simp; omega

/-- A plain text, or the lines that continue one. -/
structure PlainText where
  /-- The text, folded. -/
  text : List Char
  /-- What follows. -/
  rest : List Cell
  /-- Whether a line break stands between the text and what follows. -/
  broken : Bool

/-- The same after some more text in front. -/
def PlainText.after (front : List Char) (t : PlainText) : PlainText :=
  { t with text := front ++ t.text }

/-- What continues a plain text after a piece of it. Outside brackets a line that continues it must be
indented by at least `indent`, without tabs before that column. -/
def plainMore (flow : Bool) (indent : Int) (cells : List Cell) : Option PlainText :=
  match cells with
  | [] => some ⟨[], [], false⟩
  | c :: rest =>
    if !isSpace c.char then some ⟨[], c :: rest, false⟩
    else
      let run := c :: rest.takeWhile fun c => isSpace c.char
      let next := rest.dropWhile fun c => isSpace c.char
      let broken := run.any fun c => isBreak c.char
      let column : Int := (next.head?.map fun c => (c.column : Int)).getD 0
      let afterBreak := (run.dropWhile fun c => !isBreak c.char).drop 1
      if afterBreak.any (fun c => c.char = '\t' && (c.column : Int) < indent) then none
      else if (broken && !flow && column < indent) || startsDocumentMark next
          || (next.head?.map Cell.char) = some '#' then
        some ⟨[], next, broken⟩
      else
        match _h : plainPiece flow next with
        | none => none
        | some ([], after) => some ⟨[], after, broken⟩
        | some (piece, after) =>
          (plainMore flow indent after).map (PlainText.after (fold (chars run) ++ piece))
termination_by cells.length
decreasing_by
  have h₁ := plainPiece_length_le _h
  have h₂ := length_dropSpaces_le rest
  simp only [next] at h₁
  simp only [List.length_cons]
  omega

/-- A plain text. -/
def plain (flow : Bool) (indent : Int) (cells : List Cell) : Option PlainText :=
  match plainPiece flow cells with
  | none => none
  | some (piece, rest) => (plainMore flow indent rest).map (PlainText.after piece)

end Orchestration.Yaml
