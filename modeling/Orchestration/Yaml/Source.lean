/-!
# The characters of a block text

In an indentation-based text a character matters together with where it stands. A cell is a character
with its index, line and column; reading a text is consuming its cells one after another.
-/

namespace Orchestration.Yaml

/-- A character and where it stands. -/
structure Cell where
  /-- The character. -/
  char : Char
  /-- The number of bytes before it, in UTF-8. -/
  index : Nat
  /-- The number of line breaks before it. -/
  line : Nat
  /-- The number of characters before it on its line. -/
  column : Nat
deriving Repr

/-- Whether a character breaks a line. -/
def isBreak (c : Char) : Bool :=
  c = '\n' || c = '\r' || c = '\u0085' || c = '\u2028' || c = '\u2029'

/-- Whether a character is a blank inside a line. -/
def isBlank (c : Char) : Bool :=
  c = ' ' || c = '\t'

/-- Whether a character is a blank or a line break. -/
def isSpace (c : Char) : Bool :=
  isBlank c || isBreak c

/-- Whether the text ends here or goes on with a blank or a line break. -/
def atSpace : List Cell → Bool
  | [] => true
  | c :: _ => isSpace c.char

/-- The characters that may stand in a text. -/
def isAllowed (c : Char) : Bool :=
  let n := c.toNat
  n = 0x09 || n = 0x0A || n = 0x0D || (0x20 ≤ n && n ≤ 0x7E) || n = 0x85
    || (0xA0 ≤ n && n ≤ 0xD7FF) || (0xE000 ≤ n && n ≤ 0xFFFD) || 0x10000 ≤ n

/-- The cells of characters, from a position on. A carriage return before a line feed breaks no line
of its own. -/
def cellsFrom (index line column : Nat) : List Char → List Cell
  | [] => []
  | c :: rest =>
    let breaks := isBreak c && !(c = '\r' && rest.head? = some '\n')
    ⟨c, index, line, column⟩ ::
      (if breaks then cellsFrom (index + c.utf8Size) (line + 1) 0 rest
       else cellsFrom (index + c.utf8Size) line (column + 1) rest)

/-- The cells of a text, if it holds nothing but characters that may stand there. -/
def cells? (text : String) : Option (List Cell) :=
  if text.toList.all isAllowed then some (cellsFrom 0 0 0 text.toList) else none

/-- Whether a cell is a byte order mark at the start of a line. Between tokens it means nothing, but it
takes up a column. -/
def isLineMark (c : Cell) : Bool :=
  c.char = '\uFEFF' && c.column = 0

/-- The characters of cells. -/
def chars (cells : List Cell) : List Char :=
  cells.map Cell.char

/-- The line breaks in a run of blanks and breaks. The two characters of a carriage return and line
feed are one break, and all but the line and paragraph separators become line feeds. -/
def breaksIn : List Char → List Char
  | [] => []
  | '\r' :: '\n' :: rest => '\n' :: breaksIn rest
  | c :: rest =>
    if c = '\u2028' || c = '\u2029' then c :: breaksIn rest
    else if isBreak c then '\n' :: breaksIn rest
    else breaksIn rest

/-- What a run of blanks and breaks inside a text stands for: itself on one line, a blank for a
single line break, and one break less than there are for several. -/
def fold (run : List Char) : List Char :=
  match breaksIn run with
  | [] => run
  | ['\n'] => [' ']
  | '\n' :: more => more
  | breaks => breaks

/-- Whether the cells start with a mark of three characters on a line of its own, or followed by a
blank: `---` or `...`. -/
def startsMark (mark : Char) : List Cell → Bool
  | a :: b :: c :: rest =>
    a.column = 0 && a.char = mark && b.char = mark && c.char = mark && atSpace rest
  | _ => false

/-- Whether the cells start with a mark that begins or ends a document. -/
def startsDocumentMark (cells : List Cell) : Bool :=
  startsMark '-' cells || startsMark '.' cells

end Orchestration.Yaml
