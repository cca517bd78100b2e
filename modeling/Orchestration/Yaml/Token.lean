import Orchestration.Yaml.Scalar

/-!
# Tokens

The tokens of an indentation-based text. Beside the marks that are written, there are tokens for what
indentation says: where a block list or table starts and where it ends. A text turns out to be a key
only when the colon after it is read, so the token that announces a key, and the one that starts the
table the key opens, are put in front of it afterwards. Outside brackets, a key must be on one line
with its colon; inside brackets indentation means nothing.
-/

namespace Orchestration.Yaml

/-- A token. -/
inductive Token where
  /-- The mark that begins a document. -/
  | documentStart
  /-- The mark that ends a document. -/
  | documentEnd
  /-- The indentation of a list begins. -/
  | blockListStart
  /-- The indentation of a table begins. -/
  | blockTableStart
  /-- An indentation ends. -/
  | blockEnd
  /-- The bracket that opens a list. -/
  | flowListStart
  /-- The bracket that closes a list. -/
  | flowListEnd
  /-- The brace that opens a table. -/
  | flowTableStart
  /-- The brace that closes a table. -/
  | flowTableEnd
  /-- The dash in front of an item. -/
  | blockEntry
  /-- The comma between items. -/
  | flowEntry
  /-- What follows is a key. -/
  | key
  /-- What follows is a value. -/
  | value
  /-- A text, and whether it is plain. -/
  | scalar (plain : Bool) (text : List Char)
deriving Repr, DecidableEq

/-- A token that may turn out to be a key. -/
structure KeyCandidate where
  /-- Whether it has to be a key, because it stands where the keys of a table stand. -/
  required : Bool
  /-- The number of tokens before it. -/
  position : Nat
  /-- Where it starts. -/
  cell : Cell

/-- The state of the scanner. -/
structure Scan where
  /-- The tokens so far. -/
  tokens : Array Token
  /-- The column of the current indentation, below zero outside all of them. -/
  indent : Int
  /-- The enclosing indentations. -/
  indents : List Int
  /-- The key candidates, innermost bracket first; the last one is outside all brackets. -/
  candidates : List (Option KeyCandidate)
  /-- Whether a key may start here. -/
  keyAllowed : Bool

namespace Scan

/-- The state before the first token. -/
def start : Scan :=
  ⟨#[], -1, [], [none], true⟩

/-- Whether the scanner is inside brackets. -/
def inFlow (s : Scan) : Bool :=
  1 < s.candidates.length

/-- Add a token. -/
def push (s : Scan) (t : Token) : Scan :=
  { s with tokens := s.tokens.push t }

/-- Set whether a key may start next. -/
def allowKey (s : Scan) (allowed : Bool) : Scan :=
  { s with keyAllowed := allowed }

/-- How many bytes may stand between the start of a key and its colon. -/
def keyReach : Nat := 1024

/-- Give up candidates that are on an earlier line or too far back. -/
def dropStale (s : Scan) (line index : Nat) : Option Scan := do
  let candidates ← s.candidates.mapM fun candidate? =>
    match candidate? with
    | none => some none
    | some k =>
      if k.cell.line < line || k.cell.index + keyReach < index then
        if k.required then none else some none
      else some (some k)
  return { s with candidates := candidates }

/-- Give up the innermost candidate, unless it has to be a key. -/
def dropCandidate (s : Scan) : Option Scan :=
  match s.candidates with
  | some k :: rest => if k.required then none else some { s with candidates := none :: rest }
  | _ => some s

/-- Remember the next token as a key candidate, if a key may start here. -/
def addCandidate (s : Scan) (cell : Cell) : Option Scan :=
  if s.keyAllowed then do
    let s ← s.dropCandidate
    let required := !s.inFlow && s.indent = (cell.column : Int)
    return { s with candidates := some ⟨required, s.tokens.size, cell⟩ :: s.candidates.drop 1 }
  else some s

/-- End the indentations that are deeper than a column. -/
def endBlocks (s : Scan) (column : Int) : Scan :=
  if s.inFlow then s else go s.tokens s.indent s.indents
where
  /-- End the indentations one by one. -/
  go (tokens : Array Token) (indent : Int) : List Int → Scan
    | [] => { s with tokens := tokens, indent := indent, indents := [] }
    | outer :: rest =>
      if column < indent then go (tokens.push .blockEnd) outer rest
      else { s with tokens := tokens, indent := indent, indents := outer :: rest }

/-- Begin an indentation if the column is deeper than the current one, with its token at a position. -/
def beginBlock (s : Scan) (column : Nat) (position : Nat) (t : Token) : Scan :=
  if !s.inFlow && s.indent < (column : Int) then
    { s with
      tokens := s.tokens.insertIdxIfInBounds position t
      indent := column
      indents := s.indent :: s.indents }
  else s

/-- Skip blanks, comments, line breaks and byte order marks in front of lines; after a break outside brackets a key may start. -/
def skip (s : Scan) (comment : Bool) : List Cell → Scan × List Cell
  | [] => (s, [])
  | c :: rest =>
    if isBreak c.char then (if s.inFlow then s else s.allowKey true).skip false rest
    else if comment then s.skip true rest
    else if isLineMark c then s.skip false rest
    else if c.char = ' ' || (c.char = '\t' && (s.inFlow || !s.keyAllowed)) then s.skip false rest
    else if c.char = '#' then s.skip true rest
    else (s, c :: rest)

/-- A document mark. -/
def documentMark (s : Scan) (t : Token) : Option Scan := do
  let s ← (s.endBlocks (-1)).dropCandidate
  return (s.allowKey false).push t

/-- An opening bracket. -/
def openFlow (s : Scan) (c : Cell) (t : Token) : Option Scan := do
  let s ← s.addCandidate c
  return { (s.allowKey true).push t with candidates := none :: s.candidates }

/-- A closing bracket. -/
def closeFlow (s : Scan) (t : Token) : Option Scan := do
  let s ← s.dropCandidate
  let outer := if s.inFlow then s.candidates.drop 1 else s.candidates
  return { (s.allowKey false).push t with candidates := outer }

/-- A comma between brackets. -/
def flowComma (s : Scan) : Option Scan := do
  let s ← s.dropCandidate
  return (s.allowKey true).push .flowEntry

/-- The dash in front of an item. -/
def dash (s : Scan) (c : Cell) : Option Scan := do
  if !s.inFlow && !s.keyAllowed then none
  let s ← (s.beginBlock c.column s.tokens.size .blockListStart).dropCandidate
  return (s.allowKey true).push .blockEntry

/-- The question mark in front of a key. -/
def explicitKey (s : Scan) (c : Cell) : Option Scan := do
  if !s.inFlow && !s.keyAllowed then none
  let s ← (s.beginBlock c.column s.tokens.size .blockTableStart).dropCandidate
  return (s.allowKey !s.inFlow).push .key

/-- The colon in front of a value. A candidate becomes a key. -/
def colon (s : Scan) (c : Cell) : Option Scan :=
  match s.candidates with
  | some k :: rest =>
    let s := { s with tokens := s.tokens.insertIdxIfInBounds k.position .key }
    let s := s.beginBlock k.cell.column k.position .blockTableStart
    some { (s.allowKey false).push .value with candidates := none :: rest }
  | _ =>
    if !s.inFlow && !s.keyAllowed then none
    else
      let s := s.beginBlock c.column s.tokens.size .blockTableStart
      some ((s.allowKey !s.inFlow).push .value)

/-- Whether a plain text may start with the character. -/
def startsPlain (flow : Bool) (c : Char) (rest : List Cell) : Bool :=
  let marks := "-?:,[]\x7b\x7d#&*!|>'\"%@`"
  let followed := !(rest.head?.map fun d => isBlank d.char).getD false
  (!isSpace c && !marks.contains c)
    || (c = '-' && followed)
    || (!flow && (c = '?' || c = ':') && !atSpace rest)

/-- A text, read from the cells after the candidate is remembered. -/
def scalar (s : Scan) (c : Cell) (rest : List Cell) : Option (Scan × List Cell) :=
  if c.char = '\'' || c.char = '"' then do
    let s ← s.addCandidate c
    let (text, rest) ← if c.char = '"' then doubleQuoted rest else singleQuoted rest
    return ((s.allowKey false).push (.scalar false text), rest)
  else if startsPlain s.inFlow c.char rest then do
    let s ← s.addCandidate c
    let p ← plain s.inFlow (s.indent + 1) (c :: rest)
    return ((s.allowKey p.broken).push (.scalar true p.text), p.rest)
  else none

/-- The next token, where `c` is the first cell of it. -/
def next (s : Scan) (c : Cell) (rest : List Cell) : Option (Scan × List Cell) :=
  let one := fun (s : Option Scan) => s.map fun s => (s, rest)
  if startsMark '-' (c :: rest) then (s.documentMark .documentStart).map fun s => (s, rest.drop 2)
  else if startsMark '.' (c :: rest) then (s.documentMark .documentEnd).map fun s => (s, rest.drop 2)
  else
    match c.char with
    | '[' => one (s.openFlow c .flowListStart)
    | '\x7b' => one (s.openFlow c .flowTableStart)
    | ']' => one (s.closeFlow .flowListEnd)
    | '\x7d' => one (s.closeFlow .flowTableEnd)
    | ',' => one s.flowComma
    | char =>
      if char = '-' && atSpace rest then one (s.dash c)
      else if char = '?' && (s.inFlow || atSpace rest) then one (s.explicitKey c)
      else if char = ':' && (s.inFlow || atSpace rest) then one (s.colon c)
      else s.scalar c rest

/-- The state after the last token. -/
def finish (s : Scan) : Option Scan :=
  (s.endBlocks (-1)).dropCandidate

/-- Scan cells; every token takes at least one of them, so their number bounds the tokens. -/
def run : Nat → Scan → List Cell → Option (Array Token)
  | 0, _, _ => none
  | n + 1, s, cells =>
    match s.skip false cells with
    | (s, []) => s.finish.map tokens
    | (s, c :: rest) => do
      let s ← s.dropStale c.line c.index
      let (s, rest) ← (s.endBlocks c.column).next c rest
      run n s rest

end Scan

/-- The tokens of a text. -/
def tokens? (text : String) : Option (List Token) := do
  let cells ← cells? text
  return (← Scan.run (cells.length + 1) .start cells).toList

end Orchestration.Yaml
