/-!
# JSON documents

The JSON values this library writes have no numbers: null, booleans, texts, arrays, and objects whose
entries keep their order. Texts are written with the shortest escapes and only where one is required:
the quote, the backslash, and the control characters below the space.
-/

namespace Orchestration

/-- A JSON value. -/
inductive Json where
  /-- The value `null`. -/
  | null
  /-- A truth value. -/
  | bool (value : Bool)
  /-- A text. -/
  | str (value : String)
  /-- An array. -/
  | arr (items : List Json)
  /-- An object; the order of its entries is kept. -/
  | obj (entries : List (String × Json))

namespace Json

/-- The hexadecimal digit of a number below sixteen. -/
def hexDigit (n : Nat) : Char :=
  if n < 10 then Char.ofNat ('0'.toNat + n) else Char.ofNat ('a'.toNat + (n - 10))

/-- A character as it stands inside a written text. -/
def escapeChar (c : Char) : List Char :=
  if c = '"' then ['\\', '"']
  else if c = '\\' then ['\\', '\\']
  else if c = '\n' then ['\\', 'n']
  else if c = '\r' then ['\\', 'r']
  else if c = '\t' then ['\\', 't']
  else if c = '\x08' then ['\\', 'b']
  else if c = '\x0c' then ['\\', 'f']
  else if c.toNat < 0x20 then ['\\', 'u', '0', '0', hexDigit (c.toNat / 16), hexDigit (c.toNat % 16)]
  else [c]

/-- A text between quotes. -/
def quote (s : String) : List Char :=
  '"' :: s.toList.flatMap escapeChar ++ ['"']

mutual

/-- A value without any white space. -/
def compactText : Json → List Char
  | null => ['n', 'u', 'l', 'l']
  | bool true => ['t', 'r', 'u', 'e']
  | bool false => ['f', 'a', 'l', 's', 'e']
  | str s => quote s
  | arr [] => ['[', ']']
  | arr (item :: items) => '[' :: compactText item ++ compactItems items
  | obj [] => ['\x7b', '\x7d']
  | obj ((key, value) :: entries) =>
    '\x7b' :: quote key ++ ':' :: compactText value ++ compactEntries entries

/-- The items of an array after the first, and its end. -/
def compactItems : List Json → List Char
  | [] => [']']
  | item :: items => ',' :: compactText item ++ compactItems items

/-- The entries of an object after the first, and its end. -/
def compactEntries : List (String × Json) → List Char
  | [] => ['\x7d']
  | (key, value) :: entries => ',' :: quote key ++ ':' :: compactText value ++ compactEntries entries

end

/-- A value on one line, without any white space. -/
def compact (j : Json) : String :=
  String.ofList (compactText j)

/-- A line break and the indentation of a level. -/
def newline (level : Nat) : List Char :=
  '\n' :: List.replicate (2 * level) ' '

mutual

/-- A value over several lines, nested values indented by two more blanks. -/
def prettyText (level : Nat) : Json → List Char
  | null => ['n', 'u', 'l', 'l']
  | bool true => ['t', 'r', 'u', 'e']
  | bool false => ['f', 'a', 'l', 's', 'e']
  | str s => quote s
  | arr [] => ['[', ']']
  | arr (item :: items) =>
    '[' :: newline (level + 1) ++ prettyText (level + 1) item ++ prettyItems level items
  | obj [] => ['\x7b', '\x7d']
  | obj ((key, value) :: entries) =>
    '\x7b' :: newline (level + 1) ++ quote key ++ [':', ' '] ++ prettyText (level + 1) value
      ++ prettyEntries level entries

/-- The items of an array after the first, and its end. -/
def prettyItems (level : Nat) : List Json → List Char
  | [] => newline level ++ [']']
  | item :: items =>
    ',' :: newline (level + 1) ++ prettyText (level + 1) item ++ prettyItems level items

/-- The entries of an object after the first, and its end. -/
def prettyEntries (level : Nat) : List (String × Json) → List Char
  | [] => newline level ++ ['\x7d']
  | (key, value) :: entries =>
    ',' :: newline (level + 1) ++ quote key ++ [':', ' '] ++ prettyText (level + 1) value
      ++ prettyEntries level entries

end

/-- A value over several lines, with an indentation of two blanks a level. -/
def pretty (j : Json) : String :=
  String.ofList (prettyText 0 j)

/-- An array of texts. -/
def strings (texts : List String) : Json :=
  arr (texts.map str)

/-- A text, or null if there is none. -/
def optional : Option String → Json
  | none => null
  | some s => str s

/-- An object of texts. -/
def fields (entries : List (String × String)) : Json :=
  obj (entries.map fun e => (e.1, str e.2))

end Json

end Orchestration
