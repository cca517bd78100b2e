/-!
# Identifiers and reserved names

An identifier is a letter or underscore followed by letters, digits and underscores, all ASCII.
Some identifiers can never name a parameter or a result in generated code: the keywords of its
language, the names that the generated body binds itself, and the handles `task_0`, `task_1`, … of
concurrent members.
-/

namespace Orchestration.Naming

/-- Whether an identifier may start with the character. -/
def isIdentifierStart (c : Char) : Bool :=
  c.isAlpha || c = '_'

/-- Whether an identifier may continue with the character. -/
def isIdentifierRest (c : Char) : Bool :=
  c.isAlphanum || c = '_'

/-- Whether the characters form an identifier. -/
def isIdentifierText : List Char → Bool
  | [] => false
  | c :: cs => isIdentifierStart c && cs.all isIdentifierRest

/-- Whether a name is an identifier. -/
def isIdentifier (name : String) : Bool :=
  isIdentifierText name.toList

/-- The parts of a text between the occurrences of `::`, found from the left. -/
def pathParts : List Char → List (List Char)
  | [] => [[]]
  | ':' :: ':' :: cs => [] :: pathParts cs
  | c :: cs =>
    match pathParts cs with
    | [] => [[c]]
    | p :: ps => (c :: p) :: ps

/-- Whether the text is one or more identifiers joined by `::`. -/
def isModulePath (cs : List Char) : Bool :=
  (pathParts cs).all isIdentifierText

/-- The names that the body of a generated operation binds for itself. -/
def bodyNames : List String :=
  ["params", "cx", "tx", "self", "order", "this", "arg", "outcome"]

/-- The keywords of the generated code. -/
def keywords : List String :=
  ["as", "async", "await", "break", "const", "continue", "crate", "dyn", "else", "enum",
   "extern", "false", "fn", "for", "if", "impl", "in", "let", "loop", "match", "mod", "move",
   "mut", "pub", "ref", "return", "self", "static", "struct", "super", "trait", "true", "type",
   "unsafe", "use", "where", "while", "abstract", "become", "box", "do", "final", "gen",
   "macro", "override", "priv", "try", "typeof", "unsized", "virtual", "yield"]

/-- Whether a name is a keyword of the generated code. -/
def isKeyword (name : String) : Bool :=
  keywords.contains name

/-- Whether the characters are `task_` and a number, the handle of a concurrent member. -/
def isTaskHandle : List Char → Bool
  | 't' :: 'a' :: 's' :: 'k' :: '_' :: digits => !digits.isEmpty && digits.all Char.isDigit
  | _ => false

/-- Whether a name is unavailable to parameters and results. -/
def isReserved (name : String) : Bool :=
  isKeyword name || bodyNames.contains name || isTaskHandle name.toList

end Orchestration.Naming
