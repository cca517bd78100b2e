import Orchestration.Naming.SnakeCase

/-!
# Plurals

English plurals of snake-case words, and the default name of a result: the snake form of its type,
in the plural when the result is a collection.
-/

namespace Orchestration.Naming

/-- Whether a word that ends like this takes `es`. -/
def takesEs (word : List Char) : Bool :=
  [['s'], ['x'], ['z'], ['c', 'h'], ['s', 'h']].any fun ending => ending.isSuffixOf word

/-- Whether the word ends in a `y` with something other than a vowel before it. -/
def endsInConsonantY (word : List Char) : Bool :=
  match word.reverse with
  | 'y' :: before :: _ => !(['a', 'e', 'i', 'o', 'u'].contains before)
  | _ => false

/-- The plural of a word: `post`, `box` and `category` give `posts`, `boxes` and `categories`. -/
def pluralText (word : List Char) : List Char :=
  if word.isEmpty then []
  else if takesEs word then word ++ ['e', 's']
  else if endsInConsonantY word then word.dropLast ++ ['i', 'e', 's']
  else word ++ ['s']

/-- The plural of a word. -/
def pluralize (word : String) : String :=
  String.ofList (pluralText word.toList)

/-- The default name for a result of the given type. -/
def resultName (typeName : String) (collection : Bool) : String :=
  if collection then pluralize (snakeCase typeName) else snakeCase typeName

end Orchestration.Naming
