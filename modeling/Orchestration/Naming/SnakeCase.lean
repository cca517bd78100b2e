/-!
# Snake case

The snake form of a name is written on a buffer, in one pass over the name. ASCII letters and digits are
written in lower case, and anything else is a mark between words. Between letters a new word starts at a
capital that follows a small letter or a digit (`GetUser`, `Post2Tag`), and at the last capital of an
acronym when a small letter comes after it (`HTTPServer` is `HTTP` and `Server`). There is one underscore
between each two words, however many marks stand there, and none at the ends.
-/

namespace Orchestration.Naming

/-- Whether a new word starts at `c` when `p` stands before it and `next` after it. -/
def startsWord (p c : Char) (next : Option Char) : Bool :=
  c.isUpper && (p.isLower || p.isDigit || (p.isUpper && next.any Char.isLower))

/-- A buffer with an underscore at its end, unless it is empty or has one there. The last character of a
buffer comes first. -/
def endWord : List Char → List Char
  | [] => []
  | c :: buffer => if c = '_' then c :: buffer else '_' :: c :: buffer

/-- The buffer after the rest of a name, where `p` is the character before it. -/
def write (p : Option Char) (buffer : List Char) : List Char → List Char
  | [] => buffer
  | c :: cs =>
    if c.isAlphanum then
      let buffer := if p.any fun p => startsWord p c cs.head? then endWord buffer else buffer
      write (some c) (c.toLower :: buffer) cs
    else write (some c) (endWord buffer) cs

/-- The text on a buffer, without the underscores at its end. -/
def finish (buffer : List Char) : List Char :=
  (buffer.dropWhile (· = '_')).reverse

/-- The snake form of a name: `GetUserWithPosts` gives `get_user_with_posts`. -/
def snakeCase (name : String) : String :=
  String.ofList (finish (write none [] name.toList))

end Orchestration.Naming
