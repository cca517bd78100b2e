import Orchestration.Naming.Identifier
import Orchestration.Text.Blank
import Orchestration.Text.Segments

/-!
# Parameter paths

A member may share a parameter that an earlier member brought in, or a part of it: `root.field.part`.
Every segment of such a path is an identifier; white space around the whole path is ignored.
-/

namespace Orchestration

/-- A path into a parameter that is already bound. -/
structure ParamPath where
  /-- The parameter. -/
  root : String
  /-- The fields to follow from it. -/
  rest : List String
deriving Repr, DecidableEq

namespace ParamPath

/-- The path as text, its segments joined by dots. -/
def display (p : ParamPath) : String :=
  p.rest.foldl (fun text field => text ++ "." ++ field) p.root

/-- The path that the text denotes, if every segment of it is an identifier. -/
def parse? (text : String) : Option ParamPath :=
  match Text.segments '.' (Text.trim text.toList) with
  | [] => none
  | root :: rest =>
    if Naming.isIdentifierText root && rest.all Naming.isIdentifierText then
      some ⟨String.ofList root, rest.map String.ofList⟩
    else none

end ParamPath

end Orchestration
