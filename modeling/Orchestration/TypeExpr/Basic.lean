import Orchestration.Table

/-!
# Type shapes

What a type expression of an operation signature denotes: the invocation context, the error slot, a
plain value, a composite with its fields, a reference or a collection of one of these, or text that
denotes nothing. Every shape has a printed form and an innermost name.
-/

namespace Orchestration

/-- The fields of a composite type: names with the texts of their types, in declaration order. -/
abbrev Fields := Table String

/-- The composite types that signatures may name. -/
abbrev TypeTable := Table Fields

/-- The shape of one input or output of an operation. -/
inductive TypeShape where
  /-- The invocation context. -/
  | context
  /-- The error slot. -/
  | error
  /-- A plain value. -/
  | scalar (name : String)
  /-- A composite type. -/
  | struct (name : String) (fields : Fields)
  /-- A reference to one value. -/
  | ref (inner : TypeShape)
  /-- A collection. -/
  | list (element : TypeShape)
  /-- Text that is no type expression. -/
  | unknown (text : String)
deriving DecidableEq, Inhabited

namespace TypeShape

/-- The printed form. -/
def display : TypeShape → String
  | context => "ctx"
  | error => "error"
  | scalar name => name
  | struct name _ => name
  | ref inner => "&" ++ inner.display
  | list element => "[" ++ element.display ++ "]"
  | unknown text => "?" ++ text

/-- The innermost name, with references and collections taken off. -/
def baseName : TypeShape → String
  | context => "ctx"
  | error => "error"
  | scalar name => name
  | struct name _ => name
  | ref inner => inner.baseName
  | list element => element.baseName
  | unknown text => text

/-- The innermost shape, with references and collections taken off. -/
def innermost : TypeShape → TypeShape
  | ref inner => inner.innermost
  | list element => element.innermost
  | shape => shape

/-- The composite that a shape is, or refers to directly. -/
def composite? : TypeShape → Option (String × Fields)
  | struct name fields => some (name, fields)
  | ref (struct name fields) => some (name, fields)
  | _ => none

end TypeShape

/-- What a type expression can put around another one. -/
inductive Wrapper where
  /-- A reference. -/
  | ref
  /-- A collection. -/
  | list
deriving Repr, DecidableEq

namespace Wrapper

/-- A shape with the wrapper around it. -/
def apply : Wrapper → TypeShape → TypeShape
  | ref => .ref
  | list => .list

end Wrapper

/-- The wrappers around the innermost shape, outermost first. -/
def TypeShape.wrappers : TypeShape → List Wrapper
  | .ref inner => .ref :: inner.wrappers
  | .list element => .list :: element.wrappers
  | _ => []

end Orchestration
