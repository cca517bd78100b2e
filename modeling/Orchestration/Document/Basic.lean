import Orchestration.Table

/-!
# Documents

What a configuration text says, before it is known what it is about: texts, truth values, lists and
tables. In some formats an unquoted text has no kind of its own, and its reader decides whether it is
a name, a truth value or nothing; in others every value has its kind. Reading a value as something it
is not gives nothing.
-/

namespace Orchestration

/-- A value of a configuration text. -/
inductive Document where
  /-- An unquoted text whose kind its reader decides. -/
  | plain (text : String)
  /-- A text. -/
  | text (value : String)
  /-- A truth value. -/
  | flag (value : Bool)
  /-- A value of a kind that no configuration uses. -/
  | other
  /-- A list. -/
  | list (items : List Document)
  /-- A list that may also give the fields of a record, in their order. -/
  | tuple (items : List Document)
  /-- A table; any value may be a key. -/
  | table (entries : List (Document × Document))
  /-- A table whose keys are texts. With a single entry that says nothing it may also name a choice. -/
  | keyed (entries : List (String × Document))

namespace Document

/-- The value as a text. An unquoted text is a text whatever it looks like. -/
def text? : Document → Option String
  | plain s => some s
  | text s => some s
  | _ => none

/-- The spellings of nothing. -/
def nullNames : List String := ["", "~", "null", "Null", "NULL"]

/-- The value as a text that may be missing. -/
def optionalText? : Document → Option (Option String)
  | plain s => some (if nullNames.contains s then none else some s)
  | text s => some (some s)
  | _ => none

/-- The value as a truth value. -/
def flag? : Document → Option Bool
  | flag b => some b
  | plain s =>
    if ["true", "True", "TRUE"].contains s then some true
    else if ["false", "False", "FALSE"].contains s then some false
    else none
  | _ => none

/-- The value as a list; an empty unquoted text is an empty list. -/
def list? : Document → Option (List Document)
  | plain "" => some []
  | list items => some items
  | tuple items => some items
  | _ => none

/-- The value as a list of things of one kind. -/
def listOf? {α : Type} (read : Document → Option α) (d : Document) : Option (List α) := do
  (← d.list?).mapM read

/-- The entries of a table whose keys are texts; an empty unquoted text is an empty table. -/
def entries? : Document → Option (List (String × Document))
  | plain "" => some []
  | table entries => entries.mapM fun e => e.1.text?.map fun k => (k, e.2)
  | keyed entries => some entries
  | _ => none

/-- The value as an ordered table. A repeated name replaces the value where the name first stood. -/
def tableOf? {α : Type} (read : Document → Option α) (d : Document) : Option (Table α) := do
  let entries ← d.entries?
  return Table.ofList (← entries.mapM fun e => (read e.2).map fun v => (e.1, v))

/-- Whether the value is a list or table without anything in it. -/
def saysNothing : Document → Bool
  | tuple [] => true
  | keyed [] => true
  | _ => false

/-- The value as the name of a choice. -/
def choice? : Document → Option String
  | plain s => some s
  | text s => some s
  | keyed [(name, value)] => if value.saysNothing then some name else none
  | _ => none

/-- The known fields that a record has. -/
abbrev Record := List (String × Document)

/-- The value as a record with the given field names. Other fields are ignored; a known field must
not be repeated. -/
def record? (names : List String) (d : Document) : Option Record :=
  match d with
  | tuple items => some (names.zip items)
  | d => do
    let known := (← d.entries?).filter fun e => names.contains e.1
    if (known.map Prod.fst).Nodup then some known else none

/-- A field that a record must have. -/
def Record.required {α : Type} (r : Record) (name : String) (read : Document → Option α) :
    Option α :=
  (r.lookup name).bind read

/-- A field with a value for records that do not have it. -/
def Record.field {α : Type} (r : Record) (name : String) (default : α)
    (read : Document → Option α) : Option α :=
  match r.lookup name with
  | none => some default
  | some d => read d

end Document

end Orchestration
