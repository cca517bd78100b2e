import Orchestration.Document.Basic
import Orchestration.Toml.Scalar

/-!
# Reading documents from table texts

A table-based text is a list of lines that give values to keys, under headers that say which table the
keys belong to. A table may be defined once: by its header, by the dotted keys of one table, or as a
value in braces, which is closed to additions. A header in double brackets adds a table to a list of
tables, and a key or header that leads through such a list leads into its last table.
-/

namespace Orchestration.Toml

/-- How a table came to be. -/
inductive Origin where
  /-- As part of the path of a header. -/
  | implied
  /-- As part of a dotted key. -/
  | dotted
  /-- By a header of its own. -/
  | defined
deriving Repr, DecidableEq

/-- A numeral as a document. A moment is a table of one part that has no name. -/
def Numeral.document : Numeral → Document
  | .number => .other
  | .moment => .keyed [("", .other)]

/-- What stands under a key. -/
inductive Item where
  /-- A value. -/
  | value (d : Document)
  /-- A table. -/
  | table (origin : Origin) (entries : List (String × Item))
  /-- A list of tables, the last one first. -/
  | tables (back : List (List (String × Item)))

/-- The entries of a table. -/
abbrev Entries := List (String × Item)

namespace Entries

/-- The entries with the item under a key replaced, or added at the end. -/
def put (key : String) (item : Item) : Entries → Entries
  | [] => [(key, item)]
  | e :: rest => if e.1 = key then (key, item) :: rest else e :: put key item rest

/-- Change the table that a path leads to, making tables on the way. -/
def under (entries : Entries) (origin : Origin) (path : List String)
    (change : Entries → Option Entries) : Option Entries :=
  match path with
  | [] => change entries
  | key :: more =>
    match entries.lookup key with
    | none => do
      let inner ← under [] origin more change
      return put key (.table origin inner) entries
    | some (.value _) => none
    | some (.table known inner) => do
      if origin = .dotted && known = .defined then none
      let inner ← under inner origin more change
      return put key (.table known inner) entries
    | some (.tables (last :: earlier)) => do
      let last ← under last origin more change
      return put key (.tables (last :: earlier)) entries
    | some (.tables []) => none

/-- Give a value to a key that has none. -/
def define (key : String) (d : Document) (entries : Entries) : Option Entries :=
  if (entries.lookup key).isSome then none else some (put key (.value d) entries)

/-- The kind of the table that a path of dotted keys leads to, if it is there. -/
def originAt : Entries → List String → Option Origin
  | _, [] => none
  | entries, key :: more =>
    match entries.lookup key with
    | some (.table origin inner) => if more.isEmpty then some origin else originAt inner more
    | some (.tables (last :: _)) => if more.isEmpty then some .defined else originAt last more
    | _ => none

/-- Give a value to a dotted key. The tables on the way have to be of the key's own making. -/
def assign (path : List String) (d : Document) (entries : Entries) : Option Entries :=
  match path.reverse with
  | [] => none
  | key :: back =>
    let above := back.reverse
    match originAt entries above with
    | some .implied | some .defined => none
    | _ => under entries .dotted above (define key d)

/-- Define a table by its header. -/
def openTable (path : List String) (entries : Entries) : Option Entries :=
  match path.reverse with
  | [] => none
  | key :: back =>
    under entries .implied back.reverse fun inner =>
      match inner.lookup key with
      | none => some (put key (.table .defined []) inner)
      | some (.table .implied known) => some (put key (.table .defined known) inner)
      | _ => none

/-- Add a table to a list of tables by its header. -/
def addTable (path : List String) (entries : Entries) : Option Entries :=
  match path.reverse with
  | [] => none
  | key :: back =>
    under entries .implied back.reverse fun inner =>
      match inner.lookup key with
      | none => some (put key (.tables [[]]) inner)
      | some (.tables back) => some (put key (.tables ([] :: back)) inner)
      | _ => none

end Entries

mutual

/-- An item as a document. -/
def Item.document : Item → Document
  | .value d => d
  | .table _ entries => .keyed (entriesDocument entries)
  | .tables back => .tuple (tablesDocument back).reverse

/-- Entries as those of a document. -/
def entriesDocument : List (String × Item) → List (String × Document)
  | [] => []
  | (key, item) :: rest => (key, item.document) :: entriesDocument rest

/-- Tables as documents. -/
def tablesDocument : List (List (String × Item)) → List Document
  | [] => []
  | entries :: rest => .keyed (entriesDocument entries) :: tablesDocument rest

end

mutual

/-- Take a value in which at most `room` lists and tables in braces stand inside each other. -/
def value (fuel room : Nat) (cs : List Char) : Option (Document × List Char) :=
  match fuel with
  | 0 => none
  | n + 1 =>
    match cs with
    | '[' :: rest => if room = 0 then none else arrayItems n (room - 1) [] (skipLines n rest)
    | '\x7b' :: rest => if room = 0 then none else inlineEntries n (room - 1) true [] (skipBlanks rest)
    | 't' :: 'r' :: 'u' :: 'e' :: rest => some (.flag true, rest)
    | 'f' :: 'a' :: 'l' :: 's' :: 'e' :: rest => some (.flag false, rest)
    | '"' :: _ | '\'' :: _ => (quoted cs).map fun r => (.text (String.ofList r.1), r.2)
    | cs => (numeral? cs).map fun r => (r.1.document, r.2)

/-- Take the items of an array, from an item or the closing bracket on. -/
def arrayItems (fuel room : Nat) (back : List Document) (cs : List Char) :
    Option (Document × List Char) :=
  match fuel with
  | 0 => none
  | n + 1 =>
    match cs with
    | ']' :: rest => some (.tuple back.reverse, rest)
    | cs =>
      match value n room cs with
      | none => none
      | some (item, rest) =>
        match skipLines n rest with
        | ',' :: rest => arrayItems n room (item :: back) (skipLines n rest)
        | ']' :: rest => some (.tuple (item :: back).reverse, rest)
        | _ => none

/-- Take the entries of a table in braces, from a key on or, at first, the closing brace. -/
def inlineEntries (fuel room : Nat) (first : Bool) (entries : Entries) (cs : List Char) :
    Option (Document × List Char) :=
  match fuel with
  | 0 => none
  | n + 1 =>
    match first, cs with
    | true, '\x7d' :: rest => some (.keyed [], rest)
    | _, cs =>
      match assignment n room cs with
      | none => none
      | some ((path, d), rest) =>
        match entries.assign path d with
        | none => none
        | some entries =>
          match skipBlanks rest with
          | ',' :: rest => inlineEntries n room false entries (skipBlanks rest)
          | '\x7d' :: rest => some (.keyed (entriesDocument entries), rest)
          | _ => none

/-- Take a key, the equals sign and a value. -/
def assignment (fuel room : Nat) (cs : List Char) :
    Option ((List String × Document) × List Char) :=
  match fuel with
  | 0 => none
  | n + 1 =>
    match key cs with
    | some (path, '=' :: rest) =>
      match value n room (skipBlanks rest) with
      | some (d, rest) => some ((path, d), rest)
      | none => none
    | _ => none

end

/-- What was read of a text so far. -/
structure Progress where
  /-- The top table. -/
  top : Entries
  /-- The header that lines are read under. -/
  header : List String

/-- Take one line. -/
def line (p : Progress) (fuel : Nat) (cs : List Char) : Option (Progress × List Char) :=
  match skipBlanks cs with
  | '[' :: '[' :: rest => do
    let (path, rest) ← key rest
    let ']' :: ']' :: rest := rest | none
    return (⟨← p.top.addTable path, path⟩, ← endLine? rest)
  | '[' :: rest => do
    let (path, rest) ← key rest
    let ']' :: rest := rest | none
    return (⟨← p.top.openTable path, path⟩, ← endLine? rest)
  | cs =>
    match endLine? cs with
    | some rest => some (p, rest)
    | none => do
      let ((path, d), rest) ← assignment (fuel + 1) maxDepth cs
      let top ← p.top.under .implied p.header (Entries.assign path d)
      return (⟨top, p.header⟩, ← endLine? rest)

/-- Take lines up to the end of the text. -/
def lines : Nat → Progress → List Char → Option Progress
  | 0, _, _ => none
  | n + 1, p, cs =>
    if cs.isEmpty then some p
    else do
      let (p, rest) ← line p (2 * cs.length) cs
      lines n p rest

/-- Read a whole text. A byte order mark in front is no part of it. -/
def parse? (text : String) : Option Document := do
  let cs :=
    match text.toList with
    | '\uFEFF' :: rest => rest
    | cs => cs
  let p ← lines (cs.length + 1) ⟨[], []⟩ cs
  return .keyed (entriesDocument p.top)

end Orchestration.Toml
