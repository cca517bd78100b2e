import Orchestration.Document.Basic
import Orchestration.Yaml.Token

/-!
# Reading documents from tokens

The grammar of the tokens. A missing item, key or value is an empty plain text. A list may stand at
the indentation of the key it belongs to. Inside the brackets of a list, a single key with its value
is a table of its own. A text holds at most one document.
-/

namespace Orchestration.Yaml

/-- An empty plain text, for what is left out. -/
def nothing : Document :=
  .plain ""

/-- The text of a token as a document. -/
def scalarDocument (plain : Bool) (text : List Char) : Document :=
  if plain then .plain (String.ofList text) else .text (String.ofList text)

/-- A document and the tokens after it. -/
abbrev Reading := Option (Document × List Token)

mutual

/-- Read a node. `block` says whether indentation counts, and `indentless` whether a list may stand at
the indentation of its key. -/
def node (fuel : Nat) (block indentless : Bool) (ts : List Token) : Reading :=
  match fuel, ts with
  | 0, _ => none
  | _ + 1, .scalar plain text :: rest => some (scalarDocument plain text, rest)
  | n + 1, .flowListStart :: rest => flowItems n true [] rest
  | n + 1, .flowTableStart :: rest => flowEntries n true [] rest
  | n + 1, .blockEntry :: rest =>
    if indentless then indentlessItems n [] (.blockEntry :: rest) else none
  | n + 1, .blockListStart :: rest => if block then blockItems n [] rest else none
  | n + 1, .blockTableStart :: rest => if block then blockEntries n [] rest else none
  | _, _ => none

/-- Read the items of an indented list; `back` are those read, the last one first. -/
def blockItems (fuel : Nat) (back : List Document) (ts : List Token) : Reading :=
  match fuel, ts with
  | 0, _ => none
  | _ + 1, .blockEnd :: rest => some (.list back.reverse, rest)
  | n + 1, .blockEntry :: rest =>
    match rest with
    | .blockEntry :: _ | .blockEnd :: _ => blockItems n (nothing :: back) rest
    | _ =>
      match node n true false rest with
      | some (item, rest) => blockItems n (item :: back) rest
      | none => none
  | _, _ => none

/-- Read the items of a list at the indentation of its key. -/
def indentlessItems (fuel : Nat) (back : List Document) (ts : List Token) : Reading :=
  match fuel, ts with
  | 0, _ => none
  | n + 1, .blockEntry :: rest =>
    match rest with
    | .blockEntry :: _ | .key :: _ | .value :: _ | .blockEnd :: _ =>
      indentlessItems n (nothing :: back) rest
    | _ =>
      match node n true false rest with
      | some (item, rest) => indentlessItems n (item :: back) rest
      | none => none
  | _ + 1, ts => some (.list back.reverse, ts)

/-- Read the entries of an indented table. -/
def blockEntries (fuel : Nat) (back : List (Document × Document)) (ts : List Token) : Reading :=
  match fuel, ts with
  | 0, _ => none
  | _ + 1, .blockEnd :: rest => some (.table back.reverse, rest)
  | n + 1, .key :: rest =>
    match blockPart n rest with
    | none => none
    | some (key, .value :: rest) =>
      match blockPart n rest with
      | some (value, rest) => blockEntries n ((key, value) :: back) rest
      | none => none
    | some (key, rest) => blockEntries n ((key, nothing) :: back) rest
  | _, _ => none

/-- Read a key or value of an indented table, which may be left out. -/
def blockPart (fuel : Nat) (ts : List Token) : Reading :=
  match fuel, ts with
  | 0, _ => none
  | _ + 1, .key :: _ | _ + 1, .value :: _ | _ + 1, .blockEnd :: _ => some (nothing, ts)
  | n + 1, ts => node n true true ts

/-- Read the items of a list in brackets; `first` says whether none has been read. -/
def flowItems (fuel : Nat) (first : Bool) (back : List Document) (ts : List Token) : Reading :=
  match fuel, ts with
  | 0, _ => none
  | _ + 1, .flowListEnd :: rest => some (.list back.reverse, rest)
  | n + 1, ts =>
    match separated first ts with
    | none => none
    | some (.flowListEnd :: rest) => some (.list back.reverse, rest)
    | some (.key :: rest) =>
      match listKey n rest with
      | none => none
      | some (key, rest) =>
        match flowValue n .flowListEnd rest with
        | some (value, rest) => flowItems n false (.table [(key, value)] :: back) rest
        | none => none
    | some ts =>
      match node n false false ts with
      | some (item, rest) => flowItems n false (item :: back) rest
      | none => none

/-- Read the entries of a table in braces. -/
def flowEntries (fuel : Nat) (first : Bool) (back : List (Document × Document)) (ts : List Token) :
    Reading :=
  match fuel, ts with
  | 0, _ => none
  | _ + 1, .flowTableEnd :: rest => some (.table back.reverse, rest)
  | n + 1, ts =>
    match separated first ts with
    | none => none
    | some (.flowTableEnd :: rest) => some (.table back.reverse, rest)
    | some (.key :: rest) =>
      match tableKey n rest with
      | none => none
      | some (key, rest) =>
        match flowValue n .flowTableEnd rest with
        | some (value, rest) => flowEntries n false ((key, value) :: back) rest
        | none => none
    | some ts =>
      match node n false false ts with
      | some (key, rest) => flowEntries n false ((key, nothing) :: back) rest
      | none => none

/-- Read the key of a single entry in a list in brackets. A key that is left out takes the token in its
place with it. -/
def listKey (fuel : Nat) (ts : List Token) : Reading :=
  match fuel, ts with
  | 0, _ => none
  | n + 1, t :: rest =>
    if t = .value || t = .flowEntry || t = .flowListEnd then some (nothing, rest)
    else node n false false (t :: rest)
  | _ + 1, [] => none

/-- Read the key of an entry in a table in braces, which may be left out. -/
def tableKey (fuel : Nat) (ts : List Token) : Reading :=
  match fuel, ts with
  | 0, _ => none
  | n + 1, t :: rest =>
    if t = .value || t = .flowEntry || t = .flowTableEnd then some (nothing, t :: rest)
    else node n false false (t :: rest)
  | _ + 1, [] => none

/-- Read the value after a key between brackets, if there is one. -/
def flowValue (fuel : Nat) (close : Token) (ts : List Token) : Reading :=
  match fuel, ts with
  | 0, _ => none
  | n + 1, .value :: t :: rest =>
    if t = .flowEntry || t = close then some (nothing, t :: rest)
    else node n false false (t :: rest)
  | _ + 1, ts => some (nothing, ts)

/-- The tokens after the comma that has to stand between two parts. -/
def separated (first : Bool) (ts : List Token) : Option (List Token) :=
  if first then some ts
  else
    match ts with
    | .flowEntry :: rest => some rest
    | _ => none

end

/-- Read the content of a document. -/
def content (ts : List Token) : Reading :=
  node (2 * ts.length + 2) true false ts

/-- Read a whole text, which is at most one document. Only a document with a mark in front may be
left empty before its end mark. -/
def parse? (text : String) : Option Document := do
  let (d, rest) ←
    match ← tokens? text with
    | [] => some (nothing, [])
    | .documentStart :: rest =>
      match rest with
      | [] | .documentStart :: _ | .documentEnd :: _ => some (nothing, rest)
      | _ => content rest
    | ts => content ts
  if rest.all (· = .documentEnd) then some d else none

end Orchestration.Yaml
