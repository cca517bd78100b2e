/-!
# Arguments

Reading the arguments of a command by rules: options with a long and perhaps a short spelling, which
are switches or take a value, and at most one argument that stands for itself. A value may be attached
to its option or be the next argument. A value that is the next argument is only checked once a later
option has been recognised or all arguments have been read, so a fault before that wins over it.
-/

namespace Orchestration.CommandLine

/-- Why arguments are not accepted, or what they ask for instead of a command. -/
inductive UsageError where
  /-- There is no such command. -/
  | unknownCommand
  /-- There is no such option, or no argument is expected. -/
  | unknownArgument
  /-- A value is missing or is not one of those allowed. -/
  | invalidValue
  /-- A needed argument is missing. -/
  | missingArgument
  /-- An option is given twice. -/
  | conflict
  /-- A switch is given a value. -/
  | surplusValue
  /-- There are no arguments at all. -/
  | nothingGiven
  /-- There are options but no command. -/
  | missingCommand
  /-- Help is asked for. -/
  | helpWanted
  /-- The version is asked for. -/
  | versionWanted
deriving Repr, DecidableEq

/-- What an option or argument takes. -/
inductive Takes where
  /-- Nothing; it is there or not. -/
  | nothing
  /-- Any text. -/
  | text
  /-- A path; the empty text is none. -/
  | path
  /-- One of some texts. -/
  | choice (texts : List String)
  /-- Nothing; help is shown instead of the command. -/
  | help
  /-- Nothing; the version is shown instead of the command. -/
  | version
deriving Repr, DecidableEq

/-- Whether a value is given at all. -/
def Takes.needsValue : Takes → Bool
  | text | path | choice _ => true
  | nothing | help | version => false

/-- Whether a value is allowed. -/
def Takes.allows : Takes → String → Bool
  | path, s => s ≠ ""
  | choice texts, s => texts.contains s
  | _, _ => true

/-- An option, or the argument that stands for itself. -/
structure OptionRule where
  /-- The long spelling, which also names it. -/
  long : String
  /-- The short spelling. -/
  short? : Option Char
  /-- What it takes. -/
  takes : Takes
deriving Repr, DecidableEq

/-- The arguments of a command. -/
structure ArgumentRules where
  /-- The options. -/
  options : List OptionRule
  /-- The argument that stands for itself. -/
  argument? : Option OptionRule
deriving Repr, DecidableEq

/-- How an argument looks. -/
inductive Form where
  /-- Two dashes: all that follows stands for itself. -/
  | escape
  /-- Two dashes and a name, perhaps with a value. -/
  | long (name : String) (value? : Option String)
  /-- A dash and characters. -/
  | short (chars : List Char)
  /-- Anything else. -/
  | plain
deriving Repr, DecidableEq

/-- How a text looks as an argument. -/
def Form.ofText (s : String) : Form :=
  match s.toList with
  | ['-', '-'] => .escape
  | '-' :: '-' :: body =>
    let name := String.ofList (body.takeWhile (· ≠ '='))
    match body.dropWhile (· ≠ '=') with
    | [] => .long name none
    | _ :: value => .long name (some (String.ofList value))
  | '-' :: c :: cs => .short (c :: cs)
  | _ => .plain

/-- What has been recognised but not been checked. -/
inductive Pending where
  /-- Nothing. -/
  | nothing
  /-- An option whose value is to come. -/
  | awaiting (rule : OptionRule)
  /-- A value. -/
  | value (rule : OptionRule) (text : String)
deriving Repr, DecidableEq

/-- What has been read of the arguments of a command. -/
structure Reading where
  /-- The options and values that were accepted, by their long spelling. -/
  given : List (String × String)
  /-- What is still to be checked. -/
  pending : Pending
deriving Repr, DecidableEq

namespace Reading

/-- Nothing has been read. -/
def start : Reading :=
  ⟨[], .nothing⟩

/-- The value given for an option. -/
def value? (r : Reading) (name : String) : Option String :=
  r.given.lookup name

/-- Whether an option is given. -/
def has (r : Reading) (name : String) : Bool :=
  (r.value? name).isSome

/-- Accept a value for an option that has none yet. -/
def accept (r : Reading) (rule : OptionRule) (text : String) : Except UsageError Reading :=
  if r.has rule.long then .error .conflict
  else if rule.takes.allows text then .ok { r with given := r.given ++ [(rule.long, text)] }
  else .error .invalidValue

/-- Check what is pending. -/
def settle (r : Reading) : Except UsageError Reading :=
  match r.pending with
  | .nothing => .ok r
  | .awaiting _ => .error .invalidValue
  | .value rule text => accept { r with pending := .nothing } rule text

/-- An option without a value. -/
def react (r : Reading) (rule : OptionRule) : Except UsageError Reading :=
  match r.settle with
  | .error e => .error e
  | .ok r =>
    match rule.takes with
    | .help => .error .helpWanted
    | .version => .error .versionWanted
    | _ => r.accept rule ""

/-- An option with the value attached to it. -/
def attach (r : Reading) (rule : OptionRule) (text : String) : Except UsageError Reading :=
  match r.settle with
  | .error e => .error e
  | .ok r => r.accept rule text

/-- An option whose value is the next argument. -/
def await (r : Reading) (rule : OptionRule) : Except UsageError Reading :=
  match r.settle with
  | .error e => .error e
  | .ok r => .ok { r with pending := .awaiting rule }

/-- A value that is checked later. -/
def postpone (r : Reading) (rule : OptionRule) (text : String) : Except UsageError Reading :=
  match r.settle with
  | .error e => .error e
  | .ok r => .ok { r with pending := .value rule text }

/-- Read an option in its long spelling. -/
def long (r : Reading) (options : List OptionRule) (name : String) (value? : Option String) :
    Except UsageError Reading :=
  match options.find? fun o => o.long = name with
  | none => .error .unknownArgument
  | some rule =>
    match rule.takes.needsValue, value? with
    | true, some text => r.attach rule text
    | true, none => r.await rule
    | false, some _ => .error .surplusValue
    | false, none => r.react rule

/-- Read options in their short spelling, one after another. What follows one that takes a value is the
value, with or without an equals sign in front. -/
def short (options : List OptionRule) : Reading → List Char → Except UsageError Reading
  | r, [] => .ok r
  | r, c :: cs =>
    match options.find? fun o => o.short? = some c with
    | none => .error .unknownArgument
    | some rule =>
      if rule.takes.needsValue then
        match cs with
        | [] => r.await rule
        | '=' :: text => r.attach rule (String.ofList text)
        | text => r.attach rule (String.ofList text)
      else
        match r.react rule with
        | .error e => .error e
        | .ok r => short options r cs

/-- Read an option; nothing comes of an argument that is none. -/
def option? (r : Reading) (options : List OptionRule) : Form → Option (Except UsageError Reading)
  | .long name value? => some (r.long options name value?)
  | .short chars => some (short options r chars)
  | .escape | .plain => none

end Reading

namespace ArgumentRules

/-- Read an argument that stands for itself. There is at most one. -/
def plain (rules : ArgumentRules) (argumentRead : Bool) (r : Reading) (text : String) :
    Except UsageError Reading :=
  match rules.argument?, argumentRead with
  | some rule, false => r.postpone rule text
  | _, _ => .error .unknownArgument

/-- Read arguments after two dashes: all of them stand for themselves. -/
def readPlain (rules : ArgumentRules) (argumentRead : Bool) (r : Reading) :
    List String → Except UsageError Reading
  | [] => r.settle
  | text :: rest =>
    match rules.plain argumentRead r text with
    | .error e => .error e
    | .ok r => rules.readPlain true r rest

/-- Read arguments; `argumentRead` tells whether the one that stands for itself has come. -/
def readFrom (rules : ArgumentRules) (argumentRead : Bool) (r : Reading) :
    List String → Except UsageError Reading
  | [] => r.settle
  | text :: rest =>
    match Form.ofText text with
    | .escape => rules.readPlain argumentRead r rest
    | form =>
      match r.option? rules.options form with
      | some (.error e) => .error e
      | some (.ok r) => rules.readFrom argumentRead r rest
      | none =>
        match r.pending with
        | .awaiting rule => rules.readFrom argumentRead { r with pending := .value rule text } rest
        | _ =>
          match rules.plain argumentRead r text with
          | .error e => .error e
          | .ok r => rules.readFrom true r rest

/-- Read all arguments of a command. -/
def read (rules : ArgumentRules) (args : List String) : Except UsageError Reading :=
  rules.readFrom false .start args

end ArgumentRules

end Orchestration.CommandLine
