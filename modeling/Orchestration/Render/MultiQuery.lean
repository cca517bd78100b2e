import Orchestration.Digest.Fingerprint
import Orchestration.Files.Path
import Orchestration.Naming.SnakeCase
import Orchestration.TypeExpr.Surface

/-!
# The method template

Renders a plan as a method of the receiver that runs the groups of the plan in order and assembles
the output. The text is meant to stand in a submodule of the module that has the receiver and the
catalog's types. Every part is a list of lines; the lines are put together at the end.
-/

namespace Orchestration.Render.MultiQuery

/-- The name and version that generated files carry. -/
def generatorName : String := "querygen 0.1.0"

/-- What the generated text refers to besides the plan. -/
structure Frame where
  /-- The type that the method belongs to. -/
  receiver : String
  /-- The path under which the generated code finds its run-time support. -/
  cratePath : String
  /-- Where the text is going to be stored. -/
  output : Path

/-- The indentation of the method's body. -/
def indent : String := "        "

/-- The lines with the body's indentation in front. -/
def indented (lines : List String) : List String :=
  lines.map (indent ++ ·)

/-- The comment lines at the top. -/
def header (p : Plan) (frame : Frame) : List String :=
  ["// Code generated by " ++ generatorName ++ " from schema " ++ p.name ++ ". DO NOT EDIT.",
   "// namespace: " ++ p.scope,
   "// file: " ++ frame.output.fileName?.getD "",
   "// plan: " ++ Digest.ofPlan p,
   ""]

/-- What the generated code brings into scope. -/
def imports (frame : Frame) : List String :=
  ["use super::*;",
   "use " ++ frame.cratePath ++ "::runtime::\x7bself, AggregateError, Cancellation\x7d;",
   ""]

/-- The type that gathers the parameters, if the plan has one. -/
def paramStruct (p : Plan) (frame : Frame) : List String :=
  if p.useParamStruct then
    ["/// Parameters of [`" ++ frame.receiver ++ "::" ++ Naming.snakeCase p.name ++ "`].",
     "#[derive(Debug, Clone)]",
     "pub struct " ++ p.paramTypeName ++ " \x7b"]
    ++ p.params.values.map (fun q =>
      "    pub " ++ q.fieldName ++ ": " ++ TypeExpr.owned q.typeName ++ ",")
    ++ ["\x7d", ""]
  else []

/-- The type of the output. -/
def outputType (p : Plan) : String :=
  if p.outputIsRef then "Box<" ++ p.outputTypeName ++ ">" else p.outputTypeName

/-- The method's parameter after the context, if it has one. -/
def parameter (p : Plan) : String :=
  if p.paramName = "" then ""
  else if p.useParamStruct then ", " ++ p.paramName ++ ": " ++ p.paramTypeName
  else ", " ++ p.paramName ++ ": " ++ TypeExpr.owned p.paramTypeName

/-- The lines that open the method. -/
def opening (p : Plan) (frame : Frame) : List String :=
  ["impl " ++ frame.receiver ++ " \x7b",
   "    #[allow(unused_variables)]",
   "    pub async fn " ++ Naming.snakeCase p.name ++ "(&self, cx: &Cancellation" ++ parameter p
     ++ ") -> Result<" ++ outputType p ++ ", AggregateError> \x7b"]

/-- A member's argument as an owned value. -/
def ownedArgument (p : Plan) (m : PlanMember) : Option String :=
  (p.bindingExpr m.binding).map (· ++ ".clone()")

/-- The call of a member on a handle, raced against cancellation. -/
def guardedCall (m : PlanMember) (handle context : String) (argument : Option String) : String :=
  let call := handle ++ "." ++ Naming.snakeCase m.operation ++ "(" ++ context
    ++ (match argument with
        | some a => ", " ++ a
        | none => "") ++ ")"
  "runtime::guarded(" ++ context ++ ", \"" ++ m.operation ++ "\", " ++ call ++ ").await"

/-- The statement that calls a member in sequence. -/
def sequentialCall (p : Plan) (handle : String) (m : PlanMember) : String :=
  let call := guardedCall m handle "cx" (ownedArgument p m) ++ "?;"
  if m.resultVar = "" then call else "let " ++ m.resultVar ++ " = " ++ call

/-- The statements of a direct group. -/
def direct (p : Plan) (g : PlanGroup) : List String :=
  g.members.map (sequentialCall p "self")

/-- The results of a group that can be used later. -/
def boundVars (g : PlanGroup) : List String :=
  (g.members.filter PlanMember.bindsResult).map PlanMember.resultVar

/-- Names as a tuple. -/
def tuple : List String → String
  | [] => "()"
  | [one] => "(" ++ one ++ ",)"
  | many => "(" ++ ", ".intercalate many ++ ")"

/-- The statements of a transactional group. -/
def transactional (p : Plan) (g : PlanGroup) : List String :=
  let bound := boundVars g
  [if bound.isEmpty then "\x7b" else "let " ++ tuple bound ++ " = \x7b",
   "    let tx = runtime::begin(self, cx).await?;",
   "    let outcome = async \x7b"]
  ++ g.members.map (fun m => "        " ++ sequentialCall p "tx" m)
  ++ ["        Ok::<_, AggregateError>(" ++ tuple bound ++ ")",
    "    \x7d",
    "    .await;"]
  ++ if bound.isEmpty then ["    runtime::settle_transaction(tx, outcome).await?;", "\x7d"]
    else ["    runtime::settle_transaction(tx, outcome).await?", "\x7d;"]

/-- The handle of a concurrent member. -/
def taskName (index : Nat) : String :=
  "task_" ++ toString index

/-- The statement that starts a concurrent member. -/
def spawn (p : Plan) (m : PlanMember) (index : Nat) : List String :=
  let argument := ownedArgument p m
  ["let " ++ taskName index ++ " = \x7b",
   "    let this = self.clone();",
   "    let cx = cx.clone();"]
  ++ (argument.map fun a => "    let arg = " ++ a ++ ";").toList
  ++ ["    order.spawn(async move \x7b " ++ guardedCall m "this" "&cx" (argument.map fun _ => "arg")
        ++ " \x7d)",
    "\x7d;"]

/-- The name under which a concurrent member's result is taken from the join. -/
def joinedVar (m : PlanMember) : String :=
  if m.bindsResult then m.resultVar else discardMarker

/-- The statements of a concurrent group. -/
def concurrent (p : Plan) (frame : Frame) (g : PlanGroup) : List String :=
  ["let order = runtime::CompletionOrder::new();"]
  ++ (g.members.zipIdx.flatMap fun e => spawn p e.1 e.2)
  ++ ["let (" ++ ", ".intercalate (g.members.map joinedVar) ++ ",) = " ++ frame.cratePath
      ++ "::join_group!("
      ++ ", ".intercalate (g.members.zipIdx.map fun e =>
          "\"" ++ e.1.operation ++ "\" => " ++ taskName e.2)
      ++ ")?;"]

/-- The lines of a group, with a comment before and an empty line after them. -/
def group (p : Plan) (frame : Frame) (g : PlanGroup) (index : Nat) : List String :=
  let body :=
    match g.discipline with
    | .transactional => transactional p g
    | .concurrent => concurrent p frame g
    | .direct => direct p g
  indented (("// group " ++ toString index ++ ": " ++ g.discipline.label) :: body) ++ [""]

/-- How a field of the output is filled. -/
def fieldValue (f : OutputField) : String :=
  match f.source with
  | some source => if source = f.name then f.name else f.name ++ ": " ++ source
  | none => f.name ++ ": Default::default()"

/-- The expression of the output. -/
def outputValue (p : Plan) : String :=
  if p.outputFields.isEmpty then p.outputTypeName ++ " \x7b\x7d"
  else p.outputTypeName ++ " \x7b " ++ ", ".intercalate (p.outputFields.map fieldValue) ++ " \x7d"

/-- The lines that give the output and close the method. -/
def closing (p : Plan) : List String :=
  indented [if p.outputIsRef then "Ok(Box::new(" ++ outputValue p ++ "))"
    else "Ok(" ++ outputValue p ++ ")"]
  ++ ["    \x7d", "\x7d"]

/-- All lines of the generated text. -/
def lines (p : Plan) (frame : Frame) : List String :=
  header p frame ++ imports frame ++ paramStruct p frame ++ opening p frame
  ++ (p.groups.zipIdx.flatMap fun e => group p frame e.1 e.2) ++ closing p

/-- The generated text; every line ends with a line break. -/
def render (p : Plan) (frame : Frame) : String :=
  String.join ((lines p frame).map (· ++ "\n"))

end Orchestration.Render.MultiQuery
