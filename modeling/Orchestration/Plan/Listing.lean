import Orchestration.Digest.Fingerprint

/-!
# Listings

Plans and catalogs as texts for a reader: one line for each parameter list, group, call and output
field of a plan, and one line for each operation of a catalog.
-/

namespace Orchestration

namespace PlanMember

/-- The line of a call. -/
def listing (p : Plan) (m : PlanMember) : String :=
  let argument := (p.bindingExpr m.binding).getD ""
  let result := if m.resultVar = "" then "" else " -> " ++ m.resultVar
  "    " ++ m.operation ++ "(" ++ argument ++ ")" ++ result

end PlanMember

namespace PlanGroup

/-- The lines of the group with the given number. -/
def listing (p : Plan) (number : Nat) (g : PlanGroup) : List String :=
  ("  group " ++ toString number ++ " [" ++ g.discipline.label ++ "]")
    :: g.members.map (PlanMember.listing p)

end PlanGroup

/-- The line of an output field. -/
def OutputField.listing (f : OutputField) : String :=
  "  " ++ f.name ++ " <- " ++ f.source.getD "default"

namespace Plan

/-- The output type as a reader sees it. -/
def outputText (p : Plan) : String :=
  (if p.outputIsRef then "&" else "") ++ p.outputTypeName

/-- The line of the parameters; there is none without parameters. -/
def paramListing (p : Plan) : List String :=
  if p.useParamStruct then
    let fields := p.params.values.map fun q => q.fieldName ++ ": " ++ q.typeName
    ["  params: " ++ p.paramTypeName ++ " \x7b " ++ ", ".intercalate fields ++ " \x7d"]
  else if p.paramName = "" then []
  else ["  param: " ++ p.paramName ++ ": " ++ p.paramTypeName]

/-- The lines of a plan. -/
def listing (p : Plan) : List String :=
  ["Plan: " ++ p.name ++ " -> " ++ p.outputText ++ " (namespace " ++ p.scope ++ ")",
    "  fingerprint: " ++ Digest.ofPlan p]
    ++ p.paramListing
    ++ p.groups.zipIdx.flatMap (fun e => e.1.listing p e.2)
    ++ p.outputFields.map OutputField.listing

end Plan

/-- The lines of a catalog. -/
def Catalog.listing (c : Catalog) : List String :=
  ("Catalog: " ++ c.scope ++ " (" ++ toString c.operations.size ++ " operations)")
    :: c.operations.values.map fun op => "  " ++ op.summary

end Orchestration
