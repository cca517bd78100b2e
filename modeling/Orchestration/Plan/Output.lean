import Orchestration.Plan.Basic
import Orchestration.Schema.Resolved
import Orchestration.TypeExpr.Surface

/-!
# Assembling the output

A field of the output is filled by the result that has the field's snake-case name. Fields that are
still empty afterwards are filled in order by the first unused result of their bare type. A
collection only ever fills a collection field and a single result a single field.
-/

namespace Orchestration

/-- The members of all groups whose results can be used, in order. -/
def boundMembers (groups : List PlanGroup) : List PlanMember :=
  (groups.flatMap PlanGroup.members).filter PlanMember.bindsResult

/-- The result with the field's name and shape. -/
def sourceByName? (bound : List PlanMember) (name typeExpr : String) : Option String :=
  let collection := TypeExpr.isCollection typeExpr
  (bound.find? fun m =>
    m.resultVar = Naming.snakeCase name && m.resultIsCollection = collection).map
    PlanMember.resultVar

/-- The first result of the field's bare type and shape that is not used yet. -/
def sourceByType? (bound : List PlanMember) (used : List String) (typeExpr : String) :
    Option String :=
  let base := TypeExpr.bareName typeExpr
  let collection := TypeExpr.isCollection typeExpr
  (bound.find? fun m =>
    !used.contains m.resultVar && m.resultType = base && m.resultIsCollection = collection).map
    PlanMember.resultVar

/-- The fields with what fills them by name. -/
def fillByName (bound : List PlanMember) (fields : List (String × String)) : List OutputField :=
  fields.map fun f => ⟨f.1, f.2, sourceByName? bound f.1 f.2⟩

/-- The fields with what fills the empty ones by type; `used` are the results used so far. -/
def fillByType (bound : List PlanMember) : List String → List OutputField → List OutputField
  | _, [] => []
  | used, f :: rest =>
    match f.source with
    | some _ => f :: fillByType bound used rest
    | none =>
      match sourceByType? bound used f.typeName with
      | none => f :: fillByType bound used rest
      | some var => { f with source := some var } :: fillByType bound (var :: used) rest

/-- The fields of the output with what fills them. -/
def assembleOutput (fields : List (String × String)) (groups : List PlanGroup) : List OutputField :=
  let bound := boundMembers groups
  let named := fillByName bound fields
  fillByType bound (named.filterMap OutputField.source) named

end Orchestration
