import Orchestration.Catalog.Operation
import Orchestration.Json.Basic
import Orchestration.Plan.Basic

/-!
# Plans and catalogs as JSON

The documents that show a plan or a catalog. The entries of every object stand in a fixed order, and
tables keep theirs, so two plans have the same document only if they are the same plan.
-/

namespace Orchestration

/-- The document of a table, its entries in order. -/
def Table.toJson {α : Type} (f : α → Json) (t : Table α) : Json :=
  .obj (t.entries.map fun e => (e.1, f e.2))

/-- The document of a parameter. -/
def Param.toJson (p : Param) : Json :=
  .obj [("field_name", .str p.fieldName), ("type_name", .str p.typeName),
    ("fields", p.fields.toJson .str), ("composite", .bool p.composite)]

/-- The document of a binding; its kind comes first. -/
def Binding.toJson : Binding → Json
  | none => .obj [("kind", .str "none")]
  | field name => .obj [("kind", .str "field"), ("name", .str name)]
  | shared root path => .obj [("kind", .str "shared"), ("root", .str root), ("path", .strings path)]

/-- The document of a member. -/
def PlanMember.toJson (m : PlanMember) : Json :=
  .obj [("operation_name", .str m.operation), ("result_var_name", .str m.resultVar),
    ("result_type_name", .str m.resultType), ("result_is_collection", .bool m.resultIsCollection),
    ("is_error_only", .bool m.isErrorOnly), ("param_binding", m.binding.toJson)]

/-- The document of a group. -/
def PlanGroup.toJson (g : PlanGroup) : Json :=
  .obj [("transactional", .bool g.transactional), ("members", .arr (g.members.map PlanMember.toJson))]

/-- The document of an output field. -/
def OutputField.toJson (f : OutputField) : Json :=
  .obj [("name", .str f.name), ("type_name", .str f.typeName), ("source", .optional f.source)]

/-- The document of a plan. -/
def Plan.toJson (p : Plan) : Json :=
  .obj [("name", .str p.name), ("namespace", .str p.scope),
    ("distinct_params", p.params.toJson Param.toJson),
    ("use_param_struct", .bool p.useParamStruct), ("func_param_name", .str p.paramName),
    ("func_param_type_name", .str p.paramTypeName),
    ("groups", .arr (p.groups.map PlanGroup.toJson)),
    ("output_type_name", .str p.outputTypeName), ("output_is_ref", .bool p.outputIsRef),
    ("output_fields", .arr (p.outputFields.map OutputField.toJson)),
    ("uses_shared_context", .bool p.usesSharedContext)]

/-- The document of an operation's shape; the fault is left out if there is none. -/
def OperationShape.toJson (op : OperationShape) : Json :=
  .obj ([("name", .str op.name), ("param_type_name", .str op.argument.typeName),
    ("param_fields", op.argument.fields.toJson .str),
    ("param_is_composite", .bool op.argument.isComposite),
    ("is_error_only", .bool op.result.isErrorOnly),
    ("return_type_name", .str op.result.typeName),
    ("return_is_collection", .bool op.result.isCollection),
    ("return_is_single_ref", .bool op.result.isReference),
    ("return_fields", op.result.fields.toJson .str)]
    ++ (op.fault.map fun fault => ("unanalyzable", Json.str fault.message)).toList)

/-- The document of a catalog. -/
def Catalog.toJson (c : Catalog) : Json :=
  .obj [("namespace", .str c.scope), ("operations", c.operations.toJson OperationShape.toJson),
    ("types", c.types.toJson fun fields => fields.toJson .str)]

end Orchestration
