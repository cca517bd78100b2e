import Orchestration.Config.Basic
import Orchestration.Json.Basic

/-!
# The layout of a configuration

What a configuration may look like, as a JSON Schema document: each record with its fields, which of
them are required, and the defaults of the others. Fields are listed by name.
-/

namespace Orchestration.Config.Layout

open Json (str strings)

/-- What a field holds. -/
inductive FieldKind where
  /-- A text. -/
  | text
  /-- A text or nothing. -/
  | optionalText
  /-- A truth value. -/
  | flag
  /-- A list of texts. -/
  | texts
  /-- A record or choice that is described on its own. -/
  | named (name : String)
  /-- A list of records that are described on their own. -/
  | namedList (name : String)

/-- A field of a record. -/
structure Field where
  /-- Its name. -/
  name : String
  /-- What it is for. -/
  description : String
  /-- What it holds. -/
  kind : FieldKind
  /-- Its value, if it is left out. Without one it is required. -/
  default? : Option Json

/-- A reference to something described on its own. -/
def reference (name : String) : Json :=
  .obj [("$ref", str ("#/definitions/" ++ name))]

/-- The entries that say what a field holds. -/
def FieldKind.entries : FieldKind → List (String × Json)
  | text => [("type", str "string")]
  | optionalText => [("type", strings ["string", "null"])]
  | flag => [("type", str "boolean")]
  | texts => [("type", str "array"), ("items", .obj [("type", str "string")])]
  | named name => [("allOf", .arr [reference name])]
  | namedList name => [("type", str "array"), ("items", reference name)]

/-- The document of a field. -/
def Field.toJson (f : Field) : Json :=
  .obj ([("description", str f.description)]
    ++ (f.default?.map fun d => ("default", d)).toList ++ f.kind.entries)

/-- A record. -/
structure Record where
  /-- What it is. -/
  description : String
  /-- Its fields, by name. -/
  fields : List Field

/-- The names of the fields that are required. -/
def Record.required (r : Record) : List String :=
  (r.fields.filter fun f => f.default?.isNone).map Field.name

/-- The entries of the document of a record. -/
def Record.entries (r : Record) : List (String × Json) :=
  [("description", str r.description), ("type", str "object")]
    ++ (if r.required.isEmpty then [] else [("required", strings r.required)])
    ++ [("properties", .obj (r.fields.map fun f => (f.name, f.toJson)))]

/-- The record of a configuration. -/
def config : Record :=
  { description := "Root configuration: one generator instance and the schemas it compiles."
    fields :=
      [⟨"catalog", "Operation descriptor file, relative to the config file", .text, none⟩,
        ⟨"include", "Additional schema files (glob patterns, relative to the config file)", .texts,
          some (.arr [])⟩,
        ⟨"namespace", "Namespace of the generated code; defaults to the catalog namespace",
          .optionalText, some .null⟩,
        ⟨"out_dir", "Output directory for generated artifacts", .text,
          some (str defaultOutDir)⟩,
        ⟨"policy", "Batch policy", .named "Policy",
          some (.obj [("failure", str FailurePolicy.stopOnFirst.name)])⟩,
        ⟨"receiver", "Type the generated operations are attached to", .text,
          some (str defaultReceiver)⟩,
        ⟨"schemas", "Aggregation schemas", .namedList "AggregationSchema", some (.arr [])⟩,
        ⟨"template", "Renderer template name", .text, some (str defaultTemplate)⟩,
        ⟨"version", "Schema version (must be \"1.0\")", .text, none⟩] }

/-- The record of a schema. -/
def schema : Record :=
  { description := "How a set of existing operations combine into one new operation."
    fields :=
      [⟨"groups", "Operation groups, executed in order", .namedList "OperationGroup",
          some (.arr [])⟩,
        ⟨"name", "Name of the generated operation (e.g. \"GetUserWithPosts\")", .text, none⟩,
        ⟨"out_file", "Output file stem; defaults to the snake_case schema name", .optionalText,
          some .null⟩,
        ⟨"output", "Output type expression; must be a composite, optionally behind one `&`",
          .optionalText, some .null⟩] }

/-- The record of a group. -/
def group : Record :=
  { description := "Operations that share a transaction or a concurrent join point."
    fields :=
      [⟨"members", "Members, in declaration order", .namedList "SubqueryRef", some (.arr [])⟩,
        ⟨"transactional",
          "Share one transactional context. Ignored for single-member groups.", .flag,
          some (.bool false)⟩] }

/-- The record of a member. -/
def member : Record :=
  { description := "One operation call inside a group."
    fields :=
      [⟨"discard_result", "Bind the result to the discard marker", .flag, some (.bool false)⟩,
        ⟨"operation", "Operation name in the catalog", .text, none⟩,
        ⟨"param_name", "Name for a scalar parameter in the generated signature", .optionalText,
          some .null⟩,
        ⟨"result_name", "Result variable override", .optionalText, some .null⟩,
        ⟨"shared_param",
          "Path into a parameter bound earlier (e.g. \"update_post_params.user_id\")",
          .optionalText, some .null⟩,
        ⟨"suppress_result", "Call without binding the result at all", .flag,
          some (.bool false)⟩] }

/-- The record of a batch's policy. -/
def policy : Record :=
  { description := "Batch policy."
    fields :=
      [⟨"failure", "What one failing schema does to the rest of the batch", .named "FailurePolicy",
          some (str FailurePolicy.stopOnFirst.name)⟩] }

/-- The choice of failure policies. -/
def failurePolicy : Json :=
  .obj [("description", str "Failure handling strategy for a batch of schemas."),
    ("type", str "string"), ("enum", strings (FailurePolicy.all.map FailurePolicy.name))]

/-- The version of the description language. -/
def dialect : String := "json-schema.org/draft-07/schema"

/-- The document that describes configurations. -/
def document : Json :=
  .obj ([("$schema", str ("http:" ++ "//" ++ dialect ++ "#")), ("title", str "QuerygenConfig")]
    ++ config.entries
    ++ [("definitions", .obj [("AggregationSchema", .obj schema.entries),
      ("FailurePolicy", failurePolicy), ("OperationGroup", .obj group.entries),
      ("Policy", .obj policy.entries), ("SubqueryRef", .obj member.entries)])])

end Orchestration.Config.Layout
