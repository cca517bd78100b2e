import Orchestration.Catalog.Signature
import Orchestration.Config.Basic
import Orchestration.Document.Basic

/-!
# Configurations and descriptors from documents

What a document has to look like to be a configuration, a file of schemas or a descriptor. Fields that
may be left out have a default; fields that are not known are ignored.
-/

namespace Orchestration

open Document (Record)

/-- Read a member. -/
def Member.ofDocument? (d : Document) : Option Member := do
  let r ← d.record? ["operation", "param_name", "shared_param", "result_name", "suppress_result",
    "discard_result"]
  return { operation := ← r.required "operation" Document.text?
           paramName := ← r.field "param_name" none Document.optionalText?
           sharedParam := ← r.field "shared_param" none Document.optionalText?
           resultName := ← r.field "result_name" none Document.optionalText?
           suppressResult := ← r.field "suppress_result" false Document.flag?
           discardResult := ← r.field "discard_result" false Document.flag? }

/-- Read a group. -/
def Group.ofDocument? (d : Document) : Option Group := do
  let r ← d.record? ["transactional", "members"]
  return { transactional := ← r.field "transactional" false Document.flag?
           members := ← r.field "members" [] (Document.listOf? Member.ofDocument?) }

/-- Read a schema. -/
def Schema.ofDocument? (d : Document) : Option Schema := do
  let r ← d.record? ["name", "output", "groups", "out_file"]
  return { name := ← r.required "name" Document.text?
           output := ← r.field "output" none Document.optionalText?
           groups := ← r.field "groups" [] (Document.listOf? Group.ofDocument?)
           outFile := ← r.field "out_file" none Document.optionalText? }

/-- Read a file that only holds schemas. -/
def Schema.listOfDocument? (d : Document) : Option (List Schema) := do
  let r ← d.record? ["schemas"]
  r.field "schemas" [] (Document.listOf? Schema.ofDocument?)

/-- Read a failure policy. -/
def FailurePolicy.ofDocument? (d : Document) : Option FailurePolicy :=
  d.choice?.bind FailurePolicy.ofName?

/-- Read the policy of a batch. -/
def FailurePolicy.ofPolicy? (d : Document) : Option FailurePolicy := do
  let r ← d.record? ["failure"]
  r.field "failure" .stopOnFirst FailurePolicy.ofDocument?

/-- Read a configuration. -/
def Config.ofDocument? (d : Document) : Option Config := do
  let r ← d.record? ["version", "namespace", "out_dir", "template", "receiver", "catalog", "include",
    "schemas", "policy"]
  return { version := ← r.required "version" Document.text?
           scope := ← r.field "namespace" none Document.optionalText?
           outDir := ← r.field "out_dir" Config.defaultOutDir Document.text?
           template := ← r.field "template" Config.defaultTemplate Document.text?
           receiver := ← r.field "receiver" Config.defaultReceiver Document.text?
           catalog := ← r.required "catalog" Document.text?
           includes := ← r.field "include" [] (Document.listOf? Document.text?)
           schemas := ← r.field "schemas" [] (Document.listOf? Schema.ofDocument?)
           failure := ← r.field "policy" .stopOnFirst FailurePolicy.ofPolicy? }

/-- Read the signature of an operation as written. -/
def OperationEntry.ofDocument? (d : Document) : Option OperationEntry := do
  let r ← d.record? ["inputs", "outputs"]
  return { inputs := ← r.field "inputs" [] (Document.listOf? Document.text?)
           outputs := ← r.field "outputs" [] (Document.listOf? Document.text?) }

/-- Read a descriptor. -/
def Descriptor.ofDocument? (d : Document) : Option Descriptor := do
  let r ← d.record? ["namespace", "types", "operations"]
  return { scope := ← r.field "namespace" "" Document.text?
           types := ← r.field "types" ∅ (Document.tableOf? (Document.tableOf? Document.text?))
           operations := ← r.field "operations" ∅ (Document.tableOf? OperationEntry.ofDocument?) }

end Orchestration
