import Orchestration.Config.Basic
import Orchestration.Generation.Artifact
import Orchestration.Plan.Compile
import Orchestration.Render.Template

/-!
# Generation

A generator turns schemas into artifacts over one catalog. Resolving, compiling and rendering a schema
need no files; only a schema for which all three succeed touches the tree. Schemas are independent of
each other: a failure ends its own schema, and the policy of a batch says whether the rest still runs.
-/

namespace Orchestration

/-- Why a schema has no artifact. -/
inductive GenerationError where
  /-- The schema has no plan. -/
  | plan (error : PlanError)
  /-- The plan was not rendered. -/
  | render (error : RenderError)
  /-- The text was not written. -/
  | write (path : Path) (error : FileError)
deriving Repr, DecidableEq

/-- The wording of a generation error. -/
def GenerationError.message : GenerationError → String
  | plan error => error.message
  | render error => error.message
  | write path error => "cannot write " ++ path.text ++ ": " ++ error.message

/-- An artifact that was made, or that was up to date. -/
structure Artifact where
  /-- The name of its schema. -/
  schema : String
  /-- Where it lies. -/
  path : Path
  /-- The fingerprint of its plan. -/
  fingerprint : String
  /-- Whether it had to be written. -/
  written : Bool
deriving Repr, DecidableEq

/-- What is to be written for a schema. -/
structure Draft where
  /-- Where it is to lie. -/
  path : Path
  /-- The text. -/
  text : String
  /-- The fingerprint of the plan. -/
  fingerprint : String
deriving Repr, DecidableEq

/-- The outcome of a batch. -/
structure Report where
  /-- The artifacts, in the order of their schemas. -/
  generated : List Artifact
  /-- The names of the schemas that failed, each with its error. -/
  failed : List (String × GenerationError)
  /-- The names of the schemas that were not attempted. -/
  skipped : List String
deriving Repr, DecidableEq

/-- Whether no schema failed. -/
def Report.isSuccess (r : Report) : Bool :=
  r.failed.isEmpty

/-- What artifacts are made with. -/
structure Generator where
  /-- The operations and types that schemas refer to. -/
  catalog : Catalog
  /-- The namespace of the generated code, if it is not to be the catalog's. -/
  scope? : Option String
  /-- The directory of the artifacts. -/
  outDir : Path
  /-- The template of the artifacts. -/
  template : String
  /-- What renders the plans. -/
  renderer : Renderer

namespace Generator

/-- The namespace of the generated code. -/
def scope (g : Generator) : String :=
  g.scope?.getD g.catalog.scope

/-- The plan of a schema. -/
def plan (g : Generator) (s : Schema) : Except PlanError Plan :=
  match s.resolve g.catalog with
  | .error e => .error e
  | .ok resolved => resolved.compile g.catalog g.scope

/-- Render a plan for an artifact with the given stem. -/
def render (g : Generator) (stem : String) (p : Plan) : Except RenderError Draft :=
  match g.renderer.extension g.template with
  | .error e => .error e
  | .ok extension =>
    let path := g.outDir.artifact stem extension
    match g.renderer.render g.template p path with
    | .error e => .error e
    | .ok text => .ok ⟨path, text, Digest.ofPlan p⟩

/-- What is to be written for a schema. -/
def draft (g : Generator) (s : Schema) : Except GenerationError Draft :=
  match g.plan s with
  | .error e => .error (.plan e)
  | .ok p =>
    match g.render s.stem p with
    | .error e => .error (.render e)
    | .ok d => .ok d

/-- Make the artifact of one schema. -/
def generate (g : Generator) (t : FileTree) (s : Schema) :
    Except GenerationError Artifact × FileTree :=
  match g.draft s with
  | .error e => (.error e, t)
  | .ok d =>
    match t.writeArtifact d.path d.text with
    | (.error e, t') => (.error (.write d.path e), t')
    | (.ok written, t') => (.ok ⟨s.name, d.path, d.fingerprint, written⟩, t')

/-- Make the artifacts of schemas, in order. -/
def generateAll (g : Generator) (policy : FailurePolicy) (t : FileTree) :
    List Schema → Report × FileTree
  | [] => (⟨[], [], []⟩, t)
  | s :: rest =>
    match g.generate t s with
    | (.ok a, t') =>
      let (r, t'') := g.generateAll policy t' rest
      ({ r with generated := a :: r.generated }, t'')
    | (.error e, t') =>
      match policy with
      | .stopOnFirst => (⟨[], [(s.name, e)], rest.map Schema.name⟩, t')
      | .continueIndependent =>
        let (r, t'') := g.generateAll policy t' rest
        ({ r with failed := (s.name, e) :: r.failed }, t'')

end Generator

end Orchestration
