import Orchestration.Config.Fault
import Orchestration.Config.Load
import Orchestration.Generation.Batch

/-!
# Projects

A project is a configuration together with the descriptor that it names. A new project starts with a
small example of both.
-/

namespace Orchestration.CommandLine

/-- The lines of a text, each with its end. -/
def unlines (lines : List String) : String :=
  String.join (lines.map (· ++ "\n"))

/-- The configuration of a new project. -/
def newConfig : String :=
  unlines
    ["version: \"1.0\"",
      "catalog: catalog.yaml",
      "out_dir: generated",
      "receiver: Queries",
      "",
      "policy:",
      "  failure: stop_on_first",
      "",
      "schemas:",
      "  - name: GetUserWithPosts",
      "    output: \"&UserWithPosts\"",
      "    groups:",
      "      - members:",
      "          - operation: GetUser",
      "            param_name: user_id",
      "          - operation: GetPosts"]

/-- The descriptor of a new project. -/
def newCatalog : String :=
  unlines
    ["namespace: db",
      "",
      "types:",
      "  User: \x7b id: i64, name: String \x7d",
      "  Post: \x7b id: i64, user_id: i64, title: String \x7d",
      "  PostsParams: \x7b user_id: i64, limit: i64 \x7d",
      "  UserWithPosts: \x7b user: User, posts: \"[Post]\" \x7d",
      "",
      "operations:",
      "  GetUser:",
      "    inputs: [ctx, i64]",
      "    outputs: [\"&User\", error]",
      "  GetPosts:",
      "    inputs: [ctx, PostsParams]",
      "    outputs: [\"[Post]\", error]"]

/-- A configuration and the catalog that its descriptor gives. -/
structure Project where
  /-- The configuration. -/
  config : Config
  /-- The directory that the names in the configuration are relative to. -/
  base : Path
  /-- The catalog. -/
  catalog : Catalog

/-- Why a project was not loaded. -/
inductive ProjectError where
  /-- A file was not loaded. -/
  | load (error : LoadError)
  /-- The configuration has faults. -/
  | faults (found : List ConfigFault)
deriving Repr, DecidableEq

/-- The wording of a project error. -/
def ProjectError.message : ProjectError → String
  | load error => error.message
  | faults _ => "validation failed"

/-- The lines that go ahead of a project error. -/
def ProjectError.details : ProjectError → List String
  | load _ => []
  | faults found => found.map fun f => "  ERROR: " ++ f.message

namespace Project

/-- The project whose configuration is the file at a path. The descriptor is only read if the
configuration has no faults. -/
def load (t : FileTree) (file : Path) : Except ProjectError Project := do
  let config ← (t.loadConfig file).mapError .load
  if config.faults ≠ [] then .error (.faults config.faults)
  else
    let base := file.directory
    let d ← (t.loadDescriptor (base.join config.catalog)).mapError .load
    return ⟨config, base, Catalog.ofDescriptor d⟩

/-- The generator that the configuration describes, with another directory or template if one is
given. -/
def generator (p : Project) (outDir? : Option Path) (template? : Option String) : Generator :=
  { catalog := p.catalog
    scope? := p.config.scope
    outDir := outDir?.getD (p.base.join p.config.outDir)
    template := template?.getD p.config.template
    renderer := .builtin p.config.receiver Render.defaultCratePath }

/-- The schemas to work on: all of them, or the first with the given name. -/
def select (p : Project) : Option String → Except String (List Schema)
  | none => .ok p.config.schemas
  | some name =>
    match p.config.schemas.find? fun s => s.name = name with
    | none => .error ("schema '" ++ name ++ "' not found")
    | some s => .ok [s]

end Project

end Orchestration.CommandLine
