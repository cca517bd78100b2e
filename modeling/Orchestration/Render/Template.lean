import Orchestration.Render.MultiQuery

/-!
# Templates

A renderer turns a plan into the text of one file. The built-in one knows two templates: the method
template, and the plan itself as a JSON document.
-/

namespace Orchestration

/-- Why a plan was not rendered. -/
inductive RenderError where
  /-- There is no such template. -/
  | unknownTemplate (template : String)
  /-- The template cannot express the plan. -/
  | unsupported (template plan reason : String)
deriving Repr, DecidableEq

/-- The wording of a rendering error. -/
def RenderError.message : RenderError → String
  | unknownTemplate template => "unknown template '" ++ template ++ "'"
  | unsupported template plan reason =>
    "template '" ++ template ++ "' cannot render '" ++ plan ++ "': " ++ reason

/-- What turns plans into texts, by the name of a template. -/
structure Renderer where
  /-- The extension of the files a template makes. -/
  extension : String → Except RenderError String
  /-- The text of a plan that is going to be stored at the path. -/
  render : String → Plan → Path → Except RenderError String

namespace Render

/-- The built-in templates. -/
inductive Template where
  /-- A method that runs the plan. -/
  | multiQuery
  /-- The plan as a document. -/
  | planJson
deriving Repr, DecidableEq

/-- The template with the given name. -/
def Template.ofName? : String → Option Template
  | "multi_query" => some .multiQuery
  | "plan_json" => some .planJson
  | _ => none

/-- The extension of the files a template makes. -/
def Template.extension : Template → String
  | .multiQuery => "rs"
  | .planJson => "json"

/-- The path under which generated code finds its run-time support, unless another is given. -/
def defaultCratePath : String := "querygen"

/-- A plan as a document, with its fingerprint. -/
def planDocument (p : Plan) : Json :=
  .obj [("generator", .str MultiQuery.generatorName), ("fingerprint", .str (Digest.ofPlan p)),
    ("plan", p.toJson)]

/-- The text that a template makes of a plan. -/
def Template.render (t : Template) (receiver cratePath : String) (p : Plan) (output : Path) :
    String :=
  match t with
  | .multiQuery => MultiQuery.render p ⟨receiver, cratePath, output⟩
  | .planJson => (planDocument p).pretty ++ "\n"

/-- The template with the given name, or the error that there is none. -/
def template (name : String) : Except RenderError Template :=
  match Template.ofName? name with
  | some t => .ok t
  | none => .error (.unknownTemplate name)

end Render

/-- The renderer of the built-in templates. -/
def Renderer.builtin (receiver : String) (cratePath : String) : Renderer :=
  { extension := fun name => (Render.template name).map Render.Template.extension
    render := fun name p output =>
      (Render.template name).map fun t => t.render receiver cratePath p output }

/-- A renderer that accepts every template and fails to render anything. -/
def Renderer.failing : Renderer :=
  { extension := fun _ => .ok "txt"
    render := fun name p _ => .error (.unsupported name p.name "always fails") }

end Orchestration
