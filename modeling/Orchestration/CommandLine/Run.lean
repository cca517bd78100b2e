import Orchestration.CommandLine.Command
import Orchestration.CommandLine.Project
import Orchestration.Config.Layout
import Orchestration.Plan.Listing

/-!
# Running commands

What each command does to the files, what it prints, and with which message it fails. A command that
only shows something leaves the files as they are.
-/

namespace Orchestration.CommandLine

/-- The outcome of a command. -/
structure Outcome where
  /-- The files after it. -/
  tree : FileTree
  /-- What it printed. -/
  out : String
  /-- What it printed as errors. -/
  err : String
  /-- The message that it failed with. -/
  failure? : Option String

namespace Outcome

/-- Success, with lines printed. -/
def done (t : FileTree) (lines : List String) : Outcome :=
  ⟨t, unlines lines, "", none⟩

/-- A failure, with lines printed as errors. -/
def failed (t : FileTree) (message : String) (errors : List String) : Outcome :=
  ⟨t, "", unlines errors, some message⟩

/-- The failure to load a project. -/
def notLoaded (t : FileTree) (e : ProjectError) : Outcome :=
  failed t e.message e.details

end Outcome

/-- Why a project was not started. -/
inductive InitError where
  /-- There is a configuration already. -/
  | alreadyThere (path : Path)
  /-- The directory was not created. -/
  | notCreated (path : Path) (error : FileError)
  /-- A file was not written. -/
  | notWritten (path : Path) (error : FileError)
deriving Repr, DecidableEq

/-- The wording of an error at the start of a project. -/
def InitError.message : InitError → String
  | alreadyThere path => path.text ++ " already exists"
  | notCreated path error => "cannot create " ++ path.text ++ ": " ++ error.message
  | notWritten path error => "cannot write " ++ path.text ++ ": " ++ error.message

/-- The file of a project's descriptor. -/
def catalogFile : String := "catalog.yaml"

/-- Write the files of a new project into a directory that is there. A descriptor that is there
stays. -/
def writeProject (t : FileTree) (config catalog : Path) : Except InitError Unit × FileTree :=
  match if t.contains catalog then .ok t else t.write catalog newCatalog with
  | .error e => (.error (.notWritten catalog e), t)
  | .ok t =>
    match t.write config newConfig with
    | .error e => (.error (.notWritten config e), t)
    | .ok t => (.ok (), t)

/-- Start a project in a directory, which may be new. -/
def startProject (t : FileTree) (dir : Path) : Except InitError Unit × FileTree :=
  let config := dir.join defaultFile
  if t.contains config then (.error (.alreadyThere config), t)
  else
    match t.createDirectories dir with
    | (.error e, t) => (.error (.notCreated dir e), t)
    | (.ok _, t) => writeProject t config (dir.join catalogFile)

/-- Start a project. -/
def runInit (t : FileTree) (dir : Path) : Outcome :=
  match startProject t dir with
  | (.error e, t) => .failed t e.message []
  | (.ok _, t) =>
    .done t ["Initialized querygen project at " ++ dir.text,
      "  Created: " ++ (dir.join defaultFile).text,
      "  Created: " ++ (dir.join catalogFile).text]

/-- Check a configuration and compile all of its schemas. -/
def runValidate (t : FileTree) (file : Path) : Outcome :=
  match Project.load t file with
  | .error e => .notLoaded t e
  | .ok p =>
    let g := p.generator none none
    let errors := p.config.schemas.filterMap fun s =>
      match g.plan s with
      | .error e => some e.message
      | .ok _ => none
    if errors.isEmpty then
      .done t ["OK: " ++ toString p.config.schemas.length ++ " schema(s), "
        ++ toString p.catalog.operations.size ++ " operation(s) in catalog '" ++ p.catalog.scope ++ "'"]
    else
      .failed t (toString errors.length ++ " schema(s) failed to compile")
        (errors.map ("  ERROR: " ++ ·))

/-- Show the catalog. -/
def runCatalog (t : FileTree) (file : Path) (json : Bool) : Outcome :=
  match Project.load t file with
  | .error e => .notLoaded t e
  | .ok p => .done t (if json then [p.catalog.toJson.pretty] else p.catalog.listing)

/-- Show plans. Nothing is shown unless all of them compile. -/
def runPlan (t : FileTree) (file : Path) (schema? : Option String) (json : Bool) : Outcome :=
  match Project.load t file with
  | .error e => .notLoaded t e
  | .ok p =>
    match p.select schema? with
    | .error message => .failed t message []
    | .ok schemas =>
      match schemas.mapM (p.generator none none).plan with
      | .error e => .failed t e.message []
      | .ok plans =>
        .done t (if json then [(Json.arr (plans.map Plan.toJson)).pretty]
          else plans.flatMap fun q => q.listing ++ [""])

/-- The lines about the artifacts of a batch and about the schemas that were skipped. -/
def reportLines (r : Report) : List String :=
  r.generated.map (fun a =>
      "  " ++ (if a.written then "wrote" else "unchanged") ++ " " ++ a.schema ++ ": " ++ a.path.text)
    ++ r.skipped.map ("  skipped " ++ ·) ++ [""]

/-- The lines about the schemas of a batch that failed. -/
def failureLines (r : Report) : List String :=
  r.failed.map fun e => "  FAILED " ++ e.1 ++ ": " ++ e.2.message

/-- The outcome of a batch. -/
def reportOutcome (t : FileTree) (r : Report) : Outcome :=
  if r.isSuccess then
    .done t (reportLines r
      ++ ["Generate complete: " ++ toString r.generated.length ++ " artifact(s)."])
  else
    { tree := t
      out := unlines (reportLines r
        ++ ["Generate completed with errors: " ++ toString r.generated.length ++ " generated, "
          ++ toString r.failed.length ++ " FAILED, " ++ toString r.skipped.length ++ " skipped"])
      err := unlines (failureLines r)
      failure? := some (toString r.failed.length ++ " schema(s) failed") }

/-- Make artifacts. -/
def runGenerate (t : FileTree) (file : Path) (schema? : Option String) (outDir? : Option Path)
    (template? : Option String) : Outcome :=
  match Project.load t file with
  | .error e => .notLoaded t e
  | .ok p =>
    match p.select schema? with
    | .error message => .failed t message []
    | .ok schemas =>
      let (r, t') := (p.generator outDir? template?).generateAll p.config.failure t schemas
      reportOutcome t' r

/-- Run a command. -/
def Command.run (t : FileTree) : Command → Outcome
  | init dir => runInit t dir
  | validate file => runValidate t file
  | catalog file json => runCatalog t file json
  | plan file schema? json => runPlan t file schema? json
  | generate file schema? outDir? template? => runGenerate t file schema? outDir? template?
  | schema => .done t [Config.Layout.document.pretty]
  | completions _ => .done t []

end Orchestration.CommandLine
