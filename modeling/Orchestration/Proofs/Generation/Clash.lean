import Orchestration.Proofs.Config.Faults
import Orchestration.Proofs.Generation.Batch

/-!
# Artifacts at one place

The path of an artifact tells the stem of its schema. A configuration without faults has schemas of
different names, but nothing keeps their stems apart: the artifacts of a batch have different paths
exactly if the schemas that got them have different stems.
-/

namespace Orchestration

variable {g : Generator} {s : Schema} {t t' : FileTree} {a : Artifact}

namespace Path

variable {dir : Path} {stem other extension q : String}

/-- The text in front of a name behind a directory. -/
def front (dir : Path) : String :=
  if dir.text = "" || dir.text.toList.getLast? = some '/' then dir.text else dir.text ++ "/"

theorem join_of_relative (h : q.toList.head? ≠ some '/') (dir : Path) :
    dir.join q = ⟨dir.front ++ q⟩ := by
  unfold join front
  rw [if_neg h]
  split <;> rfl

theorem artifact_of_slashless (h : '/' ∉ stem.toList) (dir : Path) (extension : String) :
    dir.artifact stem extension = ⟨dir.front ++ (stem ++ "." ++ extension)⟩ := by
  refine join_of_relative (fun hhead => ?_) dir
  rw [String.append_assoc, String.toList_append] at hhead
  cases hstem : stem.toList with
  | nil =>
    rw [hstem] at hhead
    simp at hhead
  | cons c cs =>
    rw [hstem] at hhead h
    rw [List.cons_append, List.head?_cons] at hhead
    exact h (List.mem_cons.2 (Or.inl (Option.some.inj hhead).symm))

/-- The path of an artifact tells its stem. -/
theorem artifact_inj (h : '/' ∉ stem.toList) (h' : '/' ∉ other.toList) :
    dir.artifact stem extension = dir.artifact other extension ↔ stem = other := by
  constructor
  · intro heq
    rw [artifact_of_slashless h, artifact_of_slashless h'] at heq
    have htext := (String.append_right_inj _).1 (Path.mk.inj heq)
    rw [String.append_assoc, String.append_assoc] at htext
    exact (String.append_left_inj _).1 htext
  · rintro rfl
    rfl

end Path

namespace Generator

/-- Where the artifact of a schema lies. -/
def pathOf (g : Generator) (s : Schema) : Path :=
  g.outDir.artifact s.stem ((g.renderer.extension g.template).toOption.getD "")

theorem path_of_draft {d : Draft} (h : g.draft s = .ok d) : d.path = g.pathOf s := by
  unfold draft render at h
  split at h
  · cases h
  · split at h
    · cases h
    · rename_i d' hrender
      cases h
      unfold pathOf
      split at hrender
      · cases hrender
      · rename_i extension hextension
        rw [hextension]
        dsimp only at hrender
        split at hrender
        · cases hrender
        · cases hrender
          rfl

theorem path_of_generate (h : g.generate t s = (.ok a, t')) :
    a.schema = s.name ∧ a.path = g.pathOf s := by
  cases hdraft : g.draft s with
  | error e =>
    rw [generate_of_no_draft hdraft] at h
    cases h
  | ok d =>
    have hresult : report s d (t.writeArtifact d.path d.text).1 = .ok a := by
      rw [generate_of_draft hdraft] at h
      exact congrArg Prod.fst h
    rw [← path_of_draft hdraft]
    cases hwrite : (t.writeArtifact d.path d.text).1 with
    | error e =>
      rw [hwrite] at hresult
      cases hresult
    | ok written =>
      rw [hwrite] at hresult
      cases hresult
      exact ⟨rfl, rfl⟩

/-- The artifacts of a batch are those of some of its schemas, in order. -/
theorem exists_made (g : Generator) (policy : FailurePolicy) (t : FileTree) (ss : List Schema) :
    ∃ made : List Schema, made.Sublist ss ∧
      (g.generateAll policy t ss).1.generated.map Artifact.schema = made.map Schema.name ∧
      (g.generateAll policy t ss).1.generated.map Artifact.path = made.map g.pathOf := by
  induction ss generalizing t with
  | nil => exact ⟨[], List.Sublist.refl [], rfl, rfl⟩
  | cons s rest ih =>
    unfold generateAll
    generalize hgenerate : g.generate t s = generated
    obtain ⟨result, t'⟩ := generated
    obtain ⟨made, hsub, hnames, hpaths⟩ := ih t'
    cases result with
    | ok a =>
      obtain ⟨hname, hpath⟩ := path_of_generate hgenerate
      refine ⟨s :: made, hsub.cons_cons s, ?_, ?_⟩
      · dsimp only
        rw [List.map_cons, List.map_cons, hnames, hname]
      · dsimp only
        rw [List.map_cons, List.map_cons, hpaths, hpath]
    | error e =>
      cases policy with
      | stopOnFirst => exact ⟨[], List.nil_sublist _, rfl, rfl⟩
      | continueIndependent => exact ⟨made, hsub.cons s, hnames, hpaths⟩

end Generator

/-- In a batch over a configuration without faults, no two artifacts have the same path if and only if
no two of the schemas that got one have the same stem. -/
theorem generated_paths_nodup_iff {c : Config} (hvalid : c.faults = []) (g : Generator)
    (policy : FailurePolicy) (t : FileTree) :
    let generated := (g.generateAll policy t c.schemas).1.generated
    ∃ made : List Schema, made.Sublist c.schemas ∧
      generated.map Artifact.schema = made.map Schema.name ∧
      ((generated.map Artifact.path).Nodup ↔ (made.map Schema.stem).Nodup) := by
  obtain ⟨made, hsub, hnames, hpaths⟩ := g.exists_made policy t c.schemas
  refine ⟨made, hsub, hnames, ?_⟩
  have hslash : ∀ s ∈ made, '/' ∉ s.stem.toList := fun s hs =>
    Schema.slashless_of_faults (Config.faults_of_mem hvalid (hsub.subset hs))
  rw [hpaths, List.Nodup, List.Nodup, List.pairwise_map, List.pairwise_map]
  refine List.Pairwise.iff_of_mem fun {s s'} hs hs' => ?_
  exact not_congr (Path.artifact_inj (hslash s hs) (hslash s' hs'))

/-- A configuration that generates some schemas. -/
def pageConfig (schemas : List Schema) : Config :=
  { version := "1.0"
    scope := none
    outDir := "gen"
    template := "multi_query"
    receiver := "Queries"
    catalog := "catalog.yaml"
    includes := []
    schemas := schemas
    failure := .continueIndependent }

theorem generated_paths_nodup_iff_pages :
    let c := pageConfig [.page "UserPage" "GetUser", .page "HomePage" "GetUser"]
    let generated := (Generator.pageGenerator.generateAll c.failure (FileTree.empty [])
      c.schemas).1.generated
    c.faults = [] ∧
      ∃ made : List Schema, made.Sublist c.schemas ∧
        generated.map Artifact.schema = made.map Schema.name ∧
        ((generated.map Artifact.path).Nodup ↔ (made.map Schema.stem).Nodup) :=
  ⟨by decide +kernel, generated_paths_nodup_iff (by decide +kernel) _ _ _⟩

/-! ## Schemas that share a stem -/

namespace FileTree

/-- Where no directory stands in the way, an artifact is made. -/
theorem settle_of_open {place draft : Seen} (hplace : place ≠ .directory)
    (hdraft : draft ≠ .directory) (text : String) :
    (∃ written, (settle text none none place draft).result = .ok written) ∧
      (settle text none none place draft).place ≠ .directory ∧
      (settle text none none place draft).draft ≠ .directory := by
  cases hdone : upToDate text none place with
  | true =>
    rw [settle_of_upToDate hdone]
    exact ⟨⟨false, rfl⟩, hplace, hdraft⟩
  | false =>
    rw [settle_of_free hdone hdraft]
    cases place with
    | directory => exact absurd rfl hplace
    | nothing | file old =>
      exact ⟨⟨true, rfl⟩, fun heq => (nomatch heq), fun heq => (nomatch heq)⟩

end FileTree

namespace Generator

variable {template : Render.Template} {stem receiver cratePath : String} {d : Draft}

/-- The directory of a generator is there, and nothing stands in the way of an artifact in it. -/
structure Open (g : Generator) (template : Render.Template) (stem : String) (t : FileTree) :
    Prop where
  ready : FileTree.Ready g.outDir t
  noObstacle : g.outDir.obstacle? (template.fileName stem) = none
  noneBeside : g.outDir.bare.obstacle? (template.fileName stem ++ ".tmp") = none
  place : t.look (t.origin g.outDir.isRooted ++ g.outDir.names ++ [template.fileName stem]) ≠
    .directory
  draft : t.look (t.origin g.outDir.isRooted ++ g.outDir.names ++
    [template.fileName stem ++ ".tmp"]) ≠ .directory

/-- An artifact is made where nothing stands in its way, and stands in no way itself. -/
theorem Open.generate (hbuiltin : g.renderer = Renderer.builtin receiver cratePath)
    (htemplate : Render.template g.template = .ok template) (hdraft : g.draft s = .ok d)
    (hslash : '/' ∉ s.stem.toList) (h : Open g template s.stem t) :
    ∃ a, (g.generate t s).1 = .ok a ∧ Open g template s.stem (g.generate t s).2 := by
  obtain ⟨hresult, hsettled⟩ := settledAt_generate hbuiltin htemplate hdraft hslash h.ready
  have hready := hsettled.ready h.ready
  obtain ⟨⟨written, hwritten⟩, hplace, hdrafted⟩ :=
    FileTree.settle_of_open h.place h.draft d.text
  unfold FileTree.fate at hresult hsettled
  rw [h.noObstacle, h.noneBeside] at hresult hsettled
  refine ⟨⟨s.name, d.path, d.fingerprint, written⟩, ?_, hready, h.noObstacle, h.noneBeside, ?_, ?_⟩
  · rw [hresult, hwritten]
    rfl
  · rw [hsettled.look_place]
    exact hplace
  · rw [hsettled.look_draft]
    exact hdrafted

theorem exists_draft (hbuiltin : g.renderer = Renderer.builtin receiver cratePath)
    (htemplate : Render.template g.template = .ok template)
    (hplan : (g.plan s).toOption.isSome = true) : ∃ d, g.draft s = .ok d := by
  unfold draft render
  rw [hbuiltin]
  cases hp : g.plan s with
  | error e =>
    rw [hp] at hplan
    cases hplan
  | ok p =>
    unfold Renderer.builtin
    dsimp only
    rw [htemplate]
    exact ⟨_, rfl⟩

/-- Two schemas with one stem both get an artifact, at one path. -/
theorem paths_of_one_stem {s' : Schema} {d' : Draft}
    (hbuiltin : g.renderer = Renderer.builtin receiver cratePath)
    (htemplate : Render.template g.template = .ok template) (hup : ".." ∉ g.outDir.pieces)
    (hgrounded : t.Grounded) (hdraft : g.draft s = .ok d) (hdraft' : g.draft s' = .ok d')
    (hslash : '/' ∉ s.stem.toList) (hstem : s'.stem = s.stem)
    (hopen : Open g template s.stem (t.prepare g.outDir).2) :
    (g.generateAll .continueIndependent t [s, s']).1.generated.map Artifact.path =
      [g.pathOf s, g.pathOf s] := by
  have hslash' : ∀ r ∈ [s, s'], '/' ∉ r.stem.toList := by
    intro r hr
    rcases List.mem_pair.1 hr with rfl | rfl
    · exact hslash
    · rwa [hstem]
  rw [generateAll_eq, outcomes_prepare hbuiltin hup hgrounded hslash'
    ⟨s, List.mem_cons_self .., d, hdraft⟩, ← generateAll_eq]
  generalize (t.prepare g.outDir).2 = v at hopen
  obtain ⟨a, ha, hafter⟩ := hopen.generate hbuiltin htemplate hdraft hslash
  rw [← hstem] at hafter
  obtain ⟨a', ha', -⟩ := hafter.generate hbuiltin htemplate hdraft' (hslash' s' (by simp))
  have hfirst : g.generate v s = (.ok a, (g.generate v s).2) := Prod.ext ha rfl
  have hsecond : g.generate (g.generate v s).2 s' =
      (.ok a', (g.generate (g.generate v s).2 s').2) := Prod.ext ha' rfl
  obtain ⟨-, hpath⟩ := path_of_generate hfirst
  obtain ⟨-, hpath'⟩ := path_of_generate hsecond
  have hsame : g.pathOf s' = g.pathOf s := by rw [pathOf, pathOf, hstem]
  unfold generateAll
  rw [hfirst]
  dsimp only
  unfold generateAll
  rw [hsecond]
  simp only [generateAll, List.map_cons, List.map_nil, hpath, hpath', hsame]

end Generator

/-- The names of two schemas may have one snake form. Both get an artifact then, and the second takes
the place of the first. -/
theorem generated_paths_repeated :
    let c := pageConfig [.page "UserPage" "GetUser", .page "userPage" "GetUser"]
    let generated := (Generator.pageGenerator.generateAll c.failure (FileTree.empty [])
      c.schemas).1.generated
    c.faults = [] ∧
      generated.map Artifact.path = [⟨"gen/user_page.rs"⟩, ⟨"gen/user_page.rs"⟩] ∧
      ¬ (generated.map Artifact.path).Nodup := by
  have htemplate : Render.template Generator.pageGenerator.template = .ok .multiQuery := rfl
  have hup : ".." ∉ Generator.pageGenerator.outDir.pieces := by decide +kernel
  have hgrounded : (FileTree.empty []).Grounded := rfl
  have hcreated : ((FileTree.empty []).prepare Generator.pageGenerator.outDir).1 = .ok () := by
    decide +kernel
  have hopen : Generator.Open Generator.pageGenerator .multiQuery
      (Schema.page "UserPage" "GetUser").stem
      ((FileTree.empty []).prepare Generator.pageGenerator.outDir).2 :=
    ⟨FileTree.ready_prepare hup hgrounded hcreated, by decide +kernel, by decide +kernel,
      by decide +kernel, by decide +kernel⟩
  obtain ⟨d, hdraft⟩ := Generator.exists_draft (g := Generator.pageGenerator)
    (s := Schema.page "UserPage" "GetUser") rfl htemplate (by decide +kernel)
  obtain ⟨d', hdraft'⟩ := Generator.exists_draft (g := Generator.pageGenerator)
    (s := Schema.page "userPage" "GetUser") rfl htemplate (by decide +kernel)
  have hpaths := Generator.paths_of_one_stem rfl htemplate hup hgrounded hdraft hdraft'
    (by decide +kernel) (by decide +kernel) hopen
  have hpath : Generator.pageGenerator.pathOf (Schema.page "UserPage" "GetUser") =
      ⟨"gen/user_page.rs"⟩ := by decide +kernel
  intro c generated
  have hgenerated : generated = (Generator.pageGenerator.generateAll .continueIndependent
    (FileTree.empty []) [.page "UserPage" "GetUser", .page "userPage" "GetUser"]).1.generated := by
    simp only [generated, c, pageConfig]
  rw [hgenerated, hpaths, hpath]
  exact ⟨by decide +kernel, rfl, by decide +kernel⟩

end Orchestration
