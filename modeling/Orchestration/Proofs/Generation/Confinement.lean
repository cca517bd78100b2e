import Orchestration.Proofs.Config.Faults
import Orchestration.Proofs.Generation.Policy

/-!
# Where a batch may change the tree

The stem of a schema without faults is the name of a file, so every artifact lies in the directory of
its generator, and its draft beside it. Whatever becomes of a batch, what it changes are these files
and the directories that lead to them; no draft is left that was not there before.
-/

namespace Orchestration

namespace FileTree

variable {t u v : FileTree} {p q dir : Path} {l base : Location} {name text old : String}
  {outcome : Except FileError Bool} {named : String → Prop}

/-! ## Paths in a directory -/

theorem leadsTo_iff_names : t.LeadsTo p l ↔ t.walk (t.origin p.isRooted) p.names = .ok l := by
  rw [LeadsTo, ← walk_filter]
  rfl

theorem leadsTo_bare_iff : t.LeadsTo dir.bare l ↔ t.LeadsTo dir l := by
  rw [leadsTo_iff_names, leadsTo_iff_names, Path.isRooted_bare, Path.names_bare]

/-- A path that can be followed leads through those above it. -/
theorem LeadsTo.exists_above (h : t.LeadsTo p l) (hq : q ∈ p.ancestors) : ∃ m, t.LeadsTo q m := by
  obtain ⟨hrooted, more, hnames⟩ := Path.names_of_mem_ancestors hq
  rw [leadsTo_iff_names, ← hnames, walk_append] at h
  cases hwalk : t.walk (t.origin p.isRooted) q.names with
  | error e =>
    rw [hwalk] at h
    cases h
  | ok m => exact ⟨m, by rw [leadsTo_iff_names, hrooted, hwalk]⟩

/-- A file in a directory is put where the directory leads. -/
theorem Free.exists_base (hname : Path.IsName name) (h : t.Free (dir.join name) l) :
    ∃ base, t.LeadsTo dir base ∧ l = base ++ [name] := by
  obtain ⟨d, n, rfl, htarget⟩ := h.asked
  obtain ⟨hwalk, hlast, -, -⟩ := target_eq_entry htarget
  have hrooted := (Path.pieces_join hname.slashless dir).1
  rw [Path.steps_join hname, List.getLast?_concat] at hlast
  rw [Path.steps_join hname, List.dropLast_concat] at hwalk
  obtain rfl := Option.some.inj hlast
  refine ⟨d, ?_, rfl⟩
  have hstart : t.start (dir.join name) = t.start dir := by rw [start, start, hrooted]
  rwa [hstart] at hwalk

theorem Free.exists_base_draft (hname : Path.IsName name) (h : t.Free (dir.join name).draft l) :
    ∃ base, t.LeadsTo dir base ∧ l = base ++ [name ++ ".tmp"] := by
  rw [Path.draft_join hname] at h
  obtain ⟨base, hled, rfl⟩ := h.exists_base hname.append_tmp
  exact ⟨base, leadsTo_bare_iff.1 hled, rfl⟩

theorem exists_of_mem_ancestors_join (hname : Path.IsName name) (hq : q ∈ (dir.join name).ancestors) :
    ∃ q' ∈ dir :: dir.ancestors, ∀ (t : FileTree) l, t.LeadsTo q l ↔ t.LeadsTo q' l := by
  rw [Path.ancestors_join hname, Path.chain_eq] at hq
  rcases List.mem_cons.1 hq with rfl | hq
  · exact ⟨dir, List.mem_cons_self .., fun t l => leadsTo_bare_iff⟩
  · exact ⟨q, List.mem_cons_of_mem dir hq, fun t l => Iff.rfl⟩

/-! ## Changes in a directory -/

/-- How what is seen at a place may change while files with certain names are written in a directory. -/
inductive Confined (dir : Path) (named : String → Prop) (t u : FileTree) (l : Location) : Prop
  /-- Nothing changes. -/
  | same (h : u.look l = t.look l)
  /-- The directory or one above it is created. -/
  | directory {q : Path} (before : t.look l = .nothing) (after : u.look l = .directory)
      (above : q ∈ dir :: dir.ancestors) (led : u.LeadsTo q l)
  /-- A file of the directory is written. -/
  | file {base : Location} {name text : String} (led : u.LeadsTo dir base) (place : l = base ++ [name])
      (name : named name) (before : t.look l ≠ .directory) (after : u.look l = .file text)
  /-- A draft that was left in the directory is removed. -/
  | draft {base : Location} {name text : String} (led : u.LeadsTo dir base)
      (place : l = base ++ [name ++ ".tmp"]) (name : named name) (before : t.look l = .file text)
      (after : u.look l = .nothing)

namespace Confined

/-- Where directories stay, changes that are confined one after another are confined together. -/
theorem trans (hnamed : ∀ n m, named n → n ≠ m ++ ".tmp") (hg : t.Grounded) (hkept : t.Retains v)
    (hkept' : v.Retains u) (h : Confined dir named t v l) (h' : Confined dir named v u l) :
    Confined dir named t u l := by
  have hclash : ∀ {base base' : Location} {n m : String}, named n →
      base ++ [n] ≠ base' ++ [m ++ ".tmp"] := by
    intro base base' n m hn heq
    obtain ⟨-, hnames⟩ := List.append_inj' heq rfl
    exact hnamed n m hn (List.cons_eq_cons.1 hnames).1
  cases h' with
  | same hsame =>
    cases h with
    | same hsame' => exact .same (hsame.trans hsame')
    | directory before after above led =>
      exact .directory before (hsame.trans after) above (led.retained hkept')
    | file led place name before after =>
      exact .file (led.retained hkept') place name before (hsame.trans after)
    | draft led place name before after =>
      exact .draft (led.retained hkept') place name before (hsame.trans after)
  | @directory q before' after' above' led' =>
    cases h with
    | same hsame => exact .directory (hsame.symm.trans before') after' above' led'
    | directory before after above led => simp [after] at before'
    | file led place name before after => simp [after] at before'
    | @draft base n _ led place name before after =>
      -- The directory was there when the draft was removed, so it is not created later.
      obtain ⟨m, hm⟩ : ∃ m, v.LeadsTo q m := by
        rcases List.mem_cons.1 above' with rfl | hq
        · exact ⟨base, led⟩
        · exact led.exists_above hq
      have hlook := hm.look (hkept.grounded hg)
      rw [(hm.retained hkept').unique led', before'] at hlook
      cases hlook
  | file led' place' name' before' after' =>
    cases h with
    | same hsame => exact .file led' place' name' (hsame ▸ before') after'
    | directory before after above led => exact absurd after before'
    | file led place name before after => exact .file led' place' name' before after'
    | draft led place name before after => exact absurd (place'.symm.trans place) (hclash name')
  | draft led' place' name' before' after' =>
    cases h with
    | same hsame => exact .draft led' place' name' (hsame.symm.trans before') after'
    | directory before after above led => simp [after] at before'
    | file led place name before after => exact absurd (place.symm.trans place') (hclash name)
    | draft led place name before after => simp [after] at before'

/-- No file appears under the name of a draft. -/
theorem file_draft {n : String} (hnamed : ∀ n m, named n → n ≠ m ++ ".tmp")
    (h : Confined dir named t u l) (hplace : l = base ++ [n ++ ".tmp"]) (hfile : u.look l = .file old) :
    t.look l = .file old := by
  cases h with
  | same hsame => rw [← hsame, hfile]
  | directory before after above led => simp [after] at hfile
  | file led place name before after =>
    obtain ⟨-, hnames⟩ := List.append_inj' (place.symm.trans hplace) rfl
    exact absurd (List.cons_eq_cons.1 hnames).1 (hnamed _ n name)
  | draft led place name before after => simp [after] at hfile

end Confined

/-- Creating the directory of a file is confined to the directory and those above it. -/
theorem Created.confined (h : Created (dir.join name).ancestors t v) (hname : Path.IsName name)
    (hkept : v.Retains u) (hsame : u.look l = v.look l) : Confined dir named t u l := by
  rcases h.more.look l with heq | ⟨hnothing, hdirectory⟩
  · exact .same (hsame.trans heq)
  · obtain ⟨q, hq, hled⟩ := h.led l hnothing hdirectory
    obtain ⟨q', hq', hiff⟩ := exists_of_mem_ancestors_join hname hq
    exact .directory hnothing (hsame.trans hdirectory) hq' ((hiff v l).1 hled |>.retained hkept)

/-- So is removing its draft. -/
theorem Created.confined_draft (h : Created (dir.join name).ancestors t v) (hname : Path.IsName name)
    (hnamed : named name) (hkept : v.Retains u) (hbeside : v.Free (dir.join name).draft l)
    (hremoved : u.look l = .nothing) : Confined dir named t u l := by
  obtain ⟨base, hled, hplace⟩ := hbeside.exists_base_draft hname
  have hfree := hbeside.noDirectory
  rcases h.more.look l with heq | ⟨-, hdirectory⟩
  · rw [heq] at hfree
    cases hbefore : t.look l with
    | nothing => exact .same (hremoved.trans hbefore.symm)
    | directory => exact absurd hbefore hfree
    | file old => exact .draft (hled.retained hkept) hplace hnamed hbefore hremoved
  · exact absurd hdirectory hfree

/-- Writing a file in a directory is confined to the directory. -/
theorem Written.confined (h : Written t (dir.join name) text outcome u) (hname : Path.IsName name)
    (hnamed : named name) (l : Location) : Confined dir named t u l := by
  cases h with
  | upToDate => exact .same rfl
  | refused e made => exact made.confined hname (Retains.rfl u) rfl
  | @withdrawn _ v l' e made beside here look =>
    have hkept : v.Retains u :=
      retains_of_look here beside.noDirectory fun m hm => by rw [look, if_neg hm]
    by_cases hl : l = l'
    · subst hl
      exact made.confined_draft hname hnamed hkept beside (by rw [look, if_pos rfl])
    · exact made.confined hname hkept (by rw [look, if_neg hl])
  | @moved _ v l₁ l₂ made beside free here look =>
    have hkept := retains_of_moved beside.noDirectory free.noDirectory here look
    by_cases hplace : l = l₂
    · subst hplace
      obtain ⟨base, hled, hl⟩ := free.exists_base hname
      refine .file (hled.retained hkept) hl hnamed (fun hdirectory => ?_) (by rw [look, if_pos rfl])
      exact free.noDirectory (made.more.directory hdirectory)
    · by_cases hl : l = l₁
      · subst hl
        exact made.confined_draft hname hnamed hkept beside (by rw [look, if_neg hplace, if_pos rfl])
      · exact made.confined hname hkept (by rw [look, if_neg hplace, if_neg hl])

end FileTree

/-! ## Batches -/

variable {g : Generator} {s : Schema} {ss : List Schema} {t u : FileTree} {receiver cratePath : String}
  {template : Render.Template} {named : String → Prop}

namespace Generator

theorem confined_generate (hbuiltin : g.renderer = Renderer.builtin receiver cratePath)
    (htemplate : Render.template g.template = .ok template) (hg : t.Grounded)
    (hslash : '/' ∉ s.stem.toList) (hnamed : named (template.fileName s.stem)) (l : Location) :
    FileTree.Confined g.outDir named t (g.generate t s).2 l := by
  cases hdraft : g.draft s with
  | error e =>
    rw [generate_of_no_draft hdraft]
    exact .same rfl
  | ok d =>
    obtain ⟨template', htemplate', hpath⟩ := exists_template_of_draft hbuiltin hdraft
    obtain rfl : template = template' := Except.ok.inj (htemplate.symm.trans htemplate')
    have hwritten := FileTree.written_writeArtifact hg d.path d.text
    rw [generate_of_draft hdraft]
    rw [hpath] at hwritten ⊢
    exact hwritten.confined (template.isName_fileName hslash) hnamed l

/-- A run of attempts is confined to the directory of the artifacts. -/
theorem Attempts.confined {attempts : List Attempt} (h : g.Attempts t attempts u)
    (hbuiltin : g.renderer = Renderer.builtin receiver cratePath)
    (htemplate : Render.template g.template = .ok template) (hg : t.Grounded)
    (hslash : ∀ a ∈ attempts, '/' ∉ a.schema.stem.toList)
    (hnamed : ∀ a ∈ attempts, named (template.fileName a.schema.stem))
    (hclash : ∀ n m, named n → n ≠ m ++ ".tmp") (l : Location) :
    t.Retains u ∧ FileTree.Confined g.outDir named t u l := by
  induction h with
  | nil t => exact ⟨FileTree.Retains.rfl t, .same rfl⟩
  | @cons t v u s result attempts first rest ih =>
    obtain ⟨hslash, hslash'⟩ := List.forall_mem_cons.1 hslash
    obtain ⟨hnamed, hnamed'⟩ := List.forall_mem_cons.1 hnamed
    have hkept := g.retains_generate hg s
    have hfirst := confined_generate hbuiltin htemplate hg hslash hnamed l
    rw [first] at hkept hfirst
    obtain ⟨hkept', hrest⟩ := ih (hkept.grounded hg) hslash' hnamed'
    exact ⟨hkept.trans hkept', hfirst.trans hclash hg hkept hkept' hrest⟩

/-- A batch over a configuration without faults changes nothing but files of its schemas' names in the
directory of the generator, removes nothing but their drafts, creates only this directory and those
above it, and leaves no draft behind. -/
theorem generateAll_confined {c : Config} (hvalid : c.faults = [])
    (hbuiltin : g.renderer = Renderer.builtin receiver cratePath)
    (htemplate : Render.template g.template = .ok template) (hg : t.Grounded)
    (policy : FailurePolicy) :
    let u := (g.generateAll policy t c.schemas).2
    let named := fun n => ∃ s ∈ c.schemas, n = template.fileName s.stem
    (∀ n, named n → Path.IsName n) ∧ (∀ l, FileTree.Confined g.outDir named t u l) ∧
      ∀ l n old, u.look (l ++ [n ++ ".tmp"]) = .file old → t.look (l ++ [n ++ ".tmp"]) = .file old := by
  dsimp only
  obtain ⟨attempts, left, hss, hrun, -⟩ := g.exists_attempts policy t c.schemas
  have hmem : ∀ a ∈ attempts, a.schema ∈ c.schemas := by
    intro a ha
    rw [hss]
    exact List.mem_append_left left (List.mem_map_of_mem ha)
  have hslash : ∀ s ∈ c.schemas, '/' ∉ s.stem.toList := fun s hs =>
    Schema.slashless_of_faults (Config.faults_of_mem hvalid hs)
  have hclash : ∀ n m : String, (∃ s ∈ c.schemas, n = template.fileName s.stem) → n ≠ m ++ ".tmp" := by
    rintro n m ⟨s, -, rfl⟩
    exact template.fileName_ne_draft s.stem m
  have hconfined := fun l => (hrun.confined hbuiltin htemplate hg
    (fun a ha => hslash _ (hmem a ha)) (fun a ha => ⟨a.schema, hmem a ha, rfl⟩) hclash l).2
  refine ⟨?_, hconfined, ?_⟩
  · rintro n ⟨s, hs, rfl⟩
    exact template.isName_fileName (hslash s hs)
  · intro l n old hfile
    exact (hconfined _).file_draft hclash rfl hfile

/-- The directory of the generator lies beside the one from which its path starts. -/
theorem generateAll_confined_pages :
    let g := { pageGenerator with outDir := ⟨"../gen"⟩ }
    let c := pageConfig [.page "UserPage" "GetUser", .page "HomePage" "GetUser"]
    let t : FileTree := ⟨.directory [("work", .directory [])], ["work"]⟩
    let u := (g.generateAll .continueIndependent t c.schemas).2
    let named := fun n => ∃ s ∈ c.schemas, n = Render.Template.multiQuery.fileName s.stem
    c.faults = [] ∧ g.renderer = Renderer.builtin "Queries" "querygen" ∧
      Render.template g.template = .ok .multiQuery ∧ t.Grounded ∧
      (∀ n, named n → Path.IsName n) ∧ (∀ l, FileTree.Confined g.outDir named t u l) ∧
      ∀ l n old, u.look (l ++ [n ++ ".tmp"]) = .file old →
        t.look (l ++ [n ++ ".tmp"]) = .file old := by
  intro g c t u named
  have hvalid : c.faults = [] := by decide +kernel
  have hbuiltin : g.renderer = Renderer.builtin "Queries" "querygen" := rfl
  have htemplate : Render.template g.template = .ok .multiQuery := rfl
  have hgrounded : t.Grounded := rfl
  exact ⟨hvalid, hbuiltin, htemplate, hgrounded,
    generateAll_confined hvalid hbuiltin htemplate hgrounded .continueIndependent⟩

end Generator

end Orchestration
