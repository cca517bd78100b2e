import Orchestration.Proofs.Generation.Artifact
import Orchestration.Proofs.Generation.Stems

/-!
# Batches in any order

The schemas of a batch get their artifacts one after another. Each of them looks at the places of its
own artifact only, so none of them stands in the way of another: every schema fares as if it were
alone, whatever the order, and a second run finds everything done.
-/

namespace Orchestration

variable {g : Generator} {s : Schema} {ss : List Schema} {t u : FileTree} {e : FileError}
  {keep : FileTree → Prop} {places : Schema → Location → Prop}

/-! ## Steps that do not interfere -/

/-- A step looks at and changes what is seen at some places only, as long as the trees have a property
that it keeps. -/
structure Local {β : Type} (keep : FileTree → Prop) (places : Location → Prop)
    (act : FileTree → β × FileTree) : Prop where
  keeps : ∀ t, keep t → keep (act t).2
  outside : ∀ t l, keep t → ¬ places l → (act t).2.look l = t.look l
  inside : ∀ t u, keep t → keep u → (∀ l, places l → t.look l = u.look l) →
    (act t).1 = (act u).1 ∧ ∀ l, places l → (act t).2.look l = (act u).2.look l

namespace Generator

/-- What becomes of schemas one after another. -/
def outcomes (g : Generator) (t : FileTree) :
    List Schema → List (Schema × Except GenerationError Artifact) × FileTree
  | [] => ([], t)
  | s :: rest =>
    let (result, t') := g.generate t s
    let (results, t'') := outcomes g t' rest
    ((s, result) :: results, t'')

end Generator

/-- The report of what became of schemas. -/
def Report.ofOutcomes (results : List (Schema × Except GenerationError Artifact)) : Report :=
  { generated := results.filterMap fun r => r.2.toOption
    failed := results.filterMap fun r =>
      match r.2 with
      | .error e => some (r.1.name, e)
      | .ok _ => none
    skipped := [] }

namespace Generator

theorem generateAll_eq (g : Generator) (t : FileTree) (ss : List Schema) :
    g.generateAll .continueIndependent t ss =
      (Report.ofOutcomes (g.outcomes t ss).1, (g.outcomes t ss).2) := by
  induction ss generalizing t with
  | nil => rfl
  | cons s rest ih =>
    rw [generateAll, outcomes]
    rcases g.generate t s with ⟨e | a, t'⟩
    · dsimp only
      rw [ih t']
      rfl
    · dsimp only
      rw [ih t']
      rfl

/-- Schemas that do not interfere fare as if each were alone. -/
theorem outcomes_of_local (hlocal : ∀ s ∈ ss, Local keep (places s) fun t => g.generate t s)
    (hdisjoint : ss.Pairwise fun s s' => ∀ l, places s l → ¬ places s' l) (hkeep : keep t) :
    (g.outcomes t ss).1 = ss.map (fun s => (s, (g.generate t s).1)) ∧
      keep (g.outcomes t ss).2 ∧
      (∀ s ∈ ss, ∀ l, places s l → (g.outcomes t ss).2.look l = (g.generate t s).2.look l) ∧
      ∀ l, (∀ s ∈ ss, ¬ places s l) → (g.outcomes t ss).2.look l = t.look l := by
  induction ss generalizing t with
  | nil => exact ⟨rfl, hkeep, fun s hs => absurd hs List.not_mem_nil, fun l _ => rfl⟩
  | cons s rest ih =>
    obtain ⟨hfirst, hrest⟩ := List.pairwise_cons.1 hdisjoint
    have hs := hlocal s (List.mem_cons_self ..)
    have hlocal' : ∀ s' ∈ rest, Local keep (places s') fun t => g.generate t s' :=
      fun s' hs' => hlocal s' (List.mem_cons_of_mem s hs')
    have hkeep' := hs.keeps t hkeep
    obtain ⟨houtcomes, hkept, hinside, houtside⟩ := ih hlocal' hrest hkeep'
    -- What the first schema changes is seen by none of the others.
    have hframe : ∀ s' ∈ rest, (g.generate (g.generate t s).2 s').1 = (g.generate t s').1 ∧
        ∀ l, places s' l →
          (g.generate (g.generate t s).2 s').2.look l = (g.generate t s').2.look l := by
      intro s' hs'
      refine (hlocal' s' hs').inside _ _ hkeep' hkeep fun l hl => ?_
      exact hs.outside t l hkeep fun hplace => hfirst s' hs' l hplace hl
    have hcons : g.outcomes t (s :: rest) =
        ((s, (g.generate t s).1) :: (g.outcomes (g.generate t s).2 rest).1,
          (g.outcomes (g.generate t s).2 rest).2) := rfl
    rw [hcons]
    refine ⟨?_, hkept, ?_, ?_⟩
    · show _ :: (g.outcomes (g.generate t s).2 rest).1 = _
      rw [List.map_cons, houtcomes]
      refine congrArg (_ :: ·) (List.map_congr_left fun s' hs' => ?_)
      rw [(hframe s' hs').1]
    · intro s' hs' l hl
      rcases List.mem_cons.mp hs' with rfl | hs'
      · exact houtside l fun s'' hs'' => hfirst s'' hs'' l hl
      · rw [hinside s' hs' l hl]
        exact (hframe s' hs').2 l hl
    · intro l hl
      rw [houtside l fun s' hs' => hl s' (List.mem_cons_of_mem s hs')]
      exact hs.outside t l hkeep (hl s (List.mem_cons_self ..))

end Generator

/-- An artifact that is found as it was left. -/
def Artifact.kept (a : Artifact) : Artifact :=
  { a with written := false }

namespace Generator

/-! ## Batches whose schemas do not interfere -/

/-- Schemas that do not interfere, each of which finds its artifact as it left it. -/
structure Independent (g : Generator) (keep : FileTree → Prop) (places : Schema → Location → Prop)
    (ss : List Schema) : Prop where
  confined : ∀ s ∈ ss, Local keep (places s) fun t => g.generate t s
  apart : ss.Pairwise fun s s' => ∀ l, places s l → ¬ places s' l
  settled : ∀ s ∈ ss, ∀ t, keep t →
    (g.generate (g.generate t s).2 s).1 = (g.generate t s).1.map Artifact.kept ∧
      ∀ l, places s l → (g.generate (g.generate t s).2 s).2.look l = (g.generate t s).2.look l
  here : ∀ t u, keep t → keep u → t.here = u.here

namespace Independent

variable {first again : List Schema}

theorem perm (h : Independent g keep places ss) (hperm : first.Perm ss) :
    Independent g keep places first where
  confined s hs := h.confined s (hperm.mem_iff.1 hs)
  apart := h.apart.perm hperm.symm fun hapart l hl hl' => hapart l hl' hl
  settled s hs := h.settled s (hperm.mem_iff.1 hs)
  here := h.here

theorem outcomes_eq (h : Independent g keep places ss) (hkeep : keep t) :
    (g.outcomes t ss).1 = ss.map fun s => (s, (g.generate t s).1) :=
  (outcomes_of_local h.confined h.apart hkeep).1

theorem keep_outcomes (h : Independent g keep places ss) (hkeep : keep t) :
    keep (g.outcomes t ss).2 :=
  (outcomes_of_local h.confined h.apart hkeep).2.1

theorem look_inside (h : Independent g keep places ss) (hkeep : keep t) (hs : s ∈ ss)
    {l : Location} (hl : places s l) :
    (g.outcomes t ss).2.look l = (g.generate t s).2.look l :=
  (outcomes_of_local h.confined h.apart hkeep).2.2.1 s hs l hl

theorem look_outside (h : Independent g keep places ss) (hkeep : keep t) {l : Location}
    (hl : ∀ s ∈ ss, ¬ places s l) : (g.outcomes t ss).2.look l = t.look l :=
  (outcomes_of_local h.confined h.apart hkeep).2.2.2 l hl

/-- The order of the schemas does not show in the tree. -/
theorem same (h : Independent g keep places ss) (hkeep : keep t) (hperm : first.Perm ss) :
    (g.outcomes t first).2.Same (g.outcomes t ss).2 := by
  have h' := h.perm hperm
  refine ⟨h.here _ _ (h'.keep_outcomes hkeep) (h.keep_outcomes hkeep), fun l => ?_⟩
  by_cases hplace : ∃ s ∈ ss, places s l
  · obtain ⟨s, hs, hl⟩ := hplace
    rw [h.look_inside hkeep hs hl, h'.look_inside hkeep (hperm.mem_iff.2 hs) hl]
  · have hout : ∀ s ∈ ss, ¬ places s l := fun s hs hl => hplace ⟨s, hs, hl⟩
    rw [h.look_outside hkeep hout,
      h'.look_outside hkeep fun s hs => hout s (hperm.mem_iff.1 hs)]

/-- After a batch, a schema meets at its places what it left there itself. -/
theorem generate_after (h : Independent g keep places ss) (hkeep : keep t) (hs : s ∈ ss) :
    (g.generate (g.outcomes t ss).2 s).1 = (g.generate t s).1.map Artifact.kept ∧
      ∀ l, places s l →
        (g.generate (g.outcomes t ss).2 s).2.look l = (g.outcomes t ss).2.look l := by
  obtain ⟨hresult, hlook⟩ := h.settled s hs t hkeep
  have hafter := (h.confined s hs).inside (g.outcomes t ss).2 (g.generate t s).2
    (h.keep_outcomes hkeep) ((h.confined s hs).keeps t hkeep)
    fun l hl => h.look_inside hkeep hs hl
  refine ⟨hafter.1.trans hresult, fun l hl => ?_⟩
  rw [hafter.2 l hl, hlook l hl, h.look_inside hkeep hs hl]

/-- A second batch finds everything as the first left it. -/
theorem outcomes_after (h : Independent g keep places ss) (hkeep : keep t)
    (hagain : again.Perm ss) :
    (g.outcomes (g.outcomes t ss).2 again).1 =
        again.map (fun s => (s, (g.generate t s).1.map Artifact.kept)) ∧
      (g.outcomes (g.outcomes t ss).2 again).2.Same (g.outcomes t ss).2 := by
  have h' := h.perm hagain
  have hkeep' := h.keep_outcomes hkeep
  constructor
  · rw [h'.outcomes_eq hkeep']
    refine List.map_congr_left fun s hs => ?_
    rw [(h.generate_after hkeep (hagain.mem_iff.1 hs)).1]
  · refine ⟨h.here _ _ (h'.keep_outcomes hkeep') hkeep', fun l => ?_⟩
    by_cases hplace : ∃ s ∈ ss, places s l
    · obtain ⟨s, hs, hl⟩ := hplace
      rw [h'.look_inside hkeep' (hagain.mem_iff.2 hs) hl, (h.generate_after hkeep hs).2 l hl]
    · exact h'.look_outside hkeep' fun s hs hl => hplace ⟨s, hagain.mem_iff.1 hs, hl⟩

end Independent

/-! ## The artifacts of a batch in a directory that is there -/

/-- What a generator reports about a draft, by what became of its text. -/
def report (s : Schema) (d : Draft) : Except FileError Bool → Except GenerationError Artifact
  | .error e => .error (.write d.path e)
  | .ok written => .ok ⟨s.name, d.path, d.fingerprint, written⟩

theorem generate_of_draft {d : Draft} (h : g.draft s = .ok d) (t : FileTree) :
    g.generate t s =
      (report s d (t.writeArtifact d.path d.text).1, (t.writeArtifact d.path d.text).2) := by
  unfold generate
  rw [h]
  dsimp only
  rcases t.writeArtifact d.path d.text with ⟨e | written, t'⟩ <;> rfl

theorem generate_of_no_draft {e : GenerationError} (h : g.draft s = .error e) (t : FileTree) :
    g.generate t s = (.error e, t) := by
  unfold generate
  rw [h]

theorem report_kept (s : Schema) (d : Draft) (result : Except FileError Bool) :
    report s d (result.map fun _ => false) = (report s d result).map Artifact.kept := by
  cases result <;> rfl

/-- The places of an artifact and of its draft, below the place of the directory. -/
def placesIn (base : Location) (template : Render.Template) (s : Schema) (l : Location) : Prop :=
  l = base ++ [template.fileName s.stem] ∨ l = base ++ [template.fileName s.stem ++ ".tmp"]

theorem concat_inj {base : Location} {name other : String}
    (h : base ++ [name] = base ++ [other]) : name = other :=
  (List.cons_eq_cons.1 (List.append_cancel_left h)).1

/-- Schemas with other stems have other places. -/
theorem placesIn_apart {base l : Location} {template : Render.Template} {s s' : Schema}
    (hne : s.stem ≠ s'.stem) (hl : placesIn base template s l) : ¬ placesIn base template s' l := by
  intro hl'
  rcases hl with rfl | rfl
  · rcases hl' with heq | heq
    · exact hne (template.fileName_injective (concat_inj heq))
    · exact template.fileName_ne_draft _ _ (concat_inj heq)
  · rcases hl' with heq | heq
    · exact template.fileName_ne_draft _ _ (concat_inj heq).symm
    · have hname := congrArg String.toList (concat_inj heq)
      rw [String.toList_append, String.toList_append] at hname
      have hfile := String.toList_inj.1 (List.append_cancel_right hname)
      exact hne (template.fileName_injective hfile)

section InReadyDirectory

variable {template : Render.Template} {receiver cratePath : String} {d : Draft}
  (hbuiltin : g.renderer = Renderer.builtin receiver cratePath)
  (htemplate : Render.template g.template = .ok template)

include hbuiltin htemplate

/-- In a directory that is there, what becomes of a schema is told by its two places. -/
theorem settledAt_generate (hdraft : g.draft s = .ok d) (hslash : '/' ∉ s.stem.toList)
    (hready : FileTree.Ready g.outDir t) :
    (g.generate t s).1 =
        report s d (t.fate g.outDir (template.fileName s.stem) d.text).result ∧
      FileTree.SettledAt g.outDir (template.fileName s.stem) t
        (t.fate g.outDir (template.fileName s.stem) d.text) (g.generate t s).2 := by
  obtain ⟨template', htemplate', hpath⟩ := exists_template_of_draft hbuiltin hdraft
  cases htemplate.symm.trans htemplate'
  obtain ⟨hresult, hsettled⟩ := FileTree.writeArtifact_ready (template.isName_fileName hslash)
    (template.isName_draft hslash) hready d.text
  rw [generate_of_draft hdraft, hpath, ← hresult]
  exact ⟨rfl, hsettled⟩

/-- Making an artifact keeps its directory, and what is seen anywhere else. -/
theorem local_generate (hslash : '/' ∉ s.stem.toList) (v : FileTree) :
    Local (fun t => FileTree.Ready g.outDir t ∧ t.here = v.here)
      (placesIn (v.origin g.outDir.isRooted ++ g.outDir.names) template s)
      fun t => g.generate t s := by
  have horigin : ∀ t : FileTree, t.here = v.here →
      t.origin g.outDir.isRooted = v.origin g.outDir.isRooted :=
    fun t hhere => FileTree.origin_of_here hhere _
  cases hdraft : g.draft s with
  | error e =>
    have hgenerate := generate_of_no_draft hdraft
    refine ⟨fun t ht => ?_, fun t l _ _ => ?_, fun t u _ _ hsame => ?_⟩
    · rw [hgenerate]
      exact ht
    · rw [hgenerate]
    · rw [hgenerate, hgenerate]
      exact ⟨rfl, hsame⟩
  | ok d =>
    constructor
    case keeps =>
      rintro t ⟨hready, hhere⟩
      obtain ⟨-, hsettled⟩ := settledAt_generate hbuiltin htemplate hdraft hslash hready
      exact ⟨hsettled.ready hready, hsettled.here.trans hhere⟩
    case outside =>
      rintro t l ⟨hready, hhere⟩ hout
      obtain ⟨-, hsettled⟩ := settledAt_generate hbuiltin htemplate hdraft hslash hready
      rw [hsettled.look, horigin t hhere, if_neg fun hl => hout (Or.inl hl),
        if_neg fun hl => hout (Or.inr hl)]
    case inside =>
      rintro t u ⟨hready, hhere⟩ ⟨hready', hhere'⟩ hsame
      obtain ⟨hresult, hsettled⟩ := settledAt_generate hbuiltin htemplate hdraft hslash hready
      obtain ⟨hresult', hsettled'⟩ := settledAt_generate hbuiltin htemplate hdraft hslash hready'
      have hfate : t.fate g.outDir (template.fileName s.stem) d.text =
          u.fate g.outDir (template.fileName s.stem) d.text := by
        unfold FileTree.fate
        rw [horigin t hhere, horigin u hhere', hsame _ (Or.inl rfl), hsame _ (Or.inr rfl)]
      refine ⟨by rw [hresult, hresult', hfate], fun l hl => ?_⟩
      rw [hsettled.look, hsettled'.look, hfate, horigin t hhere, horigin u hhere', hsame l hl]

/-- An artifact that is made again is found as it was left. -/
theorem generate_generate (hslash : '/' ∉ s.stem.toList) (hready : FileTree.Ready g.outDir t) :
    (g.generate (g.generate t s).2 s).1 = (g.generate t s).1.map Artifact.kept ∧
      ∀ l, (g.generate (g.generate t s).2 s).2.look l = (g.generate t s).2.look l := by
  cases hdraft : g.draft s with
  | error e =>
    rw [generate_of_no_draft hdraft, generate_of_no_draft hdraft]
    exact ⟨rfl, fun l => rfl⟩
  | ok d =>
    obtain ⟨hresult, hsettled⟩ := settledAt_generate hbuiltin htemplate hdraft hslash hready
    obtain ⟨hresult', hsettled'⟩ := settledAt_generate hbuiltin htemplate hdraft hslash
      (hsettled.ready hready)
    -- The first run decides what the second meets at the two places.
    have hfate : (g.generate t s).2.fate g.outDir (template.fileName s.stem) d.text =
        ⟨(t.fate g.outDir (template.fileName s.stem) d.text).result.map fun _ => false,
          (t.fate g.outDir (template.fileName s.stem) d.text).place,
          (t.fate g.outDir (template.fileName s.stem) d.text).draft⟩ := by
      conv_lhs => unfold FileTree.fate
      rw [hsettled.look_place, hsettled.look_draft]
      exact FileTree.settle_settle ..
    constructor
    · rw [hresult', hresult, hfate, report_kept]
    · intro l
      rw [hsettled'.look, hfate, FileTree.origin_of_here hsettled.here, hsettled.look]
      dsimp only
      split
      · rfl
      · split <;> rfl

/-- In a directory that is there, schemas with different stems do not interfere. -/
theorem independent_of_ready (v : FileTree) (hstems : (ss.map Schema.stem).Nodup)
    (hslash : ∀ s ∈ ss, '/' ∉ s.stem.toList) :
    Independent g (fun t => FileTree.Ready g.outDir t ∧ t.here = v.here)
      (placesIn (v.origin g.outDir.isRooted ++ g.outDir.names) template) ss where
  confined s hs := local_generate hbuiltin htemplate (hslash s hs) v
  apart := (List.pairwise_map.1 hstems).imp fun hne l hl => placesIn_apart hne hl
  settled s hs t ht := by
    obtain ⟨hresult, hlook⟩ := generate_generate hbuiltin htemplate (hslash s hs) ht.1
    exact ⟨hresult, fun l _ => hlook l⟩
  here _ _ ht hu := ht.2.trans hu.2.symm

end InReadyDirectory

/-- Schemas of which none can be made in a tree do not interfere there. -/
theorem independent_of_refused (hrefused : ∀ s ∈ ss, ∃ e, g.generate t s = (.error e, t)) :
    Independent g (fun u => u = t) (fun _ _ => False) ss where
  confined s hs := by
    obtain ⟨e, he⟩ := hrefused s hs
    refine ⟨?_, ?_, ?_⟩
    · rintro u rfl
      rw [he]
    · rintro u l rfl -
      rw [he]
    · rintro u v rfl rfl -
      exact ⟨rfl, fun l hl => hl.elim⟩
  apart := List.pairwise_of_forall fun _ _ _ hl => hl.elim
  settled s hs u hu := by
    subst hu
    obtain ⟨e, he⟩ := hrefused s hs
    rw [he, he]
    exact ⟨rfl, fun l hl => hl.elim⟩
  here := by
    rintro u v rfl rfl
    rfl

/-! ## The directory of a batch -/

section Prepared

variable {receiver cratePath : String} {d : Draft}
  (hbuiltin : g.renderer = Renderer.builtin receiver cratePath) (hup : ".." ∉ g.outDir.pieces)
  (hgrounded : t.Grounded)

include hbuiltin hup hgrounded

/-- A schema that is rendered fares as if the directory had been created before. -/
theorem generate_prepare (hdraft : g.draft s = .ok d) (hslash : '/' ∉ s.stem.toList) :
    g.generate t s = g.generate (t.prepare g.outDir).2 s := by
  obtain ⟨template, -, hpath⟩ := exists_template_of_draft hbuiltin hdraft
  rw [generate_of_draft hdraft, generate_of_draft hdraft, hpath,
    FileTree.writeArtifact_prepare hup hgrounded (template.isName_fileName hslash)]

/-- If any schema is rendered, a batch comes to the same as if the directory had been created before. -/
theorem outcomes_prepare (hslash : ∀ s ∈ ss, '/' ∉ s.stem.toList)
    (hany : ∃ s ∈ ss, ∃ d, g.draft s = .ok d) :
    g.outcomes t ss = g.outcomes (t.prepare g.outDir).2 ss := by
  induction ss with
  | nil =>
    obtain ⟨s, hs, -⟩ := hany
    exact absurd hs List.not_mem_nil
  | cons s rest ih =>
    unfold outcomes
    cases hdraft : g.draft s with
    | ok d => rw [generate_prepare hbuiltin hup hgrounded hdraft (hslash s (List.mem_cons_self ..))]
    | error e =>
      have hany' : ∃ s ∈ rest, ∃ d, g.draft s = .ok d := by
        obtain ⟨s', hs', d, hd⟩ := hany
        rcases List.mem_cons.mp hs' with rfl | hs'
        · rw [hdraft] at hd
          cases hd
        · exact ⟨s', hs', d, hd⟩
      rw [generate_of_no_draft hdraft, generate_of_no_draft hdraft]
      dsimp only
      rw [ih (fun s' hs' => hslash s' (List.mem_cons_of_mem s hs')) hany']

/-- Whatever the tree is like, a batch of schemas with different stems comes to the same as one in a
tree where they do not interfere. -/
theorem exists_independent (hstems : (ss.map Schema.stem).Nodup)
    (hslash : ∀ s ∈ ss, '/' ∉ s.stem.toList) :
    ∃ v keep places, keep v ∧ Independent g keep places ss ∧
      (∀ first : List Schema, first.Perm ss → g.outcomes t first = g.outcomes v first) ∧
      ∀ s ∈ ss, (g.generate t s).1 = (g.generate v s).1 := by
  by_cases hany : ∃ s ∈ ss, ∃ d, g.draft s = .ok d
  · refine ⟨(t.prepare g.outDir).2, ?_⟩
    have hsame : (∀ first : List Schema, first.Perm ss →
          g.outcomes t first = g.outcomes (t.prepare g.outDir).2 first) ∧
        ∀ s ∈ ss, (g.generate t s).1 = (g.generate (t.prepare g.outDir).2 s).1 := by
      constructor
      · intro first hfirst
        obtain ⟨s, hs, hdraft⟩ := hany
        exact outcomes_prepare hbuiltin hup hgrounded (fun s hs => hslash s (hfirst.mem_iff.1 hs))
          ⟨s, hfirst.mem_iff.2 hs, hdraft⟩
      · intro s hs
        cases hdraft : g.draft s with
        | ok d => rw [generate_prepare hbuiltin hup hgrounded hdraft (hslash s hs)]
        | error e => rw [generate_of_no_draft hdraft, generate_of_no_draft hdraft]
    obtain ⟨s, -, d, hdraft⟩ := hany
    obtain ⟨template, htemplate, -⟩ := exists_template_of_draft hbuiltin hdraft
    generalize hmade : t.prepare g.outDir = made at hsame ⊢
    obtain ⟨result, v⟩ := made
    obtain ⟨hmore, ⟨-, hready⟩ | ⟨e, -, hrefused⟩⟩ := FileTree.prepare_cases hup hgrounded hmade
    · exact ⟨_, _, ⟨hready, rfl⟩,
        independent_of_ready hbuiltin htemplate v hstems hslash, hsame⟩
    · refine ⟨fun u => u = v, _, rfl, independent_of_refused fun s hs => ?_, hsame⟩
      cases hdraft : g.draft s with
      | error e => exact ⟨e, generate_of_no_draft hdraft v⟩
      | ok d =>
        obtain ⟨template, -, hpath⟩ := exists_template_of_draft hbuiltin hdraft
        rw [generate_of_draft hdraft, hpath, FileTree.writeArtifact_of_refused hup
          (hmore.grounded hgrounded) (template.isName_fileName (hslash s hs)) hrefused]
        exact ⟨_, rfl⟩
  · refine ⟨t, fun u => u = t, _, rfl, independent_of_refused fun s hs => ?_, fun _ _ => rfl,
      fun _ _ => rfl⟩
    cases hdraft : g.draft s with
    | error e => exact ⟨e, generate_of_no_draft hdraft t⟩
    | ok d => exact absurd ⟨s, hs, d, hdraft⟩ hany

end Prepared

/-- Schemas with different stems get their artifacts in any order: the report tells of each what would
have become of it alone, and the order does not show in the tree. A second batch, in any order,
changes nothing; it finds every artifact as it was left and fails where the first one did. Of the tree
nothing is assumed but that the place from which relative paths start is a directory. -/
theorem generateAll_any_order {receiver cratePath : String} {first again : List Schema}
    (hbuiltin : g.renderer = Renderer.builtin receiver cratePath)
    (hup : Path.Part.up ∉ g.outDir.parts) (hgrounded : t.Grounded)
    (hstems : (ss.map Schema.stem).Nodup) (hslash : ∀ s ∈ ss, '/' ∉ s.stem.toList)
    (hfirst : first.Perm ss) (hagain : again.Perm ss) :
    let run := g.generateAll .continueIndependent
    (run t first).1 = Report.ofOutcomes (first.map fun s => (s, (g.generate t s).1)) ∧
      (run t first).2.Same (run t ss).2 ∧
      (run (run t first).2 again).1 =
        Report.ofOutcomes (again.map fun s => (s, (g.generate t s).1.map Artifact.kept)) ∧
      (run (run t first).2 again).2.Same (run t first).2 := by
  obtain ⟨v, keep, places, hkeep, hindependent, houtcomes, hgenerate⟩ :=
    exists_independent hbuiltin (Path.notMem_pieces_of_parts hup) hgrounded hstems hslash
  have hindependent' := hindependent.perm hfirst
  have hagain' : again.Perm first := hagain.trans hfirst.symm
  obtain ⟨hresults, hsame⟩ := hindependent'.outcomes_after hkeep hagain'
  have hfates : ∀ s ∈ first, (g.generate v s).1 = (g.generate t s).1 :=
    fun s hs => (hgenerate s (hfirst.mem_iff.1 hs)).symm
  dsimp only
  rw [generateAll_eq, generateAll_eq, generateAll_eq, houtcomes first hfirst,
    houtcomes ss (List.Perm.refl ss)]
  refine ⟨?_, hindependent.same hkeep hfirst, ?_, hsame⟩
  · dsimp only
    rw [hindependent'.outcomes_eq hkeep]
    refine congrArg Report.ofOutcomes (List.map_congr_left fun s hs => ?_)
    rw [hfates s hs]
  · dsimp only
    rw [hresults]
    refine congrArg Report.ofOutcomes (List.map_congr_left fun s hs => ?_)
    rw [hfates s (hagain'.mem_iff.1 hs)]

end Generator

/-- A page with a user, given by an operation. -/
def Schema.page (name operation : String) : Schema :=
  { name := name
    output := some "Page"
    groups := [⟨false, [⟨operation, none, none, none, false, false⟩]⟩]
    outFile := none }

namespace Generator

/-- A generator over one operation that gives a user. -/
def pageGenerator : Generator :=
  { catalog :=
      { scope := "db"
        operations := Table.ofList [("GetUser", ⟨"GetUser", .none, .value .single "User" ∅, none⟩)]
        types := Table.ofList [("Page", Table.ofList [("user", "User")])] }
    scope? := none
    outDir := ⟨"gen"⟩
    template := "multi_query"
    renderer := Renderer.builtin "Queries" "querygen" }

/-- The directory is missing at first, and the operation of the second page does not exist. -/
theorem generateAll_any_order_pages :
    let g := pageGenerator
    let ss := [.page "UserPage" "GetUser", .page "PostPage" "GetPost", .page "HomePage" "GetUser"]
    let t := FileTree.empty []
    let run := g.generateAll .continueIndependent
    ss.map (fun s => (g.plan s).toOption.isSome) = [true, false, true] ∧
      t.look ["gen"] = .nothing ∧ t.Grounded ∧ Path.Part.up ∉ g.outDir.parts ∧
      (ss.map Schema.stem).Nodup ∧ (∀ s ∈ ss, '/' ∉ s.stem.toList) ∧
      (run t ss.reverse).1 = Report.ofOutcomes (ss.reverse.map fun s => (s, (g.generate t s).1)) ∧
      (run t ss.reverse).2.Same (run t ss).2 ∧
      (run (run t ss.reverse).2 ss).1 =
        Report.ofOutcomes (ss.map fun s => (s, (g.generate t s).1.map Artifact.kept)) ∧
      (run (run t ss.reverse).2 ss).2.Same (run t ss.reverse).2 :=
  ⟨by decide +kernel, by decide +kernel, rfl, by decide +kernel, by decide +kernel,
    by decide +kernel,
    generateAll_any_order rfl (by decide +kernel) rfl (by decide +kernel) (by decide +kernel)
      (List.reverse_perm _) (List.Perm.refl _)⟩

end Generator

end Orchestration
