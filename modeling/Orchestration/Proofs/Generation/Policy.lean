import Orchestration.Proofs.Generation.Clash
import Orchestration.Proofs.Generation.Writing

/-!
# Batches under a failure policy

A batch attempts its schemas in order, each in the tree that the one before it left, and stops early
only if its policy says so. The report has every schema once, as generated, failed or skipped, in the
order of the batch. A schema that fails leaves the tree as it was, unless it fails while its artifact
is written, and then every artifact that was there keeps its text.
-/

namespace Orchestration

variable {g : Generator} {s : Schema} {ss left : List Schema} {t u v : FileTree} {p : Path}
  {e : GenerationError} {error : FileError} {d : Draft} {r : Report} {extension : String}

/-! ## Attempts -/

/-- An attempt at the artifact of a schema. -/
structure Attempt where
  schema : Schema
  /-- The tree that the attempt found. -/
  before : FileTree
  result : Except GenerationError Artifact
  /-- The tree that the attempt left. -/
  after : FileTree

/-- Whether there is an artifact. -/
def Attempt.Succeeds (a : Attempt) : Prop :=
  ∃ artifact, a.result = .ok artifact

/-- Attempts one after another, each in the tree that the one before it left. -/
inductive Generator.Attempts (g : Generator) : FileTree → List Attempt → FileTree → Prop
  | nil (t : FileTree) : Attempts g t [] t
  | cons {t v u : FileTree} {s : Schema} {result : Except GenerationError Artifact}
      {attempts : List Attempt} (first : g.generate t s = (result, v))
      (rest : Attempts g v attempts u) : Attempts g t (⟨s, t, result, v⟩ :: attempts) u

/-- The report of some attempts and of the schemas that were not attempted. -/
def Report.ofAttempts (attempts : List Attempt) (left : List Schema) : Report :=
  { generated := attempts.filterMap fun a => a.result.toOption
    failed := attempts.filterMap fun a =>
      match a.result with
      | .error e => some (a.schema.name, e)
      | .ok _ => none
    skipped := left.map Schema.name }

/-- Where a batch ends: at the first attempt that fails, or where there are no more schemas. -/
def FailurePolicy.Ends : FailurePolicy → List Attempt → List Schema → Prop
  | .continueIndependent, _, left => left = []
  | .stopOnFirst, attempts, left =>
    (left = [] ∧ ∀ a ∈ attempts, a.Succeeds) ∨
      ∃ before last, attempts = before ++ [last] ∧ (∀ a ∈ before, a.Succeeds) ∧ ¬ last.Succeeds

theorem FailurePolicy.Ends.cons {policy : FailurePolicy} {attempts : List Attempt} {a : Attempt}
    (h : policy.Ends attempts left) (ha : policy = .stopOnFirst → a.Succeeds) :
    policy.Ends (a :: attempts) left := by
  cases policy with
  | continueIndependent => exact h
  | stopOnFirst =>
    have ha := ha rfl
    rcases h with ⟨hleft, hall⟩ | ⟨before, last, rfl, hbefore, hlast⟩
    · exact Or.inl ⟨hleft, List.forall_mem_cons.2 ⟨ha, hall⟩⟩
    · exact Or.inr ⟨a :: before, last, rfl, List.forall_mem_cons.2 ⟨ha, hbefore⟩, hlast⟩

theorem failed_of_succeeds {attempts : List Attempt} (h : ∀ a ∈ attempts, a.Succeeds)
    (left : List Schema) : (Report.ofAttempts attempts left).failed = [] := by
  refine List.filterMap_eq_nil_iff.2 fun a ha => ?_
  obtain ⟨artifact, hok⟩ := h a ha
  rw [hok]

/-- A batch that stops at the first failure reports no other. -/
theorem length_failed_le {attempts : List Attempt} (h : FailurePolicy.stopOnFirst.Ends attempts left) :
    (Report.ofAttempts attempts left).failed.length ≤ 1 := by
  rcases h with ⟨-, hall⟩ | ⟨before, last, rfl, hbefore, -⟩
  · rw [failed_of_succeeds hall]
    exact Nat.zero_le 1
  · have hnone : (Report.ofAttempts before left).failed = [] := failed_of_succeeds hbefore left
    rw [Report.ofAttempts] at hnone ⊢
    dsimp only at hnone ⊢
    rw [List.filterMap_append, hnone, List.nil_append]
    exact List.length_filterMap_le _ [last]

namespace Generator

/-- A batch is a run of attempts that ends as its policy says, and its report is that of the run. -/
theorem exists_attempts (g : Generator) (policy : FailurePolicy) (t : FileTree) (ss : List Schema) :
    ∃ attempts left, ss = attempts.map Attempt.schema ++ left ∧
      g.Attempts t attempts (g.generateAll policy t ss).2 ∧
      (g.generateAll policy t ss).1 = Report.ofAttempts attempts left ∧
      policy.Ends attempts left := by
  induction ss generalizing t with
  | nil =>
    refine ⟨[], [], rfl, .nil t, rfl, ?_⟩
    cases policy with
    | continueIndependent => rfl
    | stopOnFirst => exact Or.inl ⟨rfl, List.forall_mem_nil _⟩
  | cons s rest ih =>
    rw [generateAll]
    rcases hfirst : g.generate t s with ⟨e | artifact, v⟩
    · cases policy with
      | stopOnFirst =>
        refine ⟨[⟨s, t, .error e, v⟩], rest, rfl, .cons hfirst (.nil v), rfl, Or.inr ?_⟩
        refine ⟨[], _, rfl, List.forall_mem_nil _, ?_⟩
        rintro ⟨artifact, hok⟩
        cases hok
      | continueIndependent =>
        obtain ⟨attempts, left, hss, hrun, hreport, hends⟩ := ih v
        refine ⟨⟨s, t, .error e, v⟩ :: attempts, left, congrArg (s :: ·) hss, .cons hfirst hrun, ?_,
          hends.cons (by rintro ⟨⟩)⟩
        dsimp only
        rw [hreport]
        rfl
    · obtain ⟨attempts, left, hss, hrun, hreport, hends⟩ := ih v
      refine ⟨⟨s, t, .ok artifact, v⟩ :: attempts, left, congrArg (s :: ·) hss, .cons hfirst hrun, ?_,
        hends.cons fun _ => ⟨artifact, rfl⟩⟩
      dsimp only
      rw [hreport]
      rfl

end Generator

/-! ## Every schema is reported once -/

/-- Taking the entries of a report one by one, in the order in which each list has them, accounts for
every schema. -/
inductive Report.Accounts : Report → List Schema → Prop
  | nil : Accounts ⟨[], [], []⟩ []
  | generated {r : Report} {s : Schema} {ss : List Schema} (a : Artifact) (named : a.schema = s.name)
      (rest : Accounts r ss) : Accounts { r with generated := a :: r.generated } (s :: ss)
  | failed {r : Report} {s : Schema} {ss : List Schema} (e : GenerationError)
      (rest : Accounts r ss) : Accounts { r with failed := (s.name, e) :: r.failed } (s :: ss)
  | skipped {r : Report} {s : Schema} {ss : List Schema} (rest : Accounts r ss) :
      Accounts { r with skipped := s.name :: r.skipped } (s :: ss)

theorem accounts_ofAttempts {attempts : List Attempt} (h : g.Attempts t attempts u)
    (left : List Schema) :
    (Report.ofAttempts attempts left).Accounts (attempts.map Attempt.schema ++ left) := by
  induction h with
  | nil t =>
    induction left with
    | nil => exact .nil
    | cons s rest ih => exact .skipped ih
  | @cons t v u s result attempts first rest ih =>
    cases result with
    | error e => exact .failed e ih
    | ok artifact => exact .generated artifact (Generator.path_of_generate first).1 ih

/-! ## What a failure leaves -/

/-- A failure before anything is written changes nothing. If writing fails, every file that is where an
artifact may be keeps its text. -/
structure Attempt.FailsSafely (g : Generator) (a : Attempt) : Prop where
  unwritten : ∀ e, a.result = .error e → (∀ p error, e ≠ .write p error) → a.after = a.before
  kept : ∀ p error, a.result = .error (.write p error) →
    ∀ template extension, g.renderer.extension template = .ok extension → ∀ dir stem old,
      a.before.read (Path.artifact dir stem extension) = .ok old →
        a.after.read (Path.artifact dir stem extension) = .ok old

/-- The renderers that are there: the built-in one, and one that fails at every plan. -/
def Renderer.IsKnown (r : Renderer) : Prop :=
  (∃ receiver cratePath, r = Renderer.builtin receiver cratePath) ∨ r = Renderer.failing

/-- No artifact's path ends as those of drafts do. -/
theorem Renderer.IsKnown.extension_ends {r : Renderer} (h : r.IsKnown) {template : String}
    (hextension : r.extension template = .ok extension) :
    ∃ c, extension.toList.getLast? = some c ∧ c ≠ '/' ∧ c ≠ 'p' := by
  rcases h with ⟨receiver, cratePath, rfl⟩ | rfl
  · rw [Renderer.builtin] at hextension
    dsimp only at hextension
    cases htemplate : Render.template template with
    | error e =>
      rw [htemplate] at hextension
      cases hextension
    | ok known =>
      rw [htemplate] at hextension
      cases hextension
      cases known
      · exact ⟨'s', rfl, by decide, by decide⟩
      · exact ⟨'n', rfl, by decide, by decide⟩
  · cases hextension
    exact ⟨'t', rfl, by decide, by decide⟩

theorem Generator.draft_ne_write (g : Generator) (s : Schema) (p : Path) (error : FileError) :
    g.draft s ≠ .error (.write p error) := by
  unfold Generator.draft
  split
  · exact fun h => nomatch h
  · split
    · exact fun h => nomatch h
    · exact fun h => nomatch h

theorem Generator.retains_generate (g : Generator) (hg : t.Grounded) (s : Schema) :
    t.Retains (g.generate t s).2 := by
  cases hdraft : g.draft s with
  | error e =>
    rw [generate_of_no_draft hdraft]
    exact FileTree.Retains.rfl t
  | ok d =>
    rw [generate_of_draft hdraft]
    exact (FileTree.written_writeArtifact hg d.path d.text).retains

theorem failsSafely_generate (hrenderer : g.renderer.IsKnown) (hg : t.Grounded)
    {result : Except GenerationError Artifact} (h : g.generate t s = (result, u)) :
    (⟨s, t, result, u⟩ : Attempt).FailsSafely g := by
  cases hdraft : g.draft s with
  | error e =>
    rw [Generator.generate_of_no_draft hdraft] at h
    cases h
    constructor
    case unwritten => exact fun _ _ _ => rfl
    case kept =>
      intro p error herror
      cases herror
      exact absurd hdraft (g.draft_ne_write s p error)
  | ok d =>
    have hwritten := FileTree.written_writeArtifact hg d.path d.text
    rw [Generator.generate_of_draft hdraft] at h
    cases h
    cases hwrite : (t.writeArtifact d.path d.text).1 with
    | ok written => exact ⟨fun _ he => (by cases he), fun _ _ he => (by cases he)⟩
    | error error =>
      constructor
      case unwritten =>
        intro e he hnot
        cases he
        exact absurd rfl (hnot d.path error)
      case kept =>
        intro p _ _ template extension hextension dir stem old hread
        obtain ⟨c, hends, hslash, hdraft⟩ := hrenderer.extension_ends hextension
        have hpath : (Path.artifact dir stem extension).text.toList.getLast? = some c := by
          refine Path.getLast?_text_join dir ?_
          rw [String.toList_append, List.getLast?_append_of_ne_nil, hends]
          intro hnil
          rw [hnil] at hends
          cases hends
        exact hwritten.read_of_error hg hwrite hpath hslash hdraft hread

/-- Every attempt of a run fails safely if it fails. -/
theorem Generator.Attempts.failsSafely {attempts : List Attempt} (h : g.Attempts t attempts u)
    (hrenderer : g.renderer.IsKnown) (hg : t.Grounded) : ∀ a ∈ attempts, a.FailsSafely g := by
  induction h with
  | nil t => exact List.forall_mem_nil _
  | @cons t v u s result attempts first rest ih =>
    have hkept := g.retains_generate hg s
    rw [first] at hkept
    exact List.forall_mem_cons.2
      ⟨failsSafely_generate hrenderer hg first, ih (hkept.grounded hg)⟩

namespace Generator

/-- A batch attempts its schemas in order up to where its policy ends it, and leaves out the rest. Every
schema is reported once, and no failure harms what was there. -/
theorem generateAll_by_policy (hrenderer : g.renderer.IsKnown) (hg : t.Grounded)
    (policy : FailurePolicy) (ss : List Schema) :
    let run := g.generateAll policy t ss
    ∃ attempts left, ss = attempts.map Attempt.schema ++ left ∧ g.Attempts t attempts run.2 ∧
      run.1 = Report.ofAttempts attempts left ∧ policy.Ends attempts left ∧
      (policy = .stopOnFirst → run.1.failed.length ≤ 1) ∧ run.1.Accounts ss ∧
      ∀ a ∈ attempts, a.FailsSafely g := by
  obtain ⟨attempts, left, hss, hrun, hreport, hends⟩ := g.exists_attempts policy t ss
  refine ⟨attempts, left, hss, hrun, hreport, hends, ?_, ?_, hrun.failsSafely hrenderer hg⟩
  · rintro rfl
    rw [hreport]
    exact length_failed_le hends
  · rw [hreport, hss]
    exact accounts_ofAttempts hrun left

/-- The second of three pages has no operation, so the third is left out. -/
theorem generateAll_by_policy_pages :
    let g := pageGenerator
    let ss := [.page "UserPage" "GetUser", .page "PostPage" "GetPost", .page "HomePage" "GetUser"]
    let t := FileTree.empty []
    let run := g.generateAll .stopOnFirst t ss
    ss.map (fun s => (g.plan s).toOption.isSome) = [true, false, true] ∧
      g.renderer.IsKnown ∧ t.Grounded ∧
      ∃ attempts left, ss = attempts.map Attempt.schema ++ left ∧ g.Attempts t attempts run.2 ∧
        run.1 = Report.ofAttempts attempts left ∧ FailurePolicy.stopOnFirst.Ends attempts left ∧
        (FailurePolicy.stopOnFirst = .stopOnFirst → run.1.failed.length ≤ 1) ∧ run.1.Accounts ss ∧
        ∀ a ∈ attempts, a.FailsSafely g :=
  have hrenderer : pageGenerator.renderer.IsKnown := Or.inl ⟨"Queries", "querygen", rfl⟩
  have hgrounded : (FileTree.empty []).Grounded := rfl
  ⟨by decide +kernel, hrenderer, hgrounded,
    generateAll_by_policy hrenderer hgrounded .stopOnFirst _⟩

end Generator

end Orchestration
