import Orchestration.Proofs.Files.Path
import Orchestration.Proofs.Files.Tree

/-!
# Creating directories

A path without `..` leads through its names, one directory after another. Creating a directory with
all that are missing above it changes no place where anything was; what it adds are directories. If
the path can be followed already nothing changes, and doing it again gives the same result and changes
nothing.
-/

namespace Orchestration

namespace FileTree

variable {t u : FileTree} {l l' dir : Location} {s name : String} {ss ns before back : List String}
  {p : Path} {e : FileError} {rooted : Bool}

/-! ## Following names -/

theorem walk_append (t : FileTree) (l : Location) (ss ss' : List String) :
    t.walk l (ss ++ ss') =
      match t.walk l ss with
      | .error e => .error e
      | .ok l' => t.walk l' ss' := by
  induction ss generalizing l with
  | nil => rfl
  | cons s rest ih =>
    rw [List.cons_append, walk, walk]
    cases t.step l s with
    | error e => rfl
    | ok l' => exact ih l'

/-- A dot stays where it is. -/
theorem walk_filter (t : FileTree) (l : Location) (ss : List String) :
    t.walk l (ss.filter fun s => s ≠ ".") = t.walk l ss := by
  induction ss generalizing l with
  | nil => rfl
  | cons s rest ih =>
    by_cases hs : s = "."
    · have hstep : t.step l s = .ok l := by rw [step, if_pos hs]
      rw [List.filter_cons, if_neg (by simp [hs]), walk, hstep]
      exact ih l
    · rw [List.filter_cons, if_pos (by simpa using hs), walk, walk]
      cases t.step l s with
      | error e => rfl
      | ok l' => exact ih l'

/-- Names of entries, as opposed to dots and double dots. -/
def AreNames (ns : List String) : Prop :=
  ∀ s ∈ ns, s ≠ "." ∧ s ≠ ".."

theorem step_name (hhere : s ≠ ".") (hup : s ≠ "..") : t.step l s =
    if Path.maxNameSize < s.utf8ByteSize then .error .nameTooLong
    else
      match t.look (l ++ [s]) with
      | .nothing => .error .notFound
      | .file _ => .error .notDirectory
      | .directory => .ok (l ++ [s]) := by
  rw [step, if_neg hhere, if_neg hup, look]
  split
  · rfl
  · rcases t.find? (l ++ [s]) with _ | (text | es)
    · rfl
    · rfl
    · rfl

theorem step_eq_ok (hhere : s ≠ ".") (hup : s ≠ "..") (h : t.step l s = .ok l') :
    l' = l ++ [s] ∧ s.utf8ByteSize ≤ Path.maxNameSize ∧ t.look (l ++ [s]) = .directory := by
  rw [step_name hhere hup] at h
  split at h
  · cases h
  · split at h
    · cases h
    · cases h
    · rename_i hsize _ hlook
      cases h
      exact ⟨rfl, Nat.not_lt.1 hsize, hlook⟩

/-- Names lead to the place that they name, which is a directory. -/
theorem walk_eq_ok (hns : AreNames ns) (hl : t.look l = .directory) (h : t.walk l ns = .ok l') :
    l' = l ++ ns ∧ t.look l' = .directory := by
  induction ns generalizing l with
  | nil =>
    cases h
    exact ⟨(List.append_nil _).symm, hl⟩
  | cons s rest ih =>
    obtain ⟨hhere, hup⟩ := hns s (List.mem_cons_self ..)
    rw [walk] at h
    cases hstep : t.step l s with
    | error e =>
      rw [hstep] at h
      cases h
    | ok l₁ =>
      rw [hstep] at h
      obtain ⟨rfl, -, hlook⟩ := step_eq_ok hhere hup hstep
      obtain ⟨hl', hdir⟩ := ih (fun x hx => hns x (List.mem_cons_of_mem s hx)) hlook h
      rw [List.append_assoc] at hl'
      exact ⟨hl', hdir⟩

/-- Where directories stay, a step leads where it led. -/
theorem step_of_kept (hkept : ∀ l, t.look l = .directory → u.look l = .directory)
    (h : t.step l s = .ok l') : u.step l s = .ok l' := by
  by_cases hhere : s = "."
  · rw [step, if_pos hhere] at h ⊢
    exact h
  · by_cases hup : s = ".."
    · rw [step, if_neg hhere, if_pos hup] at h ⊢
      exact h
    · obtain ⟨rfl, hsize, hlook⟩ := step_eq_ok hhere hup h
      rw [step_name hhere hup, if_neg (Nat.not_lt.2 hsize), hkept _ hlook]

/-- Where directories stay, steps lead where they led. -/
theorem walk_of_kept (hkept : ∀ l, t.look l = .directory → u.look l = .directory)
    (h : t.walk l ss = .ok l') : u.walk l ss = .ok l' := by
  induction ss generalizing l with
  | nil => exact h
  | cons s rest ih =>
    rw [walk] at h ⊢
    cases hstep : t.step l s with
    | error e =>
      rw [hstep] at h
      cases h
    | ok l₁ =>
      rw [hstep] at h
      rw [step_of_kept hkept hstep]
      exact ih h

/-- Names that lead somewhere in one tree do so in every tree with a directory there. -/
theorem walk_of_look (hns : AreNames ns) (hu : u.walk l ns = .ok l')
    (hlook : t.look (l ++ ns) = .directory) : t.walk l ns = .ok l' := by
  induction ns generalizing l with
  | nil => exact hu
  | cons s rest ih =>
    obtain ⟨hhere, hup⟩ := hns s (List.mem_cons_self ..)
    have hassoc : l ++ s :: rest = (l ++ [s]) ++ rest := by simp
    rw [hassoc] at hlook
    have hfirst : t.look (l ++ [s]) = .directory := by
      by_contra hnot
      by_cases hrest : rest = []
      · rw [hrest, List.append_nil] at hlook
        exact hnot hlook
      · rw [look_append_of_ne_directory hnot hrest] at hlook
        cases hlook
    rw [walk] at hu ⊢
    cases hstep : u.step l s with
    | error e =>
      rw [hstep] at hu
      cases hu
    | ok l₁ =>
      rw [hstep] at hu
      obtain ⟨rfl, hsize, -⟩ := step_eq_ok hhere hup hstep
      have hstep' : t.step l s = .ok (l ++ [s]) := by
        rw [step_name hhere hup, if_neg (Nat.not_lt.2 hsize), hfirst]
      rw [hstep']
      exact ih (fun x hx => hns x (List.mem_cons_of_mem s hx)) hu hlook

/-- Where names lead nowhere because one is missing, nothing is at the place that they name. -/
theorem look_of_walk_notFound (hns : AreNames ns) (h : t.walk l ns = .error .notFound) :
    t.look (l ++ ns) = .nothing := by
  induction ns generalizing l with
  | nil => cases h
  | cons s rest ih =>
    obtain ⟨hhere, hup⟩ := hns s (List.mem_cons_self ..)
    have hassoc : l ++ s :: rest = (l ++ [s]) ++ rest := by simp
    rw [hassoc]
    rw [walk, step_name hhere hup] at h
    split at h
    · rename_i heq
      split at heq
      · cases heq
        cases h
      · split at heq
        · rename_i hlook
          by_cases hrest : rest = []
          · rw [hrest, List.append_nil, hlook]
          · refine look_append_of_ne_directory ?_ hrest
            rw [hlook]
            exact fun h => nomatch h
        · cases heq
          cases h
        · cases heq
    · rename_i l₁ heq
      split at heq
      · cases heq
      · split at heq
        · cases heq
        · cases heq
        · cases heq
          exact ih (fun x hx => hns x (List.mem_cons_of_mem s hx)) h

theorem walk_singleton (t : FileTree) (l : Location) (s : String) : t.walk l [s] = t.step l s := by
  rw [walk]
  cases t.step l s <;> rfl

theorem walk_concat_of_error (h : t.walk l ns = .error e) : t.walk l (ns ++ [s]) = .error e := by
  rw [walk_append, h]

theorem walk_concat (hhere : s ≠ ".") (hup : s ≠ "..") (h : t.walk l ns = .ok l') :
    t.walk l (ns ++ [s]) =
      if Path.maxNameSize < s.utf8ByteSize then .error .nameTooLong
      else
        match t.look (l' ++ [s]) with
        | .nothing => .error .notFound
        | .file _ => .error .notDirectory
        | .directory => .ok (l' ++ [s]) := by
  rw [walk_append, h]
  dsimp only
  rw [walk_singleton, step_name hhere hup]

/-! ## Paths that end in a name -/

/-- Where paths start. -/
def origin (t : FileTree) (rooted : Bool) : Location :=
  if rooted then [] else t.here

theorem origin_of_here (h : u.here = t.here) (rooted : Bool) :
    u.origin rooted = t.origin rooted := by
  rw [origin, origin, h]

/-- The place from which relative paths start is a directory. -/
def Grounded (t : FileTree) : Prop :=
  t.look t.here = .directory

theorem Grounded.look_origin (h : t.Grounded) (rooted : Bool) :
    t.look (t.origin rooted) = .directory := by
  cases rooted with
  | false => exact h
  | true =>
    show t.look [] = .directory
    by_contra hroot
    by_cases hhere : t.here = []
    · rw [Grounded, hhere] at h
      exact hroot h
    · have hnothing := look_append_of_ne_directory hroot hhere
      rw [List.nil_append, show t.look t.here = .directory from h] at hnothing
      cases hnothing

/-- What a path asks for whose last step is a name. -/
theorem target_of_steps (hsteps : p.steps = ss ++ [s]) (hhere : s ≠ ".") (hup : s ≠ "..")
    (hfault : p.fault? = none) :
    t.target p =
      match t.walk (t.origin p.isRooted) (ss.filter fun s => s ≠ ".") with
      | .error e => .error e
      | .ok dir =>
        if Path.maxNameSize < s.utf8ByteSize then .error .nameTooLong
        else .ok (.entry dir s p.endsInSlash) := by
  have hlast : p.steps.getLast? = some s := by rw [hsteps, List.getLast?_concat]
  have hfront : p.steps.dropLast = ss := by rw [hsteps, List.dropLast_concat]
  have hstart : t.start p = t.origin p.isRooted := rfl
  rw [target, hfault, hfront, hstart, walk_filter, hlast]
  dsimp only
  cases t.walk (t.origin p.isRooted) ss with
  | error e => rfl
  | ok dir =>
    dsimp only
    split
    · rename_i heq
      cases heq
    · rename_i heq
      exact absurd (Option.some.inj heq) hhere
    · rename_i heq
      exact absurd (Option.some.inj heq) hup
    · rename_i heq
      cases heq
      rfl

/-! ## Adding directories -/

/-- The second tree is the first with directories added where nothing was. -/
structure Extends (t u : FileTree) : Prop where
  here : u.here = t.here
  look : ∀ l, u.look l = t.look l ∨ (t.look l = .nothing ∧ u.look l = .directory)

namespace Extends

variable {v : FileTree}

theorem rfl (t : FileTree) : t.Extends t :=
  ⟨Eq.refl _, fun _ => Or.inl (Eq.refl _)⟩

theorem trans (h : t.Extends u) (h' : u.Extends v) : t.Extends v := by
  refine ⟨h'.here.trans h.here, fun l => ?_⟩
  rcases h.look l with heq | ⟨hnothing, hdir⟩
  · rw [← heq]
    exact h'.look l
  · rcases h'.look l with heq' | ⟨hnothing', -⟩
    · exact Or.inr ⟨hnothing, heq'.trans hdir⟩
    · rw [hdir] at hnothing'
      cases hnothing'

theorem look_of_ne_nothing (h : t.Extends u) (hl : t.look l ≠ .nothing) : u.look l = t.look l := by
  rcases h.look l with heq | ⟨hnothing, -⟩
  · exact heq
  · exact absurd hnothing hl

theorem directory (h : t.Extends u) (hl : t.look l = .directory) : u.look l = .directory := by
  rw [h.look_of_ne_nothing, hl]
  rw [hl]
  exact fun heq => nomatch heq

theorem file_iff {text : String} (h : t.Extends u) : u.look l = .file text ↔ t.look l = .file text := by
  rcases h.look l with heq | ⟨hnothing, hdir⟩
  · rw [heq]
  · rw [hnothing, hdir]
    exact ⟨(fun heq => nomatch heq), (fun heq => nomatch heq)⟩

theorem origin (h : t.Extends u) (rooted : Bool) : u.origin rooted = t.origin rooted :=
  origin_of_here h.here rooted

theorem grounded (h : t.Extends u) (hg : t.Grounded) : u.Grounded := by
  show u.look u.here = .directory
  rw [h.here]
  exact h.directory hg

end Extends

theorem extends_put (hdir : t.look dir = .directory) (hplace : t.look (dir ++ [s]) = .nothing) :
    t.Extends (t.put (dir ++ [s]) (.directory [])) := by
  refine ⟨rfl, fun l => ?_⟩
  have hnot : t.look (dir ++ [s]) ≠ .directory := by
    rw [hplace]
    exact fun heq => nomatch heq
  rw [look_put_directory hdir hnot]
  by_cases hl : l = dir ++ [s]
  · rw [if_pos hl, hl]
    exact Or.inr ⟨hplace, rfl⟩
  · rw [if_neg hl]
    exact Or.inl rfl

section OneDirectory

variable (hclean : Path.Clean rooted (s :: before)) (hs : Path.IsName s)
  (hfault : (Path.ofPieces rooted (s :: before)).fault? = none)

include hclean hs hfault

theorem target_ofPieces (t : FileTree) : t.target (Path.ofPieces rooted (s :: before)) =
    match t.walk (t.origin rooted) (Path.namesOf before) with
    | .error e => .error e
    | .ok dir =>
      if Path.maxNameSize < s.utf8ByteSize then .error .nameTooLong
      else .ok (.entry dir s (Path.ofPieces rooted (s :: before)).endsInSlash) := by
  have hsteps := Path.steps_ofPieces hclean hs.nonempty
  rw [target_of_steps hsteps hs.not_here hs.not_up hfault, Path.isRooted_ofPieces hclean,
    Path.filter_steps]

theorem createDirectory_ofPieces (t : FileTree) :
    t.createDirectory (Path.ofPieces rooted (s :: before)) =
      match t.walk (t.origin rooted) (Path.namesOf before) with
      | .error e => .error e
      | .ok dir =>
        if Path.maxNameSize < s.utf8ByteSize then .error .nameTooLong
        else if t.look (dir ++ [s]) = .nothing then .ok (t.put (dir ++ [s]) (.directory []))
        else .error .alreadyExists := by
  rw [createDirectory, target_ofPieces hclean hs hfault]
  cases t.walk (t.origin rooted) (Path.namesOf before) with
  | error e => rfl
  | ok dir =>
    dsimp only
    by_cases hlong : Path.maxNameSize < s.utf8ByteSize
    · rw [if_pos hlong, if_pos hlong]
    · rw [if_neg hlong, if_neg hlong]
      dsimp only
      rw [look]
      rcases t.find? (dir ++ [s]) with _ | (text | es)
      · rfl
      · rfl
      · rfl

theorem isDirectory_ofPieces (t : FileTree) :
    t.isDirectory (Path.ofPieces rooted (s :: before)) =
      match t.walk (t.origin rooted) (Path.namesOf before) with
      | .error _ => false
      | .ok dir => !decide (Path.maxNameSize < s.utf8ByteSize) &&
          decide (t.look (dir ++ [s]) = .directory) := by
  rw [isDirectory, stat, target_ofPieces hclean hs hfault]
  cases t.walk (t.origin rooted) (Path.namesOf before) with
  | error e => rfl
  | ok dir =>
    dsimp only
    by_cases hlong : Path.maxNameSize < s.utf8ByteSize
    · rw [if_pos hlong, decide_eq_true hlong]
      rfl
    · rw [if_neg hlong, decide_eq_false hlong]
      dsimp only
      rw [look]
      rcases t.find? (dir ++ [s]) with _ | (text | es)
      · rfl
      · cases (Path.ofPieces rooted (s :: before)).endsInSlash <;> rfl
      · cases (Path.ofPieces rooted (s :: before)).endsInSlash <;> rfl

end OneDirectory

/-- A path that stands for where paths start is there already. -/
theorem createAll_of_reached (hne : p.text ≠ "") (htarget : t.target p = .ok (.reached l))
    (hl : t.look l = .directory) (above : List Path) : t.createAll (p :: above) = (.ok (), t) := by
  obtain ⟨es, hes⟩ := look_eq_directory_iff.1 hl
  have hcreate : t.createDirectory p = .error .alreadyExists := by rw [createDirectory, htarget]
  have hdir : t.isDirectory p = true := by
    rw [isDirectory, stat, htarget]
    dsimp only
    rw [hes]
    rfl
  rw [createAll, if_neg hne, hcreate]
  dsimp only
  rw [if_pos hdir]

/-- Pieces that never go up, in a path that leads somewhere. -/
structure Passable (rooted : Bool) (back : List String) : Prop where
  clean : Path.Clean rooted back
  not_up : ".." ∉ back
  fault : ∀ s before, s :: before <:+ back → Path.isStep rooted s before = true →
    (Path.ofPieces rooted (s :: before)).fault? = none

namespace Passable

theorem tail (h : Passable rooted (s :: before)) : Passable rooted before := by
  have hsuffix : before <:+ s :: before := List.suffix_cons s before
  refine ⟨h.clean.of_suffix hsuffix, fun hmem => h.not_up (List.mem_cons_of_mem s hmem), ?_⟩
  exact fun s' rest hrest hstep => h.fault s' rest (hrest.trans hsuffix) hstep

/-- A step is a name, or the dot in front of a path that does not start at the root. -/
theorem isName_or (h : Passable rooted (s :: before)) (hstep : Path.isStep rooted s before = true) :
    Path.IsName s ∨ (s = "." ∧ rooted = false ∧ before = []) := by
  by_cases hs : s = "."
  · right
    subst hs
    simpa [Path.isStep] using hstep
  · left
    constructor
    case nonempty =>
      rintro rfl
      simp [Path.isStep] at hstep
    case slashless => exact h.clean.slashless s (List.mem_cons_self ..)
    case not_here => exact hs
    case not_up =>
      rintro rfl
      exact h.not_up (List.mem_cons_self ..)

theorem areNames (h : Passable rooted back) : AreNames (Path.namesOf back) := by
  intro s hs
  rw [Path.namesOf, List.mem_reverse, List.mem_filter] at hs
  obtain ⟨hmem, hkept⟩ := hs
  constructor
  · rintro rfl
    simp at hkept
  · rintro rfl
    exact h.not_up hmem

end Passable

theorem seen_cases (x : Seen) : x = .nothing ∨ x = .directory ∨ ∃ text, x = .file text := by
  cases x with
  | nothing => exact Or.inl rfl
  | directory => exact Or.inr (Or.inl rfl)
  | file text => exact Or.inr (Or.inr ⟨text, rfl⟩)

/-- Make a directory in another. -/
def makeIn (t : FileTree) (dir : Location) (s : String) : Except FileError Unit × FileTree :=
  if Path.maxNameSize < s.utf8ByteSize then (.error .nameTooLong, t)
  else
    match t.look (dir ++ [s]) with
    | .nothing => (.ok (), t.put (dir ++ [s]) (.directory []))
    | .directory => (.ok (), t)
    | .file _ => (.error .alreadyExists, t)

theorem extends_makeIn (hdir : t.look dir = .directory) (s : String) :
    t.Extends (t.makeIn dir s).2 := by
  unfold makeIn
  split
  · exact Extends.rfl t
  · split
    · rename_i hplace
      exact extends_put hdir hplace
    · exact Extends.rfl t
    · exact Extends.rfl t

theorem makeIn_eq_ok (hdir : t.look dir = .directory) (h : t.makeIn dir s = (.ok (), u)) :
    s.utf8ByteSize ≤ Path.maxNameSize ∧ u.look (dir ++ [s]) = .directory := by
  unfold makeIn at h
  split at h
  · cases h
  · rename_i hsize
    refine ⟨Nat.not_lt.1 hsize, ?_⟩
    split at h
    · rename_i hplace
      cases h
      have hnot : t.look (dir ++ [s]) ≠ .directory := by
        rw [hplace]
        exact fun heq => nomatch heq
      rw [look_put_directory hdir hnot, if_pos rfl]
    · rename_i hplace
      cases h
      exact hplace
    · cases h

theorem makeIn_eq_error (h : t.makeIn dir s = (.error e, u)) :
    u = t ∧ ((e = .nameTooLong ∧ Path.maxNameSize < s.utf8ByteSize) ∨
      ∃ text, t.look (dir ++ [s]) = .file text) := by
  unfold makeIn at h
  split at h
  · rename_i hsize
    cases h
    exact ⟨rfl, Or.inl ⟨rfl, hsize⟩⟩
  · split at h
    · cases h
    · cases h
    · rename_i text hplace
      cases h
      exact ⟨rfl, Or.inr ⟨text, hplace⟩⟩

section Names

variable (h : Passable rooted (s :: before)) (hs : Path.IsName s)

include h hs

theorem fault?_of_isName : (Path.ofPieces rooted (s :: before)).fault? = none := by
  have hstep : Path.isStep rooted s before = true := by
    simp [Path.isStep, hs.nonempty, hs.not_here]
  exact h.fault s before List.suffix_rfl hstep

/-- Where the directory above is there, a directory is made in it. -/
theorem createDirectory_eq_makeIn
    (hwalk : t.walk (t.origin rooted) (Path.namesOf before) = .ok dir) :
    (match t.createDirectory (Path.ofPieces rooted (s :: before)) with
      | .ok t' => (.ok (), t')
      | .error e =>
        if t.isDirectory (Path.ofPieces rooted (s :: before)) then (.ok (), t)
        else (.error e, t)) = t.makeIn dir s := by
  have hfault := fault?_of_isName h hs
  rw [createDirectory_ofPieces h.clean hs hfault, isDirectory_ofPieces h.clean hs hfault, hwalk,
    makeIn]
  dsimp only
  by_cases hlong : Path.maxNameSize < s.utf8ByteSize
  · simp [hlong]
  · rcases seen_cases (t.look (dir ++ [s])) with hlook | hlook | ⟨text, hlook⟩
    · simp [hlong, hlook]
    · simp [hlong, hlook]
    · simp [hlong, hlook]

theorem createAll_of_walk_ok (hwalk : t.walk (t.origin rooted) (Path.namesOf before) = .ok dir)
    (above : List Path) :
    t.createAll (Path.ofPieces rooted (s :: before) :: above) = t.makeIn dir s := by
  have hfault := fault?_of_isName h hs
  have hne := (Path.fault?_eq_none_iff.1 hfault).2.1
  have hmake := createDirectory_eq_makeIn h hs hwalk
  have hcreate := createDirectory_ofPieces h.clean hs hfault t
  rw [hwalk] at hcreate
  dsimp only at hcreate
  rw [createAll, if_neg hne]
  cases hresult : t.createDirectory (Path.ofPieces rooted (s :: before)) with
  | ok t' =>
    rw [hresult] at hmake
    exact hmake
  | error e =>
    rw [hresult] at hmake hcreate
    cases e with
    | notFound =>
      split at hcreate
      · cases hcreate
      · split at hcreate <;> cases hcreate
    | _ => exact hmake

theorem createAll_of_walk_error
    (hwalk : t.walk (t.origin rooted) (Path.namesOf before) = .error e) (he : e ≠ .notFound)
    (above : List Path) :
    t.createAll (Path.ofPieces rooted (s :: before) :: above) = (.error e, t) := by
  have hfault := fault?_of_isName h hs
  have hne := (Path.fault?_eq_none_iff.1 hfault).2.1
  have hcreate := createDirectory_ofPieces h.clean hs hfault t
  have hdir := isDirectory_ofPieces h.clean hs hfault t
  rw [hwalk] at hcreate hdir
  dsimp only at hcreate hdir
  rw [createAll, if_neg hne, hcreate, hdir]
  cases e with
  | notFound => exact absurd rfl he
  | _ => rfl

theorem createAll_of_walk_notFound
    (hwalk : t.walk (t.origin rooted) (Path.namesOf before) = .error .notFound)
    (above : List Path) :
    t.createAll (Path.ofPieces rooted (s :: before) :: above) =
      match t.createAll above with
      | (.error e, u) => (.error e, u)
      | (.ok _, u) =>
        match u.createDirectory (Path.ofPieces rooted (s :: before)) with
        | .ok u' => (.ok (), u')
        | .error e =>
          if u.isDirectory (Path.ofPieces rooted (s :: before)) then (.ok (), u)
          else (.error e, u) := by
  have hfault := fault?_of_isName h hs
  have hne := (Path.fault?_eq_none_iff.1 hfault).2.1
  have hcreate := createDirectory_ofPieces h.clean hs hfault t
  rw [hwalk] at hcreate
  dsimp only at hcreate
  rewrite [createAll, if_neg hne, hcreate]
  rfl

end Names

/-- Nothing is created above the first piece. -/
theorem createAll_nil (hg : t.Grounded) (rooted : Bool) :
    t.createAll (Path.chain rooted []) = (.ok (), t) := by
  cases rooted with
  | false => rfl
  | true =>
    have htarget : t.target (Path.ofPieces true []) = .ok (.reached []) := rfl
    exact createAll_of_reached (by decide) htarget (hg.look_origin true) []

theorem createAll_here (hg : t.Grounded) (above : List Path) :
    t.createAll (Path.ofPieces false ["."] :: above) = (.ok (), t) := by
  have htarget : t.target (Path.ofPieces false ["."]) = .ok (.reached t.here) := rfl
  exact createAll_of_reached (by decide) htarget hg above

/-- Where the path can be followed already, nothing is created. -/
theorem createAll_of_walk (h : Passable rooted back) (hg : t.Grounded)
    (hwalk : t.walk (t.origin rooted) (Path.namesOf back) = .ok l) :
    t.createAll (Path.chain rooted back) = (.ok (), t) := by
  induction back generalizing l with
  | nil => exact createAll_nil hg rooted
  | cons s before ih =>
    rw [Path.chain]
    cases hstep : Path.isStep rooted s before with
    | false =>
      rw [Path.namesOf_of_idle (Path.idle_of_not_isStep hstep)] at hwalk
      rw [if_neg Bool.false_ne_true]
      exact ih h.tail hwalk
    | true =>
      rw [if_pos rfl]
      rcases h.isName_or hstep with hs | ⟨rfl, rfl, rfl⟩
      · rw [Path.namesOf_cons hs] at hwalk
        cases hbefore : t.walk (t.origin rooted) (Path.namesOf before) with
        | error e =>
          rw [walk_concat_of_error hbefore] at hwalk
          cases hwalk
        | ok dir =>
          rw [walk_append, hbefore] at hwalk
          dsimp only at hwalk
          rw [walk_singleton] at hwalk
          obtain ⟨-, hsize, hlook⟩ := step_eq_ok hs.not_here hs.not_up hwalk
          rw [createAll_of_walk_ok h hs hbefore, makeIn, if_neg (Nat.not_lt.2 hsize), hlook]
      · exact createAll_here hg _

/-- How a tree comes out of creating a directory with all that are missing above it. -/
structure Creation (rooted : Bool) (back : List String) (t : FileTree)
    (result : Except FileError Unit) (u : FileTree) : Prop where
  more : t.Extends u
  /-- The path can be followed then, -/
  reached : result = .ok () →
    u.walk (u.origin rooted) (Path.namesOf back) = .ok (u.origin rooted ++ Path.namesOf back)
  /-- or creating the directory fails in the same way again. -/
  refused : ∀ e, result = .error e → u.createAll (Path.chain rooted back) = (.error e, u)
  /-- A name was missing, and now another obstacle is in the way. -/
  blocked : ∀ e, result = .error e →
    t.walk (t.origin rooted) (Path.namesOf back) = .error .notFound →
    e ≠ .notFound ∧ u.walk (u.origin rooted) (Path.namesOf back) = .error e

/-- A directory that can be asked for without creating anything. -/
theorem creation_of_walk (hg : t.Grounded) (hnames : AreNames (Path.namesOf back))
    (hwalk : t.walk (t.origin rooted) (Path.namesOf back) = .ok l) :
    Creation rooted back t (.ok ()) t := by
  constructor
  case more => exact Extends.rfl t
  case reached =>
    intro _
    rw [hwalk, (walk_eq_ok hnames (hg.look_origin rooted) hwalk).1]
  case refused => exact fun e he => nomatch he
  case blocked => exact fun e he => nomatch he

/-- The last directory is made once those above it are there. -/
theorem creation_of_makeIn {v : FileTree} {result : Except FileError Unit}
    (h : Passable rooted (s :: before)) (hs : Path.IsName s) (hg : t.Grounded) (hmore : t.Extends v)
    (hwalk : v.walk (v.origin rooted) (Path.namesOf before) = .ok dir)
    (hmake : v.makeIn dir s = (result, u)) : Creation rooted (s :: before) t result u := by
  have hnames := h.tail.areNames
  obtain ⟨hdir, hlook⟩ := walk_eq_ok hnames ((hmore.grounded hg).look_origin rooted) hwalk
  have hextends : v.Extends u := by
    have hextends := extends_makeIn hlook s
    rwa [hmake] at hextends
  have hcons := Path.namesOf_cons hs before
  constructor
  case more => exact hmore.trans hextends
  case reached =>
    rintro rfl
    obtain ⟨hsize, hthere⟩ := makeIn_eq_ok hlook hmake
    have hwalk' := walk_of_kept (fun l => hextends.directory) hwalk
    rw [hcons, hextends.origin, walk_concat hs.not_here hs.not_up hwalk',
      if_neg (Nat.not_lt.2 hsize), hthere, hdir, List.append_assoc]
  case refused =>
    rintro e rfl
    obtain ⟨rfl, -⟩ := makeIn_eq_error hmake
    have hstep : Path.isStep rooted s before = true := by
      simp [Path.isStep, hs.nonempty, hs.not_here]
    rw [Path.chain, if_pos hstep, createAll_of_walk_ok h hs hwalk, hmake]
  case blocked =>
    rintro e rfl hmissing
    obtain ⟨rfl, ⟨rfl, hlong⟩ | ⟨text, hfile⟩⟩ := makeIn_eq_error hmake
    · refine ⟨(fun heq => by cases heq), ?_⟩
      rw [hcons, walk_concat hs.not_here hs.not_up hwalk, if_pos hlong]
    · -- A file that is in the way has always been there, so its name was not missing.
      have hnothing := look_of_walk_notFound h.areNames hmissing
      rw [hcons, ← List.append_assoc, ← hmore.origin, ← hdir] at hnothing
      rcases hmore.look (dir ++ [s]) with heq | ⟨-, hdirectory⟩
      · rw [heq, hnothing] at hfile
        cases hfile
      · rw [hdirectory] at hfile
        cases hfile

/-- Above what is in the way nothing can be created, now or later. -/
theorem creation_of_blocked {v : FileTree} (h : Passable rooted (s :: before))
    (hs : Path.IsName s) (hmore : t.Extends v) (he : e ≠ .notFound)
    (hblocked : v.walk (v.origin rooted) (Path.namesOf before) = .error e) :
    Creation rooted (s :: before) t (.error e) v := by
  have hstep : Path.isStep rooted s before = true := by
    simp [Path.isStep, hs.nonempty, hs.not_here]
  constructor
  case more => exact hmore
  case reached => exact fun heq => by cases heq
  case refused =>
    rintro e' ⟨⟩
    rw [Path.chain, if_pos hstep]
    exact createAll_of_walk_error h hs hblocked he _
  case blocked =>
    rintro e' ⟨⟩ -
    rw [Path.namesOf_cons hs]
    exact ⟨he, walk_concat_of_error hblocked⟩

/-- A piece that is no step changes nothing. -/
theorem Creation.idle {result : Except FileError Unit} (h : Creation rooted before t result u)
    (hstep : Path.isStep rooted s before = false) : Creation rooted (s :: before) t result u := by
  have hchain : Path.chain rooted (s :: before) = Path.chain rooted before := by
    rw [Path.chain, hstep, if_neg Bool.false_ne_true]
  have hnames := Path.namesOf_of_idle (Path.idle_of_not_isStep hstep) before
  constructor
  case more => exact h.more
  case reached =>
    rw [hnames]
    exact h.reached
  case refused =>
    rw [hchain]
    exact h.refused
  case blocked =>
    rw [hnames]
    exact h.blocked

theorem creation (h : Passable rooted back) (hg : t.Grounded) :
    Creation rooted back t (t.createAll (Path.chain rooted back)).1
      (t.createAll (Path.chain rooted back)).2 := by
  induction back with
  | nil =>
    rw [createAll_nil hg]
    exact creation_of_walk hg h.areNames rfl
  | cons s before ih =>
    have hmade := ih h.tail
    cases hstep : Path.isStep rooted s before with
    | false =>
      have hidle := hmade.idle hstep
      rwa [Path.chain, if_neg (ne_true_of_eq_false hstep)]
    | true =>
      rw [Path.chain, if_pos hstep]
      rcases h.isName_or hstep with hs | ⟨rfl, rfl, rfl⟩
      · cases hbefore : t.walk (t.origin rooted) (Path.namesOf before) with
        | ok dir =>
          rw [createAll_of_walk_ok h hs hbefore]
          exact creation_of_makeIn h hs hg (Extends.rfl t) hbefore rfl
        | error e =>
          by_cases he : e = .notFound
          · subst he
            rw [createAll_of_walk_notFound h hs hbefore]
            generalize t.createAll (Path.chain rooted before) = made at hmade
            obtain ⟨result, v⟩ := made
            cases result with
            | ok value =>
              have hwalk := hmade.reached rfl
              dsimp only
              rw [createDirectory_eq_makeIn h hs hwalk]
              exact creation_of_makeIn h hs hg hmade.more hwalk rfl
            | error e =>
              obtain ⟨he, hblocked⟩ := hmade.blocked e rfl hbefore
              exact creation_of_blocked h hs hmade.more he hblocked
          · rw [createAll_of_walk_error h hs hbefore he]
            exact creation_of_blocked h hs (Extends.rfl t) he hbefore
      · rw [createAll_here hg]
        exact creation_of_walk hg h.areNames rfl

end FileTree

end Orchestration
