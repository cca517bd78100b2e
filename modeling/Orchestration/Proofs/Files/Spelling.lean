import Orchestration.Files.Pattern
import Orchestration.Proofs.Files.Directories

/-!
# Paths that spell out names

A path that never goes up leads through its names, whatever idle slashes and dots stand between them.
What lies at such a path is decided by the place that the names lead to, and by whether the path asks
for a directory there. Going on from one path to another adds a name, or nothing.
-/

namespace Orchestration

variable {p : Path} {rooted : Bool} {ns : List String} {s : String}

namespace Path

/-- Whether a path asks for a directory, because it ends in a slash or a dot. -/
def asks (p : Path) : Bool :=
  p.endsInSlash || p.steps.getLast? = some "."

/-- A path that leads through the given names. It has a dot in front if there are none to lead through,
and nowhere else. -/
structure Spells (p : Path) (rooted : Bool) (ns : List String) : Prop where
  start : p.isRooted = rooted
  names : p.names = ns
  dotted : rooted = false → (p.pieces.head? = some "." ↔ ns = [])

/-! ## Parts -/

theorem names_eq_filter (p : Path) : p.names = p.pieces.filter fun s => s ≠ "" && s ≠ "." := by
  rw [names_eq, namesOf, List.filter_reverse, List.reverse_reverse]

theorem partsOf_eq (h : ".." ∉ ns) {pieces : List String}
    (hpieces : (pieces.filter fun s => s ≠ "" && s ≠ ".") = ns) : partsOf pieces = ns.map .name := by
  rw [partsOf, hpieces]
  refine List.map_congr_left fun s hs => if_neg ?_
  rintro rfl
  exact h hs

/-- The parts of a path are those where it starts, and the names. -/
theorem Spells.parts_eq (h : p.Spells rooted ns) (hup : ".." ∉ ns) :
    p.parts = (if rooted then [.root] else if ns = [] then [.here] else []) ++ ns.map .name := by
  have hfilter := (names_eq_filter p).symm.trans h.names
  unfold parts
  rw [h.start]
  cases rooted with
  | true =>
    rw [if_pos rfl, if_pos rfl, partsOf_eq hup hfilter]
    rfl
  | false =>
    rw [if_neg Bool.false_ne_true, if_neg Bool.false_ne_true]
    have hdotted := h.dotted rfl
    split
    · next rest hpieces =>
      rw [hpieces] at hdotted hfilter
      obtain rfl := hdotted.1 rfl
      rw [List.filter_cons, if_neg (by decide)] at hfilter
      rw [if_pos rfl, partsOf_eq hup hfilter]
      rfl
    · next hpieces =>
      have hne : ns ≠ [] := by
        intro hnil
        obtain ⟨rest, hrest⟩ := List.head?_eq_some_iff.1 (hdotted.2 hnil)
        exact hpieces rest hrest
      rw [if_neg hne, List.nil_append, partsOf_eq hup hfilter]

theorem Spells.fileName?_eq (h : p.Spells rooted (ns ++ [s])) (hup : ".." ∉ ns ++ [s]) :
    p.fileName? = some s := by
  rw [fileName?, h.parts_eq hup, List.map_append, List.map_singleton, ← List.append_assoc,
    List.getLast?_concat]

theorem Spells.parts_eq_here_iff (h : p.Spells rooted ns) (hup : ".." ∉ ns) :
    p.parts = [.here] ↔ rooted = false ∧ ns = [] := by
  rw [h.parts_eq hup]
  cases rooted with
  | true => simp
  | false =>
    cases ns with
    | nil => simp
    | cons s rest => simp

/-! ## Going on -/

theorem pieces_join_eq (hslash : '/' ∉ s.toList) (p : Path) :
    ∃ before, (p.join s).pieces = before ++ [s] ∧ (p.pieces = before ∨ p.pieces = before ++ [""]) := by
  obtain ⟨-, back, hjoin, hpieces⟩ := pieces_join hslash p
  refine ⟨back.reverse, by rw [← List.reverse_reverse (p.join s).pieces, hjoin, List.reverse_cons], ?_⟩
  rcases hpieces with hpieces | hpieces
  · exact Or.inl (by rw [← hpieces, List.reverse_reverse])
  · exact Or.inr (by rw [← List.reverse_reverse p.pieces, hpieces, List.reverse_cons])

/-- What a path spells out when it goes on by a name, by a dot or by nothing. -/
theorem Spells.join (h : p.Spells rooted ns) (hstart : rooted = false → ns ≠ [])
    (hslash : '/' ∉ s.toList) :
    (p.join s).Spells rooted (ns ++ [s].filter fun s => s ≠ "" && s ≠ ".") := by
  obtain ⟨before, hjoin, hpieces⟩ := pieces_join_eq hslash p
  have hbefore : (before.filter fun s => s ≠ "" && s ≠ ".") = ns := by
    rw [← h.names, names_eq_filter]
    rcases hpieces with hpieces | hpieces <;> rw [hpieces]
    rw [List.filter_append]
    exact (List.append_nil _).symm
  constructor
  case start => exact (pieces_join hslash p).1.trans h.start
  case names => rw [names_eq_filter, hjoin, List.filter_append, hbefore]
  case dotted =>
    intro hrooted
    have hns := hstart hrooted
    have hne : before ≠ [] := by
      rintro rfl
      exact hns hbefore.symm
    have hhead : p.pieces.head? = (p.join s).pieces.head? := by
      rw [hjoin, List.head?_append_of_ne_nil _ hne]
      rcases hpieces with hpieces | hpieces
      · rw [hpieces]
      · rw [hpieces, List.head?_append_of_ne_nil _ hne]
    rw [← hhead, h.dotted hrooted]
    simp [hns]

theorem utf8ByteSize_join_le (hslash : '/' ∉ s.toList) (p : Path) :
    (p.join s).text.utf8ByteSize ≤ p.text.utf8ByteSize + 1 + s.utf8ByteSize := by
  have hone : "/".utf8ByteSize = 1 := by decide
  rcases join_cases hslash p with ⟨-, htext⟩ | ⟨text, hp, htext⟩ | ⟨-, htext⟩
  · rw [htext]
    omega
  · rw [hp, htext, String.utf8ByteSize_append]
    omega
  · rw [htext, String.utf8ByteSize_append, String.utf8ByteSize_append]
    omega

theorem asks_join_name (hs : IsName s) (p : Path) : (p.join s).asks = false := by
  rw [asks, endsInSlash_join hs, steps_join hs, List.getLast?_concat]
  simp [hs.not_here]

theorem asks_join_here (p : Path) : (p.join ".").asks = true := by
  rw [asks, steps_join_of_slashless (by decide) (by decide), List.getLast?_concat]
  simp

theorem asks_join_empty (h : p.text ≠ "") : (p.join "").asks = true := by
  rw [asks, endsInSlash, join]
  split
  · next hhead => cases hhead
  · split
    · next hlast =>
      have hslash : p.text.toList.getLast? = some '/' := by simpa [h] using hlast
      simp [hslash]
    · simp

theorem Spells.text_ne_empty (h : p.Spells rooted ns) : p.text ≠ "" := by
  intro htext
  obtain rfl : p = ⟨""⟩ := congrArg Path.mk htext
  obtain rfl : [] = ns := h.names
  exact absurd ((h.dotted h.start.symm).2 rfl) (by decide)

theorem spells_here : (⟨"."⟩ : Path).Spells false [] :=
  ⟨by decide, by decide, fun _ => by decide⟩

theorem spells_name (hs : IsName s) : (⟨s⟩ : Path).Spells false [s] := by
  have hrooted := isRooted_of_notMem hs.slashless
  have hpieces : (⟨s⟩ : Path).pieces = [s] := by
    rw [pieces_of_not_isRooted hrooted, Text.split_of_notMem hs.slashless]
  refine ⟨hrooted, ?_, fun _ => ?_⟩
  · rw [names_eq_filter, hpieces]
    simp [hs.nonempty, hs.not_here]
  · rw [hpieces]
    simp [hs.not_here]

end Path

namespace FileTree

open Orchestration.Path

/-! ## Entries of directories -/

theorem entryPath_cases (h : p.Spells rooted ns) (hup : ".." ∉ ns) (s : String) :
    (rooted = false ∧ ns = [] ∧ entryPath p s = ⟨s⟩) ∨
      ((rooted = false → ns ≠ []) ∧ entryPath p s = p.join s) := by
  have hiff := h.parts_eq_here_iff hup
  unfold entryPath
  by_cases hhere : p.parts = [.here]
  · obtain ⟨hrooted, hns⟩ := hiff.1 hhere
    exact Or.inl ⟨hrooted, hns, if_pos hhere⟩
  · exact Or.inr ⟨fun hrooted hns => hhere (hiff.2 ⟨hrooted, hns⟩), if_neg hhere⟩

theorem spells_entryPath (h : p.Spells rooted ns) (hup : ".." ∉ ns) (hs : IsName s) :
    (entryPath p s).Spells rooted (ns ++ [s]) := by
  rcases entryPath_cases h hup s with ⟨rfl, rfl, heq⟩ | ⟨hstart, heq⟩
  · rw [heq]
    exact spells_name hs
  · have hjoin := h.join hstart hs.slashless
    rw [heq]
    simpa [hs.nonempty, hs.not_here] using hjoin

theorem asks_entryPath (hs : IsName s) (p : Path) : (entryPath p s).asks = false := by
  unfold entryPath
  split
  · have hjoin : (⟨""⟩ : Path).join s = ⟨s⟩ := by
      have hhead : s.toList.head? ≠ some '/' := fun h => hs.slashless (List.mem_of_mem_head? h)
      simp [Path.join, hhead]
    rw [← hjoin]
    exact asks_join_name hs ⟨""⟩
  · exact asks_join_name hs p

/-- A dot adds nothing, and neither does an empty name behind other names. -/
theorem spells_entryPath_idle (h : p.Spells rooted ns) (hup : ".." ∉ ns)
    (hs : s = "." ∨ (s = "" ∧ ns ≠ [])) :
    (entryPath p s).Spells rooted ns ∧ (entryPath p s).asks = true := by
  rcases entryPath_cases h hup s with ⟨rfl, rfl, heq⟩ | ⟨hstart, heq⟩
  · rcases hs with rfl | ⟨-, hne⟩
    · rw [heq]
      exact ⟨spells_here, by decide⟩
    · exact absurd rfl hne
  · rw [heq]
    rcases hs with rfl | ⟨rfl, hne⟩
    · have hjoin := h.join (s := ".") hstart (by decide)
      exact ⟨by simpa using hjoin, asks_join_here p⟩
    · have hjoin := h.join (s := "") hstart (by decide)
      exact ⟨by simpa using hjoin, asks_join_empty h.text_ne_empty⟩

theorem utf8ByteSize_entryPath_le (hslash : '/' ∉ s.toList) (p : Path) :
    (entryPath p s).text.utf8ByteSize ≤ p.text.utf8ByteSize + 1 + s.utf8ByteSize := by
  unfold entryPath
  split
  · dsimp only
    omega
  · exact utf8ByteSize_join_le hslash p

/-! ## What lies at a path -/

variable {t : FileTree} {l : Location}

/-- Names can be followed exactly if they are short and lead to a directory. -/
theorem walk_names (hns : AreNames ns) (hl : t.look l = .directory) :
    (t.walk l ns = .ok (l ++ ns) ∧ (∀ s ∈ ns, s.utf8ByteSize ≤ maxNameSize) ∧
        t.look (l ++ ns) = .directory) ∨
      ((∃ e, t.walk l ns = .error e) ∧
        ¬ ((∀ s ∈ ns, s.utf8ByteSize ≤ maxNameSize) ∧ t.look (l ++ ns) = .directory)) := by
  induction ns generalizing l with
  | nil => exact Or.inl ⟨by rw [walk, List.append_nil], nofun, by rwa [List.append_nil]⟩
  | cons s rest ih =>
    obtain ⟨hhere, hup⟩ := hns s (List.mem_cons_self ..)
    have hassoc : l ++ s :: rest = (l ++ [s]) ++ rest := by simp
    rw [walk, hassoc]
    cases hstep : t.step l s with
    | ok l' =>
      obtain ⟨rfl, hsize, hlook⟩ := step_eq_ok hhere hup hstep
      have hrest := ih (fun x hx => hns x (List.mem_cons_of_mem s hx)) hlook
      simpa [hsize] using hrest
    | error e =>
      refine Or.inr ⟨⟨e, rfl⟩, ?_⟩
      rintro ⟨hshort, hlook⟩
      have hdir : t.look (l ++ [s]) = .directory := by
        by_contra hnot
        by_cases hnil : rest = []
        · exact hnot (by rwa [hnil, List.append_nil] at hlook)
        · rw [look_append_of_ne_directory hnot hnil] at hlook
          cases hlook
      rw [step_name hhere hup, if_neg (Nat.not_lt.2 (hshort s (List.mem_cons_self ..))), hdir] at hstep
      cases hstep

theorem filter_find?_of_directory (h : t.look l = .directory) (asks : Bool) :
    ((t.find? l).filter fun n => !asks || n.isDirectory) = t.find? l := by
  obtain ⟨es, hes⟩ := look_eq_directory_iff.1 h
  rw [hes, Option.filter_some_pos]
  exact Bool.or_true _

theorem filter_find?_of_ne_directory (h : t.look l ≠ .directory) :
    (t.find? l).filter FileNode.isDirectory = none := by
  rw [look] at h
  rcases hfind : t.find? l with _ | (text | es)
  · rfl
  · rfl
  · rw [hfind] at h
    exact absurd rfl h

/-- What lies at a path that ends in a dot or in nothing but slashes. -/
theorem stat_of_reached (hns : AreNames ns) (hl : t.look l = .directory)
    (htarget : t.target p = (t.walk l ns).map .reached) :
    (t.stat p).toOption =
      if ∀ s ∈ ns, s.utf8ByteSize ≤ maxNameSize then (t.find? (l ++ ns)).filter FileNode.isDirectory
      else none := by
  rw [stat, htarget]
  rcases walk_names hns hl with ⟨hwalk, hshort, hlook⟩ | ⟨⟨e, hwalk⟩, hnot⟩
  · have hfilter := filter_find?_of_directory hlook true
    obtain ⟨es, hes⟩ := look_eq_directory_iff.1 hlook
    rw [hwalk, if_pos hshort]
    simp only [Except.map, hes] at hfilter ⊢
    exact hfilter.symm
  · rw [hwalk]
    split_ifs with hshort
    · rw [filter_find?_of_ne_directory fun hlook => hnot ⟨hshort, hlook⟩]
      rfl
    · rfl

/-- What lies at a path that ends in a name. -/
theorem stat_of_entry (hns : AreNames ns) (hl : t.look l = .directory)
    (htarget : t.target p =
      match t.walk l ns with
      | .error e => .error e
      | .ok dir =>
        if maxNameSize < s.utf8ByteSize then .error .nameTooLong
        else .ok (.entry dir s p.endsInSlash)) :
    (t.stat p).toOption =
      if ∀ s' ∈ ns ++ [s], s'.utf8ByteSize ≤ maxNameSize then
        (t.find? (l ++ (ns ++ [s]))).filter fun n => !p.endsInSlash || n.isDirectory
      else none := by
  rw [stat, htarget, ← List.append_assoc]
  rcases walk_names hns hl with ⟨hwalk, hshort, hlook⟩ | ⟨⟨e, hwalk⟩, hnot⟩
  · rw [hwalk]
    dsimp only
    by_cases hsize : maxNameSize < s.utf8ByteSize
    · rw [if_pos hsize, if_neg]
      · rfl
      · intro h
        exact Nat.not_lt.2 (h s (List.mem_concat_self ..)) hsize
    · rw [if_neg hsize, if_pos]
      · dsimp only
        cases t.find? (l ++ ns ++ [s]) with
        | none => rfl
        | some n =>
          dsimp only
          rw [Option.filter_some]
          cases p.endsInSlash <;> cases n.isDirectory <;> rfl
      · intro s' hs'
        rcases List.mem_append.1 hs' with hs' | hs'
        · exact hshort s' hs'
        · rw [List.mem_singleton.1 hs']
          exact Nat.not_lt.1 hsize
  · rw [hwalk]
    dsimp only
    split_ifs with hshort
    · have hlook : t.look (l ++ ns) ≠ .directory := fun hlook =>
        hnot ⟨fun s' hs' => hshort s' (List.mem_append_left _ hs'), hlook⟩
      have hnone : t.find? (l ++ ns ++ [s]) = none :=
        FileNode.find?_append_of_ne_directory
          (fun es hes => hlook (look_eq_directory_iff.2 ⟨es, hes⟩)) (List.cons_ne_nil _ _)
      rw [hnone]
      rfl
    · rfl

/-- What lies at a path is what lies where its names lead, if the path and the names are not too long. -/
theorem stat_of_spells (hl : t.look (t.origin rooted) = .directory) (h : p.Spells rooted ns)
    (hup : ".." ∉ ns) :
    (t.stat p).toOption =
      if p.fault? = none ∧ ∀ s ∈ ns, s.utf8ByteSize ≤ maxNameSize then
        (t.find? (t.origin rooted ++ ns)).filter fun n => !p.asks || n.isDirectory
      else none := by
  have hstart : t.start p = t.origin rooted := by rw [← h.start]; rfl
  have hnames : (p.steps.filter fun s => s ≠ ".") = ns := h.names
  have hns : AreNames ns := by
    intro s hs
    refine ⟨?_, fun hs' => hup (hs' ▸ hs)⟩
    rw [← hnames, List.mem_filter] at hs
    simpa using hs.2
  cases hfault : p.fault? with
  | some e => simp [stat, target, hfault, Except.toOption]
  | none =>
    simp only [true_and]
    rcases List.eq_nil_or_concat' p.steps with hsteps | ⟨ss, s, hsteps⟩
    · -- nothing but slashes
      rw [hsteps] at hnames
      obtain rfl : ns = [] := hnames.symm
      have htarget : t.target p = (t.walk (t.origin rooted) []).map .reached := by
        simp only [target, hfault, hsteps, hstart, List.dropLast_nil, List.getLast?_nil, walk]
        rfl
      have hfilter := filter_find?_of_directory hl
      rw [stat_of_reached hns hl htarget, List.append_nil, hfilter]
      exact if_congr Iff.rfl (hfilter true) rfl
    · have hlast : p.steps.getLast? = some s := by rw [hsteps, List.getLast?_concat]
      by_cases hhere : s = "."
      · -- a dot at the end
        subst hhere
        have hss : (ss.filter fun s => s ≠ ".") = ns := by simpa [hsteps] using hnames
        have hasks : p.asks = true := by simp [asks, hlast]
        have htarget : t.target p = (t.walk (t.origin rooted) ns).map .reached := by
          rw [target, hfault, hstart, hlast, hsteps, List.dropLast_concat, ← hss, walk_filter]
          dsimp only
          cases t.walk (t.origin rooted) ss <;> rfl
        rw [stat_of_reached hns hl htarget, hasks]
        rfl
      · -- a name at the end
        have hss : ns = (ss.filter fun s => s ≠ ".") ++ [s] := by
          rw [← hnames, hsteps, List.filter_append]
          simp [hhere]
        subst hss
        obtain ⟨-, hnot_up⟩ := hns s (List.mem_concat_self ..)
        have htarget := target_of_steps (t := t) hsteps hhere hnot_up hfault
        have hasks : p.asks = p.endsInSlash := by simp [asks, hlast, hhere]
        rw [h.start] at htarget
        rw [stat_of_entry (fun x hx => hns x (List.mem_append_left _ hx)) hl htarget, hasks]

end FileTree

end Orchestration
