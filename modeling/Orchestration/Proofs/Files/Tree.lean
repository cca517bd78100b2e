import Orchestration.Files.Access
import Mathlib.Data.List.Infix

/-!
# What is seen in a file tree

Seen from outside there is nothing, a directory or a file with its text at a place. Putting a file or
an empty directory somewhere, or erasing a file, changes what is seen there and nowhere else.
-/

namespace Orchestration

/-- What is seen at a place of a tree. -/
inductive Seen where
  | nothing
  | directory
  | file (text : String)
deriving Repr, DecidableEq

namespace FileNode

variable {n new : FileNode} {l m dir : Location} {name : String}
  {es : List (String × FileNode)}

/-- What is seen of something that may be there. -/
def seen : Option FileNode → Seen
  | none => .nothing
  | some (file text) => .file text
  | some (directory _) => .directory

theorem seen_eq_directory_iff {n : Option FileNode} :
    seen n = .directory ↔ ∃ es, n = some (directory es) := by
  rcases n with _ | (text | es)
  · simp [seen]
  · simp [seen]
  · simp [seen]

/-- Nothing is below anything but a directory. -/
theorem find?_append_of_ne_directory (h : ∀ es, n.find? l ≠ some (directory es)) (hm : m ≠ []) :
    n.find? (l ++ m) = none := by
  rw [find?_append]
  obtain ⟨x, rest, rfl⟩ := List.exists_cons_of_ne_nil hm
  rcases hfind : n.find? l with _ | (text | es)
  · rfl
  · rfl
  · exact absurd hfind (h es)

/-- The tree with the entries of the directory at a place changed. -/
def changeAt (f : List (String × FileNode) → List (String × FileNode)) :
    Location → FileNode → FileNode
  | _, file text => file text
  | [], directory es => directory (f es)
  | name :: rest, directory es =>
    match es.lookup name with
    | none => directory es
    | some n => directory (Table.insertEntry name (changeAt f rest n) es)

theorem put_eq_changeAt (new : FileNode) (dir : Location) (name : String) (n : FileNode) :
    put new (dir ++ [name]) n = changeAt (Table.insertEntry name new) dir n := by
  induction dir generalizing n with
  | nil => cases n <;> rfl
  | cons d rest ih =>
    cases n with
    | file text => rfl
    | directory es =>
      obtain ⟨x, more, hmore⟩ := List.exists_cons_of_ne_nil (List.concat_ne_nil name rest)
      rw [List.cons_append, changeAt]
      rw [hmore] at ih ⊢
      rw [put]
      · cases es.lookup d with
        | none => rfl
        | some k =>
          dsimp only
          rw [ih k]
      · exact fun h => nomatch h

theorem erase_eq_changeAt (dir : Location) (name : String) (n : FileNode) :
    erase (dir ++ [name]) n = changeAt (fun es => es.filter fun e => e.1 ≠ name) dir n := by
  induction dir generalizing n with
  | nil => cases n <;> rfl
  | cons d rest ih =>
    cases n with
    | file text => rfl
    | directory es =>
      obtain ⟨x, more, hmore⟩ := List.exists_cons_of_ne_nil (List.concat_ne_nil name rest)
      rw [List.cons_append, changeAt]
      rw [hmore] at ih ⊢
      rw [erase]
      · cases es.lookup d with
        | none => rfl
        | some k =>
          dsimp only
          rw [ih k]
      · exact fun h => nomatch h

variable {f : List (String × FileNode) → List (String × FileNode)}

theorem find?_changeAt_self (h : n.find? dir = some (directory es)) :
    (changeAt f dir n).find? dir = some (directory (f es)) := by
  induction dir generalizing n with
  | nil =>
    rw [find?_nil] at h
    cases h
    rfl
  | cons d rest ih =>
    cases n with
    | file text => cases h
    | directory entries =>
      rw [find?_directory_cons] at h
      obtain ⟨k, hk, hrest⟩ := Option.bind_eq_some_iff.1 h
      rw [changeAt, hk]
      dsimp only
      rw [find?_directory_cons, Table.lookup_insertEntry_self]
      exact ih hrest

/-- Elsewhere than at the changed name the same is seen. -/
theorem seen_changeAt (h : n.find? dir = some (directory es))
    (hf : ∀ other, other ≠ name → (f es).lookup other = es.lookup other)
    (hl : ¬ dir ++ [name] <+: l) : seen ((changeAt f dir n).find? l) = seen (n.find? l) := by
  induction dir generalizing n l with
  | nil =>
    rw [find?_nil] at h
    cases h
    rw [changeAt]
    cases l with
    | nil => rfl
    | cons x rest =>
      have hne : x ≠ name := by
        rintro rfl
        exact hl (List.prefix_append [x] rest)
      rw [find?_directory_cons, find?_directory_cons, hf x hne]
  | cons d rest ih =>
    cases n with
    | file text => cases h
    | directory entries =>
      rw [find?_directory_cons] at h
      obtain ⟨k, hk, hrest⟩ := Option.bind_eq_some_iff.1 h
      rw [changeAt, hk]
      dsimp only
      cases l with
      | nil => rfl
      | cons x more =>
        rw [find?_directory_cons, find?_directory_cons]
        by_cases hx : x = d
        · subst hx
          have hmore : ¬ rest ++ [name] <+: more := fun hstarts =>
            hl (List.cons_prefix_cons.2 ⟨rfl, hstarts⟩)
          rw [Table.lookup_insertEntry_self, hk]
          exact ih hrest hmore
        · rw [Table.lookup_insertEntry_of_ne hx]

theorem lookup_filter_self (name : String) (es : List (String × FileNode)) :
    (es.filter fun e => e.1 ≠ name).lookup name = none := by
  rw [List.lookup_eq_none_iff]
  intro e he
  have hne : e.1 ≠ name := by simpa using (List.mem_filter.1 he).2
  exact bne_iff_ne.2 (Ne.symm hne)

theorem lookup_filter_of_ne {other : String} (h : other ≠ name) (es : List (String × FileNode)) :
    (es.filter fun e => e.1 ≠ name).lookup other = es.lookup other := by
  induction es with
  | nil => rfl
  | cons e rest ih =>
    obtain ⟨a, k⟩ := e
    by_cases ha : a = name
    · have hother : (other == a) = false := by simp [ha, h]
      rw [List.lookup_cons, hother, ← ih, List.filter_cons]
      simp [ha]
    · rw [List.filter_cons, if_pos (by simpa using ha), List.lookup_cons, List.lookup_cons, ih]

end FileNode

namespace FileTree

variable {t : FileTree} {l dir : Location} {name text : String}

/-- What is seen at a place. -/
def look (t : FileTree) (l : Location) : Seen :=
  FileNode.seen (t.find? l)

/-- Two trees in which the same is seen everywhere. -/
structure Same (t u : FileTree) : Prop where
  here : t.here = u.here
  look : ∀ l, t.look l = u.look l

theorem look_eq_directory_iff : t.look l = .directory ↔ ∃ es, t.find? l = some (.directory es) :=
  FileNode.seen_eq_directory_iff

/-- Nothing is seen below anything but a directory. -/
theorem look_append_of_ne_directory {m : Location} (h : t.look l ≠ .directory) (hm : m ≠ []) :
    t.look (l ++ m) = .nothing := by
  have hnot : ∀ es, t.root.find? l ≠ some (.directory es) := fun es hes =>
    h (look_eq_directory_iff.2 ⟨es, hes⟩)
  rw [look, find?, FileNode.find?_append_of_ne_directory hnot hm]
  rfl

/-- A place below one that is no directory and is not the place itself holds nothing. -/
theorem look_of_prefix (h : t.look dir ≠ .directory) (hstarts : dir <+: l) (hne : l ≠ dir) :
    t.look l = .nothing := by
  obtain ⟨m, rfl⟩ := hstarts
  refine look_append_of_ne_directory h ?_
  rintro rfl
  exact hne (List.append_nil dir)

section Changes

variable (hdir : t.look dir = .directory)

include hdir

theorem look_put (n : FileNode) (m : Location) :
    (t.put (dir ++ [name]) n).look (dir ++ [name] ++ m) = FileNode.seen (n.find? m) := by
  obtain ⟨es, hes⟩ := look_eq_directory_iff.1 hdir
  have hself := FileNode.find?_changeAt_self (f := Table.insertEntry name n) hes
  rw [look, put, find?, FileNode.put_eq_changeAt, List.append_assoc, FileNode.find?_append, hself]
  show FileNode.seen (FileNode.find? _ (name :: m)) = _
  rw [FileNode.find?_directory_cons, Table.lookup_insertEntry_self]
  rfl

theorem look_put_of_not_below (n : FileNode) (hl : ¬ dir ++ [name] <+: l) :
    (t.put (dir ++ [name]) n).look l = t.look l := by
  obtain ⟨es, hes⟩ := look_eq_directory_iff.1 hdir
  rw [look, put, find?, FileNode.put_eq_changeAt]
  exact FileNode.seen_changeAt hes (fun other hne => Table.lookup_insertEntry_of_ne hne n es) hl

/-- Putting a file where no directory is, or an empty directory where nothing is, changes what is seen
there only. -/
theorem look_put_leaf {n : FileNode} (hleaf : ∀ x rest, n.find? (x :: rest) = none)
    (hplace : t.look (dir ++ [name]) ≠ .directory) (l : Location) :
    (t.put (dir ++ [name]) n).look l =
      if l = dir ++ [name] then FileNode.seen (some n) else t.look l := by
  by_cases hbelow : dir ++ [name] <+: l
  · by_cases heq : l = dir ++ [name]
    · rw [if_pos heq, heq]
      simpa using look_put hdir n []
    · rw [if_neg heq, look_of_prefix hplace hbelow heq]
      obtain ⟨m, rfl⟩ := hbelow
      rw [look_put hdir n m]
      cases m with
      | nil => exact absurd (List.append_nil _) heq
      | cons x rest => rw [hleaf x rest, FileNode.seen]
  · rw [look_put_of_not_below hdir n hbelow, if_neg]
    rintro rfl
    exact hbelow (List.prefix_refl _)

theorem look_put_file (hplace : t.look (dir ++ [name]) ≠ .directory) (text : String)
    (l : Location) : (t.put (dir ++ [name]) (.file text)).look l =
      if l = dir ++ [name] then .file text else t.look l :=
  look_put_leaf hdir (fun _ _ => rfl) hplace l

theorem look_put_directory (hplace : t.look (dir ++ [name]) ≠ .directory) (l : Location) :
    (t.put (dir ++ [name]) (.directory [])).look l =
      if l = dir ++ [name] then .directory else t.look l :=
  look_put_leaf hdir (fun _ _ => rfl) hplace l

theorem look_erase (hplace : t.look (dir ++ [name]) ≠ .directory) (l : Location) :
    (t.erase (dir ++ [name])).look l = if l = dir ++ [name] then .nothing else t.look l := by
  obtain ⟨es, hes⟩ := look_eq_directory_iff.1 hdir
  by_cases hbelow : dir ++ [name] <+: l
  · have hnothing : (t.erase (dir ++ [name])).look l = .nothing := by
      obtain ⟨m, rfl⟩ := hbelow
      have hself := FileNode.find?_changeAt_self
        (f := fun es => es.filter fun e => e.1 ≠ name) hes
      rw [look, erase, find?, FileNode.erase_eq_changeAt, List.append_assoc,
        FileNode.find?_append, hself]
      show FileNode.seen (FileNode.find? _ (name :: m)) = _
      rw [FileNode.find?_directory_cons, FileNode.lookup_filter_self]
      rfl
    rw [hnothing]
    by_cases heq : l = dir ++ [name]
    · rw [if_pos heq]
    · rw [if_neg heq, look_of_prefix hplace hbelow heq]
  · have hother : (t.erase (dir ++ [name])).look l = t.look l := by
      rw [look, erase, find?, FileNode.erase_eq_changeAt]
      exact FileNode.seen_changeAt hes (fun other hne => FileNode.lookup_filter_of_ne hne es) hbelow
    rw [hother, if_neg]
    rintro rfl
    exact hbelow (List.prefix_refl _)

end Changes

end FileTree

end Orchestration
