import Orchestration.Files.Access

/-!
# Path patterns

A pattern is a path in which names may hold wildcards: `?` for one character, `*` for any number of
them, `[…]` for one of several and `[!…]` for one that is none of them. A whole name `**` stands for any
number of directories. A name without wildcards is not looked for among the entries of a directory but
only asked for, so it may also be a dot or a double dot.
-/

namespace Orchestration

/-- One character or wildcard of a name pattern. -/
inductive NameToken where
  /-- The character itself. -/
  | char (c : Char)
  /-- Any one character. -/
  | any
  /-- Any number of characters. -/
  | run
  /-- A character in one of the ranges. -/
  | within (ranges : List (Char × Char))
  /-- A character in none of the ranges. -/
  | except (ranges : List (Char × Char))
deriving Repr, DecidableEq

namespace NameToken

/-- Whether a character lies in one of the ranges; both ends count. -/
def inRanges (ranges : List (Char × Char)) (c : Char) : Bool :=
  ranges.any fun r => r.1 ≤ c && c ≤ r.2

/-- Whether the token stands for a single character, and for this one. -/
def accepts : NameToken → Char → Bool
  | char a, c => a = c
  | any, _ => true
  | run, _ => false
  | within ranges, c => inRanges ranges c
  | except ranges, c => !inRanges ranges c

/-- Whether tokens stand for a text. A run stands for nothing, or for a character and what a run
stands for. -/
def standFor : List NameToken → List Char → Bool
  | [], cs => cs.isEmpty
  | run :: ts, [] => standFor ts []
  | run :: ts, c :: cs => standFor ts (c :: cs) || standFor (run :: ts) cs
  | _ :: _, [] => false
  | t :: ts, c :: cs => t.accepts c && standFor ts cs
termination_by ts cs => ts.length + cs.length

/-- For every end of the tokens, the longest first, whether it stands for the empty text. -/
def emptyRow : List NameToken → List Bool
  | [] => [true]
  | t :: ts => (t = run && (emptyRow ts).headD false) :: emptyRow ts

/-- For every end of the tokens whether it stands for a text that starts with `c`, when the same is
known for the rest of the text. -/
def nextRow (c : Char) : List NameToken → List Bool → List Bool
  | [], _ => [false]
  | t :: ts, row =>
    let shorter := nextRow c ts row.tail
    (if t = run then shorter.headD false || row.headD false
     else t.accepts c && row.tail.headD false) :: shorter

/-- For every end of the tokens whether it stands for the text. The answers for a text are computed
from those for its rest, so a pattern with many runs takes no longer than one without. -/
def row (ts : List NameToken) (cs : List Char) : List Bool :=
  cs.foldr (fun c row => nextRow c ts row) (emptyRow ts)

/-- Whether tokens stand for a text. -/
def matchesAll (ts : List NameToken) (cs : List Char) : Bool :=
  (row ts cs).headD false

theorem tail_row (t : NameToken) (ts : List NameToken) (cs : List Char) :
    (row (t :: ts) cs).tail = row ts cs := by
  induction cs with
  | nil => rfl
  | cons c cs ih =>
    change nextRow c ts (row (t :: ts) cs).tail = nextRow c ts (row ts cs)
    rw [ih]

theorem matchesAll_nil (cs : List Char) : matchesAll [] cs = cs.isEmpty := by
  cases cs <;> rfl

theorem matchesAll_cons_nil (t : NameToken) (ts : List NameToken) :
    matchesAll (t :: ts) [] = (t = run && matchesAll ts []) := rfl

theorem matchesAll_run_cons (ts : List NameToken) (c : Char) (cs : List Char) :
    matchesAll (run :: ts) (c :: cs) = (matchesAll ts (c :: cs) || matchesAll (run :: ts) cs) := by
  change ((nextRow c ts (row (run :: ts) cs).tail).headD false || (row (run :: ts) cs).headD false) = _
  rw [tail_row]
  rfl

theorem matchesAll_cons_cons {t : NameToken} (h : t ≠ run) (ts : List NameToken) (c : Char)
    (cs : List Char) : matchesAll (t :: ts) (c :: cs) = (t.accepts c && matchesAll ts cs) := by
  change (if t = run then _ else t.accepts c && (row (t :: ts) cs).tail.headD false) = _
  rw [if_neg h, tail_row]
  rfl

/-- Matching row by row decides what tokens stand for. -/
theorem matchesAll_eq_standFor (ts : List NameToken) (cs : List Char) :
    matchesAll ts cs = standFor ts cs := by
  fun_induction standFor ts cs with
  | case1 cs => exact matchesAll_nil cs
  | case2 ts ih => rw [matchesAll_cons_nil, ih]; simp
  | case3 ts c cs ih₁ ih₂ => rw [matchesAll_run_cons, ih₁, ih₂]
  | case4 t ts h => rw [matchesAll_cons_nil, decide_eq_false h]; rfl
  | case5 t ts c cs h ih => rw [matchesAll_cons_cons h, ih]

/-- The ranges that the text between brackets lists. -/
def ranges : List Char → List (Char × Char)
  | [] => []
  | [a] => [(a, a)]
  | [a, b] => [(a, a), (b, b)]
  | a :: b :: c :: rest =>
    if b = '-' then (a, c) :: ranges rest else (a, a) :: ranges (b :: c :: rest)

/-- The text up to the closing bracket, and what follows it. The first character is never the closing
bracket. -/
def bracketed? : List Char → Option (List Char × List Char)
  | [] => none
  | c :: cs =>
    match cs.dropWhile (· ≠ ']') with
    | [] => none
    | _ :: rest => some (c :: cs.takeWhile (· ≠ ']'), rest)

/-- What follows the brackets is shorter than the text. -/
theorem bracketed?_length {cs body rest : List Char} (h : bracketed? cs = some (body, rest)) :
    rest.length < cs.length := by
  cases cs with
  | nil => simp [bracketed?] at h
  | cons c cs =>
    have hl := (List.dropWhile_sublist (· ≠ ']') (l := cs)).length_le
    change (match cs.dropWhile (· ≠ ']') with
      | [] => none
      | _ :: rest => some (c :: cs.takeWhile (· ≠ ']'), rest)) = some (body, rest) at h
    cases hd : cs.dropWhile (· ≠ ']') with
    | nil =>
      rw [hd] at h
      exact absurd h (by simp)
    | cons d ds =>
      rw [hd] at h hl
      simp only [Option.some.injEq, Prod.mk.injEq] at h
      rw [← h.2]
      simp only [List.length_cons] at hl ⊢
      omega

/-- The tokens of a name pattern, if it is one. Two stars in a row mean something only as a whole
name. -/
def ofText? : List Char → Option (List NameToken)
  | [] => some []
  | '?' :: cs => (ofText? cs).map (any :: ·)
  | '*' :: '*' :: _ => none
  | '*' :: cs => (ofText? cs).map (run :: ·)
  | '[' :: '!' :: cs =>
    match h : bracketed? cs with
    | none => none
    | some (body, rest) =>
      have := bracketed?_length h
      (ofText? rest).map (except (ranges body) :: ·)
  | '[' :: cs =>
    match h : bracketed? cs with
    | none => none
    | some (body, rest) =>
      have := bracketed?_length h
      (ofText? rest).map (within (ranges body) :: ·)
  | c :: cs => (ofText? cs).map (char c :: ·)
termination_by cs => cs.length
decreasing_by all_goals (simp only [List.length_cons]; omega)

end NameToken

/-- What a pattern asks of one name of a path. -/
inductive NamePattern where
  /-- The name itself. -/
  | literal (name : String)
  /-- A name that the tokens stand for. -/
  | wild (tokens : List NameToken)
  /-- Any number of directories. -/
  | anywhere
deriving Repr, DecidableEq

namespace NamePattern

/-- The character that a token stands for, if there is only one. -/
def char? : NameToken → Option Char
  | .char c => some c
  | _ => none

/-- The pattern of a name. -/
def ofText? (s : String) : Option NamePattern :=
  if s = "**" then some .anywhere
  else
    (NameToken.ofText? s.toList).map fun tokens =>
      match tokens.mapM char? with
      | some name => .literal (String.ofList name)
      | none => .wild tokens

/-- Whether a name is one that the pattern asks for. -/
def accepts : NamePattern → String → Bool
  | literal name, s => name = s
  | wild tokens, s => NameToken.matchesAll tokens s.toList
  | anywhere, _ => true

/-- Patterns in which no two stand in a row for any number of directories. -/
def collapse : List NamePattern → List NamePattern
  | [] => []
  | p :: ps =>
    match p, collapse ps with
    | anywhere, anywhere :: rest => anywhere :: rest
    | p, rest => p :: rest

end NamePattern

/-- A path with wildcards. -/
structure PathPattern where
  /-- Whether it starts at the root. -/
  isRooted : Bool
  /-- What it asks of the names, in order. -/
  names : List NamePattern
  /-- Whether it asks for a directory. -/
  wantsDirectory : Bool
deriving Repr, DecidableEq

/-- The pattern that a path is when its names are read as patterns. -/
def Path.pattern? (p : Path) : Option PathPattern :=
  let pieces := if p.endsInSlash then p.pieces.dropLast else p.pieces
  (pieces.mapM NamePattern.ofText?).map fun names =>
    ⟨p.isRooted, NamePattern.collapse names, p.endsInSlash⟩

namespace FileTree

/-- The path of an entry of a directory. Entries of the place where paths start go without a dot in
front. -/
def entryPath (dir : Path) (name : String) : Path :=
  if dir.parts = [.here] then ⟨name⟩ else dir.join name

/-- Whether a directory has what a literal name asks for. -/
def hasLiteral (t : FileTree) (dir : Path) (name : String) : Bool :=
  if name = "." || name = ".." then t.isDirectory dir else t.contains (entryPath dir name)

/-- The dots that tokens ask for. Only tokens that start with a dot do. -/
def dotsMatching (tokens : List NameToken) : List String :=
  if tokens.head? = some (.char '.') then
    ["..", "."].filter fun s => NameToken.matchesAll tokens s.toList
  else []

/-- Everything below a directory: its path, its name and whether it is a directory. -/
def descendants (t : FileTree) (dir : Path) : List (Path × String × Bool) :=
  match t.stat dir with
  | .error _ => []
  | .ok n =>
    n.descendants.map fun e => (e.1.foldl entryPath dir, e.1.getLast?.getD "", e.2.isDirectory)

/-- The paths that start with the given one and go on as the names ask for. -/
def follow (t : FileTree) : List NamePattern → Path → List Path
  | [], p => [p]
  | .literal name :: rest, p =>
    if t.hasLiteral p name then t.follow rest (entryPath p name) else []
  | .wild tokens :: rest, p =>
    if t.isDirectory p then
      (dotsMatching tokens).flatMap (fun s => t.follow rest (p.join s))
        ++ (t.children p).flatMap fun e =>
          if NameToken.matchesAll tokens e.1.toList then t.follow rest (entryPath p e.1) else []
    else []
  | [.anywhere], p => ((t.descendants p).filter fun d => d.2.2).map Prod.fst
  | .anywhere :: next :: rest, p =>
    (t.descendants p).flatMap fun d => if next.accepts d.2.1 then t.follow rest d.1 else []

/-- The paths in a tree that a pattern asks for. A path that can be read in two ways comes twice. -/
def matching (t : FileTree) (pattern : PathPattern) : List Path :=
  (t.follow pattern.names ⟨if pattern.isRooted then "/" else "."⟩).filter fun p =>
    !pattern.wantsDirectory || t.isDirectory p

/-- The files that a pattern asks for, in the order of their paths. -/
def matchingFiles (t : FileTree) (pattern : PathPattern) : List Path :=
  ((t.matching pattern).filter fun p => t.isFile p).mergeSort Path.le

end FileTree

end Orchestration
