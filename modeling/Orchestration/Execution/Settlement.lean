import Orchestration.Execution.Outcome

/-!
# Settling a concurrent group

The tasks of a concurrent group are joined in the order of their declaration, but the failure that is
reported is the one that completed first. Every completed task carries a number that says how many of
the group completed before it; tasks that never completed rank after all that did, and among equals
the one declared first wins.
-/

namespace Orchestration.Execution

/-- What joining a task gives. -/
inductive Joined (α : Type) where
  /-- The task completed, with its number in the order of completion. -/
  | completed (seq : Nat) (result : Except RunError α)
  /-- The task panicked or was aborted; the reason is what is told of it. -/
  | lost (reason : String)

/-- A task that was aborted before it completed. -/
def Joined.aborted {α : Type} : Joined α :=
  .lost "task was cancelled"

/-- The rank of a failure: smaller ranks are reported first. -/
structure Rank where
  /-- Whether the task never completed. -/
  aborted : Bool
  /-- The number in the order of completion. -/
  seq : Nat
  /-- The position in the order of declaration. -/
  index : Nat
deriving Repr, DecidableEq

/-- The order of ranks: completed tasks first, then by number, then by position. -/
def Rank.before (a b : Rank) : Bool :=
  if a.aborted ≠ b.aborted then b.aborted
  else if a.seq ≠ b.seq then a.seq < b.seq
  else a.index < b.index

/-- The state of a settlement: how many tasks were joined, and the failure of smallest rank. -/
structure Settlement where
  /-- The number of tasks joined so far. -/
  joined : Nat
  /-- The failure to report if no further task is joined. -/
  first : Option (Rank × RunError)
deriving Repr, DecidableEq

namespace Settlement

/-- The settlement before any task is joined. -/
def start : Settlement :=
  ⟨0, none⟩

/-- The settlement with one more failure. -/
def fail (s : Settlement) (rank : Rank) (error : RunError) : Settlement :=
  match s.first with
  | none => ⟨s.joined + 1, some (rank, error)⟩
  | some (best, kept) =>
    if rank.before best then ⟨s.joined + 1, some (rank, error)⟩
    else ⟨s.joined + 1, some (best, kept)⟩

/-- Take the next task in the order of declaration: its value, if it has one, and the settlement
after it. -/
def take {α : Type} (s : Settlement) (operation : String) : Joined α → Option α × Settlement
  | .completed _ (.ok a) => (some a, ⟨s.joined + 1, s.first⟩)
  | .completed seq (.error e) => (none, s.fail ⟨false, seq, s.joined⟩ e)
  | .lost reason => (none, s.fail ⟨true, 0, s.joined⟩ (.taskAborted ⟨operation, reason⟩))

/-- Take tasks with their names, in the order of declaration. -/
def takeAll {α : Type} : Settlement → List (String × Joined α) → List (Option α) × Settlement
  | s, [] => ([], s)
  | s, (operation, joined) :: rest =>
    let (value, s) := s.take operation joined
    let (values, s) := takeAll s rest
    (value :: values, s)

/-- The failure to report, if any task failed. -/
def error? (s : Settlement) : Option RunError :=
  s.first.map Prod.snd

end Settlement

/-- The outcome of a concurrent group whose tasks have all been joined. -/
def settle {α : Type} (tasks : List (String × Joined α)) : Except RunError (List α) :=
  let (values, s) := Settlement.start.takeAll tasks
  match s.error? with
  | some e => .error e
  | none => .ok (values.filterMap id)

end Orchestration.Execution
