import Orchestration.Execution.Machine

/-!
# Running groups by the clock

One particular environment for the machine of runs: every call takes a known time and then ends in a
known way, and time passes only when nothing can go on. Calls that are ready at one instant have their
turns in declaration order. The token may be cancelled and the run may be dropped at given times. What
the run shows is logged with the time at which it happens.
-/

namespace Orchestration.Execution

/-- How a call behaves: how long it waits and how it then ends. -/
structure Script where
  /-- The operation called. -/
  operation : String
  /-- The time the call waits; it ends in its first turn if this is zero. -/
  delay : Nat
  /-- How it ends. -/
  ending : Ending String
deriving Repr, DecidableEq

/-- How the calls of a group behave. -/
structure GroupScript where
  /-- How the members run. -/
  discipline : Discipline
  /-- The members, in declaration order. -/
  members : List Script
  /-- The call that begins the transaction. -/
  begin : Script
  /-- The call that commits it. -/
  commit : Script
  /-- The call that rolls it back. -/
  rollback : Script
deriving Repr, DecidableEq

/-- The group as code. -/
def GroupScript.code (g : GroupScript) : GroupCode :=
  ⟨g.discipline, g.members.map Script.operation⟩

/-- What happens from outside, and when. -/
structure Schedule where
  /-- When the token is cancelled; at time zero this comes before everything else. -/
  cancelAt : Option Nat
  /-- When the run is dropped. -/
  dropAt : Option Nat
deriving Repr, DecidableEq

/-- What is logged for a note, if anything is. -/
def Note.text? : Note → Option String
  | polled _ => none
  | started operation => some (operation ++ " start")
  | finished operation => some (operation ++ " done")
  | failed operation => some (operation ++ " failed")
  | panicked operation => some (operation ++ " panic")
  | dropped operation => some (operation ++ " dropped")
  | transactionDropped => some "tx dropped"
  | groupEnded => some "group end"

/-- A run under the clock. -/
structure Timed where
  /-- The run. -/
  run : Run String
  /-- The time. -/
  now : Nat
  /-- When the waiting calls of the running group are due, the most recent first. -/
  due : List (Target × Nat)
  /-- What was logged, the most recent first. -/
  log : List (Nat × String)

namespace Timed

/-- The log with some notes added. -/
def record (t : Timed) (notes : List Note) : List (Nat × String) :=
  (notes.filterMap Note.text?).foldl (fun log text => (t.now, text) :: log) t.log

/-- The result of an event. -/
def happen (t : Timed) (e : Event String) : Timed :=
  let (run, notes) := t.run.step e
  { t with run := run, log := t.record notes }

/-- The calls that may have a turn, in declaration order. -/
def candidates (g : ActiveGroup String) : List (Target × Call String) :=
  match g.phase with
  | .opening b => [(.begin, b)]
  | .working => g.awaiting.map fun e => (.member e.2, e.1)
  | .closing c _ => [(.settle, c)]

/-- Whether a call has something to do: it is new, it is due, or it is to be cancelled. -/
def isReady (t : Timed) (target : Target) (c : Call String) : Bool :=
  c.isIdle || (target ≠ .settle && t.run.cancelled)
    || ((t.due.lookup target).map fun due => decide (due ≤ t.now)).getD true

/-- The script of a call of the group. -/
def scriptOf (script : GroupScript) (target : Target) (c : Call String) : Script :=
  match target with
  | .begin => script.begin
  | .member index => script.members[index]?.getD ⟨c.operation, 0, .value c.operation⟩
  | .settle => if c.operation = "commit" then script.commit else script.rollback

/-- Give a ready call its turn. A new call that has to wait is due after its delay. -/
def turn (t : Timed) (script : GroupScript) (target : Target) (c : Call String) : Timed :=
  let s := scriptOf script target c
  if c.isIdle && 0 < s.delay then
    { t.happen (.turn target .pending) with due := (target, t.now + s.delay) :: t.due }
  else t.happen (.turn target (.ended s.ending))

/-- The earliest of some times. -/
def earliest (times : List Nat) : Option Nat :=
  times.foldl (fun best time => some ((best.map (min time)).getD time)) none

/-- The next time at which something happens. -/
def nextTime (t : Timed) (g : ActiveGroup String) (s : Schedule) : Option Nat :=
  let dues := (candidates g).filterMap fun e => t.due.lookup e.1
  let cancel := if t.run.cancelled then none else s.cancelAt
  earliest (dues ++ cancel.toList ++ s.dropAt.toList)

/-- One move: a turn of the first ready call, or the passing of time up to the next event. Nothing
moves once the run is over. -/
def move (s : Schedule) (scripts : List GroupScript) (t : Timed) : Option Timed :=
  match t.run.status with
  | .running g _ =>
    match scripts[t.run.past.length]? with
    | none => none
    | some script =>
      match (candidates g).find? fun e => t.isReady e.1 e.2 with
      | some (target, c) => some (t.turn script target c)
      | none =>
        (t.nextTime g s).map fun time =>
          let t := { t with now := time }
          if s.dropAt = some time then t.happen .drop
          else if s.cancelAt = some time then t.happen .cancel
          else t
  | _ => none

/-- At most `n` moves. -/
def moves (s : Schedule) (scripts : List GroupScript) : Nat → Timed → Timed
  | 0, t => t
  | n + 1, t =>
    match t.move s scripts with
    | none => t
    | some t => moves s scripts n t

end Timed

/-- The moves that a run can take: every call has at most two turns, each after one passing of time,
and there are the two events from outside. -/
def moveBound (scripts : List GroupScript) : Nat :=
  scripts.foldl (fun n g => n + 4 * (g.members.length + 2)) 2

/-- Run groups by the clock. -/
def runByClock (s : Schedule) (scripts : List GroupScript) : Timed :=
  let (run, notes) := Run.start (s.cancelAt = some 0) (scripts.map GroupScript.code)
  let t : Timed := ⟨run, 0, [], []⟩
  { t with log := t.record notes }.moves s scripts (moveBound scripts)

end Orchestration.Execution
