import Orchestration.Execution.Settlement
import Orchestration.Plan.Basic

/-!
# Running groups

The running of a generated operation as a machine. Its groups run one after another and the first
that fails ends the run. What happens next is up to an environment, which may poll any call that can
make progress and decides what the call answers, may cancel the run's token, or may drop the run
altogether. Nothing here knows about time: a statement about the machine holds for every order in
which the events can come.

Every member call, and the call that begins a transaction, is raced against cancellation: once the
token is cancelled a call is no longer polled, it ends as cancelled at its next turn, and if it was
waiting it is dropped. Committing and rolling back are not raced.
-/

namespace Orchestration.Execution

/-- What a run lets its environment see. -/
inductive Note where
  /-- A call was given a turn. -/
  | polled (operation : String)
  /-- A call had its first turn. -/
  | started (operation : String)
  /-- A call gave its value. -/
  | finished (operation : String)
  /-- A call failed. -/
  | failed (operation : String)
  /-- A call panicked. -/
  | panicked (operation : String)
  /-- A call was dropped while it waited. -/
  | dropped (operation : String)
  /-- A transaction was dropped, neither committed nor rolled back. -/
  | transactionDropped
  /-- A group ended well. -/
  | groupEnded
deriving Repr, DecidableEq

/-- What a call answers to a turn. -/
inductive Answer (α : Type) where
  /-- It has to wait. -/
  | pending
  /-- It ends. -/
  | ended (ending : Ending α)
deriving Repr, DecidableEq

/-! ## Calls -/

/-- How far a call has come. -/
inductive CallState (α : Type) where
  /-- It has had no turn yet. -/
  | idle
  /-- It waits. -/
  | waiting
  /-- It completed; `seq` calls of its group had completed before it. -/
  | completed (seq : Nat) (result : Except RunError α)
  /-- It panicked, for this reason. -/
  | panicked (reason : String)

/-- A call in a run. -/
structure Call (α : Type) where
  /-- The operation called. -/
  operation : String
  /-- How far it has come. -/
  state : CallState α

namespace Call

variable {α : Type}

/-- A call before its first turn. -/
def idle (operation : String) : Call α :=
  ⟨operation, .idle⟩

/-- Whether the call waits. -/
def isWaiting (c : Call α) : Bool :=
  match c.state with
  | .waiting => true
  | _ => false

/-- Whether the call has not had a turn. -/
def isIdle (c : Call α) : Bool :=
  match c.state with
  | .idle => true
  | _ => false

/-- Whether the call has completed. -/
def isCompleted (c : Call α) : Bool :=
  match c.state with
  | .completed .. => true
  | _ => false

/-- Whether the call has panicked. -/
def isPanicked (c : Call α) : Bool :=
  match c.state with
  | .panicked _ => true
  | _ => false

/-- Whether the call is over. -/
def isOver (c : Call α) : Bool :=
  c.isCompleted || c.isPanicked

/-- The call as it is after ending of its own accord, and the note of it. -/
def endWith (c : Call α) (failure : String → RunError) (seq : Nat) : Ending α → Call α × Note
  | .value a => ({ c with state := .completed seq (.ok a) }, .finished c.operation)
  | .failure text => ({ c with state := .completed seq (.error (failure text)) }, .failed c.operation)
  | .panicWith reason => ({ c with state := .panicked reason }, .panicked c.operation)

/-- The call as it is after cancellation, and the note if it was waiting. -/
def cancel (c : Call α) (seq : Nat) : Call α × List Note :=
  ({ c with state := .completed seq (.error (.cancelled c.operation)) },
    if c.isWaiting then [.dropped c.operation] else [])

/-- The call after a turn in which it was polled, with its notes. -/
def proceed (c : Call α) (failure : String → RunError) (seq : Nat) (answer : Answer α) :
    Call α × List Note :=
  let notes := (if c.isIdle then [.started c.operation] else []) ++ [.polled c.operation]
  match answer with
  | .pending => ({ c with state := .waiting }, notes)
  | .ended ending =>
    let (c, note) := c.endWith failure seq ending
    (c, notes ++ [note])

/-- Give the call a turn. A cancelled call is not polled; a call that is over has no more turns. -/
def turn (c : Call α) (cancelled : Bool) (failure : String → RunError) (seq : Nat)
    (answer : Answer α) : Call α × List Note :=
  if c.isOver then (c, [])
  else if cancelled then c.cancel seq
  else c.proceed failure seq answer

end Call

/-! ## Groups -/

/-- A group as code: its discipline and the operations it calls. -/
structure GroupCode where
  /-- How the members run. -/
  discipline : Discipline
  /-- The members' operations, in declaration order. -/
  operations : List String
deriving Repr, DecidableEq

/-- Where a group stands. Only a transactional one is ever outside its members. -/
inductive Phase (α : Type) where
  /-- The transaction is being begun. -/
  | opening (begin : Call α)
  /-- The members run. -/
  | working
  /-- The transaction is being committed or, if the members failed, rolled back. -/
  | closing (call : Call α) (outcome : Except RunError (List α))

/-- A group that has been entered. -/
structure ActiveGroup (α : Type) where
  /-- How the members run. -/
  discipline : Discipline
  /-- Where the group stands. -/
  phase : Phase α
  /-- The member calls, in declaration order. -/
  members : List (Call α)
  /-- How many member calls have completed. -/
  completed : Nat

/-- The calls that a group may make. -/
inductive Target where
  /-- The call that begins the transaction. -/
  | begin
  /-- A member, by its position. -/
  | member (index : Nat)
  /-- The call that commits or rolls back the transaction. -/
  | settle
deriving Repr, DecidableEq

/-- What the members of a sequence give, if that is settled: their values if all of them gave one,
or the error of the first that did not. -/
def sequenceOutcome {α : Type} : List (Call α) → Option (Except RunError (List α))
  | [] => some (.ok [])
  | c :: rest =>
    match c.state with
    | .completed _ (.ok a) => (sequenceOutcome rest).map fun r => r.map (a :: ·)
    | .completed _ (.error e) => some (.error e)
    | _ => none

/-- What joining a call gives; a call that is not over yet counts as aborted. -/
def Call.joined {α : Type} (c : Call α) : Joined α :=
  match c.state with
  | .completed seq result => .completed seq result
  | .panicked reason => .lost reason
  | _ => .aborted

/-- What concurrent members give once all of them are over. -/
def concurrentOutcome {α : Type} (calls : List (Call α)) : Option (Except RunError (List α)) :=
  if calls.all Call.isOver then some (settle (calls.map fun c => (c.operation, c.joined))) else none

namespace ActiveGroup

variable {α : Type}

/-- A group that is just being entered. -/
def enter (code : GroupCode) : ActiveGroup α :=
  { discipline := code.discipline
    phase :=
      match code.discipline with
      | .transactional => .opening (Call.idle "begin")
      | _ => .working
    members := code.operations.map Call.idle
    completed := 0 }

/-- Whether the member at a position may have a turn: in a sequence only the first that is not
complete, in a concurrent group any that is not over. -/
def mayTurn (g : ActiveGroup α) (index : Nat) : Bool :=
  match g.discipline with
  | .concurrent => (g.members[index]?.map fun c => !c.isOver).getD false
  | _ => g.members.findIdx? (fun c => !c.isCompleted) = some index

/-- The members that may have a turn, in declaration order, each with its position. -/
def awaiting (g : ActiveGroup α) : List (Call α × Nat) :=
  match g.discipline with
  | .concurrent => g.members.zipIdx.filter fun e => !e.1.isOver
  | _ => (g.members.zipIdx.find? fun e => !e.1.isCompleted).toList

/-- Give the member at a position a turn. -/
def turnMember (g : ActiveGroup α) (cancelled : Bool) (index : Nat) (answer : Answer α) :
    ActiveGroup α × List Note :=
  match g.members[index]? with
  | none => (g, [])
  | some c =>
    let (c', notes) := c.turn cancelled (.member c.operation) g.completed answer
    ({ g with
        members := g.members.set index c'
        completed := g.completed + (if c'.isCompleted && !c.isCompleted then 1 else 0) }, notes)

/-- Give a call of the group a turn, if it may have one. -/
def turn (g : ActiveGroup α) (cancelled : Bool) (target : Target) (answer : Answer α) :
    ActiveGroup α × List Note :=
  match g.phase, target with
  | .opening b, .begin =>
    let (b, notes) := b.turn cancelled .begin 0 answer
    ({ g with phase := .opening b }, notes)
  | .working, .member index =>
    if g.mayTurn index then g.turnMember cancelled index answer else (g, [])
  | .closing c outcome, .settle =>
    let (c, notes) := c.turn false .commit 0 answer
    ({ g with phase := .closing c outcome }, notes)
  | _, _ => (g, [])

/-- Start on the members once the transaction is begun. -/
def startWork (g : ActiveGroup α) : ActiveGroup α :=
  match g.phase with
  | .opening b =>
    match b.state with
    | .completed _ (.ok _) => { g with phase := .working }
    | _ => g
  | _ => g

/-- Commit or roll back once the members of a transaction are through. -/
def startClosing (g : ActiveGroup α) : ActiveGroup α :=
  match g.phase, g.discipline with
  | .working, .transactional =>
    match sequenceOutcome g.members with
    | some (.ok values) => { g with phase := .closing (Call.idle "commit") (.ok values) }
    | some (.error e) => { g with phase := .closing (Call.idle "rollback") (.error e) }
    | none => g
  | _, _ => g

/-- The group after moving on from every phase that is over. -/
def progress (g : ActiveGroup α) : ActiveGroup α :=
  g.startWork.startClosing

/-- The result of a transaction whose last call has completed. A failed commit is an error of its
own; how a rollback went does not matter. -/
def closingOutcome (outcome : Except RunError (List α)) (last : Except RunError α) :
    Except RunError (List α) :=
  match outcome, last with
  | .ok values, .ok _ => .ok values
  | .ok _, .error e => .error e
  | .error e, _ => .error e

/-- The result of the group, if it is over. -/
def outcome? (g : ActiveGroup α) : Option (Except RunError (List α)) :=
  match g.phase with
  | .opening b =>
    match b.state with
    | .completed _ (.error e) => some (.error e)
    | _ => none
  | .working =>
    match g.discipline with
    | .direct => sequenceOutcome g.members
    | .concurrent => concurrentOutcome g.members
    | .transactional => none
  | .closing c outcome =>
    match c.state with
    | .completed _ last => some (closingOutcome outcome last)
    | _ => none

/-- Whether a call panicked that does not run in a task of its own. -/
def isBroken (g : ActiveGroup α) : Bool :=
  match g.phase with
  | .opening b => b.isPanicked
  | .working => g.discipline ≠ .concurrent && g.members.any Call.isPanicked
  | .closing c _ => c.isPanicked

/-- The notes of dropping the group: the calls that wait, then the transaction if it is open. -/
def dropNotes (g : ActiveGroup α) : List Note :=
  match g.phase with
  | .opening b => waiting [b]
  | .working => waiting g.members ++
      (match g.discipline with
       | .transactional => [.transactionDropped]
       | _ => [])
  | .closing c _ => waiting [c]
where
  /-- The notes of dropping calls. -/
  waiting (calls : List (Call α)) : List Note :=
    (calls.filter Call.isWaiting).map fun c => .dropped c.operation

end ActiveGroup

/-! ## Runs -/

/-- Where a run stands. -/
inductive Status (α : Type) where
  /-- A group runs, and others are to follow. -/
  | running (group : ActiveGroup α) (later : List GroupCode)
  /-- The run is over. -/
  | returned
  /-- A call panicked outside a concurrent group. -/
  | panicked
  /-- The run was dropped. -/
  | dropped

/-- A run: whether its token is cancelled, the groups that are over with their results, and where it
stands. -/
structure Run (α : Type) where
  /-- Whether the token is cancelled. -/
  cancelled : Bool
  /-- The groups that are over, in order, with their results. -/
  past : List (ActiveGroup α × Except RunError (List α))
  /-- Where the run stands. -/
  status : Status α

/-- What can happen to a run. -/
inductive Event (α : Type) where
  /-- The token is cancelled. -/
  | cancel
  /-- The run is dropped. -/
  | drop
  /-- A call has a turn. -/
  | turn (target : Target) (answer : Answer α)
deriving Repr, DecidableEq

namespace Run

variable {α : Type}

/-- Enter the next group. A group without members may be over at once. -/
def enterNext (cancelled : Bool) (past : List (ActiveGroup α × Except RunError (List α))) :
    List GroupCode → Run α × List Note
  | [] => (⟨cancelled, past, .returned⟩, [])
  | code :: later =>
    let g : ActiveGroup α := ActiveGroup.enter code
    match g.outcome? with
    | none => (⟨cancelled, past, .running g later⟩, [])
    | some (.error e) => (⟨cancelled, past ++ [(g, .error e)], .returned⟩, [])
    | some (.ok values) =>
      let (r, notes) := enterNext cancelled (past ++ [(g, .ok values)]) later
      (r, .groupEnded :: notes)

/-- The run of some groups before anything happens, and the notes of entering the first. -/
def start (cancelled : Bool) (groups : List GroupCode) : Run α × List Note :=
  enterNext cancelled [] groups

/-- Move on after a turn in the running group. -/
def moveOn (r : Run α) (g : ActiveGroup α) (later : List GroupCode) : Run α × List Note :=
  let g := g.progress
  if g.isBroken then ({ r with status := .panicked }, g.dropNotes)
  else
    match g.outcome? with
    | none => ({ r with status := .running g later }, [])
    | some (.error e) => ({ r with past := r.past ++ [(g, .error e)], status := .returned }, [])
    | some (.ok values) =>
      let (r, notes) := enterNext r.cancelled (r.past ++ [(g, .ok values)]) later
      (r, .groupEnded :: notes)

/-- The run after an event, with the notes of it. What cannot happen changes nothing. -/
def step (r : Run α) : Event α → Run α × List Note
  | .cancel => ({ r with cancelled := true }, [])
  | .drop =>
    match r.status with
    | .running g _ => ({ r with status := .dropped }, g.dropNotes)
    | _ => (r, [])
  | .turn target answer =>
    match r.status with
    | .running g later =>
      let (g, notes) := g.turn r.cancelled target answer
      let (r, more) := r.moveOn g later
      (r, notes ++ more)
    | _ => (r, [])

/-- The run after a list of events, with all notes. -/
def steps : Run α → List (Event α) → Run α × List Note
  | r, [] => (r, [])
  | r, e :: rest =>
    let (r, notes) := r.step e
    let (r, more) := steps r rest
    (r, notes ++ more)

/-- The results of the groups that are over. -/
def results (r : Run α) : List (Except RunError (List α)) :=
  r.past.map Prod.snd

end Run

end Orchestration.Execution
