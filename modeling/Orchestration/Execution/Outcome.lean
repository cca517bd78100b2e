/-!
# How calls and invocations end

A call ends with a value, with a failure, or by panicking. An invocation of a generated operation
fails with the error of one of its members, with the cancellation of one, with a member whose task
never completed, or because a transaction could not be begun or committed. What is told of a task that
never completed comes from whatever runs the tasks.
-/

namespace Orchestration.Execution

/-- How a call ends of its own accord. -/
inductive Ending (α : Type) where
  /-- It gives a value. -/
  | value (a : α)
  /-- It fails, with the text of its error. -/
  | failure (text : String)
  /-- It panics; the reason is what is told of the task that it runs in, if it runs in one. -/
  | panicWith (reason : String)
deriving Repr, DecidableEq

/-- A panic without a text of its own. -/
def Ending.panic {α : Type} : Ending α :=
  .panicWith "task panicked"

/-- A task that never completed. -/
structure AbortedTask where
  /-- The operation that it called. -/
  operation : String
  /-- What is told of it. -/
  reason : String
deriving Repr, DecidableEq

/-- Where only a name is wanted, a task has that of its operation. -/
instance : Coe AbortedTask String :=
  ⟨AbortedTask.operation⟩

/-- Why an invocation failed. -/
inductive RunError where
  /-- A member failed. -/
  | member (operation text : String)
  /-- A call was cancelled. -/
  | cancelled (operation : String)
  /-- The task of a concurrent member panicked or was aborted. -/
  | taskAborted (task : AbortedTask)
  /-- A transaction could not be begun. -/
  | begin (text : String)
  /-- A transaction could not be committed. -/
  | commit (text : String)
deriving Repr, DecidableEq

/-- The wording of an error. -/
def RunError.message : RunError → String
  | member operation text => operation ++ " failed: " ++ text
  | cancelled operation => operation ++ " cancelled"
  | taskAborted task => task ++ " task aborted: " ++ task.reason
  | begin text => "cannot begin transaction: " ++ text
  | commit text => "cannot commit transaction: " ++ text

end Orchestration.Execution
