/-!
# Aggregation schemas

A schema says how existing operations combine into one new operation: which groups of members run one
after another, which of the groups share a transaction, where the arguments of members come from, and
what type the results are assembled into.
-/

namespace Orchestration

/-- One operation call inside a group. -/
structure Member where
  /-- The operation's name in the catalog. -/
  operation : String
  /-- A name for a plain argument in the new operation. -/
  paramName : Option String
  /-- A path into a parameter that an earlier member brings in. -/
  sharedParam : Option String
  /-- A name for the result. -/
  resultName : Option String
  /-- Call without binding the result. -/
  suppressResult : Bool
  /-- Bind the result to the discard marker. -/
  discardResult : Bool
deriving Repr, DecidableEq

/-- Members that share a transaction or a concurrent join point. -/
structure Group where
  /-- Whether the members are declared to share a transaction. -/
  transactional : Bool
  /-- The members, in declaration order. -/
  members : List Member
deriving Repr, DecidableEq

/-- How operations combine into one new operation. -/
structure Schema where
  /-- The name of the new operation. -/
  name : String
  /-- The expression of its output type. -/
  output : Option String
  /-- The groups, in the order in which they run. -/
  groups : List Group
  /-- The stem of the output file, if it is not to come from the name. -/
  outFile : Option String
deriving Repr, DecidableEq

end Orchestration
