import Orchestration.Naming.Identifier

/-!
# Allocating names

Within one plan every name is handed out once. An explicit name is either free or refused; a derived
name gets the smallest free number from 2 on when it is taken. At the start the keywords and the
names that the generated body binds are taken. Of the candidates `base_2`, `base_3`, … one more than
there are taken names is enough to find a free one.
-/

namespace Orchestration.Naming

/-- The names that one plan has already given away. -/
structure TakenNames where
  /-- The names, the most recent first. -/
  names : List String
deriving Repr, DecidableEq

namespace TakenNames

/-- What is taken before any name is claimed. -/
def initial : TakenNames :=
  ⟨bodyNames ++ keywords⟩

/-- Whether a name is taken. -/
def contains (t : TakenNames) (name : String) : Bool :=
  t.names.contains name

/-- The names with one more taken. -/
def insert (t : TakenNames) (name : String) : TakenNames :=
  if t.contains name then t else ⟨name :: t.names⟩

/-- Claim exactly this name: what is taken afterwards, unless the name was taken before. -/
def claim? (t : TakenNames) (name : String) : Option TakenNames :=
  if t.contains name then none else some (t.insert name)

/-- The candidate with number `n` for a base that is taken. -/
def numbered (base : String) (n : Nat) : String :=
  base ++ "_" ++ toString n

/-- The least number from 2 on whose candidate is free. -/
def freeNumber (t : TakenNames) (base : String) : Nat :=
  (((List.range (t.names.length + 1)).map (· + 2)).find? fun n => !t.contains (numbered base n)).getD 2

/-- The name that a derived claim hands out: the base (`value` for an empty one), or its first free
numbered form. -/
def derivedName (t : TakenNames) (base : String) : String :=
  let base := if base.isEmpty then "value" else base
  if t.contains base then numbered base (t.freeNumber base) else base

/-- Claim a name derived from `base`. -/
def claimDerived (t : TakenNames) (base : String) : String × TakenNames :=
  (t.derivedName base, t.insert (t.derivedName base))

end TakenNames

end Orchestration.Naming
