import HorizonPlanner.Condition

/-!
# Operators

An operator may be executed where its preconditions hold, and then makes its effects hold. Two
operators interfere when the result of executing both depends on the order, or one of them may
prevent the other.
-/

namespace HorizonPlanner

/-- An operator of a planning problem. -/
structure Operator where
  /-- The number of the operator. -/
  id : Nat
  /-- The name of the operator. -/
  label : String
  /-- What must hold before the operator is executed, ordered and without repetition. -/
  preconditions : List Condition
  /-- What holds after the operator was executed, ordered and without repetition. -/
  effects : List Condition
  deriving DecidableEq, Repr

namespace Operator

/-- The fluents the operator makes true. -/
def addEffects (o : Operator) : List Nat :=
  (o.effects.filter (·.polarity)).map (·.fluent)

/-- The fluents the operator makes false. -/
def deleteEffects (o : Operator) : List Nat :=
  (o.effects.filter (!·.polarity)).map (·.fluent)

/-- Whether the operator may be executed in a state. -/
def applicable (o : Operator) (s : State) : Bool :=
  o.preconditions.all (·.holds s)

/-- The state after the operator was executed. -/
def apply (o : Operator) (s : State) : State :=
  o.effects.foldl Condition.establish s

/-- Whether an effect is the opposite of one of the conditions, which are ordered. -/
def negates (effects conditions : List Condition) : Bool :=
  let cs := conditions.toArray
  effects.any fun e => e.negate.occursIn cs

/-- Whether two operators exclude each other at one time step: an effect of one of them is the
opposite of a precondition or of an effect of the other. An operator does not exclude itself. -/
def interferes (a b : Operator) : Bool :=
  a.id != b.id &&
    (negates a.effects b.preconditions || negates b.effects a.preconditions ||
      negates a.effects b.effects)

end Operator

end HorizonPlanner
