import HorizonPlanner.Problem

/-!
# Pairs of interfering operators

The pairs of operators that exclude each other are collected effect by effect: an effect opposes the
operators that require, or produce, its opposite.
-/

namespace HorizonPlanner.Problem

/-- The numbers of the operators that have a condition among their effects. -/
def producers (p : Problem) (c : Condition) : List Nat :=
  (p.operators.filter (·.effects.contains c)).map (·.id)

/-- The numbers of the operators that have a condition among their preconditions. -/
def requirers (p : Problem) (c : Condition) : List Nat :=
  (p.operators.filter (·.preconditions.contains c)).map (·.id)

/-- The pairs formed by an operator and the others that one of its effects opposes, the smaller
number first. -/
def opposedBy (p : Problem) (o : Operator) (effect : Condition) : List (Nat × Nat) :=
  ((p.requirers effect.negate ++ p.producers effect.negate).filter (· != o.id)).map fun other =>
    (min o.id other, max o.id other)

/-- The order of pairs: by the first number, then by the second. -/
def pairLe (x y : Nat × Nat) : Bool :=
  x.1 < y.1 || (x.1 == y.1 && x.2 ≤ y.2)

/-- Removes the repetitions from a list in which equal elements are neighbours. -/
def dropRepeats : List (Nat × Nat) → List (Nat × Nat)
  | x :: y :: rest => if x = y then dropRepeats (y :: rest) else x :: dropRepeats (y :: rest)
  | xs => xs

/-- The pairs of operators that exclude each other at one time step, ordered and without
repetition. -/
def interferingPairs (p : Problem) : List (Nat × Nat) :=
  dropRepeats ((p.operators.flatMap fun o => o.effects.flatMap (p.opposedBy o)).mergeSort pairLe)

end HorizonPlanner.Problem
