/-!
# The pace of a search

Now and then a solver takes all choices back and starts anew, with what it has learnt; it may then
forget some of it. New starts come after numbers of conflicts that follow the pattern `1, 1, 2, 1,
1, 2, 4, …`.
-/

namespace HorizonPlanner.StandIn.Learning

/-- When to start anew and when to forget. -/
structure Pace where
  /-- The place in the pattern: how many times the factor has come down to one, and one more. -/
  place : Nat
  /-- The current factor. -/
  factor : Nat
  /-- The conflicts left before a new start. -/
  left : Nat
  /-- The number of conflicts since clauses were forgotten. -/
  lessons : Nat
  /-- The number of conflicts after which clauses are forgotten. -/
  memory : Nat

namespace Pace

/-- The number of conflicts in one unit of the pattern. -/
def unit : Nat := 1000

/-- The pace at the beginning. -/
def first : Pace :=
  ⟨1, 1, unit, 0, 1000⟩

/-- The pace after a conflict. -/
def afterConflict (p : Pace) : Pace :=
  { p with left := p.left - 1, lessons := p.lessons + 1 }

/-- The pace after a new start. The factor is doubled until it is the largest power of two in the
place. -/
def afterStart (p : Pace) : Pace :=
  let largest := p.place - (p.place &&& (p.place - 1))
  if p.factor < largest then { p with factor := 2 * p.factor, left := unit * (2 * p.factor) }
  else { p with place := p.place + 1, factor := 1, left := unit }

/-- Whether clauses are forgotten at a new start. -/
def isForgetful (p : Pace) : Bool :=
  p.memory ≤ p.lessons

/-- The pace after clauses have been forgotten. -/
def afterForgetting (p : Pace) : Pace :=
  { p with lessons := 0, memory := p.memory + 300 }

end Pace

end HorizonPlanner.StandIn.Learning
