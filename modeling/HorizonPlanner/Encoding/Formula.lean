import HorizonPlanner.Encoding.Constraint
import HorizonPlanner.Sat.ClauseSet

/-!
# The formula of a horizon

A layout turns constraints on propositions into clauses on variables. The clauses for a horizon are
satisfiable exactly when the problem has a plan that fits the horizon.
-/

namespace HorizonPlanner

open HorizonPlanner.Sat

namespace Encoding.Layout

/-- The literal of an assertion. -/
def literal (t : Layout) (a : Assertion) : Except Violation Literal := do
  Literal.ofVariable (← t.variableOf a.proposition) a.value

/-- The clauses of a constraint. The variable of an operator has to exist even if nothing follows
from its execution. -/
def clauses (t : Layout) : Constraint → Except Violation (List Clause)
  | .always a => do
    let l ← t.literal a
    return [[l]]
  | .whenever operator step consequences => do
    let o ← t.literal (.executed step false operator)
    consequences.mapM fun a => do
      let l ← t.literal a
      return [o, l]
  | .oneOf assertions => do
    let c ← assertions.mapM t.literal
    return [c]

/-- Adds the clauses of constraints to a set, one constraint after the other. -/
def addAll (t : Layout) (set : ClauseSet) (ks : List Constraint) : Except Violation ClauseSet :=
  ks.foldlM (fun set k => do return set.insertAll (← t.clauses k)) set

/-- Adds the clauses of this number of steps to a set, from one step on. -/
def addSteps (t : Layout) (p : Problem) (cs : List Changers) (pairs : List (Nat × Nat)) :
    Nat → Nat → ClauseSet → Except Violation ClauseSet
  | 0, _, set => return set
  | n + 1, step, set => do
    t.addSteps p cs pairs n (step + 1) (← t.addAll set (stepConstraints p cs pairs step))

/-- The clauses of all constraints on the plans of a problem. The layout has to provide the
variables. -/
def encode (t : Layout) (p : Problem) : Except Violation ClauseSet := do
  let set ← t.addAll .empty (initialConstraints p ++ goalConstraints p t.horizon)
  t.addSteps p (changers p) p.interferingPairs t.horizon 0 set

end Encoding.Layout

/-- The layout that fits a problem and a horizon. -/
def Problem.layout (p : Problem) (horizon : Nat) : Encoding.Layout :=
  ⟨p.nFluents, p.nOperators, horizon⟩

end HorizonPlanner
