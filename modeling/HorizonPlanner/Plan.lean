import HorizonPlanner.Problem

/-!
# Plans

A plan lists the operators executed at each time step. Time steps at which nothing is executed are
left out, so the times of a plan may have gaps.
-/

namespace HorizonPlanner

/-- The operators executed at one time step. -/
structure PlanStep where
  /-- The time step. -/
  time : Nat
  /-- The numbers of the operators. -/
  operators : List Nat
  deriving DecidableEq, Repr

/-- The number of bytes a step takes besides its operators: one word for the time, and three for the
place, the length and the room of the list of operators. -/
def PlanStep.bytes : Nat := 32

/-- A plan, as its non-empty steps in order of time. -/
structure Plan where
  /-- The steps. -/
  steps : List PlanStep
  deriving DecidableEq, Repr

namespace Plan

/-- Whether the times of the steps are strictly increasing. -/
def increasing : List PlanStep → Bool
  | a :: b :: rest => a.time < b.time && increasing (b :: rest)
  | _ => true

/-- The plan with these steps. Steps without operators are dropped; the others must come in strictly
increasing order of time. -/
def ofSteps (steps : List PlanStep) : Except Violation Plan :=
  let kept := steps.filter fun s => !s.operators.isEmpty
  if increasing kept then .ok ⟨kept⟩ else .error .unorderedSteps

/-- The number of steps. -/
def length (p : Plan) : Nat :=
  p.steps.length

/-- The operators executed, in order. -/
def allOperators (p : Plan) : List Nat :=
  p.steps.flatMap (·.operators)

/-- The number of operators executed. -/
def nActions (p : Plan) : Nat :=
  p.allOperators.length

end Plan

/-- The operators of a step. Their numbers must exist. -/
def PlanStep.resolve (s : PlanStep) (p : Problem) : Except Violation (List Operator) :=
  s.operators.mapM p.operatorById

end HorizonPlanner
