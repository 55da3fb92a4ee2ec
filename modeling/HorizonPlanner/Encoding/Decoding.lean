import HorizonPlanner.Encoding.Layout
import HorizonPlanner.Plan
import HorizonPlanner.Sat.Assignment

/-!
# Reading plans off assignments

An assignment says which operators are executed at which steps: those whose variables it makes true.
A variable without a value counts as false.
-/

namespace HorizonPlanner.Encoding.Layout

open HorizonPlanner.Sat

/-- The operators with their variables at a step, in numbering order. -/
def actionsAt (t : Layout) (step : Nat) : Except Violation (List (Nat × Variable)) :=
  (List.range t.nOperators).mapM fun o => (t.variableOf (.operator o step)).map fun v => (o, v)

/-- The operators an assignment has executed at a step, in numbering order. -/
def stepOf (t : Layout) (a : Assignment) (step : Nat) : Except Violation PlanStep := do
  let actions ← t.actionsAt step
  return ⟨step, (actions.filter fun x => a.valueOf x.2 == some true).map (·.1)⟩

/-- The plan an assignment describes. Steps at which nothing is executed are left out, but room is
set aside for them, too. -/
def decode (t : Layout) (a : Assignment) : Except Violation Plan := do
  Word.room t.horizon PlanStep.bytes
  let steps ← (List.range t.horizon).mapM (t.stepOf a)
  Plan.ofSteps steps

end HorizonPlanner.Encoding.Layout
