import HorizonPlanner.Plan

/-!
# Validation of plans

A plan solves a problem when every step can be executed and the goal holds at the end. The operators
of a step must all be applicable in the state before it and must not interfere; their effects are
then applied together.
-/

namespace HorizonPlanner.Plan

/-- The reasons why a plan does not solve a problem. -/
inductive Flaw
  /-- An operator is not applicable at its time step. -/
  | notApplicable (operator : String) (time : Nat)
  /-- Two operators interfere at their common time step. -/
  | interference (first second : String) (time : Nat)
  /-- A goal condition on this fluent does not hold at the end. -/
  | goalMissed (fluent : String)
  deriving DecidableEq, Repr

/-- The explanation of a flaw. -/
def Flaw.message : Flaw → String
  | .notApplicable operator time =>
    "operator " ++ operator ++ " is not applicable at time step " ++ Text.Numeral.text time
  | .interference first second time =>
    "operators " ++ first ++ " and " ++ second ++ " interfere at time step " ++
      Text.Numeral.text time
  | .goalMissed fluent =>
    "goal condition on fluent " ++ fluent ++ " does not hold at the end of the plan"

/-- The first pair of operators that interfere, in the order of the list. -/
def interference? : List Operator → Option (Operator × Operator)
  | [] => none
  | a :: rest =>
    match rest.find? a.interferes with
    | some b => some (a, b)
    | none => interference? rest

/-- The state after the effects of all operators were applied. -/
def applyAll (operators : List Operator) (s : State) : State :=
  operators.foldl (fun s o => o.apply s) s

/-- Executes one step, unless it has a flaw. -/
def executeStep (p : Problem) (step : PlanStep) (s : State) : Except (Fault Flaw) State :=
  match step.resolve p with
  | .error v => .error (.violated v)
  | .ok operators =>
    match operators.find? fun o => !o.applicable s with
    | some o => .error (.failed (.notApplicable o.label step.time))
    | none =>
      match interference? operators with
      | some (a, b) => .error (.failed (.interference a.label b.label step.time))
      | none => .ok (applyAll operators s)

/-- Executes steps one after the other, up to the first flaw. -/
def execute (p : Problem) : List PlanStep → State → Except (Fault Flaw) State
  | [], s => .ok s
  | step :: rest, s =>
    match executeStep p step s with
    | .ok t => execute p rest t
    | .error fault => .error fault

/-- Checks that a plan solves a problem, and gives the state it ends in. -/
def validate (plan : Plan) (p : Problem) : Except (Fault Flaw) State :=
  match execute p plan.steps p.initial with
  | .error fault => .error fault
  | .ok s =>
    match p.goal.find? fun c => !c.holds s with
    | some c => .error (.failed (.goalMissed (p.fluentLabel c.fluent)))
    | none => .ok s

end HorizonPlanner.Plan
