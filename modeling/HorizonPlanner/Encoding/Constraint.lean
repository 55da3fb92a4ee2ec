import HorizonPlanner.Encoding.Interference
import HorizonPlanner.Encoding.Layout

/-!
# Constraints on plans

What a plan has to satisfy is stated first about propositions, without regard to the numbering of
variables. The constraints fix the initial state and the goal, tie every executed operator to its
preconditions and effects, require a cause for every change of a fluent, and keep interfering
operators apart.
-/

namespace HorizonPlanner.Encoding

/-- A proposition together with a truth value. -/
structure Assertion where
  /-- The proposition. -/
  proposition : Proposition
  /-- The truth value it is asserted to have. -/
  value : Bool
  deriving DecidableEq, Repr

/-- A constraint on the truth values of propositions. -/
inductive Constraint
  /-- The assertion is true. -/
  | always (assertion : Assertion)
  /-- If the operator is executed at the step, then all assertions are true. -/
  | whenever (operator step : Nat) (consequences : List Assertion)
  /-- One of the assertions is true. -/
  | oneOf (assertions : List Assertion)
  deriving DecidableEq, Repr

/-- The assertion that a condition holds at a step. -/
def Assertion.ofCondition (step : Nat) (c : Condition) : Assertion :=
  ⟨.fluent c.fluent step, c.polarity⟩

/-- The assertion that an operator is executed at a step, or that it is not. -/
def Assertion.executed (step : Nat) (value : Bool) (operator : Nat) : Assertion :=
  ⟨.operator operator step, value⟩

/-- Every fluent has its initial value at step zero. -/
def initialConstraints (p : Problem) : List Constraint :=
  p.initial.toList.zipIdx.map fun e => .always ⟨.fluent e.2 0, e.1⟩

/-- The goal holds at the last step. -/
def goalConstraints (p : Problem) (horizon : Nat) : List Constraint :=
  p.goal.map fun c => .always (.ofCondition horizon c)

/-- The preconditions of an executed operator hold at its step. -/
def preconditionConstraints (p : Problem) (step : Nat) : List Constraint :=
  p.operators.map fun o => .whenever o.id step (o.preconditions.map (.ofCondition step))

/-- The effects of an executed operator hold at the next step. -/
def effectConstraints (p : Problem) (step : Nat) : List Constraint :=
  p.operators.map fun o => .whenever o.id step (o.effects.map (.ofCondition (step + 1)))

/-- The operators that may change a fluent. -/
structure Changers where
  /-- The fluent. -/
  fluent : Nat
  /-- The operators that make it false. -/
  deleters : List Nat
  /-- The operators that make it true. -/
  adders : List Nat
  deriving DecidableEq, Repr

/-- The operators that may change each fluent. -/
def changers (p : Problem) : List Changers :=
  (List.range p.nFluents).map fun f => ⟨f, p.producers ⟨f, false⟩, p.producers ⟨f, true⟩⟩

/-- A fluent keeps its value to the next step unless an operator that changes it is executed. -/
def frameConstraints (cs : List Changers) (step : Nat) : List Constraint :=
  cs.flatMap fun c =>
    [.oneOf (⟨.fluent c.fluent step, false⟩ :: ⟨.fluent c.fluent (step + 1), true⟩
        :: c.deleters.map (.executed step true)),
      .oneOf (⟨.fluent c.fluent step, true⟩ :: ⟨.fluent c.fluent (step + 1), false⟩
        :: c.adders.map (.executed step true))]

/-- Of two interfering operators, one is not executed. -/
def exclusionConstraints (pairs : List (Nat × Nat)) (step : Nat) : List Constraint :=
  pairs.map fun x => .oneOf [.executed step false x.1, .executed step false x.2]

/-- All constraints about one time step. -/
def stepConstraints (p : Problem) (cs : List Changers) (pairs : List (Nat × Nat)) (step : Nat) :
    List Constraint :=
  preconditionConstraints p step ++ effectConstraints p step ++ frameConstraints cs step
    ++ exclusionConstraints pairs step

/-- The constraints on the plans of a horizon. -/
def constraints (p : Problem) (horizon : Nat) : List Constraint :=
  let cs := changers p
  let pairs := p.interferingPairs
  initialConstraints p ++ goalConstraints p horizon
    ++ (List.range horizon).flatMap (stepConstraints p cs pairs)

end HorizonPlanner.Encoding
