import HorizonPlanner.Sat.Literal

/-!
# The numbering of propositions

For a horizon `T` there is a variable for every fluent at each of the steps `0, …, T`, and one for
every operator at each of the steps `0, …, T - 1`. The variables of fluents come first, layer by
layer, then those of operators.
-/

namespace HorizonPlanner.Encoding

open HorizonPlanner.Sat

/-- What a variable of an encoding stands for. -/
inductive Proposition
  /-- A fluent is true at a step. -/
  | fluent (fluent step : Nat)
  /-- An operator is executed at a step. -/
  | operator (operator step : Nat)
  deriving DecidableEq, Repr

/-- The dimensions of an encoding, which determine its variables. -/
structure Layout where
  /-- The number of fluents. -/
  nFluents : Nat
  /-- The number of operators. -/
  nOperators : Nat
  /-- The number of time steps. -/
  horizon : Nat
  deriving DecidableEq, Repr

namespace Layout

/-- The number of variables that stand for fluents. -/
def nStateVars (t : Layout) : Nat :=
  t.nFluents * (t.horizon + 1)

/-- The number of variables. -/
def nVars (t : Layout) : Nat :=
  t.nStateVars + t.nOperators * t.horizon

/-- The number of variables that stand for fluents. It has to be a word, and so has the number of
layers. -/
def stateVarCount (t : Layout) : Except Violation Nat := do
  Word.mul t.nFluents (← Word.add t.horizon 1)

/-- The number of variables, which has to be a word. -/
def varCount (t : Layout) : Except Violation Nat := do
  Word.add (← t.stateVarCount) (← Word.mul t.nOperators t.horizon)

/-- The variable of a proposition, which must be about a fluent, an operator and a step of the
layout. Its number has to be a word. -/
def variableOf (t : Layout) : Proposition → Except Violation Variable
  | .fluent f s =>
    if f < t.nFluents ∧ s ≤ t.horizon then do
      let before ← Word.add 1 (← Word.mul s t.nFluents)
      Variable.ofNat (← Word.add before f)
    else .error (.noStateVariable f s t.horizon)
  | .operator o s =>
    if o < t.nOperators ∧ s < t.horizon then do
      let fluents ← Word.add 1 (← t.stateVarCount)
      let before ← Word.add fluents (← Word.mul s t.nOperators)
      Variable.ofNat (← Word.add before o)
    else .error (.noActionVariable o s t.horizon)

/-- The proposition that has this number as its variable, if there is one. -/
def propositionOf (t : Layout) : Nat → Except Violation (Option Proposition)
  | 0 => return none
  | index + 1 => do
    let nStateVars ← t.stateVarCount
    if index < nStateVars then
      return some (.fluent (← Word.rem index t.nFluents) (← Word.div index t.nFluents))
    else if index < (← t.varCount) then
      let action := index - nStateVars
      return some (.operator (← Word.rem action t.nOperators) (← Word.div action t.nOperators))
    else return none

end Layout

end HorizonPlanner.Encoding
