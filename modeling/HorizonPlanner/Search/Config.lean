import HorizonPlanner.Text.Numeral

/-!
# The parameters of a search

A search tries the horizons from a minimal to a maximal one within a time budget. The calls of the
SAT solver may have a time limit of their own. Times are counted in nanoseconds.
-/

namespace HorizonPlanner.Search

open Text

/-- The parameters of a search. -/
structure Config where
  /-- The first horizon. -/
  minHorizon : Nat
  /-- The last horizon. -/
  maxHorizon : Nat
  /-- The time budget of the whole search. -/
  timeout : Nat
  /-- The time limit of one call of the solver, if there is one. -/
  attemptTimeout : Option Nat
  deriving DecidableEq, Repr

/-- One second. -/
def second : Nat := 1000000000

/-- The parameters used where the user gives none: up to 256 steps within ten minutes. -/
def Config.default : Config := ⟨0, 256, 600 * second, none⟩

/-- The reasons why parameters make no sense. -/
inductive ConfigFault
  /-- The minimal horizon exceeds the maximal one. -/
  | emptyRange (minHorizon maxHorizon : Nat)
  /-- The time budget is zero. -/
  | noTime
  /-- The time limit of a call is zero. -/
  | noAttemptTime
  deriving DecidableEq, Repr

/-- The explanation of senseless parameters. -/
def ConfigFault.message : ConfigFault → String
  | .emptyRange minHorizon maxHorizon =>
    "the minimal horizon (" ++ Numeral.text minHorizon ++ ") is greater than the maximal horizon ("
      ++ Numeral.text maxHorizon ++ ")"
  | .noTime => "the timeout must be strictly positive"
  | .noAttemptTime => "the attempt timeout must be strictly positive"

/-- Checks that there is a horizon to try and time to try it. -/
def Config.validate (c : Config) : Except ConfigFault Unit :=
  if c.maxHorizon < c.minHorizon then .error (.emptyRange c.minHorizon c.maxHorizon)
  else if c.timeout = 0 then .error .noTime
  else if c.attemptTimeout = some 0 then .error .noAttemptTime
  else .ok ()

/-- What was being done when the parameters of a search were refused. -/
def ConfigFault.chain (f : ConfigFault) : List String :=
  ["invalid planner configuration", f.message]

end HorizonPlanner.Search
