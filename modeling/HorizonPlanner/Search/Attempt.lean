import HorizonPlanner.Sat.Instance

/-!
# Attempts at a formula

An attempt hands a clause set to a solver that has seen nothing before. A set with a visible
contradiction is not worth a call.
-/

namespace HorizonPlanner.Search

open HorizonPlanner.Sat

/-- What an attempt finds out. -/
inductive Finding
  /-- The clauses have this model. -/
  | satisfiable (model : Assignment)
  /-- The clauses have no model. -/
  | unsatisfiable
  /-- The clauses are visibly contradictory; no solver was called. -/
  | contradiction
  /-- The solver stopped without an answer. -/
  | timedOut
  deriving DecidableEq, Repr

/-- The kind of a finding. -/
inductive Verdict
  /-- There is a model. -/
  | satisfiable
  /-- There is no model. -/
  | unsatisfiable
  /-- There is a visible contradiction. -/
  | contradiction
  /-- There is no answer. -/
  | timedOut
  deriving DecidableEq, Repr

/-- The word for a verdict. -/
def Verdict.name : Verdict → String
  | .satisfiable => "SAT"
  | .unsatisfiable => "UNSAT"
  | .contradiction => "CONTRADICTION"
  | .timedOut => "TIMEOUT"

namespace Finding

/-- The kind of a finding. -/
def verdict : Finding → Verdict
  | .satisfiable _ => .satisfiable
  | .unsatisfiable => .unsatisfiable
  | .contradiction => .contradiction
  | .timedOut => .timedOut

/-- What the answer of a solver tells. A solver without an answer has run out of time. -/
def ofAnswer : Answer → Finding
  | .satisfiable model => .satisfiable model
  | .unsatisfiable => .unsatisfiable
  | .unknown => .timedOut

end Finding

/-- The instance handed to a solver: the clauses of a set, over at least `nVars` variables. -/
def instanceOf (clauses : ClauseSet) (nVars limit : Nat) : Instance :=
  ((Instance.empty.reserve nVars).addClauses clauses.toList).limitTime limit

/-- Attempts a clause set over at least `nVars` variables within a time limit. -/
def solve {m : Type → Type} [Monad m] (engine : Engine m) (clauses : ClauseSet)
    (nVars limit : Nat) :
    m (Except Violation Finding) :=
  if clauses.contradictory then pure (.ok .contradiction)
  else do
    let answer ← engine (instanceOf clauses nVars limit)
    return answer.map Finding.ofAnswer

end HorizonPlanner.Search
