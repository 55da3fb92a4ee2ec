import HorizonPlanner.Sat.Assignment
import HorizonPlanner.Sat.ClauseSet

/-!
# Instances for a SAT solver, and its answers

An instance collects what a solver is given: clauses in the order in which they come, the number of
variables to be known at least, and possibly a limit of time. Unlike a clause set it keeps every
clause as it is.
-/

namespace HorizonPlanner.Sat

/-- The input of a SAT solver. -/
structure Instance where
  /-- The clauses. -/
  clauses : Array Clause
  /-- The number of variables that are known even if no clause is about them. -/
  reserved : Nat
  /-- The time the solver may take, in nanoseconds. -/
  timeLimit : Option Nat
  deriving DecidableEq, Repr

namespace Instance

/-- The instance without clauses, variables and limit. -/
def empty : Instance := ⟨#[], 0, none⟩

/-- Adds a clause. -/
def addClause (i : Instance) (c : Clause) : Instance :=
  { i with clauses := i.clauses.push c }

/-- Adds clauses one after the other. -/
def addClauses (i : Instance) (cs : List Clause) : Instance :=
  cs.foldl addClause i

/-- Makes at least this number of variables known. -/
def reserve (i : Instance) (n : Nat) : Instance :=
  { i with reserved := max i.reserved n }

/-- Sets the limit of time. -/
def limitTime (i : Instance) (limit : Nat) : Instance :=
  { i with timeLimit := some limit }

/-- The number of clauses. -/
def nClauses (i : Instance) : Nat :=
  i.clauses.size

/-- The largest variable of a list of clauses, zero if there is none. -/
def largestVariable (cs : List Clause) : Nat :=
  cs.foldl (fun n c => max n c.maxVariable) 0

/-- The number of known variables: the larger of the reserved number and the largest variable of a
clause. -/
def nVars (i : Instance) : Nat :=
  max i.reserved (largestVariable i.clauses.toList)

end Instance

/-- What a SAT solver may find out about an instance. -/
inductive Answer
  /-- The clauses have this model. -/
  | satisfiable (model : Assignment)
  /-- The clauses have no model. -/
  | unsatisfiable
  /-- The solver did not find out. -/
  | unknown
  deriving DecidableEq, Repr

namespace Answer

/-- The word for an answer. -/
def name : Answer → String
  | .satisfiable _ => "SAT"
  | .unsatisfiable => "UNSAT"
  | .unknown => "UNKNOWN"

/-- The model of an answer, which must be definite. -/
def model (a : Answer) : Except Violation (Option Assignment) :=
  match a with
  | .satisfiable m => .ok (some m)
  | .unsatisfiable => .ok none
  | .unknown => .error .noModelOfUnknown

end Answer

/-- A SAT solver: it answers an instance, unless what it says cannot be understood. -/
abbrev Engine (m : Type → Type) :=
  Instance → m (Except Violation Answer)

end HorizonPlanner.Sat
