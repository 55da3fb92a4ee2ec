/-!
# The kinds of SAT solvers

A formula is solved by the embedded solver or by an external program.
-/

namespace HorizonPlanner.Sat

/-- The kinds of solvers a user may choose. -/
inductive EngineKind
  /-- The solver that is part of the planner. -/
  | embedded
  /-- Another program. -/
  | external
  deriving DecidableEq, Repr

namespace EngineKind

/-- The solver used unless the user chooses. -/
def default : EngineKind := .embedded

/-- The word for a kind of solver. -/
def word : EngineKind → String
  | .embedded => "cadical"
  | .external => "external"

/-- The word for a kind of solver, with a capital letter. -/
def title : EngineKind → String
  | .embedded => "Cadical"
  | .external => "External"

/-- All kinds of solvers. -/
def all : List EngineKind :=
  [.embedded, .external]

/-- The kind of solver a word stands for. -/
def ofWord? (w : String) : Option EngineKind :=
  all.find? (·.word == w)

/-- The refusal of a word that stands for no kind of solver. -/
def unknownMessage : String := "Matching variant not found"

end EngineKind

end HorizonPlanner.Sat
