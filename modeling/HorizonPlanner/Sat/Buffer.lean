import HorizonPlanner.Sat.Dimacs

/-!
# Buffers

A solver that works on text keeps a buffer: the text of the clauses, written as they come, and the
two numbers that will stand in the preamble. The preamble is written when an answer is asked for,
since both numbers may still grow.
-/

namespace HorizonPlanner.Sat

/-- The text of the clauses given so far, with what else a program has to be told. -/
structure Buffer where
  /-- The text of the clauses. -/
  text : Array Char
  /-- The number of clauses. -/
  nClauses : Nat
  /-- The number of known variables. -/
  nVars : Nat
  /-- The time the solver may take, in nanoseconds. -/
  timeLimit : Option Nat
  deriving DecidableEq, Repr

namespace Buffer

/-- The buffer before anything is given. -/
def empty : Buffer := ⟨#[], 0, 0, none⟩

/-- Writes a literal, whose variable is known from now on. -/
def addLiteral (b : Buffer) (l : Literal) : Buffer :=
  { b with nVars := max b.nVars l.var.number, text := b.text ++ l.text ++ [' '] }

/-- Closes a clause. -/
def closeClause (b : Buffer) : Buffer :=
  { b with text := b.text ++ ['0', '\n'], nClauses := b.nClauses + 1 }

/-- Writes a clause. -/
def addClause (b : Buffer) (c : Clause) : Buffer :=
  (c.foldl addLiteral b).closeClause

/-- Makes at least this number of variables known. -/
def reserve (b : Buffer) (n : Nat) : Buffer :=
  if b.nVars < n then { b with nVars := n } else b

/-- Sets the limit of time. -/
def limitTime (b : Buffer) (limit : Nat) : Buffer :=
  { b with timeLimit := some limit }

/-- The buffer of a solver that was given an instance. -/
def ofInstance (i : Instance) : Buffer :=
  { i.clauses.toList.foldl addClause (empty.reserve i.reserved) with timeLimit := i.timeLimit }

/-- What a program reads when an answer is asked for. -/
def source (b : Buffer) : Source :=
  ⟨"p cnf ".toList ++ Text.Numeral.ofNat b.nVars ++ [' '] ++ Text.Numeral.ofNat b.nClauses ++
    ['\n'], b.text.toList⟩

end Buffer

end HorizonPlanner.Sat
