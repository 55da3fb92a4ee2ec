import HorizonPlanner.Sat.Instance

/-!
# The DIMACS form of an instance

The text of an instance is a preamble with the numbers of variables and clauses, followed by the
clauses, each closed by a zero. A solver reads the text in pieces of sizes of its own choice; a
piece never goes across the end of the preamble.
-/

namespace HorizonPlanner.Sat

open Text

/-- The text of a clause. -/
def Clause.dimacs (c : Clause) : List Char :=
  c.flatMap (fun l => l.text ++ [' ']) ++ ['0', '\n']

namespace Instance

/-- The line in front of the clauses. -/
def preamble (i : Instance) : List Char :=
  "p cnf ".toList ++ Numeral.ofNat i.nVars ++ [' '] ++ Numeral.ofNat i.nClauses ++ ['\n']

/-- The text of the clauses. -/
def clauseText (i : Instance) : List Char :=
  i.clauses.toList.flatMap Clause.dimacs

/-- The whole text. -/
def dimacs (i : Instance) : List Char :=
  i.preamble ++ i.clauseText

end Instance

/-- What is still to be read of the text of an instance. -/
structure Source where
  /-- The rest of the preamble. -/
  preamble : List Char
  /-- The rest of the clauses. -/
  clauses : List Char
  deriving DecidableEq, Repr

namespace Source

/-- The source of the text of an instance. -/
def ofInstance (i : Instance) : Source :=
  ⟨i.preamble, i.clauseText⟩

/-- All that is still to be read. -/
def text (s : Source) : List Char :=
  s.preamble ++ s.clauses

/-- Reads at most `n` characters. The clauses are read once the preamble gives nothing, which is
also the case when nothing is asked for. -/
def read (s : Source) (n : Nat) : List Char × Source :=
  let piece := s.preamble.take n
  if piece.isEmpty then (s.clauses.take n, { s with clauses := s.clauses.drop n })
  else (piece, { s with preamble := s.preamble.drop n })

/-- Reads pieces of these sizes, and then all the rest. -/
def readPieces (s : Source) : List Nat → List (List Char)
  | [] => [s.preamble ++ s.clauses]
  | n :: rest => (s.read n).1 :: (s.read n).2.readPieces rest

end Source

end HorizonPlanner.Sat
