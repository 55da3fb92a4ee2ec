import HorizonPlanner.Sat.Literal
import Std.Data.HashSet

/-!
# Sets of clauses

A clause set keeps the clauses of a formula in the order in which they were added. Tautologies and
clauses with the literals of an earlier clause are left out, and so are repeated literals. The set
notices two kinds of contradiction at once: an empty clause, and two unit clauses with opposite
literals.
-/

namespace HorizonPlanner.Sat

/-- The first occurrence of every literal, in order. -/
def Clause.withoutRepetition (c : Clause) : Clause :=
  c.eraseDups

/-- The literals of a clause, ordered by variable. -/
def Clause.sorted (c : Clause) : Clause :=
  c.mergeSort Literal.le

/-- Whether two neighbours of a list of literals are about the same variable. -/
def Clause.hasOpposites : List Literal → Bool
  | a :: b :: rest => a.var == b.var || hasOpposites (b :: rest)
  | _ => false

/-- A set of clauses. -/
structure ClauseSet where
  /-- The clauses, in the order of their first insertion. -/
  clauses : Array Clause
  /-- The ordered literals of every clause. -/
  known : Std.HashSet Clause
  /-- The literals of the unit clauses. -/
  units : Std.HashSet Literal
  /-- Whether a contradiction was noticed. -/
  contradictory : Bool

namespace ClauseSet

/-- The set without clauses. -/
def empty : ClauseSet := ⟨#[], ∅, ∅, false⟩

/-- The number of clauses. -/
def size (s : ClauseSet) : Nat :=
  s.clauses.size

/-- The clauses, in the order of their first insertion. -/
def toList (s : ClauseSet) : List Clause :=
  s.clauses.toList

/-- Stores a clause that is neither a tautology nor known. -/
def store (s : ClauseSet) (c key : Clause) : ClauseSet :=
  match c with
  | [] => { s with clauses := s.clauses.push c, known := s.known.insert key, contradictory := true }
  | [l] =>
    { clauses := s.clauses.push c, known := s.known.insert key, units := s.units.insert l,
      contradictory := s.contradictory || s.units.contains l.negate }
  | _ => { s with clauses := s.clauses.push c, known := s.known.insert key }

/-- Adds a clause, and tells whether the set has changed. -/
def insert (s : ClauseSet) (clause : Clause) : ClauseSet × Bool :=
  let c := clause.withoutRepetition
  let key := c.sorted
  if Clause.hasOpposites key || s.known.contains key then (s, false) else (s.store c key, true)

/-- Adds clauses in order. -/
def insertAll (s : ClauseSet) (cs : List Clause) : ClauseSet :=
  cs.foldl (fun s c => (s.insert c).1) s

/-- The set of these clauses, added in order. -/
def ofList (cs : List Clause) : ClauseSet :=
  insertAll empty cs

/-- Orders lists of literals by the integers that stand for them, the first difference deciding. -/
def leInts : List Int → List Int → Bool
  | [], _ => true
  | _ :: _, [] => false
  | a :: as, b :: bs => a < b || (a == b && leInts as bs)

/-- The clauses as sets: the known ones, in the order of their integers. -/
def literalSets (s : ClauseSet) : List Clause :=
  s.known.toList.mergeSort fun a b => leInts (a.map Literal.toInt) (b.map Literal.toInt)

end ClauseSet

end HorizonPlanner.Sat
