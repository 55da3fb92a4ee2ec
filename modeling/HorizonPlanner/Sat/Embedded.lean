import HorizonPlanner.Sat.Instance

/-!
# The embedded solver

The embedded solver hands its clauses to a library that works on 32-bit words. They are handed over
as one stream of words in which a zero closes a clause, and every literal is narrowed to a word on
the way. The library therefore sees the clauses that were added as long as their variables fit into
a word. What it replies is a parameter.
-/

namespace HorizonPlanner.Sat.Embedded

/-- The number of signed 32-bit words that are not negative. -/
def halfOfWords : Nat := 2147483648

/-- The signed 32-bit word a literal is narrowed to. -/
def narrow (l : Literal) : Int :=
  if l.var.number < halfOfWords then l.toInt else l.toInt.bmod (Nat.pow 2 32)

/-- Narrowing keeps the remainder modulo the number of words, also where nothing is to be done. -/
theorem narrow_eq_bmod (l : Literal) : narrow l = l.toInt.bmod (Nat.pow 2 32) := by
  unfold narrow
  split
  · next h =>
    have hwords : Nat.pow 2 32 = 2 * halfOfWords := by decide
    rw [hwords]
    unfold Literal.toInt
    split <;> exact (Int.bmod_eq_of_le (by omega) (by omega)).symm
  · rfl

/-- The words of a clause, the closing zero included. -/
def wordsOf (c : Clause) : List Int :=
  c.map narrow ++ [0]

/-- The clauses of a stream of words, each one behind those that are complete already. The literals
of the clause under way are given in reverse order. -/
def clausesFrom (complete : Array Clause) : List Literal → List Int → Array Clause
  | _, [] => complete
  | current, w :: rest =>
    if h : w = 0 then clausesFrom (complete.push current.reverse) [] rest
    else clausesFrom complete (Literal.ofNonzero w h :: current) rest

/-- The clauses the solver sees. -/
def seenClauses (i : Instance) : List Clause :=
  (clausesFrom #[] [] (i.clauses.toList.flatMap wordsOf)).toList

/-- The number of known variables: the larger of the reserved number and the largest variable
seen. -/
def nVars (i : Instance) : Nat :=
  max i.reserved (Instance.largestVariable (seenClauses i))

/-- What the library replies about clauses. -/
inductive Reply
  /-- The clauses have a model with these values. -/
  | model (value : Variable → Option Bool)
  /-- The clauses have no model. -/
  | refuted
  /-- There is no answer. -/
  | gaveUp

/-- A library replies to clauses. -/
abbrev Library := List Clause → Reply

/-- The answer that a reply about clauses on the first `n` variables stands for. A model is copied,
and the reserved variables that the library does not know have no value in the copy. -/
def Reply.answer (n reserved : Nat) : Reply → Except Violation Answer
  | .model value =>
    if room : max n reserved < Word.half then
      .ok (.satisfiable (.ofValues room fun x => if x.number ≤ n then value x else none))
    else .error .noRoom
  | .refuted => .ok .unsatisfiable
  | .gaveUp => .ok .unknown

/-- The answer of the embedded solver that has this library. -/
def Library.solve (library : Library) (i : Instance) : Except Violation Answer :=
  let cs := seenClauses i
  (library cs).answer (Instance.largestVariable cs) i.reserved

end HorizonPlanner.Sat.Embedded
