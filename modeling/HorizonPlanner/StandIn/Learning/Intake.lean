import HorizonPlanner.StandIn.Learning.Propagation

/-!
# Taking in clauses

A solver may be given clauses after it has made choices. It then keeps the first of them, as many as
it can: all if a literal of the clause is true or free, and otherwise those that leave two of its
literals free. A literal that has to be true whatever is chosen is the exception: it is made true
before any choice.
-/

namespace HorizonPlanner.StandIn.Learning

open HorizonPlanner.Sat

/-- The place of a literal among those of a clause that are to be watched: true literals come first,
then free ones, then those that became false last. -/
def Trail.standing (t : Trail) (c : Code) : Nat :=
  match t.truth c with
  | .yes => 0
  | .free => 1
  | .no => 2 + (t.level - t.levelOf c)

namespace Solver

/-- Adds a clause while no choice has been made, and draws all consequences. -/
def addAtOnce (s : Solver) (c : Codes) : Solver :=
  let (s, conflict) := (s.add c 0).consequences
  if conflict = 0 then s else { s with refuted := true }

/-- Adds a clause of at least two literals whose variables have no values but by choice. -/
def addAmongChoices (s : Solver) (c : Codes) : Solver :=
  let t := s.trail
  let c := (c.toList.mergeSort fun a b => t.standing a ≤ t.standing b).toArray
  let first := c.getD 0 0
  let second := c.getD 1 0
  let s := s.attach c 0
  if t.isFalse first then s.backTo (t.levelOf second - 1)
  else if t.isFree first && t.isFalse second then s.assume first s.clauses.size
  else s

/-- Adds a clause. -/
def insert (s : Solver) (c : Codes) : Solver :=
  let t := s.trail
  if s.refuted || c.any (fun code => t.isSettled code && t.isTrue code) then s
  else
    let c := c.filter fun code => !t.isSettled code
    if t.level = 0 || c.size < 2 then (s.backTo 0).addAtOnce c else s.addAmongChoices c

/-- Adds clauses one after the other. -/
def insertAll (s : Solver) (cs : List Clause) : Solver :=
  cs.foldl (fun s c => (codesOf? c).elim s s.insert) s

end Solver

end HorizonPlanner.StandIn.Learning
