import HorizonPlanner.StandIn.Learning.Solver

/-!
# Consequences

When a watched literal becomes false, its clause looks for another literal to watch. If there is
none, the other watched literal has to be true; if that is false, the clause is in conflict with the
choices.
-/

namespace HorizonPlanner.StandIn.Learning

/-- The first place in a clause, among this number of places from one on, with a literal that is not
false; the place behind them if there is none. -/
def firstNotFalse (t : Trail) (c : Codes) : Nat → Nat → Nat
  | 0, i => i
  | rest + 1, i => if t.isFalse (c.getD i 0) then firstNotFalse t c rest (i + 1) else i

/-- The clauses that watch a literal, under revision. -/
structure Revision where
  /-- The watches: those that were seen and remain, then some that are out of date, then those not
  yet seen. -/
  list : Array Nat
  /-- The length of those that remain. -/
  kept : Nat
  /-- The clauses. -/
  clauses : Array Codes
  /-- The other watches. -/
  watchers : Array (Array Nat)
  /-- The trail. -/
  trail : Trail
  /-- The clause in conflict, counted from one; zero if there is none. -/
  conflict : Nat

/-- Puts a watch at a place of a list. -/
@[inline] def putWatch (list : Array Nat) (i index companion : Nat) : Array Nat :=
  (list.setIfInBounds i index).setIfInBounds (i + 1) companion

/-- Keeps the watches that have not been seen. -/
def keepRest (list : Array Nat) : Nat → Nat → Nat → Array Nat × Nat
  | 0, _, kept => (list, kept)
  | rest + 1, i, kept =>
    keepRest (putWatch list kept (list.getD i 0) (list.getD (i + 1) 0)) rest (i + 2) (kept + 2)

/-- Lets the clauses that watch a literal, this number of them from one on, react when it has become
false. -/
def revise (falseCode : Code) :
    Nat → Nat → Nat → Array Nat → Array Codes → Array (Array Nat) → Trail → Revision
  | 0, _, kept, list, clauses, watchers, trail => ⟨list, kept, clauses, watchers, trail, 0⟩
  | rest + 1, i, kept, list, clauses, watchers, trail =>
    let index := list.getD i 0
    let companion := list.getD (i + 1) 0
    if trail.isTrue companion then
      revise falseCode rest (i + 2) (kept + 2) (putWatch list kept index companion)
        clauses watchers trail
    else
      let c := clauses.getD index #[]
      let first := c.getD 0 0
      let other := if first = falseCode then c.getD 1 0 else first
      if trail.isTrue other then
        revise falseCode rest (i + 2) (kept + 2) (putWatch list kept index other)
          clauses watchers trail
      else
        let place := firstNotFalse trail c (c.size - 2) 2
        if place < c.size then
          let code := c.getD place 0
          let move (c : Codes) : Codes :=
            ((c.setIfInBounds 0 other).setIfInBounds 1 code).setIfInBounds place falseCode
          revise falseCode rest (i + 2) kept list (clauses.modify index move)
            (watchers.modify code fun list => (list.push index).push other) trail
        else if trail.isFalse other then
          let r := keepRest list (rest + 1) i kept
          ⟨r.1, r.2, clauses, watchers, trail, index + 1⟩
        else
          revise falseCode rest (i + 2) (kept + 2) (putWatch list kept index other) clauses watchers
            (trail.push other (index + 1))

/-- Draws the consequences of the literals on the trail, of which there are at most this number. The
result is a clause in conflict, counted from one, or zero. -/
def propagate : Nat → Solver → Solver × Nat
  | 0, s => (s, 0)
  | rest + 1, s =>
    match s.trail.literals[s.trail.handled]? with
    | none => (s, 0)
    | some c =>
      let falseCode := c.negate
      let list := s.watchers.getD falseCode #[]
      let r := revise falseCode (list.size / 2) 0 0 list s.clauses
        (s.watchers.setIfInBounds falseCode #[])
        { s.trail with handled := s.trail.handled + 1 }
      let s : Solver := { s with
        clauses := r.clauses
        watchers := r.watchers.setIfInBounds falseCode (r.list.shrink r.kept)
        trail := r.trail }
      if r.conflict = 0 then propagate rest s else (s, r.conflict)

/-- Draws all consequences. -/
def Solver.consequences (s : Solver) : Solver × Nat :=
  propagate (s.trail.levels.size + 1) s

end HorizonPlanner.StandIn.Learning
