import HorizonPlanner.StandIn.Learning.Clock
import HorizonPlanner.StandIn.Learning.Pace
import HorizonPlanner.StandIn.Learning.Ranking
import HorizonPlanner.StandIn.Learning.Trail

/-!
# Solvers

Beside the trail and the order of choices a solver keeps the clauses, given and learnt. Of every
clause two literals are watched, which stand first: as long as neither of them becomes false, the
clause has no consequence.
-/

namespace HorizonPlanner.StandIn.Learning

open HorizonPlanner.Sat

/-- A clause as the codes of its literals. -/
abbrev Codes := Array Code

/-- Appends codes in increasing order, each one once; none if both codes of a variable are among
them. -/
def appendDistinct? (codes : Codes) : List Code → Option Codes
  | [] => some codes
  | c :: rest =>
    match codes.back? with
    | none => appendDistinct? (codes.push c) rest
    | some last =>
      if c = last then appendDistinct? codes rest
      else if c.place = last.place then none
      else appendDistinct? (codes.push c) rest

/-- The codes of a clause in increasing order, each one once; none if the clause is always true. -/
def codesOf? (c : Clause) : Option Codes :=
  appendDistinct? #[] (c.map Code.ofLiteral).mergeSort

/-- A solver at some moment of its work. -/
structure Solver where
  /-- The clauses with at least two literals. -/
  clauses : Array Codes
  /-- For every clause, among how many choices its literals were spread when it was learnt; zero for
  a clause that was given. -/
  spreads : Array Nat
  /-- For every literal, the clauses in which it is watched, each followed by another literal of the
  clause. -/
  watchers : Array (Array Nat)
  /-- The trail. -/
  trail : Trail
  /-- The order of choices. -/
  ranking : Ranking
  /-- Marks on variables, none of them set but while a conflict is analysed. -/
  seen : Array Bool
  /-- When to start anew and when to forget. -/
  pace : Pace
  /-- When to give up. -/
  clock : Clock
  /-- Whether the clauses are known to have no model. -/
  refuted : Bool

namespace Solver

/-- The solver without clauses, for `n` variables. -/
def empty (n : Nat) : Solver :=
  ⟨#[], #[], Array.replicate (2 * n) #[], .empty n, .ofSize n, Array.replicate n false,
    .first, .idle, false⟩

/-- The solver for `n` variables, of which the new ones do not occur in its clauses. -/
def grow (s : Solver) (n : Nat) : Solver :=
  let more := n - s.seen.size
  { s with
    watchers := s.watchers ++ Array.replicate (2 * more) #[]
    trail := s.trail.grow n
    ranking := s.ranking.grow n
    seen := s.seen ++ Array.replicate more false }

/-- Stores a clause whose first two literals may be watched. -/
def attach (s : Solver) (c : Codes) (spread : Nat) : Solver :=
  let index := s.clauses.size
  let watch (watchers : Array (Array Nat)) (code other : Code) : Array (Array Nat) :=
    watchers.modify code fun list => (list.push index).push other
  let first := c.getD 0 0
  let second := c.getD 1 0
  { s with
    clauses := s.clauses.push c
    spreads := s.spreads.push spread
    watchers := watch (watch s.watchers first second) second first }

/-- Makes a literal true, for the reason of a clause counted from one, or without a clause. -/
def assume (s : Solver) (c : Code) (reason : Nat) : Solver :=
  { s with trail := s.trail.push c reason }

/-- Makes a literal true by choice. -/
def choose (s : Solver) (c : Code) : Solver :=
  { s with trail := s.trail.choose c, clock := s.clock.afterChoice }

/-- Whether the time is up, on an occasion to look at the clock. After a look this number of
occasions will pass. -/
def look (s : Solver) (pause : Nat) : Solver × Bool :=
  match s with
  | ⟨clauses, spreads, watchers, trail, ranking, seen, pace, clock, refuted⟩ =>
    let (clock, late) := clock.look pause
    (⟨clauses, spreads, watchers, trail, ranking, seen, pace, clock, refuted⟩, late)

/-- Adds a clause while no choice has been made. -/
def add (s : Solver) (c : Codes) (spread : Nat) : Solver :=
  if c.any s.trail.isTrue then s
  else
    let c := c.filter s.trail.isFree
    if c.size = 0 then { s with refuted := true }
    else if c.size = 1 then s.assume (c.getD 0 0) 0
    else s.attach c spread

/-- Takes back all choices but this number of them. -/
def backTo (s : Solver) (level : Nat) : Solver :=
  match s.trail.marks[level]? with
  | none => s
  | some size =>
    let ranking := s.trail.literals.foldl (fun r c => r.insert c.place) s.ranking size
    { s with ranking := ranking, trail := s.trail.backTo level }

end Solver

end HorizonPlanner.StandIn.Learning
