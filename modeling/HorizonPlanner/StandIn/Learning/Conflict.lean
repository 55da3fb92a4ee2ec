import HorizonPlanner.StandIn.Learning.Propagation

/-!
# Conflicts

A clause in conflict is combined with the reasons of its literals until a single literal of the last
choice is left. The clause that results follows from the clauses, and would have given that literal
another value earlier.
-/

namespace HorizonPlanner.StandIn.Learning

/-- How far reasons are followed to find that a literal of a learnt clause is redundant. -/
def redundancyDepth : Nat := 2

/-- The analysis of a conflict. -/
structure Analysis where
  /-- Marks on the variables that have been met. -/
  seen : Array Bool
  /-- The variables that have been met. -/
  met : Array Nat
  /-- The literals of earlier choices. -/
  learnt : Codes
  /-- How many literals of the last choice have been met and not yet replaced. -/
  pending : Nat

namespace Analysis

/-- Marks a variable as met. -/
def mark (a : Analysis) (v : Nat) : Analysis :=
  match a with
  | ⟨seen, met, learnt, pending⟩ => ⟨seen.setIfInBounds v true, met.push v, learnt, pending⟩

/-- Takes in a literal that is false. Literals that are false without any choice are left out. -/
def meet (t : Trail) (a : Analysis) (c : Code) : Analysis :=
  let level := t.levelOf c
  if a.seen.getD c.place true || level == 0 then a
  else
    let a := a.mark c.place
    if level = t.level then { a with pending := a.pending + 1 } else
      { a with learnt := a.learnt.push c }

/-- Goes back along the trail, from this number of literals on, and replaces those that have been
met by their reasons until one of them is left. The result is the negation of that one. -/
def walk (t : Trail) (clauses : Array Codes) : Nat → Analysis → Analysis × Code
  | 0, a => (a, 0)
  | i + 1, a =>
    let c := t.literals.getD i 0
    if a.seen.getD c.place false then
      if a.pending ≤ 1 then (a, c.negate)
      else
        let reason := clauses.getD (t.reasons.getD c.place 0 - 1) #[]
        let a := { a with pending := a.pending - 1 }
        walk t clauses i (reason.foldl (fun a l => if l = c then a else a.meet t l) a)
    else walk t clauses i a

/-- Whether a literal follows from the negations of others that have been met, by reasons of at most
this depth. -/
def isRedundant (t : Trail) (clauses : Array Codes) (a : Analysis) : Nat → Code → Bool
  | 0, _ => false
  | depth + 1, c =>
    match t.reasons.getD c.place 0 with
    | 0 => false
    | reason + 1 =>
      (clauses.getD reason #[]).all fun l =>
        l.place == c.place || a.seen.getD l.place false || t.levelOf l == 0 ||
          isRedundant t clauses a depth l

end Analysis

/-- A clause learnt from a conflict. -/
structure Lesson where
  /-- The literal that has to be true. -/
  implied : Code
  /-- The other literals, one of the latest choice among them first. -/
  others : Codes
  /-- The number of choices after which the others are all false. -/
  level : Nat
  /-- Among how many choices the literals are spread. -/
  spread : Nat
  /-- The variables that took part. -/
  met : Array Nat

/-- Moves a literal of the latest choice to the front, and tells the number of that choice; zero if
there are none. -/
def latestFirst (t : Trail) (codes : Codes) : Codes × Nat :=
  let level (i : Nat) : Nat := (codes[i]?.map t.levelOf).getD 0
  let latest := (List.range codes.size).foldl
    (fun best i => if level best < level i then i else best) 0
  (codes.swapIfInBounds 0 latest, level latest)

/-- Among how many choices literals are spread. -/
def spreadOf (t : Trail) (c : Codes) : Nat :=
  let sorted := (c.toList.map t.levelOf).mergeSort
  (sorted.zip (sorted.drop 1)).countP (fun p => p.1 ≠ p.2) + 1

/-- Learns from a clause in conflict, counted from one. -/
def Solver.learn (s : Solver) (conflict : Nat) : Solver × Lesson :=
  let t := s.trail
  let start : Analysis := ⟨s.seen, #[], #[], 0⟩
  let s := { s with seen := #[] }
  let begun := (s.clauses.getD (conflict - 1) #[]).foldl (fun a c => a.meet t c) start
  let (a, implied) := begun.walk t s.clauses t.literals.size
  let (others, level) := latestFirst t
    (a.learnt.filter fun c => !a.isRedundant t s.clauses redundancyDepth c)
  ({ s with seen := a.met.foldl (fun seen v => seen.setIfInBounds v false) a.seen },
    ⟨implied, others, level, spreadOf t (others.push implied), a.met⟩)

/-- Raises the scores of variables. -/
def Solver.prefer (s : Solver) (met : Array Nat) : Solver :=
  { s with ranking := met.foldl Ranking.raise s.ranking.advance }

/-- Takes back choices until the lesson has a consequence, and draws it. A lesson of a single
literal is not kept as a clause. -/
def Solver.apply (s : Solver) (l : Lesson) : Solver :=
  let s := (s.backTo l.level).prefer l.met
  if l.others.isEmpty then s.assume l.implied 0
  else
    let index := s.clauses.size
    (s.attach (#[l.implied] ++ l.others) l.spread).assume l.implied (index + 1)

end HorizonPlanner.StandIn.Learning
