import HorizonPlanner.Sat.Embedded
import HorizonPlanner.StandIn.Learning.Guess
import HorizonPlanner.StandIn.Learning.Intake
import HorizonPlanner.StandIn.Learning.Search

/-!
# A solver that learns

This solver stands in for the library of the embedded solver where planning is to be run: nothing is
proved of it, and nothing that is proved depends on it. It is given clauses about the variables from
one to a number. It may be asked again when clauses have been added: it then goes on from where it
was. A model is looked at once more before it is handed out.
-/

namespace HorizonPlanner.StandIn.Learning

open HorizonPlanner.Sat

/-- The number of steps after which every search ends. -/
def manySteps : Nat := 1000000000000

/-- The reply with these values, if they are a model of the clauses. -/
def checked (cs : List Clause) (value : Variable → Option Bool) : Embedded.Reply :=
  if cs.all fun c => c.any fun l => value l.var == some l.positive then .model value else .gaveUp

/-- Finds out about the clauses by guesses, then by a search. Without time nothing is known but what
needs no choice. -/
def Solver.concludeAnew (s : Solver) : Solver × Outcome :=
  match s.guess Guess.all with
  | (s, .fits) => (s, .model)
  | (s, .late) => (s, if s.trail.isComplete then .model else .givenUp)
  | (s, .fails) => s.search none manySteps

/-- Finds out about the clauses, beginning with the choices that have been made. -/
def Solver.concludeFromChoices (s : Solver) : Solver × Outcome :=
  let level := s.trail.level
  let (s, conflict) := s.consequences
  if conflict ≠ 0 then (s.backTo 0).search none manySteps
  else
    match s.fill s.seen.size with
    | (s, .fits) => (s, .model)
    | (s, .late) => (s, .givenUp)
    | (s, .fails) => (s.backTo level).search none manySteps

/-- Finds out about the clauses. -/
def Solver.conclude (s : Solver) : Solver × Outcome :=
  if s.refuted then (s, .refuted)
  else if s.trail.level = 0 then s.concludeAnew
  else s.concludeFromChoices

/-- What is remembered between two questions. -/
structure Memory where
  /-- The solver as the last question left it. -/
  solver : Solver
  /-- The number of clauses it has been given. -/
  taken : Nat

/-- The memory before the first question. -/
def Memory.blank : Memory := ⟨.empty 0, 0⟩

/-- The reply about clauses on the variables from one to `n`, if it is found within the time limit,
and what is remembered of it. The clauses of the questions before must stand first. -/
def Memory.ask (m : Memory) (limit : Option Nat) (n : Nat) (cs : List Clause) :
    Embedded.Reply × Memory :=
  let s := (m.solver.grow n).insertAll (cs.drop m.taken)
  let (s, outcome) := { s with clock := s.clock.start limit }.conclude
  let reply : Embedded.Reply :=
    match outcome with
    | .model => checked cs s.trail.value
    | .refuted => .refuted
    | _ => .gaveUp
  (reply, ⟨s, cs.length⟩)

/-- The answer about an instance with this solver as the library, and what is remembered then. -/
def Memory.solve (m : Memory) (i : Instance) : Except Violation Answer × Memory :=
  let cs := Embedded.seenClauses i
  let (reply, m) := m.ask i.timeLimit (Instance.largestVariable cs) cs
  (reply.answer (Instance.largestVariable cs) i.reserved, m)

/-- The solver as a library that is asked once. -/
def library (limit : Option Nat) : Embedded.Library := fun cs =>
  (Memory.blank.ask limit (Instance.largestVariable cs) cs).1

end HorizonPlanner.StandIn.Learning
