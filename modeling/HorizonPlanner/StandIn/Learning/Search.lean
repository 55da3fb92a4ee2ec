import HorizonPlanner.StandIn.Learning.Forgetting

/-!
# Searching for a model

The solver makes choices and draws consequences until all variables have values. From every conflict
it learns a clause that would have prevented its choices, and takes back the choices that this
clause speaks against. A search may be for a model in which a certain literal is true; this literal
is then the first choice.
-/

namespace HorizonPlanner.StandIn.Learning

/-- How a search ends. -/
inductive Outcome
  /-- All variables have values, and no clause is false. -/
  | model
  /-- There is no model. -/
  | refuted
  /-- There is no model in which the literal that was asked for is true. -/
  | refused
  /-- The search was given up. -/
  | givenUp
  deriving DecidableEq, Repr

/-- What to do when all consequences have been drawn. -/
inductive Step
  /-- Makes this literal true, which was asked for. -/
  | ask (c : Code)
  /-- Gives a value to this variable. -/
  | choose (place : Nat)
  /-- All variables have values. -/
  | complete
  /-- The literal that was asked for is false without any choice. -/
  | refused

/-- The next step of a search for a model in which this literal, if any, is true. No variable with a
value may stand first in the ranking. -/
def Solver.nextStep (s : Solver) (wanted : Option Code) : Step :=
  let usual : Step :=
    match s.ranking.heap[0]? with
    | some v => .choose v
    | none => .complete
  match wanted with
  | none => usual
  | some c =>
    match s.trail.truth c with
    | .free => .ask c
    | .no => .refused
    | .yes => usual

/-- Takes variables out of the ranking until the first one has no value. -/
def Solver.skip (s : Solver) : Solver :=
  let t := s.trail
  { s with
    ranking := s.ranking.popUntil (fun v => t.isFree (.ofPlace v true)) (s.ranking.heap.size + 1) }

/-- Takes all choices back, and forgets some clauses if it is time to. -/
def Solver.startAnew (s : Solver) : Solver :=
  let s := s.backTo 0
  if s.pace.isForgetful then { s.forget with pace := s.pace.afterForgetting.afterStart }
  else { s with pace := s.pace.afterStart }

/-- Searches for a model in which this literal, if any, is true, in at most this number of steps. -/
def Solver.search (wanted : Option Code) : Nat → Solver → Solver × Outcome
  | 0, s => (s, .givenUp)
  | steps + 1, s =>
    if s.refuted then (s, .refuted)
    else
      let (s, conflict) := s.consequences
      if conflict ≠ 0 then
        if s.trail.level = 0 then ({ s with refuted := true }, .refuted)
        else
          let (s, lesson) := s.learn conflict
          let s := s.apply lesson
          Solver.search wanted steps { s with pace := s.pace.afterConflict }
      else if s.pace.left = 0 then Solver.search wanted steps s.startAnew
      else
        let s := s.skip
        match s.nextStep wanted with
        | .ask c => Solver.search wanted steps (s.choose c)
        | .choose v =>
          let (s, late) := s.look Clock.shortPause
          if late then (s, .givenUp)
          else Solver.search wanted steps (s.choose (.ofPlace v (s.trail.habits.getD v false)))
        | .complete => (s, .model)
        | .refused => (s, .refused)

end HorizonPlanner.StandIn.Learning
