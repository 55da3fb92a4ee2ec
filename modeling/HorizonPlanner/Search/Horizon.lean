import HorizonPlanner.Encoding.Decoding
import HorizonPlanner.Encoding.Formula
import HorizonPlanner.Search.Attempt
import HorizonPlanner.Search.Config

/-!
# Search over horizons

The horizons are tried one after the other. A model ends the search with a plan, a refutation moves
it to the next horizon, and the search gives up at the maximal horizon or when time is over. What
the search needs from outside, a solver and a clock, is a parameter; both may behave in any way
whatever.
-/

namespace HorizonPlanner.Search

open HorizonPlanner.Sat

/-- The record of one attempt. -/
structure Attempt where
  /-- The horizon that was tried. -/
  horizon : Nat
  /-- The number of variables of the formula. -/
  nVars : Nat
  /-- The number of clauses of the formula. -/
  nClauses : Nat
  /-- The time it took to build the formula. -/
  encodingTime : Nat
  /-- The time it took to solve it. -/
  solvingTime : Nat
  /-- How the attempt ended. -/
  verdict : Verdict
  deriving DecidableEq, Repr

/-- What happens during a search. -/
inductive Event
  /-- A horizon is about to be tried within a time limit. -/
  | trying (horizon limit : Nat)
  /-- A horizon was tried. -/
  | tried (attempt : Attempt)
  deriving DecidableEq, Repr

/-- What a search needs from outside. -/
structure Surroundings (m : Type → Type) where
  /-- The solver. Every call stands for a fresh one. -/
  engine : Engine m
  /-- The current time. -/
  now : m Nat
  /-- Takes note of an event. -/
  tell : Event → m Unit

/-- The ways a search may end without a plan. -/
inductive Exhaustion
  /-- The horizons up to the maximal one have no plan. The flag tells whether this excludes plans of
  any length. -/
  | bound (maxHorizon : Nat) (proven : Bool)
  /-- Time was over at this horizon. -/
  | timeout (horizon : Nat)
  deriving DecidableEq, Repr

/-- The states of a search. -/
inductive Stage
  /-- This horizon is to be tried. -/
  | trying (horizon : Nat)
  /-- The formula of this horizon has this model. -/
  | satisfiable (horizon : Nat) (model : Assignment)
  /-- The search has ended without a model. -/
  | exhausted (why : Exhaustion)
  deriving DecidableEq, Repr

/-- Whether the search has ended. -/
def Stage.isTerminal : Stage → Bool
  | .trying _ => false
  | _ => true

/-- The result of a search. -/
inductive Outcome
  /-- A plan was found at this horizon. -/
  | planFound (horizon : Nat) (plan : Plan)
  /-- There is no plan up to this horizon. The flag tells whether there is none at all. -/
  | horizonExhausted (maxHorizon : Nat) (proven : Bool)
  /-- Time was over at this horizon. -/
  | timedOut (horizon : Nat)
  deriving DecidableEq, Repr

/-- Whether plans that fit a horizon are all that need to be considered. There are `2 ^ n` states of
`n` fluents, and a shortest plan visits none of them twice. The numbers are compared as words of 128
bits, which hold the number of states only for fewer than 128 fluents. -/
def provesAbsence (nFluents maxHorizon : Nat) : Bool :=
  nFluents < 128 && 1#128 <<< nFluents ≤ BitVec.ofNat 128 maxHorizon + 1#128

/-- The stage that follows a finding about a horizon. -/
def Config.next (c : Config) (nFluents horizon : Nat) : Finding → Stage
  | .satisfiable model => .satisfiable horizon model
  | .timedOut => .exhausted (.timeout horizon)
  | .unsatisfiable | .contradiction =>
    if c.maxHorizon ≤ horizon then
      .exhausted (.bound c.maxHorizon (provesAbsence nFluents c.maxHorizon))
    else .trying (horizon + 1)

/-- The search goes on only below the maximal horizon, and with the horizon that follows. -/
theorem Config.next_eq_trying {c : Config} {nFluents horizon h : Nat} {f : Finding}
    (hn : c.next nFluents horizon f = .trying h) : h = horizon + 1 ∧ horizon < c.maxHorizon := by
  cases f <;> simp only [Config.next] at hn
  case satisfiable => cases hn
  case timedOut => cases hn
  all_goals
    split at hn
    · cases hn
    · cases hn
      exact ⟨rfl, by omega⟩

/-- The time limit of a call when this much of the budget remains. -/
def Config.limit (c : Config) (remaining : Nat) : Nat :=
  match c.attemptTimeout with
  | some limit => min limit remaining
  | none => remaining

/-- The time, in nanoseconds, that no clock can show any more: its seconds are counted by a signed
word. -/
def endOfTime : Nat := Word.half * second

variable {m : Type → Type} [Monad m]

/-- Builds and attempts the formula of a horizon. The clock is looked at before and after each of
the two. -/
def attempt (s : Surroundings m) (p : Problem) (horizon limit : Nat) :
    m (Except Violation (Finding × Attempt)) := do
  s.tell (.trying horizon limit)
  let encodingStart ← s.now
  let layout := p.layout horizon
  match layout.encode p with
  | .error v => return .error v
  | .ok clauses =>
    let encoded ← s.now
    let solvingStart ← s.now
    match layout.varCount with
    | .error v => return .error v
    | .ok nVars =>
      match ← solve s.engine clauses nVars limit with
      | .error v => return .error v
      | .ok finding =>
        let solved ← s.now
        let record : Attempt :=
          ⟨horizon, nVars, clauses.size, encoded - encodingStart, solved - solvingStart,
            finding.verdict⟩
        s.tell (.tried record)
        return .ok (finding, record)

/-- Tries a horizon unless the deadline has passed, and gives what was found out together with the
record of the attempt, if there was one. -/
def tryHorizon (s : Surroundings m) (p : Problem) (c : Config) (deadline horizon : Nat) :
    m (Except Violation (Finding × Option Attempt)) := do
  let now ← s.now
  if deadline - now = 0 then return .ok (.timedOut, none)
  else
    match ← attempt s p horizon (c.limit (deadline - now)) with
    | .error v => return .error v
    | .ok (finding, record) => return .ok (finding, some record)

/-- The stage that follows another one. Nothing follows the end of a search. The record of the
attempt, if there is one, is put behind those that are kept already. -/
def nextStage (s : Surroundings m) (p : Problem) (c : Config) (deadline : Nat) :
    Stage → StateT (List Attempt) m (Except Violation Stage)
  | .trying horizon => do
    match ← (tryHorizon s p c deadline horizon : m _) with
    | .error v => return .error v
    | .ok (finding, record) =>
      modify (· ++ record.toList)
      return .ok (c.next p.nFluents horizon finding)
  | _ => return .error .terminalState

/-- Tries the horizons from this one on until the search ends. -/
def searchFrom (s : Surroundings m) (p : Problem) (c : Config) (deadline horizon : Nat) :
    StateT (List Attempt) m (Except Violation Outcome) := do
  match ← (tryHorizon s p c deadline horizon : m _) with
  | .error v => return .error v
  | .ok (finding, record) =>
    modify (· ++ record.toList)
    match _hn : c.next p.nFluents horizon finding with
    | .trying h => searchFrom s p c deadline h
    | .satisfiable h model => return ((p.layout h).decode model).map (.planFound h)
    | .exhausted (.bound maxHorizon proven) => return .ok (.horizonExhausted maxHorizon proven)
    | .exhausted (.timeout h) => return .ok (.timedOut h)
termination_by c.maxHorizon - horizon
decreasing_by
  have h := Config.next_eq_trying _hn
  omega

/-- Searches for a plan within the time budget, which starts to run now. What is left of the records
of earlier searches is cleared first. The end of the time budget has to be a time that the clock can
show. -/
def run (s : Surroundings m) (p : Problem) (c : Config) :
    StateT (List Attempt) m (Except Violation Outcome) := do
  set ([] : List Attempt)
  let start ← s.now
  if start + c.timeout < endOfTime then searchFrom s p c (start + c.timeout) c.minHorizon
  else return .error .unreachableDeadline

end HorizonPlanner.Search
