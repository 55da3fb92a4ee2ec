import HorizonPlanner.StandIn.Learning.Propagation

/-!
# Guesses

Before it searches, a solver tries whether one of a few simple guesses happens to be a model. A
guess gives values to all variables without ever taking a choice back: it fails at the first
conflict.
-/

namespace HorizonPlanner.StandIn.Learning

/-- How a guess ends. -/
inductive Trial
  /-- It is a model. -/
  | fits
  /-- It is in conflict with a clause. -/
  | fails
  /-- There was no time left for it. -/
  | late
  deriving DecidableEq, Repr

/-- A simple way to find values for all variables. -/
inductive Guess
  /-- All variables have this value, after making sure that every clause has a literal which then is
  true. -/
  | uniform (value : Bool)
  /-- All variables have this value, unless earlier ones demand the opposite. -/
  | upward (value : Bool)
  /-- All variables have this value, unless later ones demand the opposite. -/
  | downward (value : Bool)
  /-- In every clause a literal of this sign is made true; all other variables have the opposite
  value. -/
  | inClauses (value : Bool)
  deriving DecidableEq, Repr

/-- The guesses, in the order in which they are tried. -/
def Guess.all : List Guess :=
  [.uniform false, .uniform true, .upward true, .upward false, .downward false,
    .downward true, .inClauses true,
    .inClauses false]

namespace Solver

/-- Chooses a literal and draws the consequences; says whether there is no conflict. -/
def venture (s : Solver) (c : Code) : Solver × Bool :=
  let (s, conflict) := (s.choose c).consequences
  (s, conflict = 0)

/-- Ventures the literals with numbers below this one, the last one first, unless their variables
have values. The clock may be looked at for each of them. -/
def ventureAll (pause : Nat) (literal : Nat → Code) : Nat → Solver → Solver × Trial
  | 0, s => (s, .fits)
  | rest + 1, s =>
    let (s, late) := s.look pause
    if late then (s, .late)
    else if !s.trail.isFree (literal rest) then ventureAll pause literal rest s
    else
      let (s, fine) := s.venture (literal rest)
      if fine then ventureAll pause literal rest s else (s, .fails)

/-- Whether a clause, counted from zero, is learnt or has a true literal. -/
def isDone (s : Solver) (index : Nat) : Bool :=
  s.spreads.getD index 0 ≠ 0 || (s.clauses.getD index #[]).any s.trail.isTrue

/-- A free literal of a clause with this sign. -/
def freeLiteral? (s : Solver) (value : Bool) (index : Nat) : Option Code :=
  (s.clauses.getD index #[]).find? fun c => s.trail.isFree c && (c % 2 == 0) == value

/-- Whether each of the last clauses, this number of them, is done or has a free literal of this
sign. -/
def allows (s : Solver) (value : Bool) : Nat → Clock → Clock × Trial
  | 0, clock => (clock, .fits)
  | rest + 1, clock =>
    let index := s.clauses.size - (rest + 1)
    let (clock, late) := clock.look Clock.longPause
    if late then (clock, .late)
    else if s.isDone index || (s.freeLiteral? value index).isSome then allows s value rest clock
    else (clock, .fails)

/-- Ventures a free literal of this sign in each of the last clauses, this number of them, that is
not done. -/
def ventureInClauses (value : Bool) : Nat → Solver → Solver × Trial
  | 0, s => (s, .fits)
  | rest + 1, s =>
    let index := s.clauses.size - (rest + 1)
    let (s, late) := s.look Clock.mediumPause
    if late then (s, .late)
    else if s.isDone index then ventureInClauses value rest s
    else
      match s.freeLiteral? value index with
      | none => (s, .fails)
      | some c =>
        let (s, fine) := s.venture c
        if fine then ventureInClauses value rest s else (s, .fails)

/-- Tries a guess. -/
def tryGuess (s : Solver) (g : Guess) : Solver × Trial :=
  let n := s.seen.size
  let upwards (value : Bool) (rest : Nat) : Code := .ofPlace (n - 1 - rest) value
  match g with
  | .uniform value =>
    let (clock, trial) := s.allows value s.clauses.size s.clock
    let s := { s with clock := clock }
    match trial with
    | .fits => ventureAll Clock.mediumPause (upwards value) n s
    | other => (s, other)
  | .upward value => ventureAll Clock.longPause (upwards value) n s
  | .downward value => ventureAll Clock.longPause (fun place => .ofPlace place value) n s
  | .inClauses value =>
    match ventureInClauses value s.clauses.size s with
    | (s, .fits) => ventureAll Clock.mediumPause (upwards (!value)) n s
    | other => other

/-- Tries guesses until one of them does not fail. All choices of a guess that is no model are taken
back, and leave no habits. -/
def guess (s : Solver) : List Guess → Solver × Trial
  | [] => (s, .fails)
  | g :: rest =>
    let habits := s.trail.habits
    let (s, trial) := s.tryGuess g
    if trial = .fits then (s, .fits)
    else
      let s := s.backTo 0
      let s := { s with trail := { s.trail with habits := habits } }
      if trial = .late then (s, .late) else guess s rest

/-- Ventures all variables without values, the last one first, of those at places below this one. -/
def fill : Nat → Solver → Solver × Trial
  | 0, s => (s, .fits)
  | place + 1, s =>
    if !s.trail.isFree (.ofPlace place true) then fill place s
    else
      let (s, late) := s.look Clock.shortPause
      if late then (s, .late)
      else
        let (s, fine) := s.venture (.ofPlace place true)
        if fine then fill place s else (s, .fails)

end Solver

end HorizonPlanner.StandIn.Learning
