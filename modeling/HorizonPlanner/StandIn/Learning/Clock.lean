/-!
# Watching the time

A solver with a time limit looks at the clock now and then: after a look it lets a number of
occasions pass. Time is counted in choices, so that what a solver finds out is determined by what it
has been asked.
-/

namespace HorizonPlanner.StandIn.Learning

/-- A clock with a time limit. -/
structure Clock where
  /-- The time limit in nanoseconds. Without one there is no need to look at the clock. -/
  limit : Option Nat
  /-- The nanoseconds that have passed since the question. -/
  elapsed : Nat
  /-- The occasions to pass before the next look. -/
  rest : Nat

namespace Clock

/-- The nanoseconds that pass before the first choice. -/
def startingTime : Nat := 2000

/-- The nanoseconds that a choice takes. -/
def choiceTime : Nat := 100

/-- How many occasions pass between two looks where much is done from one to the next. -/
def shortPause : Nat := 10

/-- How many occasions pass between two looks where some is done from one to the next. -/
def mediumPause : Nat := 100

/-- How many occasions pass between two looks where little is done from one to the next. -/
def longPause : Nat := 1000

/-- The clock before any question. -/
def idle : Clock := ⟨none, 0, 0⟩

/-- The clock when a question with this time limit is asked. Occasions left over from the question
before still pass. -/
def start (c : Clock) (limit : Option Nat) : Clock :=
  { c with limit := limit, elapsed := startingTime }

/-- The clock after a choice. -/
def afterChoice (c : Clock) : Clock :=
  { c with elapsed := c.elapsed + choiceTime }

/-- Whether the time is up, on an occasion to look at the clock. After a look this number of
occasions will pass. -/
def look (c : Clock) (pause : Nat) : Clock × Bool :=
  match c.limit with
  | none => (c, false)
  | some limit =>
    if c.rest = 0 then ({ c with rest := pause }, limit < c.elapsed)
    else ({ c with rest := c.rest - 1 }, false)

end Clock

end HorizonPlanner.StandIn.Learning
