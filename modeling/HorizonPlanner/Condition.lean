import HorizonPlanner.Violation

/-!
# States and conditions

A state gives a truth value to every fluent. A condition asks one fluent for one truth value.
Conditions are ordered by fluent, false before true, and the lists of conditions kept by operators
and goals follow this order.
-/

namespace HorizonPlanner

/-- A state of the world: the truth value of fluent `i` is at position `i`. -/
abbrev State := Array Bool

/-- A fluent together with the truth value required of it. -/
structure Condition where
  /-- The number of the fluent. -/
  fluent : Nat
  /-- The required truth value. -/
  polarity : Bool
  deriving DecidableEq, Repr

namespace Condition

/-- The condition that asks the same fluent for the other value. -/
def negate (c : Condition) : Condition :=
  ⟨c.fluent, !c.polarity⟩

/-- The order of conditions: by fluent, then false before true. -/
def order (a b : Condition) : Ordering :=
  (compare a.fluent b.fluent).then (compare a.polarity b.polarity)

/-- Whether a condition is not behind another one in the order. -/
def le (a b : Condition) : Bool :=
  a.fluent < b.fluent || (a.fluent == b.fluent && (!a.polarity || b.polarity))

/-- Whether a condition holds in a state. A fluent the state does not know has no value, so nothing
holds of it. -/
def holds (c : Condition) (s : State) : Bool :=
  s[c.fluent]? == some c.polarity

/-- Tests a condition in a state, which must know the fluent. -/
def test (c : Condition) (s : State) : Except Violation Bool :=
  match s[c.fluent]? with
  | some value => .ok (value == c.polarity)
  | none => .error (.indexOutOfBounds s.size c.fluent)

/-- Tests conditions in order up to the first that does not hold; the state must know the fluents
met. -/
def testAll : List Condition → State → Except Violation Bool
  | [], _ => .ok true
  | c :: rest, s => do
    if ← c.test s then testAll rest s else return false

/-- Changes a state so that the condition holds. -/
def establish (s : State) (c : Condition) : State :=
  s.setIfInBounds c.fluent c.polarity

/-- Puts a condition at its place in an ordered list, unless it is already there. -/
def insertInto (c : Condition) : List Condition → List Condition
  | [] => [c]
  | d :: rest =>
    if c = d then d :: rest else if le c d then c :: d :: rest else d :: insertInto c rest

/-- Orders conditions and removes the repeated ones. -/
def normalize (cs : List Condition) : List Condition :=
  cs.foldr insertInto []

/-- What a search for a condition in an ordered array finds. -/
inductive Place
  /-- The condition is at this position. -/
  | found (position : Nat)
  /-- The condition is missing; inserted at this position it would be in order. -/
  | missing (position : Nat)
  deriving DecidableEq, Repr

/-- Searches an ordered array for a condition between two positions, the second one excluded. The
half that may hold it is searched until nothing is left. -/
@[semireducible]
def searchBetween (c : Condition) (cs : Array Condition) (low high : Nat) : Place :=
  if low < high then
    let middle := low + (high - low) / 2
    match cs[middle]? with
    | none => .missing low
    | some d =>
      match order d c with
      | .eq => .found middle
      | .lt => searchBetween c cs (middle + 1) high
      | .gt => searchBetween c cs low middle
  else .missing low
termination_by high - low

/-- Searches an ordered array for a condition. -/
def search (c : Condition) (cs : Array Condition) : Place :=
  c.searchBetween cs 0 cs.size

/-- Whether a condition occurs in an ordered array. -/
def occursIn (c : Condition) (cs : Array Condition) : Bool :=
  match c.search cs with
  | .found _ => true
  | .missing _ => false

/-- Puts a condition where the search says that it is missing from an ordered list. -/
def placeInto (c : Condition) (cs : List Condition) : List Condition :=
  match c.search cs.toArray with
  | .found _ => cs
  | .missing position => cs.insertIdx position c

/-- The first fluent that two neighbours of an ordered list of distinct conditions disagree
about. -/
def contradiction? : List Condition → Option Nat
  | a :: b :: rest => if a.fluent = b.fluent then some a.fluent else contradiction? (b :: rest)
  | _ => none

end Condition

end HorizonPlanner
