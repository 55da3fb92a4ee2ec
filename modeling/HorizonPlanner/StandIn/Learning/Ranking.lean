/-!
# The order of choices

Variables that took part in many of the last conflicts are chosen first. They have scores, and stand
in a heap, in which no variable is to be chosen before the one above it.
-/

namespace HorizonPlanner.StandIn.Learning

/-- Variables with scores. -/
structure Ranking where
  /-- The score of every variable. -/
  scores : Array Nat
  /-- Some of the variables as a heap: those below place `i` are at `2 * i + 1` and `2 * i + 2`. -/
  heap : Array Nat
  /-- The place of every variable in the heap, counted from one; zero if it is not there. -/
  places : Array Nat
  /-- The score that variables come closer to when they take part in a conflict. -/
  target : Nat

namespace Ranking

/-- The ranking of `n` variables with equal scores, the first one on top. -/
def ofSize (n : Nat) : Ranking :=
  ⟨Array.replicate n 0, Array.range n, (Array.range n).map (· + 1), 0⟩

/-- The score of a variable. -/
@[inline] def score (r : Ranking) (v : Nat) : Nat :=
  r.scores.getD v 0

/-- Whether a variable is chosen before another: it has the larger score, or the same score and the
smaller place. -/
@[inline] def precedes (r : Ranking) (u v : Nat) : Bool :=
  let a := r.score u
  let b := r.score v
  b < a || (a == b && u < v)

/-- Puts a variable at a place of the heap. -/
@[inline] def put (r : Ranking) (i v : Nat) : Ranking :=
  { r with heap := r.heap.setIfInBounds i v, places := r.places.setIfInBounds v (i + 1) }

/-- Puts a variable at a place or above it, in at most this number of steps. -/
def rise (v : Nat) : Nat → Nat → Ranking → Ranking
  | 0, i, r => r.put i v
  | steps + 1, i, r =>
    if i = 0 then r.put i v
    else
      let above := (i - 1) / 2
      let u := r.heap.getD above 0
      if r.precedes v u then rise v steps above (r.put i u) else r.put i v

/-- Puts a variable at a place or below it, in at most this number of steps. -/
def sink (v : Nat) : Nat → Nat → Ranking → Ranking
  | 0, i, r => r.put i v
  | steps + 1, i, r =>
    let left := 2 * i + 1
    if left < r.heap.size then
      let right := left + 1
      let below := if right < r.heap.size &&
        r.precedes (r.heap.getD right 0) (r.heap.getD left 0) then right else left
      let u := r.heap.getD below 0
      if r.precedes u v then sink v steps below (r.put i u) else r.put i v
    else r.put i v

/-- The number of steps that always suffice: the depth of a heap in a memory of 64-bit words. -/
def depth : Nat := 64

/-- Puts a variable back unless it is there. -/
def insert (r : Ranking) (v : Nat) : Ranking :=
  if r.places.getD v 1 = 0 then
    let i := r.heap.size
    rise v depth i { r with heap := r.heap.push v }
  else r

/-- The ranking of `n` variables, of which the new ones have no score. -/
def grow (r : Ranking) (n : Nat) : Ranking :=
  let known := r.scores.size
  let zeros := Array.replicate (n - known) 0
  let r := { r with scores := r.scores ++ zeros, places := r.places ++ zeros }
  (n - known).fold (fun i _ r => r.insert (known + i)) r

/-- Takes out the variable with the largest score. -/
def pop (r : Ranking) : Ranking :=
  let top := r.heap.getD 0 0
  let last := r.heap.getD (r.heap.size - 1) 0
  let r := { r with heap := r.heap.pop, places := r.places.setIfInBounds top 0 }
  if r.heap.isEmpty then r else sink last depth 0 r

/-- Brings the score of a variable half the way to the target. -/
def raise (r : Ranking) (v : Nat) : Ranking :=
  let r := { r with scores := r.scores.setIfInBounds v ((r.score v + r.target) / 2) }
  let i := r.places.getD v 0
  if i = 0 then r else rise v depth (i - 1) r

/-- The difference of two targets. -/
def stride : Nat := 1048576

/-- Sets the next target. -/
def advance (r : Ranking) : Ranking :=
  { r with target := r.target + stride }

/-- Takes out variables that have values, among this number of them, until the first one is free. -/
def popUntil (isFree : Nat → Bool) : Nat → Ranking → Ranking
  | 0, r => r
  | steps + 1, r =>
    match r.heap[0]? with
    | none => r
    | some v => if isFree v then r else popUntil isFree steps r.pop

end Ranking

end HorizonPlanner.StandIn.Learning
