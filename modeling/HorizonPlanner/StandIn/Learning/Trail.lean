import HorizonPlanner.Sat.Literal

/-!
# Trails

The solver makes literals true one after the other: by choice, or because a clause leaves no choice.
The trail lists them in this order, and knows for every one the reason and the number of choices
made before it. Literals are numbers here: the places of variables count from zero, and every
variable has two codes next to each other.
-/

namespace HorizonPlanner.StandIn.Learning

open HorizonPlanner.Sat

/-- The code of a literal: twice the place of its variable, and one more if it is a negation. -/
abbrev Code := Nat

namespace Code

/-- The code of a literal. -/
def ofLiteral (l : Literal) : Code :=
  2 * (l.var.number - 1) + if l.positive then 0 else 1

/-- The code of the variable at a place, or of its negation. -/
def ofPlace (place : Nat) (value : Bool) : Code :=
  2 * place + if value then 0 else 1

/-- The place of the variable. -/
def place (c : Code) : Nat :=
  c / 2

/-- The code of the opposite literal. -/
def negate (c : Code) : Code :=
  if c % 2 = 0 then c + 1 else c - 1

end Code

/-- The truth of a literal. -/
inductive Truth
  /-- It has no value yet. -/
  | free
  /-- It is true. -/
  | yes
  /-- It is false. -/
  | no
  deriving DecidableEq, Repr, Inhabited

/-- The literals that are true, in the order in which they became so. -/
structure Trail where
  /-- The truth of every literal. -/
  truths : Array Truth
  /-- For every variable, the number of choices before it got its value. -/
  levels : Array Nat
  /-- For every variable, the clause that gave it its value, counted from one; zero for a choice. -/
  reasons : Array Nat
  /-- The true literals. -/
  literals : Array Code
  /-- How many literals were true before each choice. -/
  marks : Array Nat
  /-- How many literals have had their consequences drawn. -/
  handled : Nat
  /-- The last value of every variable, used again when it is chosen. -/
  habits : Array Bool

namespace Trail

/-- The trail on which nothing is true yet. -/
def empty (n : Nat) : Trail :=
  ⟨Array.replicate (2 * n) .free, Array.replicate n 0, Array.replicate n 0,
    Array.emptyWithCapacity n, #[], 0,
    Array.replicate n false⟩

/-- The trail for `n` variables, the new ones without values. -/
def grow (t : Trail) (n : Nat) : Trail :=
  let more := n - t.levels.size
  { t with
    truths := t.truths ++ Array.replicate (2 * more) .free
    levels := t.levels ++ Array.replicate more 0
    reasons := t.reasons ++ Array.replicate more 0
    habits := t.habits ++ Array.replicate more false }

/-- The truth of a literal. -/
@[inline] def truth (t : Trail) (c : Code) : Truth :=
  t.truths.getD c .free

/-- Whether a literal is true. -/
@[inline] def isTrue (t : Trail) (c : Code) : Bool :=
  match t.truth c with
  | .yes => true
  | _ => false

/-- Whether a literal is false. -/
@[inline] def isFalse (t : Trail) (c : Code) : Bool :=
  match t.truth c with
  | .no => true
  | _ => false

/-- Whether a literal has no value. -/
@[inline] def isFree (t : Trail) (c : Code) : Bool :=
  match t.truth c with
  | .free => true
  | _ => false

/-- The number of choices. -/
@[inline] def level (t : Trail) : Nat :=
  t.marks.size

/-- The number of choices before the variable of a literal got its value. -/
@[inline] def levelOf (t : Trail) (c : Code) : Nat :=
  t.levels.getD c.place 0

/-- Whether the variable of a literal has a value that does not depend on choices. -/
def isSettled (t : Trail) (c : Code) : Bool :=
  !t.isFree c && t.levelOf c == 0

/-- Whether all variables have values. -/
def isComplete (t : Trail) : Bool :=
  t.literals.size == t.levels.size

/-- Makes a literal true. -/
def push (t : Trail) (c : Code) (reason : Nat) : Trail :=
  { t with
    truths := (t.truths.setIfInBounds c .yes).setIfInBounds c.negate .no
    levels := t.levels.setIfInBounds c.place t.marks.size
    reasons := t.reasons.setIfInBounds c.place reason
    literals := t.literals.push c }

/-- Makes a literal true by choice. -/
def choose (t : Trail) (c : Code) : Trail :=
  { t with marks := t.marks.push t.literals.size }.push c 0

/-- Takes the last literals off until this number is left. The variables get their values back when
they are chosen again. -/
def pop (t : Trail) : (surplus : Nat) → Trail
  | 0 => t
  | surplus + 1 =>
    let c := t.literals.back?.getD 0
    { t with
      truths := (t.truths.setIfInBounds c .free).setIfInBounds c.negate .free
      habits := t.habits.setIfInBounds c.place (c % 2 == 0)
      literals := t.literals.pop }.pop surplus

/-- Takes back all choices but this number of them. -/
def backTo (t : Trail) (level : Nat) : Trail :=
  match t.marks[level]? with
  | none => t
  | some size =>
    let t := t.pop (t.literals.size - size)
    { t with marks := t.marks.shrink level, handled := size }

/-- The value of a variable. -/
def value (t : Trail) (x : Variable) : Option Bool :=
  match t.truth (.ofLiteral ⟨x, true⟩) with
  | .yes => some true
  | .no => some false
  | .free => none

end Trail

end HorizonPlanner.StandIn.Learning
