import HorizonPlanner.Sat.Literal

/-!
# Assignments

An assignment gives truth values to some of the variables `1, …, n`. It satisfies a clause when it
makes a literal of the clause true; a variable without a value makes neither of its literals true.
-/

namespace HorizonPlanner.Sat

/-- A partial assignment: the value of variable `v` is at position `v - 1`. There is room in memory
for one byte for each value, which bounds their number. -/
structure Assignment where
  /-- The values, `none` for a variable without one. -/
  values : Array (Option Bool)
  /-- The number of values is a signed word. -/
  size_lt : values.size < Word.half
  deriving DecidableEq, Repr

namespace Assignment

/-- The assignment that gives the variables `1, …, n` their values, if they have any. -/
def ofValues {n : Nat} (hn : n < Word.half) (value : Variable → Option Bool) : Assignment :=
  ⟨Array.ofFn fun i : Fin n => value ⟨i + 1, Nat.succ_pos i⟩, by simpa using hn⟩

/-- The number of variables the assignment knows. -/
def size (a : Assignment) : Nat :=
  a.values.size

/-- The value of a variable, if it has one. -/
def valueOf (a : Assignment) (v : Variable) : Option Bool :=
  (a.values[v.number - 1]?).join

/-- All known variables with their values. -/
def toList (a : Assignment) : List (Nat × Option Bool) :=
  a.values.toList.zipIdx.map fun e => (e.2 + 1, e.1)

/-- Whether the assignment makes a literal true. -/
def makesTrue (a : Assignment) (l : Literal) : Bool :=
  a.valueOf l.var == some l.positive

/-- Whether the assignment makes a literal of the clause true. -/
def satisfies (a : Assignment) (c : Clause) : Bool :=
  c.any a.makesTrue

/-- Whether the assignment satisfies every clause. -/
def satisfiesAll (a : Assignment) (cs : List Clause) : Bool :=
  cs.all a.satisfies

end Assignment

end HorizonPlanner.Sat
