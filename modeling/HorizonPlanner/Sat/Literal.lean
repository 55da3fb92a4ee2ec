import HorizonPlanner.Word

/-!
# Propositional variables, literals and clauses

Variables are the positive integers. A literal is a variable or its negation, and is written as the
integer whose sign tells which of them it is.
-/

namespace HorizonPlanner.Sat

open Text

/-- A propositional variable. -/
structure Variable where
  /-- The number of the variable. -/
  number : Nat
  /-- Variables are numbered from one. -/
  number_pos : 0 < number
  deriving DecidableEq, Repr

instance : Hashable Variable := ⟨fun v => hash v.number⟩

/-- The variable with this number, which must not be zero. -/
def Variable.ofNat (n : Nat) : Except Violation Variable :=
  if h : 0 < n then .ok ⟨n, h⟩ else .error .zeroVariable

/-- The variable with this number, which must be positive. -/
def Variable.ofInt (i : Int) : Except Violation Variable :=
  if i < 0 then .error .negativeVariable else ofNat i.toNat

/-- A variable or its negation. -/
structure Literal where
  /-- The variable the literal is about. -/
  var : Variable
  /-- Whether the literal is the variable itself and not its negation. -/
  positive : Bool
  deriving DecidableEq, Hashable, Repr

/-- A clause: the disjunction of its literals. -/
abbrev Clause := List Literal

namespace Literal

/-- The other literal of the same variable. -/
def negate (l : Literal) : Literal :=
  ⟨l.var, !l.positive⟩

/-- The integer that stands for a literal. -/
def toInt (l : Literal) : Int :=
  if l.positive then l.var.number else -(l.var.number : Int)

/-- The literal an integer other than zero stands for. -/
def ofNonzero (i : Int) (h : i ≠ 0) : Literal :=
  ⟨⟨i.natAbs, Int.natAbs_pos.mpr h⟩, decide (0 < i)⟩

/-- The literal an integer stands for; zero stands for none. -/
def ofInt (i : Int) : Except Violation Literal :=
  if h : i = 0 then .error .zeroVariable else .ok (ofNonzero i h)

/-- The literal of a variable that is given as an unsigned word. The word is read again as a signed
one, so that the upper half of the words stands for negative integers. The least of them has no
opposite. -/
def ofWord (word : Nat) (positive : Bool) : Except Violation Literal :=
  let signed := (word : Int).bmod Word.count
  if positive then ofInt signed
  else if signed = -(Word.half : Int) then .error (.overflow .negation)
  else ofInt (-signed)

/-- The literal that gives this value to a variable, whose number is read again as a signed word. -/
def ofVariable (v : Variable) (value : Bool) : Except Violation Literal :=
  if v.number < Word.half then .ok ⟨v, value⟩ else ofWord v.number value

/-- A word of the lower half is the same number when it is read as a signed one. -/
theorem bmod_eq_self_of_lt {n : Nat} (h : n < Word.half) : (n : Int).bmod Word.count = n := by
  have hwords : Word.count = 2 * Word.half := by decide
  rw [hwords]
  exact Int.bmod_eq_of_le (by omega) (by omega)

/-- The variable of a word of the lower half is the word. -/
theorem ofWord_of_lt {v : Variable} (h : v.number < Word.half) (positive : Bool) :
    ofWord v.number positive = .ok ⟨v, positive⟩ := by
  have hpos := v.number_pos
  have hne : v.number ≠ 0 := by omega
  have hleast : (v.number : Int) ≠ -(Word.half : Int) := by omega
  unfold ofWord
  rw [bmod_eq_self_of_lt h]
  cases positive with
  | false => simp [ofInt, ofNonzero, hne, hleast]
  | true => simp [ofInt, ofNonzero, hne, hpos]

/-- The literal of a variable is that of its number as a word; for the words of the lower half
nothing is to be computed. -/
theorem ofVariable_eq_ofWord (v : Variable) (value : Bool) :
    ofVariable v value = ofWord v.number value := by
  unfold ofVariable
  split
  · next h => rw [ofWord_of_lt h]
  · rfl

/-- A variable of the lower half has literals of its own. -/
theorem ofVariable_of_lt {v : Variable} (h : v.number < Word.half) (value : Bool) :
    ofVariable v value = .ok ⟨v, value⟩ :=
  if_pos h

/-- Opposite integers stand for opposite literals, unless they stand for none. -/
theorem ofInt_neg (i : Int) : ofInt (-i) = (ofInt i).map negate := by
  by_cases hzero : i = 0
  · subst hzero
    rfl
  · have hneg : -i ≠ 0 := by omega
    have hsign : decide (0 < -i) = !decide (0 < i) := by
      rw [← decide_not, decide_eq_decide]
      omega
    simp only [ofInt, hzero, hneg, dite_false, ofNonzero, Except.map, negate, Int.natAbs_neg, hsign]

/-- Where a variable has a literal that makes it false, the opposite one makes it true, whether or
not the two are literals of its own. -/
theorem ofVariable_true_of_false {v : Variable} {l : Literal} (h : ofVariable v false = .ok l) :
    ofVariable v true = .ok l.negate := by
  rw [ofVariable_eq_ofWord] at h ⊢
  simp only [ofWord, Bool.false_eq_true, if_false, if_true] at h ⊢
  split at h
  · cases h
  · rw [← Int.neg_neg ((v.number : Int).bmod Word.count), ofInt_neg, h]
    rfl

/-- The decimal text of a literal. -/
def text (l : Literal) : List Char :=
  Numeral.ofInt l.toInt

/-- Orders literals by variable, a negation before its variable. -/
def le (a b : Literal) : Bool :=
  a.var.number < b.var.number || (a.var.number == b.var.number && (!a.positive || b.positive))

end Literal

/-- The literals of a clause given by integers, none of which may be zero. -/
def Clause.ofInts (ints : List Int) : Except Violation Clause :=
  ints.mapM Literal.ofInt

/-- The largest variable of a clause, zero for the empty clause. -/
def Clause.maxVariable (c : Clause) : Nat :=
  c.foldl (fun n l => max n l.var.number) 0

end HorizonPlanner.Sat
