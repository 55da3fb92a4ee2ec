import HorizonPlanner.Proofs.Text.Words
import HorizonPlanner.Sat.Dimacs
import Mathlib.Data.List.TakeWhile

/-!
# What a DIMACS text says

A DIMACS text has a header with the numbers of variables and clauses, and then the integers of the
clauses, each clause closed by a zero. The text of an instance says what the instance does: its
clauses, in their order and with all their literals, and the number of its variables, which all
clauses respect.
-/

namespace HorizonPlanner.Sat

open Text

/-! ### Integers and literals -/

/-- No literal is written as zero. -/
theorem Literal.toInt_ne_zero (l : Literal) : l.toInt ≠ 0 := by
  have hpos := l.var.number_pos
  unfold toInt
  split <;> omega

/-- The integer of a literal has the number of its variable as absolute value. -/
theorem Literal.natAbs_toInt (l : Literal) : l.toInt.natAbs = l.var.number := by
  unfold toInt
  split <;> simp

/-- A literal is given back by its integer. -/
theorem Literal.ofNonzero_toInt (l : Literal) (h : l.toInt ≠ 0) : ofNonzero l.toInt h = l := by
  obtain ⟨⟨number, hpos⟩, positive⟩ := l
  cases positive <;> simp [toInt, ofNonzero, hpos]

/-- The literal of an integer is written as this integer. -/
theorem Literal.toInt_ofNonzero {i : Int} (h : i ≠ 0) : (ofNonzero i h).toInt = i := by
  unfold toInt ofNonzero
  by_cases hpos : 0 < i <;> simp only [hpos, decide_true, decide_false, if_true,
    Bool.false_eq_true, if_false] <;> omega

/-! ### Variables of clauses -/

/-- The running maximum is bounded by what bounds its beginning and all values. -/
theorem foldl_max_le_iff {α : Type} (f : α → Nat) (xs : List α) (m n : Nat) :
    xs.foldl (fun n x => max n (f x)) m ≤ n ↔ m ≤ n ∧ ∀ x ∈ xs, f x ≤ n := by
  induction xs generalizing m with
  | nil => simp
  | cons x xs ih => rw [List.foldl_cons, ih, Nat.max_le, List.forall_mem_cons, and_assoc]

/-- Clauses are put behind those that are there. -/
theorem Instance.addClauses_eq (i : Instance) (cs : List Clause) :
    i.addClauses cs = { i with clauses := i.clauses ++ cs.toArray } := by
  induction cs generalizing i with
  | nil => simp [Instance.addClauses]
  | cons c rest ih =>
    have hrest := ih (i.addClause c)
    simpa [Instance.addClauses, Instance.addClause] using hrest

/-- The largest variable is the least bound of all variables. -/
theorem Instance.largestVariable_le_iff {cs : List Clause} {n : Nat} :
    largestVariable cs ≤ n ↔ ∀ c ∈ cs, ∀ l ∈ c, l.var.number ≤ n := by
  have hclause : ∀ c : Clause, c.maxVariable ≤ n ↔ ∀ l ∈ c, l.var.number ≤ n := fun c => by
    rw [Clause.maxVariable, foldl_max_le_iff, and_iff_right n.zero_le]
  rw [largestVariable, foldl_max_le_iff, and_iff_right n.zero_le]
  simp only [hclause]

/-- No literal of the clauses has a larger variable than the largest one. -/
theorem Instance.number_le_largestVariable {cs : List Clause} {c : Clause}
    {l : Literal} (hc : c ∈ cs) (hl : l ∈ c) : l.var.number ≤ largestVariable cs :=
  largestVariable_le_iff.mp le_rfl c hc l hl

/-! ### Reading -/

namespace Dimacs

/-- Clauses on the variables `1, …, nVars`. -/
structure Formula where
  /-- The number of variables. -/
  nVars : Nat
  /-- The clauses. -/
  clauses : List Clause
  deriving DecidableEq, Repr

/-- The natural number written in decimal digits. -/
def natural? (text : List Char) : Option Nat :=
  if text ≠ [] ∧ text.all Char.isDigit then some (Nat.ofDigitChars 10 text 0) else none

/-- The integer written in decimal digits, possibly with a dash in front. -/
def integer? : List Char → Option Int
  | '-' :: digits => (natural? digits).map fun n : Nat => -(n : Int)
  | digits => (natural? digits).map fun n : Nat => (n : Int)

/-- Cuts integers into clauses at the zeros that close them, given the beginning of the clause under
way. -/
def clausesOf? : Clause → List Int → Option (List Clause)
  | [], [] => some []
  | _ :: _, [] => none
  | current, i :: rest =>
    if h : i = 0 then (clausesOf? [] rest).map (current :: ·)
    else clausesOf? (current ++ [.ofNonzero i h]) rest

/-- The formula that is written in a text. The first line is the header, and what it promises has to
be kept. -/
def parse? (text : List Char) : Option Formula :=
  match words isSeparator (text.takeWhile (· ≠ '\n')) with
  | [['p'], ['c', 'n', 'f'], nVars, nClauses] => do
    let nVars ← natural? nVars
    let nClauses ← natural? nClauses
    let integers ← (words isSeparator (text.dropWhile (· ≠ '\n'))).mapM integer?
    let clauses ← clausesOf? [] integers
    if clauses.length = nClauses ∧ ∀ c ∈ clauses, ∀ l ∈ c, l.var.number ≤ nVars then
      some ⟨nVars, clauses⟩
    else none
  | _ => none

/-! ### Numbers -/

/-- The numeral of a natural number is read as this number. -/
theorem natural?_ofNat (n : Nat) : natural? (Numeral.ofNat n) = some n := by
  have hdigits : (Numeral.ofNat n).all Char.isDigit = true :=
    List.all_eq_true.mpr fun _ hc => Numeral.isDigit_of_mem_ofNat hc
  rw [natural?, if_pos ⟨Numeral.ofNat_ne_nil n, hdigits⟩, Numeral.ofDigitChars_ofNat]

private theorem integer?_ofInt (i : Int) : integer? (Numeral.ofInt i) = some i := by
  unfold Numeral.ofInt
  split
  · next hneg =>
    rw [integer?, natural?_ofNat, Option.map_some, show -(i.natAbs : Int) = i by omega]
  · next hpos =>
    have hdash : ∀ rest, Numeral.ofNat i.natAbs ≠ '-' :: rest := fun rest h =>
      absurd (Numeral.isDigit_of_mem_ofNat (c := '-') (n := i.natAbs) (by simp [h])) (by decide)
    unfold integer?
    split
    · next rest h => exact absurd h (hdash rest)
    · rw [natural?_ofNat, Option.map_some, show (i.natAbs : Int) = i by omega]

private theorem mapM_integer?_map_ofInt (integers : List Int) :
    (integers.map Numeral.ofInt).mapM integer? = some integers := by
  induction integers with
  | nil => rfl
  | cons i rest ih => rw [List.map_cons, List.mapM_cons, integer?_ofInt, ih]; rfl

/-! ### Clauses -/

/-- The integers of a clause. -/
def integersOf (c : Clause) : List Int :=
  c.map Literal.toInt ++ [0]

/-- The integers of a clause up to its zero complete the clause under way. -/
theorem clausesOf?_append (c current : Clause) (rest : List Int) :
    clausesOf? current (integersOf c ++ rest) =
      (clausesOf? [] rest).map ((current ++ c) :: ·) := by
  induction c generalizing current with
  | nil => cases current <;> simp [integersOf, clausesOf?]
  | cons l c ih =>
    have hne := l.toInt_ne_zero
    have hcons : integersOf (l :: c) ++ rest = l.toInt :: (integersOf c ++ rest) := rfl
    rw [hcons, clausesOf?, dif_neg hne, Literal.ofNonzero_toInt, ih, List.append_assoc]
    rfl

/-- The integers of clauses are cut into these clauses. -/
theorem clausesOf?_flatMap (cs : List Clause) :
    clausesOf? [] (cs.flatMap integersOf) = some cs := by
  induction cs with
  | nil => rfl
  | cons c cs ih => rw [List.flatMap_cons, clausesOf?_append, ih]; rfl

/-- The words of a clause are its integers. -/
theorem words_dimacs_append (c : Clause) (rest : List Char) :
    words isSeparator (c.dimacs ++ rest) =
      (integersOf c).map Numeral.ofInt ++ words isSeparator rest := by
  have hzero : Numeral.ofInt 0 = ['0'] := by
    rw [Numeral.ofInt, if_neg (by decide), Numeral.ofNat]
    decide
  have htext : c.dimacs ++ rest = (c.map Literal.toInt).flatMap
      (fun i => Numeral.ofInt i ++ [' ']) ++
      (['0'] ++ '\n' :: rest) := by
    rw [List.flatMap_map, Clause.dimacs, List.append_assoc]
    rfl
  rw [htext, words_numbers, words_append_cons (List.cons_ne_nil _ _) (by simp [isSeparator]) rfl,
    integersOf, List.map_append, List.map_singleton, hzero, List.append_assoc]
  rfl

private theorem words_clauseText (i : Instance) : words isSeparator i.clauseText =
    (i.clauses.toList.flatMap integersOf).map Numeral.ofInt := by
  unfold Instance.clauseText
  induction i.clauses.toList with
  | nil => rfl
  | cons c cs ih =>
    rw [List.flatMap_cons, words_dimacs_append, ih, List.flatMap_cons, List.map_append]

/-! ### The whole text -/

/-- The header of an instance is one line of four words. -/
theorem exists_header (i : Instance) : ∃ header, i.preamble = header ++ ['\n'] ∧ '\n' ∉ header ∧
    words isSeparator header =
      [['p'], ['c', 'n', 'f'], Numeral.ofNat i.nVars, Numeral.ofNat i.nClauses] := by
  have hdigits : ∀ n, ∀ c ∈ Numeral.ofNat n, isSeparator c = false := fun n c hc =>
    isSeparator_of_isDigit (Numeral.isDigit_of_mem_ofNat hc)
  have hline : ∀ n, '\n' ∉ Numeral.ofNat n := fun n hmem =>
    absurd (hdigits n '\n' hmem) (by decide)
  have hword : "p cnf ".toList = ['p', ' ', 'c', 'n', 'f', ' '] := by decide
  refine ⟨['p'] ++ ' ' :: (['c', 'n', 'f'] ++ ' ' :: (Numeral.ofNat i.nVars ++ ' ' ::
    Numeral.ofNat i.nClauses)), ?_, ?_, ?_⟩
  · unfold Instance.preamble
    rw [hword]
    simp only [List.append_assoc, List.cons_append, List.nil_append]
  · simp [hline]
  · rw [words_append_cons (List.cons_ne_nil _ _) (by simp [isSeparator]) rfl,
      words_append_cons (List.cons_ne_nil _ _) (by simp [isSeparator]) rfl,
      words_append_cons (Numeral.ofNat_ne_nil _) (hdigits _) rfl,
      words_eq_singleton (Numeral.ofNat_ne_nil _) (hdigits _)]

/-- The text of an instance says what the instance does. -/
theorem parse?_dimacs (i : Instance) : parse? i.dimacs = some ⟨i.nVars, i.clauses.toList⟩ := by
  obtain ⟨header, hpreamble, hline, hwords⟩ := exists_header i
  have hkeep : ∀ c ∈ header, decide (c ≠ '\n') = true := fun c hc =>
    decide_eq_true fun h => hline (h ▸ hc)
  have htext : i.dimacs = header ++ '\n' :: i.clauseText := by
    rw [Instance.dimacs, hpreamble, List.append_assoc]
    rfl
  have htake : i.dimacs.takeWhile (· ≠ '\n') = header := by
    rw [htext, List.takeWhile_append_of_pos hkeep]
    simp
  have hdrop : i.dimacs.dropWhile (· ≠ '\n') = '\n' :: i.clauseText := by
    rw [htext, List.dropWhile_append_of_pos hkeep]
    simp
  have hbound : ∀ c ∈ i.clauses.toList, ∀ l ∈ c, l.var.number ≤ i.nVars := fun c hc l hl =>
    (Instance.number_le_largestVariable hc hl).trans (Nat.le_max_right _ _)
  rw [parse?, htake, hwords, hdrop, words_cons_of_isSep (by decide), words_clauseText]
  simp only [natural?_ofNat, mapM_integer?_map_ofInt, clausesOf?_flatMap, Option.bind_eq_bind,
    Option.bind_some]
  exact if_pos ⟨Array.length_toList, hbound⟩

end Dimacs

end HorizonPlanner.Sat
