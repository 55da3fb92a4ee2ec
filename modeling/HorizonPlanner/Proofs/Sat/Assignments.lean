import HorizonPlanner.Proofs.Sat.ClauseSets
import HorizonPlanner.Sat.Assignment

/-!
# Assignments and valuations

An assignment may leave variables without a value. Read as false, these do not spoil the clauses
that the assignment satisfies. In the other direction every valuation is an assignment of the first
variables.
-/

namespace HorizonPlanner.Sat

/-- A variable is the one behind those in front of it. -/
theorem Variable.mk_number_sub_one_add_one (x : Variable) :
    (⟨x.number - 1 + 1, Nat.succ_pos _⟩ : Variable) = x := by
  obtain ⟨number, number_pos⟩ := x
  congr 1
  exact Nat.sub_add_cancel number_pos

namespace Assignment

/-- The valuation of an assignment, where a variable without a value is false. -/
def valuation (a : Assignment) : Valuation :=
  fun x => a.valueOf x == some true

/-- The assignment that gives their values to the variables `1, …, n`. -/
def ofValuation {n : Nat} (hn : n < Word.half) (v : Valuation) : Assignment :=
  ofValues hn fun x => some (v x)

/-- The variables `1, …, n`, and no others, have a value. -/
def Total (n : Nat) (a : Assignment) : Prop :=
  a.size = n ∧ ∀ x : Variable, x.number ≤ n → (a.valueOf x).isSome = true

variable {a : Assignment} {n : Nat} {v : Valuation} {cs : List Clause}

/-- Only variables that are counted by signed words can all have a value. -/
theorem Total.lt (ha : a.Total n) : n < Word.half :=
  ha.1 ▸ a.size_lt

/-- Only variables among the first ones have a value. -/
theorem number_lt_of_valueOf_eq_some {x : Variable} {value : Bool} (h : a.valueOf x = some value) :
    x.number < Word.half := by
  have hpos := x.number_pos
  have hsize := a.size_lt
  have hget : a.values[x.number - 1]? = some (some value) := Option.join_eq_some_iff.mp h
  have hlt := (Array.getElem?_eq_some_iff.mp hget).1
  omega

/-- An assignment satisfies a clause when it gives some variable of the clause the value the clause
asks for. -/
theorem satisfies_iff {c : Clause} :
    a.satisfies c = true ↔ ∃ l ∈ c, a.valueOf l.var = some l.positive := by
  simp [satisfies, makesTrue]

/-- The clauses that an assignment satisfies are true when the missing values are read as false. -/
theorem holds_of_satisfiesAll (h : a.satisfiesAll cs = true) :
    ∀ c ∈ cs, c.Holds a.valuation := by
  intro c hc
  obtain ⟨l, hl, hvalue⟩ := satisfies_iff.mp (List.all_eq_true.mp h c hc)
  refine ⟨l, hl, ?_⟩
  show (a.valueOf l.var == some true) = l.positive
  rw [hvalue]
  cases l.positive <;> rfl

/-- If all variables have a value, nothing is read as false that is not. -/
theorem satisfiesAll_iff_holds (hvalues : ∀ c ∈ cs, ∀ l ∈ c, (a.valueOf l.var).isSome = true) :
    a.satisfiesAll cs = true ↔ ∀ c ∈ cs, c.Holds a.valuation := by
  refine ⟨holds_of_satisfiesAll, fun h => List.all_eq_true.mpr fun c hc => satisfies_iff.mpr ?_⟩
  obtain ⟨l, hl, htrue⟩ := h c hc
  obtain ⟨value, hvalue⟩ := Option.isSome_iff_exists.mp (hvalues c hc l hl)
  refine ⟨l, hl, ?_⟩
  simp only [Literal.Holds, valuation, hvalue] at htrue
  rw [hvalue, ← htrue]
  cases value <;> rfl

section

variable {hn : n < Word.half}

/-- The assignment of values has these values. -/
theorem valueOf_ofValues {value : Variable → Option Bool} {x : Variable} (hx : x.number ≤ n) :
    (ofValues hn value).valueOf x = value x := by
  have hpos := x.number_pos
  have hlt : x.number - 1 < n := by omega
  simp [valueOf, ofValues, hlt, x.mk_number_sub_one_add_one]

/-- The assignment of a valuation has its values. -/
theorem valueOf_ofValuation {x : Variable} (hx : x.number ≤ n) :
    (ofValuation hn v).valueOf x = some (v x) :=
  valueOf_ofValues hx

/-- The assignment of a valuation is total. -/
theorem total_ofValuation (hn : n < Word.half) (v : Valuation) : (ofValuation hn v).Total n :=
  ⟨by simp [size, ofValuation, ofValues], fun x hx => by simp [valueOf_ofValuation hx]⟩

/-- Clauses about the first variables that are true under a valuation are satisfied by it. -/
theorem satisfiesAll_ofValuation (hcs : ∀ c ∈ cs, ∀ l ∈ c, l.var.number ≤ n)
    (h : ∀ c ∈ cs, c.Holds v) : (ofValuation hn v).satisfiesAll cs = true := by
  refine List.all_eq_true.mpr fun c hc => satisfies_iff.mpr ?_
  obtain ⟨l, hl, htrue⟩ := h c hc
  exact ⟨l, hl, by rw [valueOf_ofValuation (hcs c hc l hl), htrue]⟩

end

/-- Clauses about the first variables that some assignment satisfies are satisfied by a total
one. -/
theorem exists_total_of_satisfiesAll (hn : n < Word.half)
    (hcs : ∀ c ∈ cs, ∀ l ∈ c, l.var.number ≤ n) (h : a.satisfiesAll cs = true) :
    ∃ b : Assignment, b.Total n ∧ b.satisfiesAll cs = true :=
  ⟨ofValuation hn a.valuation, total_ofValuation hn a.valuation,
    satisfiesAll_ofValuation hcs (holds_of_satisfiesAll h)⟩

/-- Assignments of the same variables are equal if they give them the same values. -/
theorem eq_of_valueOf_eq {b : Assignment} (hsize : a.size = b.size)
    (h : ∀ x : Variable, x.number ≤ a.size → a.valueOf x = b.valueOf x) : a = b := by
  obtain ⟨as, _⟩ := a
  obtain ⟨bs, _⟩ := b
  congr 1
  refine Array.ext hsize fun i hi hi' => ?_
  have hvalue := h ⟨i + 1, Nat.succ_pos i⟩ hi
  simpa only [valueOf, Nat.add_sub_cancel, Array.getElem?_eq_getElem hi,
    Array.getElem?_eq_getElem hi', Option.join_some] using hvalue

/-- Total assignments of the same variables are equal if they have the same valuation. -/
theorem Total.eq_of_valuation_eq {b : Assignment} (ha : a.Total n) (hb : b.Total n)
    (h : ∀ x : Variable, x.number ≤ n → a.valuation x = b.valuation x) : a = b := by
  refine eq_of_valueOf_eq (ha.1.trans hb.1.symm) fun x hx => ?_
  have hle : x.number ≤ n := ha.1 ▸ hx
  obtain ⟨s, hs⟩ := Option.isSome_iff_exists.mp (ha.2 x hle)
  obtain ⟨t, ht⟩ := Option.isSome_iff_exists.mp (hb.2 x hle)
  have hvalue := h x hle
  rw [valuation, valuation, hs, ht] at hvalue
  rw [hs, ht]
  simpa using hvalue

end Assignment

end HorizonPlanner.Sat
