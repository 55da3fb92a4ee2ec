import HorizonPlanner.Proofs.Encoding.Numbering
import Mathlib.Logic.Equiv.Defs

/-!
# The numbering as a bijection

The propositions of a layout and its variables correspond to each other one to one, whatever the
dimensions of the layout, and each direction is computed by its own lookup as long as layers and
variables are counted by words. Asking for the variable of anything else is a broken condition, and
a number that is no variable stands for nothing. The reverse lookup divides by the number of fluents
or of operators; where there are none of them it does not get to the division.
-/

namespace HorizonPlanner.Encoding.Layout

open HorizonPlanner.Sat

variable {t : Layout} {n : Nat}

/-- The numbering: the propositions of a layout correspond to its variables. -/
def numbering (t : Layout) : { q // t.Has q } ≃ { v : Variable // v.number ≤ t.nVars } where
  toFun q := ⟨⟨t.number q, (number_pos_and_le_nVars q.property).1⟩,
    (number_pos_and_le_nVars q.property).2⟩
  invFun v :=
    ⟨(t.proposition? v.val.number).get (isSome_proposition?_iff.mpr ⟨v.val.number_pos, v.property⟩),
      (has_and_number_of_proposition? (Option.some_get _).symm).1⟩
  left_inv q := Subtype.ext (by simp [proposition?_number q.property])
  right_inv v := by
    have hnumber := (has_and_number_of_proposition? (n := v.val.number) (Option.some_get
      (isSome_proposition?_iff.mpr ⟨v.val.number_pos, v.property⟩)).symm).2
    obtain ⟨⟨number, hpos⟩, hle⟩ := v
    simpa using hnumber

/-! ### The lookups -/

/-- A number stands for nothing exactly when it is no variable of the layout. -/
theorem proposition?_eq_none_iff : t.proposition? n = none ↔ n = 0 ∨ t.nVars < n := by
  rw [← Option.not_isSome_iff_eq_none, isSome_proposition?_iff]
  omega

/-- The reverse lookup never divides by zero: before every division it has seen a variable that
would not be there without a divisor. -/
theorem propositionOf_eq (hwords : t.Counted) (n : Nat) :
    t.propositionOf n = .ok (t.proposition? n) := by
  have hstates : t.stateVarCount = .ok t.nStateVars :=
    stateVarCount_eq_ok_iff.mpr ⟨hwords.1, Nat.lt_of_le_of_lt (Nat.le_add_right _ _) hwords.2, rfl⟩
  have hvars : t.varCount = .ok t.nVars := varCount_eq_ok_iff.mpr ⟨hwords, rfl⟩
  cases n with
  | zero => rfl
  | succ index =>
    rw [propositionOf, proposition?, hstates]
    by_cases hstate : index < t.nStateVars
    · have hfluents : 0 < t.nFluents := Nat.pos_of_mul_pos_right (Nat.zero_lt_of_lt hstate)
      simp only [bind, Except.bind, if_pos hstate, Word.rem_of_pos hfluents,
        Word.div_of_pos hfluents]
      rfl
    · simp only [bind, Except.bind, if_neg hstate, hvars]
      by_cases hvar : index < t.nVars
      · have haction : 0 < t.nOperators * t.horizon := by
          unfold nVars at hvar
          omega
        have hoperators : 0 < t.nOperators := Nat.pos_of_mul_pos_right haction
        simp only [if_pos hvar, Word.rem_of_pos hoperators, Word.div_of_pos hoperators]
        rfl
      · simp only [if_neg hvar]
        rfl

/-- The variable of a proposition of the layout is the one that the numbering gives it. -/
theorem variableOf_eq_numbering (hwords : t.Counted) (q : { q // t.Has q }) :
    t.variableOf q = .ok (t.numbering q) :=
  variableOf_of_has hwords.1 q.property (Nat.lt_of_le_of_lt (t.numbering q).property hwords.2) rfl

/-- A number that is a variable stands for the proposition that the numbering gives it. -/
theorem proposition?_eq_numbering_symm (v : { v : Variable // v.number ≤ t.nVars }) :
    t.proposition? v.val.number = some (t.numbering.symm v).val :=
  (Option.some_get _).symm

/-- The two lookups undo each other. -/
theorem variableOf_eq_ok_iff_propositionOf (hwords : t.Counted) {q : Proposition} {v : Variable} :
    t.variableOf q = .ok v ↔ t.propositionOf v.number = .ok (some q) := by
  rw [propositionOf_eq hwords, Except.ok.injEq]
  constructor
  · exact proposition?_of_variableOf
  · intro h
    obtain ⟨hq, hnumber⟩ := has_and_number_of_proposition? h
    have hle := (number_pos_and_le_nVars hq).2
    exact variableOf_of_proposition? hwords.1 (Nat.lt_of_le_of_lt (by omega) hwords.2) h

/-! ### Questions outside the layout -/

/-- There is no variable for a fluent that does not exist, or behind the last layer. -/
theorem variableOf_fluent_eq_error_iff (hwords : t.Counted) {f s : Nat} :
    t.variableOf (.fluent f s) = .error (.noStateVariable f s t.horizon) ↔
      t.nFluents ≤ f ∨ t.horizon < s := by
  have houtside : (t.nFluents ≤ f ∨ t.horizon < s) ↔ ¬ t.Has (.fluent f s) := by
    rw [Has]
    omega
  rw [houtside]
  constructor
  · intro herror hhas
    obtain ⟨v, hv⟩ := (exists_variableOf_iff hwords).mpr hhas
    rw [hv] at herror
    cases herror
  · exact fun hhas => if_neg hhas

/-- There is no variable for an operator that does not exist, or at the last layer. -/
theorem variableOf_operator_eq_error_iff (hwords : t.Counted) {o s : Nat} :
    t.variableOf (.operator o s) = .error (.noActionVariable o s t.horizon) ↔
      t.nOperators ≤ o ∨ t.horizon ≤ s := by
  have houtside : (t.nOperators ≤ o ∨ t.horizon ≤ s) ↔ ¬ t.Has (.operator o s) := by
    rw [Has]
    omega
  rw [houtside]
  constructor
  · intro herror hhas
    obtain ⟨v, hv⟩ := (exists_variableOf_iff hwords).mpr hhas
    rw [hv] at herror
    cases herror
  · exact fun hhas => if_neg hhas

/-- Where layers and variables are counted by words, the forward lookup is a bijection from the
fluents at all layers and the operators at all layers but the last onto the variables, and the
reverse lookup is its inverse in both directions. The reverse lookup finds nothing for zero and
beyond the last variable, and it never divides by zero. The forward lookup is a broken condition
outside these ranges. -/
theorem variableOf_bijective (hwords : t.Counted) :
    ((∀ q : { q // t.Has q }, t.variableOf q = .ok (t.numbering q)) ∧
      ∀ v : { v : Variable // v.number ≤ t.nVars },
        t.propositionOf v.val.number = .ok (some (t.numbering.symm v).val)) ∧
    (∀ q v, t.variableOf q = .ok v ↔ t.propositionOf v.number = .ok (some q)) ∧
    (∀ n, t.propositionOf n = .ok none ↔ n = 0 ∨ t.nVars < n) ∧
    (∀ n, ∃ found, t.propositionOf n = .ok found) ∧
    (∀ f s, t.variableOf (.fluent f s) = .error (.noStateVariable f s t.horizon) ↔
      t.nFluents ≤ f ∨ t.horizon < s) ∧
    ∀ o s, t.variableOf (.operator o s) = .error (.noActionVariable o s t.horizon) ↔
      t.nOperators ≤ o ∨ t.horizon ≤ s := by
  refine ⟨⟨variableOf_eq_numbering hwords, fun v => ?_⟩, fun q v => ?_, fun n => ?_,
    fun n => ?_, ?_, ?_⟩
  · rw [propositionOf_eq hwords, proposition?_eq_numbering_symm]
  · exact variableOf_eq_ok_iff_propositionOf hwords
  · rw [propositionOf_eq hwords, Except.ok.injEq, proposition?_eq_none_iff]
  · exact ⟨_, propositionOf_eq hwords n⟩
  · exact fun f s => variableOf_fluent_eq_error_iff hwords
  · exact fun o s => variableOf_operator_eq_error_iff hwords

/-- Two fluents, three operators and a horizon of two make twelve variables; the ninth is about the
last operator at the first step, the tenth about the first operator at the second one. -/
theorem variableOf_bijective_twelve :
    (⟨2, 3, 2⟩ : Layout).Counted ∧ (⟨2, 3, 2⟩ : Layout).nVars = 12 ∧
      (⟨2, 3, 2⟩ : Layout).propositionOf 9 = .ok (some (.operator 2 0)) ∧
      (⟨2, 3, 2⟩ : Layout).propositionOf 10 = .ok (some (.operator 0 1)) ∧
      (⟨2, 3, 2⟩ : Layout).propositionOf 13 = .ok none := by
  have hwords : (⟨2, 3, 2⟩ : Layout).Counted := by decide
  obtain ⟨-, hinverse, hnone, -⟩ := variableOf_bijective hwords
  refine ⟨hwords, rfl, ?_, ?_, (hnone 13).mpr (.inr (by decide))⟩
  · exact (hinverse _ ⟨9, by decide⟩).mp (by decide)
  · exact (hinverse _ ⟨10, by decide⟩).mp (by decide)

/-- Without fluents, operators or time steps there is nothing to divide by, and nothing is
divided. -/
example : (⟨0, 2, 0⟩ : Layout).propositionOf 1 = .ok none ∧
    (⟨0, 2, 1⟩ : Layout).propositionOf 2 = .ok (some (.operator 1 0)) := by decide

end HorizonPlanner.Encoding.Layout
