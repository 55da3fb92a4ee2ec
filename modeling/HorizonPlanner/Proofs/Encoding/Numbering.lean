import HorizonPlanner.Encoding.Layout
import HorizonPlanner.Proofs.Traversal
import Mathlib.Tactic.Ring

/-!
# Variables and the propositions they stand for

The numbering of propositions can be undone: the number of a variable gives back its proposition.
Different propositions therefore have different variables, and these are the numbers from one to the
number of variables of the layout. A proposition has a variable if its number is a word.
-/

namespace HorizonPlanner.Encoding.Layout

open HorizonPlanner.Sat

/-- The layers and the variables of the layout are counted by words. -/
def Counted (t : Layout) : Prop :=
  t.horizon + 1 < Word.count ∧ t.nVars < Word.count

instance (t : Layout) : Decidable t.Counted :=
  inferInstanceAs (Decidable (_ ∧ _))

/-- All variables of the layout have literals of their own, since they fit into signed words. -/
def FitsWords (t : Layout) : Prop :=
  t.horizon + 1 < Word.count ∧ t.nVars < Word.half

instance (t : Layout) : Decidable t.FitsWords :=
  inferInstanceAs (Decidable (_ ∧ _))

/-- The propositions of the layout: its fluents at all steps, its operators at all but the last. -/
def Has (t : Layout) : Proposition → Prop
  | .fluent f s => f < t.nFluents ∧ s ≤ t.horizon
  | .operator o s => o < t.nOperators ∧ s < t.horizon

/-- The number of a proposition, one more than the number of propositions in front of it. -/
def number (t : Layout) : Proposition → Nat
  | .fluent f s => s * t.nFluents + f + 1
  | .operator o s => t.nStateVars + s * t.nOperators + o + 1

/-- The proposition that has this number. -/
def proposition? (t : Layout) : Nat → Option Proposition
  | 0 => none
  | index + 1 =>
    if index < t.nStateVars then some (.fluent (index % t.nFluents) (index / t.nFluents))
    else if index < t.nVars then
      let action := index - t.nStateVars
      some (.operator (action % t.nOperators) (action / t.nOperators))
    else none

variable {t : Layout} {q : Proposition} {v : Variable} {n : Nat}

/-! ### Numbers of propositions -/

/-- The place of a column in a row lies within all rows up to that one. -/
theorem index_lt {row rows column columns : Nat} (hrow : row < rows) (hcolumn : column < columns) :
    row * columns + column < columns * rows := by
  calc row * columns + column < row * columns + columns := by omega
    _ = columns * (row + 1) := by ring
    _ ≤ columns * rows := Nat.mul_le_mul_left _ hrow

/-- A place determines its column and its row. -/
theorem index_mod_div (row : Nat) {column columns : Nat} (hcolumn : column < columns) :
    (row * columns + column) % columns = column ∧ (row * columns + column) / columns = row := by
  have hpos : 0 < columns := by omega
  rw [Nat.add_comm, Nat.add_mul_mod_self_right, Nat.add_mul_div_right _ _ hpos,
    Nat.mod_eq_of_lt hcolumn, Nat.div_eq_of_lt hcolumn, Nat.zero_add]
  exact ⟨rfl, rfl⟩

/-- The number of a proposition gives it back. -/
theorem proposition?_number (hq : t.Has q) : t.proposition? (t.number q) = some q := by
  cases q with
  | fluent f s =>
    have hindex : s * t.nFluents + f < t.nStateVars := index_lt (Nat.lt_succ_of_le hq.2) hq.1
    obtain ⟨hmod, hdiv⟩ := index_mod_div s hq.1
    simp [number, proposition?, hindex, hmod, hdiv]
  | operator o s =>
    have hindex : s * t.nOperators + o < t.nOperators * t.horizon := index_lt hq.2 hq.1
    obtain ⟨hmod, hdiv⟩ := index_mod_div s hq.1
    have hstate : ¬ t.nStateVars + s * t.nOperators + o < t.nStateVars := by omega
    have hvars : t.nStateVars + s * t.nOperators + o < t.nVars := by
      unfold nVars
      omega
    have hsub : t.nStateVars + s * t.nOperators + o - t.nStateVars = s * t.nOperators + o := by
      omega
    simp [number, proposition?, hstate, hvars, hsub, hmod, hdiv]

/-- The proposition of a number has this number. -/
theorem has_and_number_of_proposition? (h : t.proposition? n = some q) :
    t.Has q ∧ t.number q = n := by
  obtain ⟨index, rfl⟩ : ∃ index, n = index + 1 := by
    cases n with
    | zero => cases h
    | succ index => exact ⟨index, rfl⟩
  simp only [proposition?] at h
  split at h
  · next hstate =>
    cases h
    have hfluents : 0 < t.nFluents := Nat.pos_of_mul_pos_right (Nat.zero_lt_of_lt hstate)
    have hstep : index / t.nFluents < t.horizon + 1 := Nat.div_lt_of_lt_mul hstate
    have hindex : index / t.nFluents * t.nFluents + index % t.nFluents = index := by
      rw [Nat.mul_comm]
      exact Nat.div_add_mod _ _
    exact ⟨⟨Nat.mod_lt _ hfluents, Nat.le_of_lt_succ hstep⟩, by rw [number, hindex]⟩
  · split at h
    · next hstate hvars =>
      cases h
      have haction : index - t.nStateVars < t.nOperators * t.horizon := by
        unfold nVars at hvars
        omega
      have hoperators : 0 < t.nOperators := Nat.pos_of_mul_pos_right (Nat.zero_lt_of_lt haction)
      have hstep : (index - t.nStateVars) / t.nOperators < t.horizon := Nat.div_lt_of_lt_mul haction
      have hindex : t.nStateVars + (index - t.nStateVars) / t.nOperators * t.nOperators +
          (index - t.nStateVars) % t.nOperators = index := by
        rw [Nat.add_assoc, Nat.mul_comm, Nat.div_add_mod]
        omega
      exact ⟨⟨Nat.mod_lt _ hoperators, hstep⟩, by rw [number, hindex]⟩
    · cases h

/-- A number stands for something exactly when it is positive and not beyond the number of
variables. -/
theorem isSome_proposition?_iff : (t.proposition? n).isSome = true ↔ 0 < n ∧ n ≤ t.nVars := by
  cases n with
  | zero => simp [proposition?]
  | succ index =>
    have hstate : t.nStateVars ≤ t.nVars := Nat.le_add_right _ _
    simp only [proposition?]
    split
    · simp only [Option.isSome_some, true_iff]
      omega
    · split
      · simp only [Option.isSome_some, true_iff]
        omega
      · simp only [Option.isSome_none, Bool.false_eq_true, false_iff]
        omega

/-- The numbers of propositions are the numbers of variables. -/
theorem number_pos_and_le_nVars (hq : t.Has q) : 0 < t.number q ∧ t.number q ≤ t.nVars :=
  isSome_proposition?_iff.mp (Option.isSome_iff_exists.mpr ⟨q, proposition?_number hq⟩)

/-! ### Numbers that are words -/

/-- The number of variables for fluents is known exactly when it and that of the layers are
words. -/
theorem stateVarCount_eq_ok_iff :
    t.stateVarCount = .ok n ↔
      t.horizon + 1 < Word.count ∧ t.nStateVars < Word.count ∧ n = t.nStateVars := by
  simp [stateVarCount, bind_eq_ok_iff, Word.mul_eq_ok_iff, Word.add_eq_ok_iff,
    nStateVars, and_assoc]

/-- The number of variables is known exactly when the layout is counted by words. -/
theorem varCount_eq_ok_iff : t.varCount = .ok n ↔ t.Counted ∧ n = t.nVars := by
  simp only [varCount, bind_eq_ok_iff, stateVarCount_eq_ok_iff, Word.mul_eq_ok_iff,
    Word.add_eq_ok_iff]
  constructor
  · rintro ⟨states, ⟨hlayers, -, rfl⟩, actions, ⟨-, rfl⟩, hlt, rfl⟩
    exact ⟨⟨hlayers, hlt⟩, rfl⟩
  · rintro ⟨⟨hlayers, hlt⟩, rfl⟩
    have hvars : t.nStateVars + t.nOperators * t.horizon < Word.count := hlt
    exact ⟨_, ⟨hlayers, by omega, rfl⟩, _, ⟨by omega, rfl⟩, hvars, rfl⟩

/-- A variable is given by a number other than zero. -/
theorem ofNat_eq_ok_iff : Variable.ofNat n = .ok v ↔ n = v.number := by
  obtain ⟨number, hpos⟩ := v
  unfold Variable.ofNat
  split
  · simp
  · simp only [reduceCtorEq, false_iff]
    omega

/-- The variable of a proposition has its number, which is a word. -/
theorem of_variableOf (h : t.variableOf q = .ok v) :
    t.Has q ∧ v.number < Word.count ∧ v.number = t.number q := by
  cases q with
  | fluent f s =>
    rw [variableOf] at h
    split at h
    · next hhas =>
      simp only [bind_eq_ok_iff, Word.mul_eq_ok_iff, Word.add_eq_ok_iff, ofNat_eq_ok_iff] at h
      obtain ⟨_, ⟨-, rfl⟩, _, ⟨-, rfl⟩, _, ⟨hlt, rfl⟩, hnumber⟩ := h
      rw [number]
      exact ⟨hhas, by omega, by omega⟩
    · cases h
  | operator o s =>
    rw [variableOf] at h
    split at h
    · next hhas =>
      simp only [bind_eq_ok_iff, stateVarCount_eq_ok_iff, Word.mul_eq_ok_iff, Word.add_eq_ok_iff,
        ofNat_eq_ok_iff] at h
      obtain ⟨_, ⟨-, -, rfl⟩, _, ⟨-, rfl⟩, _, ⟨-, rfl⟩, _, ⟨-, rfl⟩, _, ⟨hlt, rfl⟩, hnumber⟩ := h
      rw [number]
      exact ⟨hhas, by omega, by omega⟩
    · cases h

/-- Only propositions of the layout have a variable. -/
theorem has_of_variableOf (h : t.variableOf q = .ok v) : t.Has q :=
  (of_variableOf h).1

/-- A proposition of the layout has a variable if its number is a word, and so is that of the
layers. -/
theorem variableOf_of_has (hlayers : t.horizon + 1 < Word.count) (hq : t.Has q)
    (hlt : v.number < Word.count) (hnumber : v.number = t.number q) : t.variableOf q = .ok v := by
  rw [hnumber] at hlt
  cases q with
  | fluent f s =>
    rw [Has] at hq
    rw [number] at hlt hnumber
    rw [variableOf, if_pos hq]
    simp only [bind_eq_ok_iff, Word.mul_eq_ok_iff, Word.add_eq_ok_iff, ofNat_eq_ok_iff]
    exact ⟨_, ⟨by omega, rfl⟩, _, ⟨by omega, rfl⟩, _, ⟨by omega, rfl⟩, by omega⟩
  | operator o s =>
    rw [Has] at hq
    rw [number] at hlt hnumber
    rw [variableOf, if_pos hq]
    simp only [bind_eq_ok_iff, stateVarCount_eq_ok_iff, Word.mul_eq_ok_iff, Word.add_eq_ok_iff,
      ofNat_eq_ok_iff]
    exact ⟨_, ⟨hlayers, by omega, rfl⟩, _, ⟨by omega, rfl⟩, _, ⟨by omega, rfl⟩, _, ⟨by omega, rfl⟩,
      _, ⟨by omega, rfl⟩, by omega⟩

/-- Where layers and variables are counted by words, the propositions of the layout have
variables. -/
theorem exists_variableOf_iff (hwords : t.Counted) :
    (∃ v, t.variableOf q = .ok v) ↔ t.Has q := by
  constructor
  · rintro ⟨v, hv⟩
    exact has_of_variableOf hv
  · intro hq
    obtain ⟨hpos, hle⟩ := number_pos_and_le_nVars hq
    exact ⟨⟨t.number q, hpos⟩, variableOf_of_has hwords.1 hq (Nat.lt_of_le_of_lt hle hwords.2) rfl⟩

/-- The number of variables is a signed word. -/
theorem FitsWords.lt_half (hfit : t.FitsWords) : t.nVars < Word.half :=
  hfit.2

/-- Numbers that fit into signed words are words. -/
theorem FitsWords.counted (hfit : t.FitsWords) : t.Counted :=
  ⟨hfit.1, Nat.lt_trans hfit.2 (by decide)⟩

/-- More layers than words can count are the same as none where there are no variables. -/
theorem fitsWords_or_nVars_eq_zero (h : t.nVars < Word.half) : t.FitsWords ∨ t.nVars = 0 := by
  by_cases hlayers : t.horizon + 1 < Word.count
  · exact .inl ⟨hlayers, h⟩
  · have hwords : Word.half < Word.count := by decide
    have hfluents : t.nFluents = 0 := by
      by_contra hne
      have hle : 1 * (t.horizon + 1) ≤ t.nFluents * (t.horizon + 1) :=
        Nat.mul_le_mul_right _ (Nat.pos_of_ne_zero hne)
      unfold nVars nStateVars at h
      omega
    have hoperators : t.nOperators = 0 := by
      by_contra hne
      have hle : 1 * t.horizon ≤ t.nOperators * t.horizon :=
        Nat.mul_le_mul_right _ (Nat.pos_of_ne_zero hne)
      unfold nVars at h
      omega
    exact .inr (by simp [nVars, nStateVars, hfluents, hoperators])

/-- The number of a variable gives back its proposition. -/
theorem proposition?_of_variableOf (h : t.variableOf q = .ok v) :
    t.proposition? v.number = some q := by
  obtain ⟨hq, -, hnumber⟩ := of_variableOf h
  rw [hnumber, proposition?_number hq]

/-- No variable is beyond the number of variables. -/
theorem number_le_nVars (h : t.variableOf q = .ok v) : v.number ≤ t.nVars := by
  obtain ⟨hq, -, hnumber⟩ := of_variableOf h
  rw [hnumber]
  exact (number_pos_and_le_nVars hq).2

/-- Different propositions have different variables. -/
theorem eq_of_variableOf_eq {q' : Proposition} (h : t.variableOf q = .ok v)
    (h' : t.variableOf q' = .ok v) : q = q' := by
  have hq := proposition?_of_variableOf h
  rw [proposition?_of_variableOf h', Option.some.injEq] at hq
  exact hq.symm

/-- The proposition of a word has this word as its variable. -/
theorem variableOf_of_proposition? (hlayers : t.horizon + 1 < Word.count)
    (hword : v.number < Word.count) (h : t.proposition? v.number = some q) :
    t.variableOf q = .ok v := by
  obtain ⟨hq, hnumber⟩ := has_and_number_of_proposition? h
  exact variableOf_of_has hlayers hq hword hnumber.symm

/-- Where layers and variables are counted by words, every number up to that of the variables is the
variable of a proposition. -/
theorem exists_variableOf_of_number_le (hwords : t.Counted) (h : v.number ≤ t.nVars) :
    ∃ q, t.variableOf q = .ok v := by
  obtain ⟨q, hq⟩ := Option.isSome_iff_exists.mp (isSome_proposition?_iff.mpr ⟨v.number_pos, h⟩)
  exact ⟨q, variableOf_of_proposition? hwords.1 (Nat.lt_of_le_of_lt h hwords.2) hq⟩

end HorizonPlanner.Encoding.Layout
