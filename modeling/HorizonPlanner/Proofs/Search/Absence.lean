import HorizonPlanner.Proofs.Search.Correctness
import HorizonPlanner.Proofs.Shortening

/-!
# Proofs of absence

A search that has excluded all plans up to a horizon with as many steps as there are further states
has excluded all plans. The flag of its outcome says exactly that.
-/

namespace HorizonPlanner.Search

open HorizonPlanner.Sat

/-- The comparison of words is that of the numbers, for every number of fluents. -/
theorem provesAbsence_iff {nFluents maxHorizon : Nat} (hmax : maxHorizon < 2 ^ 64) :
    provesAbsence nFluents maxHorizon = true ↔ 2 ^ nFluents ≤ maxHorizon + 1 := by
  have hwords : (2 : Nat) ^ 64 < 2 ^ 128 := by decide
  rw [provesAbsence, Bool.and_eq_true, decide_eq_true_iff, decide_eq_true_iff]
  by_cases hn : nFluents < 128
  · have hpow : 2 ^ nFluents < 2 ^ 128 := Nat.pow_lt_pow_right (by decide) hn
    have hone : (1#128).toNat = 1 := rfl
    have hstates : (1#128 <<< nFluents).toNat = 2 ^ nFluents := by
      rw [BitVec.toNat_shiftLeft, Nat.shiftLeft_eq, hone, Nat.one_mul, Nat.mod_eq_of_lt hpow]
    have hbound : (BitVec.ofNat 128 maxHorizon + 1#128).toNat = maxHorizon + 1 := by
      have hlt : maxHorizon < 2 ^ 128 := Nat.lt_trans hmax hwords
      rw [BitVec.toNat_add, BitVec.toNat_ofNat, hone, Nat.mod_eq_of_lt hlt]
      exact Nat.mod_eq_of_lt (by omega)
    rw [and_iff_right hn, BitVec.le_def, hstates, hbound]
  · -- From 128 fluents on there are more states than a bound of 64 bits can reach.
    have hpow : 2 ^ 128 ≤ 2 ^ nFluents :=
      Nat.pow_le_pow_right (by decide) (Nat.le_of_not_lt hn)
    exact ⟨fun h => absurd h.1 hn, fun h => by omega⟩

variable {σ : Type} {s : Surroundings (StateM σ)} {p : Problem} {c : Config}

/-- A problem has a plan exactly when one fits a horizon that is not smaller than the number of
states without the first. -/
theorem exists_solves_iff (hp : p.WellFormed) {maxHorizon : Nat}
    (hmax : 2 ^ p.nFluents ≤ maxHorizon + 1) :
    (∃ plan : Plan, plan.Built ∧ plan.Solves p) ↔ p.SolvableWithin maxHorizon := by
  constructor
  · rintro ⟨plan, hbuilt, hsolves⟩
    exact (hp.solvableWithin hbuilt hsolves).mono (by omega)
  · rintro ⟨plan, hplan⟩
    exact ⟨plan, hplan.built, hplan.solves⟩

end HorizonPlanner.Search
