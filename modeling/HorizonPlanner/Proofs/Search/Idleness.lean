import HorizonPlanner.Proofs.Search.Correctness
import HorizonPlanner.Proofs.Shortening
import Mathlib.Data.List.Sort

/-!
# Plans without idle steps

A plan with an idle time can be executed without it, one step earlier. Where no plan fits the
horizon before, a plan therefore has a step at every time, and this is the case for the plans a
search finds beyond its minimal horizon.
-/

namespace HorizonPlanner

namespace Plan

variable {plan : Plan} {p : Problem} {steps : List PlanStep} {horizon : Nat}

/-- Steps in order of time that are as many as the times before a horizon take up all of these. -/
theorem Chronological.times_eq_range (h : Chronological steps)
    (htime : ∀ step ∈ steps, step.time < horizon) (hlength : horizon ≤ steps.length) :
    steps.map (·.time) = List.range horizon := by
  have hsorted : (steps.map (·.time)).Pairwise (· < ·) := List.pairwise_map.mpr h
  have hsub : steps.map (·.time) ⊆ List.range horizon := by
    intro time hmem
    obtain ⟨step, hstep, rfl⟩ := List.mem_map.mp hmem
    exact List.mem_range.mpr (htime step hstep)
  have hsubperm : (steps.map (·.time)).Subperm (List.range horizon) :=
    List.subperm_of_subset (hsorted.imp Nat.ne_of_lt) hsub
  have hperm : (steps.map (·.time)).Perm (List.range horizon) :=
    hsubperm.perm_of_length_le (by simpa using hlength)
  exact hperm.eq_of_pairwise (fun a b _ _ hab hba => absurd hab (Nat.lt_asymm hba)) hsorted
    List.pairwise_lt_range

/-- If no plan fits the horizon before, a plan has a step at every time. -/
theorem Fits.times_eq_range (h : plan.Fits p horizon) (hnone : ¬ p.SolvableWithin (horizon - 1)) :
    plan.steps.map (·.time) = List.range horizon := by
  refine (built_iff.mp h.built).1.times_eq_range h.time_lt ?_
  by_contra hfewer
  exact hnone ⟨_, h.retime.mono (Nat.le_sub_one_of_lt (Nat.lt_of_not_le hfewer))⟩

end Plan

namespace Search

variable {σ : Type} {s : Surroundings (StateM σ)} {p : Problem} {c : Config} {w w' : σ}

/-- The lamp is not lit at the beginning. -/
theorem not_solvableWithin_zero_lamp : ¬ Problem.lamp.SolvableWithin 0 := by
  rw [Problem.solvableWithin_zero_iff]
  decide

end Search

end HorizonPlanner
