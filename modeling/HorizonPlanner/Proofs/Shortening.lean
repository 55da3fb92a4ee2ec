import HorizonPlanner.Proofs.Solutions
import Mathlib.Data.Fintype.BigOperators
import Mathlib.Data.Fintype.Pigeonhole

/-!
# Short plans

The steps of a plan are executed in their order, whatever their times are. A plan with as many steps
as there are states passes through some state twice, and does as well without the steps between. A
problem that has a plan at all therefore has one with fewer steps than there are states, at the
times `0, 1, 2, …`.
-/

namespace HorizonPlanner

namespace Plan

variable {p : Problem} {xs ys : List PlanStep} {s t : State}

/-- The result of a step depends on its operators only. -/
theorem executeStep_congr {a b : PlanStep} (h : a.operators = b.operators)
    (ha : executeStep p a s = .ok t) : executeStep p b s = .ok t := by
  rw [executeStep_eq_ok] at ha ⊢
  rwa [PlanStep.resolve, ← h]

/-- The times of the steps do not matter for the execution. -/
theorem execute_congr (h : xs.map (·.operators) = ys.map (·.operators))
    (hxs : execute p xs s = .ok t) : execute p ys s = .ok t := by
  induction xs generalizing ys s with
  | nil =>
    obtain rfl : ys = [] := by simpa using h.symm
    exact hxs
  | cons a rest ih =>
    cases ys with
    | nil => simp at h
    | cons b others =>
      rw [List.map_cons, List.map_cons, List.cons.injEq] at h
      obtain ⟨u, ha, hrest⟩ := execute_cons_eq_ok.mp hxs
      exact execute_cons_eq_ok.mpr ⟨u, executeStep_congr h.1 ha, ih h.2 hrest⟩

/-- The steps at the times `0, 1, 2, …`. -/
def retime (steps : List PlanStep) : List PlanStep :=
  steps.zipIdx.map fun e => ⟨e.2, e.1.operators⟩

private theorem operators_retime (steps : List PlanStep) :
    (retime steps).map (·.operators) = steps.map (·.operators) := by
  calc (retime steps).map (·.operators)
      = (steps.zipIdx.map Prod.fst).map (·.operators) := by
        rw [retime, List.map_map, List.map_map]
        rfl
    _ = steps.map (·.operators) := by rw [List.zipIdx_map_fst]

private theorem times_retime (steps : List PlanStep) :
    (retime steps).map (·.time) = List.range' 0 steps.length := by
  rw [retime, List.map_map, ← List.zipIdx_map_snd]
  rfl

/-- Retimed steps are in order of time and come before their number. -/
theorem built_retime {steps : List PlanStep} (h : ∀ step ∈ steps, step.operators ≠ []) :
    Built ⟨retime steps⟩ ∧ ∀ step ∈ retime steps, step.time < steps.length := by
  refine ⟨built_iff.mpr ⟨?_, fun step hstep => ?_⟩, fun step hstep => ?_⟩
  · have htimes : ((retime steps).map (·.time)).Pairwise (· < ·) := by
      rw [times_retime]
      exact List.pairwise_lt_range'
    exact List.pairwise_map.mp htimes
  · have hmem : step.operators ∈ (retime steps).map (·.operators) := List.mem_map_of_mem hstep
    rw [operators_retime] at hmem
    obtain ⟨other, hother, heq⟩ := List.mem_map.mp hmem
    exact heq ▸ h other hother
  · have hmem : step.time ∈ (retime steps).map (·.time) := List.mem_map_of_mem hstep
    rw [times_retime, List.mem_range'_1] at hmem
    omega

/-- Steps that lead from the initial state to the goal do so at the times `0, 1, 2, …` as well. -/
theorem fits_retime {steps : List PlanStep} (hne : ∀ step ∈ steps, step.operators ≠ [])
    (hexecute : execute p steps p.initial = .ok s) (hgoal : p.goalHolds s = true) :
    Fits ⟨retime steps⟩ p steps.length := by
  obtain ⟨hbuilt, htime⟩ := built_retime hne
  refine ⟨hbuilt, ⟨s, validate_eq_ok.mpr ⟨?_, hgoal⟩⟩, htime⟩
  exact execute_congr (operators_retime steps).symm hexecute

/-- A plan without its idle times fits the number of its steps. -/
theorem Fits.retime {plan : Plan} {horizon : Nat} (h : plan.Fits p horizon) :
    Fits ⟨Plan.retime plan.steps⟩ p plan.length := by
  obtain ⟨s, hs⟩ := h.solves
  obtain ⟨hexecute, hgoal⟩ := validate_eq_ok.mp hs
  exact fits_retime (built_iff.mp h.built).2 hexecute hgoal

end Plan

namespace Problem

open Plan

variable {p : Problem} {steps : List PlanStep} {s t : State}

/-- A step leads from a state of the fluents to another one. -/
theorem WellFormed.size_execute (hp : p.WellFormed) (hs : s.size = p.nFluents)
    (h : execute p steps s = .ok t) : t.size = p.nFluents := by
  induction steps generalizing s with
  | nil =>
    cases h
    exact hs
  | cons step rest ih =>
    obtain ⟨u, hstep, hrest⟩ := execute_cons_eq_ok.mp h
    rw [hp.executeStep_iff hs] at hstep
    exact ih hstep.size_eq hrest

/-- A state of `n` fluents as a function. -/
def valuesOf (n : Nat) (s : State) : Fin n → Bool := fun f => s[f.val]? == some true

private theorem valuesOf_injective {n : Nat} (hs : s.size = n) (ht : t.size = n)
    (h : valuesOf n s = valuesOf n t) : s = t := by
  refine Array.ext (hs.trans ht.symm) fun f hf hf' => ?_
  have hvalue := congrFun h ⟨f, hs ▸ hf⟩
  simpa [valuesOf, hf, hf'] using hvalue

/-- Steps that are at least as many as the states pass through some state twice. -/
theorem WellFormed.exists_loop (hp : p.WellFormed) (hs : s.size = p.nFluents)
    (h : execute p steps s = .ok t) (hlength : 2 ^ p.nFluents ≤ steps.length) :
    ∃ i j u, i < j ∧ j ≤ steps.length ∧ execute p (steps.take i) s = .ok u ∧
      execute p (steps.take j) s = .ok u := by
  have hprefix : ∀ i, ∃ u, execute p (steps.take i) s = .ok u := by
    intro i
    rw [← List.take_append_drop i steps, execute_append_eq_ok] at h
    obtain ⟨u, hu, -⟩ := h
    exact ⟨u, hu⟩
  choose state hstate using hprefix
  have hcard : Fintype.card (Fin p.nFluents → Bool) < Fintype.card (Fin (steps.length + 1)) := by
    rw [Fintype.card_fun, Fintype.card_bool, Fintype.card_fin, Fintype.card_fin]
    exact Nat.lt_succ_of_le hlength
  obtain ⟨i, j, hne, heq⟩ := Fintype.exists_ne_map_eq_of_card_lt
    (fun i : Fin (steps.length + 1) => valuesOf p.nFluents (state i)) hcard
  have hsame : state i = state j :=
    valuesOf_injective (hp.size_execute hs (hstate i)) (hp.size_execute hs (hstate j)) heq
  rcases Nat.lt_or_gt_of_ne (Fin.val_ne_of_ne hne) with hlt | hlt
  · exact ⟨i, j, state i, hlt, Nat.le_of_lt_succ j.isLt, hstate i, hsame ▸ hstate j⟩
  · exact ⟨j, i, state i, hlt, Nat.le_of_lt_succ i.isLt, hsame ▸ hstate j, hstate i⟩

/-- Some of the steps, fewer than there are states, lead to the same state. -/
theorem WellFormed.exists_short (hp : p.WellFormed) (hs : s.size = p.nFluents)
    (h : execute p steps s = .ok t) :
    ∃ short, (∀ step ∈ short, step ∈ steps) ∧ short.length < 2 ^ p.nFluents ∧
      execute p short s = .ok t := by
  induction hn : steps.length using Nat.strong_induction_on generalizing steps with
  | h n ih =>
    by_cases hlength : steps.length < 2 ^ p.nFluents
    · exact ⟨steps, fun _ h => h, hlength, h⟩
    · -- Without the loop there are fewer steps.
      obtain ⟨i, j, u, hij, hj, hi, hloop⟩ := hp.exists_loop hs h (Nat.le_of_not_lt hlength)
      rw [← List.take_append_drop j steps, execute_append_eq_ok] at h
      obtain ⟨u', hu', hdrop⟩ := h
      rw [hloop, Except.ok.injEq] at hu'
      subst hu'
      have hcut : execute p (steps.take i ++ steps.drop j) s = .ok t :=
        execute_append_eq_ok.mpr ⟨u, hi, hdrop⟩
      have hfewer : (steps.take i ++ steps.drop j).length < n := by
        rw [List.length_append, List.length_take, List.length_drop]
        omega
      obtain ⟨short, hsub, hshort, hexecute⟩ := ih _ hfewer hcut rfl
      refine ⟨short, fun step hstep => ?_, hshort, hexecute⟩
      rcases List.mem_append.mp (hsub step hstep) with hmem | hmem
      · exact List.mem_of_mem_take hmem
      · exact List.mem_of_mem_drop hmem

/-- A problem with a plan has one that fits the number of states other than the first. -/
theorem WellFormed.solvableWithin (hp : p.WellFormed) {plan : Plan} (hplan : plan.Built)
    (hsolves : plan.Solves p) : p.SolvableWithin (2 ^ p.nFluents - 1) := by
  obtain ⟨s, hs⟩ := hsolves
  obtain ⟨hexecute, hgoal⟩ := validate_eq_ok.mp hs
  obtain ⟨short, hsub, hshort, hexecute⟩ := hp.exists_short hp.initial_size hexecute
  have hne : ∀ step ∈ short, step.operators ≠ [] := fun step hstep =>
    (built_iff.mp hplan).2 step (hsub step hstep)
  exact ⟨_, (fits_retime hne hexecute hgoal).mono (by omega)⟩

end Problem

end HorizonPlanner
