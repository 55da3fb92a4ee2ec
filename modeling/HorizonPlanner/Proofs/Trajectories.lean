import HorizonPlanner.Proofs.Moves

/-!
# Trajectories

The steps of a plan come in order of time, possibly with gaps. Their execution is a trajectory: a
state for every time, each with a move to the next one, where nothing is executed in a gap.
-/

namespace HorizonPlanner

namespace Plan

/-- A plan that can be built from steps. -/
def Built (plan : Plan) : Prop :=
  ∃ steps, ofSteps steps = .ok plan

/-- The times of the steps increase strictly. -/
def Chronological (steps : List PlanStep) : Prop :=
  steps.Pairwise fun a b => a.time < b.time

/-- The operators executed at a time. -/
def executedAt (steps : List PlanStep) (time : Nat) : Set Nat :=
  {i | ∃ step ∈ steps, step.time = time ∧ i ∈ step.operators}

/-- The steps before a time. -/
def before (steps : List PlanStep) (time : Nat) : List PlanStep :=
  steps.filter fun step => step.time < time

/-- The steps at a time. -/
def atTime (steps : List PlanStep) (time : Nat) : List PlanStep :=
  steps.filter fun step => step.time = time

/-! ### Steps in order of time -/

/-- The times are checked to increase from each step to all later ones. -/
theorem increasing_iff {steps : List PlanStep} : increasing steps = true ↔ Chronological steps := by
  induction steps with
  | nil => simp [increasing, Chronological]
  | cons a rest ih =>
    cases rest with
    | nil => simp [increasing, Chronological]
    | cons b rest =>
      rw [increasing, Bool.and_eq_true, decide_eq_true_eq, ih, Chronological, Chronological,
        List.pairwise_cons (a := a)]
      refine and_congr_left fun hrest => ⟨fun hab c hc => ?_, fun h => h b (by simp)⟩
      rcases List.mem_cons.mp hc with rfl | hc
      · exact hab
      · exact Nat.lt_trans hab ((List.pairwise_cons.mp hrest).1 c hc)

/-- The plans that can be built are those whose steps are in order and not empty. -/
theorem built_iff {plan : Plan} :
    plan.Built ↔ Chronological plan.steps ∧ ∀ step ∈ plan.steps, step.operators ≠ [] := by
  constructor
  · rintro ⟨steps, h⟩
    unfold ofSteps at h
    simp only at h
    split at h
    · next hincreasing =>
      cases h
      refine ⟨increasing_iff.mp hincreasing, fun step hstep => ?_⟩
      simpa using (List.mem_filter.mp hstep).2
    · cases h
  · rintro ⟨hchron, hne⟩
    refine ⟨plan.steps, ?_⟩
    have hkept : plan.steps.filter (fun s => !s.operators.isEmpty) = plan.steps := by
      refine List.filter_eq_self.mpr fun step hstep => ?_
      simpa using hne step hstep
    unfold ofSteps
    simp only [hkept]
    rw [if_pos (increasing_iff.mpr hchron)]

/-- There are no two steps at one time. -/
theorem Chronological.eq_of_time_eq {steps : List PlanStep} (h : Chronological steps)
    {a b : PlanStep} (ha : a ∈ steps) (hb : b ∈ steps) (htime : a.time = b.time) : a = b :=
  eq_of_increasing h ha hb htime

/-- Steps in order of time are determined by which they are. -/
theorem Chronological.eq_of_mem_iff {xs ys : List PlanStep} (hxs : Chronological xs)
    (hys : Chronological ys) (h : ∀ step, step ∈ xs ↔ step ∈ ys) : xs = ys :=
  eq_of_increasing_of_mem_iff hxs hys h

/-- The steps before the next time are those before a time and those at it. -/
theorem Chronological.before_succ {steps : List PlanStep} (h : Chronological steps) (time : Nat) :
    before steps (time + 1) = before steps time ++ atTime steps time := by
  unfold before atTime
  induction steps with
  | nil => rfl
  | cons a rest ih =>
    obtain ⟨hhead, hrest⟩ := List.pairwise_cons.mp h
    rcases Nat.lt_or_ge a.time time with hlt | hge
    · have hsucc : a.time < time + 1 := by omega
      have hne : a.time ≠ time := by omega
      rw [List.filter_cons, List.filter_cons, List.filter_cons, if_pos (decide_eq_true hsucc),
        if_pos (decide_eq_true hlt), if_neg (by simpa using hne), ih hrest, List.cons_append]
    · -- From here on no step is before this time.
      have hle : ∀ b ∈ a :: rest, time ≤ b.time := by
        refine List.forall_mem_cons.mpr ⟨hge, fun b hb => ?_⟩
        have := hhead b hb
        omega
      have hnone : (a :: rest).filter (fun step => decide (step.time < time)) = [] := by
        refine List.filter_eq_nil_iff.mpr fun b hb => ?_
        have := hle b hb
        rw [decide_eq_true_iff]
        omega
      rw [hnone, List.nil_append]
      refine List.filter_congr fun b hb => ?_
      have := hle b hb
      rw [decide_eq_decide]
      omega

/-- There is at most one step at a time. -/
theorem Chronological.atTime_eq {steps : List PlanStep} (h : Chronological steps) (time : Nat) :
    atTime steps time = [] ∨ ∃ step, atTime steps time = [step] := by
  have hpairwise : (atTime steps time).Pairwise fun a b => a.time < b.time := h.filter _
  have htime : ∀ step ∈ atTime steps time, step.time = time := fun step hstep => by
    simpa using (List.mem_filter.mp hstep).2
  match hat : atTime steps time with
  | [] => exact .inl rfl
  | [step] => exact .inr ⟨step, rfl⟩
  | a :: b :: rest =>
    rw [hat] at hpairwise htime
    have hab := (List.pairwise_cons.mp hpairwise).1 b (by simp)
    have ha := htime a (by simp)
    have hb := htime b (by simp)
    omega

/-! ### Execution -/

/-- A plan is executed by its first step and then the others. -/
theorem execute_cons_eq_ok {p : Problem} {step : PlanStep} {rest : List PlanStep} {s u : State} :
    execute p (step :: rest) s = .ok u ↔
      ∃ t, executeStep p step s = .ok t ∧ execute p rest t = .ok u := by
  rw [execute]
  cases executeStep p step s <;> simp

/-- A list of steps is executed by executing its two parts one after the other. -/
theorem execute_append_eq_ok {p : Problem} {xs ys : List PlanStep} {s u : State} :
    execute p (xs ++ ys) s = .ok u ↔ ∃ t, execute p xs s = .ok t ∧ execute p ys t = .ok u := by
  induction xs generalizing s with
  | nil => simp [execute]
  | cons step rest ih =>
    simp only [List.cons_append, execute_cons_eq_ok, ih]
    constructor
    · rintro ⟨v, hv, t, ht, hu⟩
      exact ⟨t, ⟨v, hv, ht⟩, hu⟩
    · rintro ⟨t, ⟨v, hv, ht⟩, hu⟩
      exact ⟨v, hv, t, ht, hu⟩

/-- A plan of one step is executed by this step. -/
theorem execute_singleton {p : Problem} {step : PlanStep} {s t : State} :
    execute p [step] s = .ok t ↔ executeStep p step s = .ok t := by
  rw [execute_cons_eq_ok]
  simp [execute]

end Plan

namespace Problem

open Plan

variable {p : Problem} {steps : List PlanStep} {s t : State}

/-- Executing what a plan has at a time is the move with the operators of that time. -/
theorem WellFormed.execute_atTime_iff (hp : p.WellFormed) (hsteps : Chronological steps)
    (hs : s.size = p.nFluents) {time : Nat} :
    execute p (atTime steps time) s = .ok t ↔ p.Moves (executedAt steps time) s t := by
  have hmem : executedAt steps time = {i | ∃ step ∈ atTime steps time, i ∈ step.operators} := by
    ext i
    simp [executedAt, atTime, and_assoc]
  rcases hsteps.atTime_eq time with hnil | ⟨step, hstep⟩
  · have hempty : executedAt steps time = ∅ := by simp [hmem, hnil]
    rw [hnil, hempty, moves_empty_iff hs, execute, Except.ok.injEq]
  · have hoperators : executedAt steps time = {i | i ∈ step.operators} := by simp [hmem, hstep]
    rw [hstep, hoperators, execute_singleton, hp.executeStep_iff hs]

/-- A sequence of states, each with a move to the next one by the operators of its time. -/
structure Trajectory (p : Problem) (steps : List PlanStep) (horizon : Nat) (σ : Nat → State) :
    Prop where
  /-- The first state gives a value to every fluent. -/
  size_zero : (σ 0).size = p.nFluents
  /-- Every state leads to the next one. -/
  moves : ∀ time < horizon, p.Moves (executedAt steps time) (σ time) (σ (time + 1))

namespace Trajectory

variable {horizon : Nat} {σ : Nat → State}

/-- Every state of a trajectory has a value for each fluent. -/
theorem size_eq (h : p.Trajectory steps horizon σ) {time : Nat} (htime : time ≤ horizon) :
    (σ time).size = p.nFluents := by
  cases time with
  | zero => exact h.size_zero
  | succ time => exact (h.moves time htime).size_eq

/-- The steps before a time lead to the state of that time. -/
theorem execute_before (h : p.Trajectory steps horizon σ) (hp : p.WellFormed)
    (hsteps : Chronological steps) {time : Nat} (htime : time ≤ horizon) :
    execute p (before steps time) (σ 0) = .ok (σ time) := by
  induction time with
  | zero => simp [before, execute]
  | succ time ih =>
    rw [hsteps.before_succ, execute_append_eq_ok]
    refine ⟨σ time, ih (Nat.le_of_succ_le htime), ?_⟩
    rw [hp.execute_atTime_iff hsteps (h.size_eq (Nat.le_of_succ_le htime))]
    exact h.moves time htime

end Trajectory

/-- Steps that can be executed have a trajectory. -/
theorem WellFormed.exists_trajectory (hp : p.WellFormed) (hsteps : Chronological steps)
    (hs : s.size = p.nFluents) {time : Nat} (h : execute p (before steps time) s = .ok t) :
    ∃ σ, p.Trajectory steps time σ ∧ σ 0 = s ∧ σ time = t := by
  induction time generalizing t with
  | zero =>
    have hst : s = t := by simpa [before, execute] using h
    exact ⟨fun _ => s, ⟨hs, by simp⟩, rfl, hst⟩
  | succ time ih =>
    rw [hsteps.before_succ, execute_append_eq_ok] at h
    obtain ⟨u, hu, ht⟩ := h
    obtain ⟨σ, hσ, hzero, htime⟩ := ih hu
    have husize : u.size = p.nFluents := htime ▸ hσ.size_eq le_rfl
    rw [hp.execute_atTime_iff hsteps husize] at ht
    refine ⟨fun v => if v ≤ time then σ v else t, ⟨by simpa using hσ.size_zero, ?_⟩, by simpa,
      by simp⟩
    intro v hv
    rcases Nat.lt_or_ge v time with hlt | hge
    · simpa [hlt, Nat.le_of_lt hlt, Nat.succ_le_of_lt hlt] using hσ.moves v hlt
    · obtain rfl : v = time := by omega
      simpa [htime, Nat.not_succ_le_self] using ht

/-- Steps are executed along a trajectory through all times of a horizon that contains them. -/
theorem WellFormed.execute_iff_trajectory (hp : p.WellFormed) (hsteps : Chronological steps)
    (hs : s.size = p.nFluents) {horizon : Nat} (htime : ∀ step ∈ steps, step.time < horizon) :
    execute p steps s = .ok t ↔
      ∃ σ, p.Trajectory steps horizon σ ∧ σ 0 = s ∧ σ horizon = t := by
  have hbefore : before steps horizon = steps := by simpa [before] using htime
  constructor
  · intro h
    exact hp.exists_trajectory hsteps hs (by rwa [hbefore])
  · rintro ⟨σ, hσ, rfl, rfl⟩
    rw [← hσ.execute_before hp hsteps le_rfl, hbefore]

end Problem

end HorizonPlanner
