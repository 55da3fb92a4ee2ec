import HorizonPlanner.Proofs.Trajectories

/-!
# Plans that solve a problem

A plan solves a problem when the validation accepts it, and it fits a horizon when moreover all its
steps come before the horizon. A plan fits a horizon exactly when there is a trajectory of that
length from the initial state to the goal.
-/

namespace HorizonPlanner

/-- The validation accepts the plan. -/
def Plan.Solves (plan : Plan) (p : Problem) : Prop :=
  ∃ s, plan.validate p = .ok s

/-- A plan that solves the problem before the horizon. -/
structure Plan.Fits (plan : Plan) (p : Problem) (horizon : Nat) : Prop where
  /-- The plan can be built. -/
  built : plan.Built
  /-- The validation accepts the plan. -/
  solves : plan.Solves p
  /-- All steps come before the horizon. -/
  time_lt : ∀ step ∈ plan.steps, step.time < horizon

/-- Some plan fits the horizon. -/
def Problem.SolvableWithin (p : Problem) (horizon : Nat) : Prop :=
  ∃ plan : Plan, plan.Fits p horizon

namespace Plan

variable {plan : Plan} {p : Problem} {horizon : Nat}

/-- A plan that fits a horizon fits every larger one. -/
theorem Fits.mono (h : plan.Fits p horizon) {larger : Nat} (hle : horizon ≤ larger) :
    plan.Fits p larger :=
  ⟨h.built, h.solves, fun step hstep => Nat.lt_of_lt_of_le (h.time_lt step hstep) hle⟩

/-- The validation accepts a plan that can be executed and ends in the goal. -/
theorem validate_eq_ok {s : State} :
    plan.validate p = .ok s ↔ execute p plan.steps p.initial = .ok s ∧ p.goalHolds s = true := by
  unfold validate
  cases execute p plan.steps p.initial with
  | error fault => simp
  | ok t =>
    simp only [Except.ok.injEq]
    cases hfind : p.goal.find? fun c => !c.holds t with
    | some c =>
      have hc := List.find?_some hfind
      have hmem := List.mem_of_find?_eq_some hfind
      simp only [reduceCtorEq, false_iff]
      rintro ⟨rfl, hgoal⟩
      simp [List.all_eq_true.mp hgoal c hmem] at hc
    | none =>
      simp only [Except.ok.injEq]
      refine ⟨?_, fun h => h.1⟩
      rintro rfl
      exact ⟨rfl, by simpa [Problem.goalHolds] using hfind⟩

/-- A plan in order of time solves a problem along a trajectory to the goal. -/
theorem solves_iff_trajectory (hp : p.WellFormed) (hplan : Chronological plan.steps)
    (htime : ∀ step ∈ plan.steps, step.time < horizon) :
    plan.Solves p ↔ ∃ σ, p.Trajectory plan.steps horizon σ ∧ σ 0 = p.initial ∧
      p.goalHolds (σ horizon) = true := by
  simp only [Solves, validate_eq_ok,
    hp.execute_iff_trajectory hplan hp.initial_size htime]
  constructor
  · rintro ⟨_, ⟨σ, hσ, hzero, rfl⟩, hgoal⟩
    exact ⟨σ, hσ, hzero, hgoal⟩
  · rintro ⟨σ, hσ, hzero, hgoal⟩
    exact ⟨σ horizon, ⟨σ, hσ, hzero, rfl⟩, hgoal⟩

end Plan

/-- A plan that fits a horizon fits every larger one. -/
theorem Problem.SolvableWithin.mono {p : Problem} {horizon larger : Nat}
    (h : p.SolvableWithin horizon) (hle : horizon ≤ larger) : p.SolvableWithin larger := by
  obtain ⟨plan, hplan⟩ := h
  exact ⟨plan, hplan.mono hle⟩

/-- A horizon without steps suffices exactly when the goal holds from the beginning. -/
theorem Problem.solvableWithin_zero_iff {p : Problem} :
    p.SolvableWithin 0 ↔ p.goalHolds p.initial = true := by
  constructor
  · rintro ⟨⟨steps⟩, hplan⟩
    obtain rfl : steps = [] := List.eq_nil_iff_forall_not_mem.mpr fun step hstep =>
      Nat.not_lt_zero _ (hplan.time_lt step hstep)
    obtain ⟨s, hs⟩ := hplan.solves
    obtain ⟨hexecute, hgoal⟩ := Plan.validate_eq_ok.mp hs
    cases hexecute
    exact hgoal
  · intro hgoal
    exact ⟨⟨[]⟩, ⟨[], rfl⟩, ⟨p.initial, Plan.validate_eq_ok.mpr ⟨rfl, hgoal⟩⟩, by simp⟩

/-! ### A lamp in the next room -/

/-- A lamp whose switch is in the next room: one has to walk there and is then no longer here. -/
def Problem.lamp : Problem :=
  afterEdits (.ofList ["here", "there", "lit"])
    [.operator "walk" [("here", true)] [("here", false), ("there", true)],
      .operator "switch" [("there", true)] [("lit", true)], .initiallyTrue "here",
      .goal "lit" true]

/-- The plan that walks to the next room and uses the switch there. -/
def Plan.ofLamp : Plan := ⟨[⟨0, [0]⟩, ⟨1, [1]⟩]⟩

/-- The lamp is a problem that was built. -/
theorem Problem.lamp_built : lamp.Built := ⟨_, _, rfl⟩

/-- The plan for the lamp fits two steps. -/
theorem Plan.ofLamp_fits : ofLamp.Fits .lamp 2 :=
  ⟨⟨ofLamp.steps, rfl⟩, ⟨#[false, true, true], rfl⟩, by decide⟩

end HorizonPlanner
