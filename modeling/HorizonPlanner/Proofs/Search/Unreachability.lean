import HorizonPlanner.Proofs.Search.Correctness
import HorizonPlanner.Proofs.Shortening

/-!
# Goals out of reach

A condition that is an effect of no operator never becomes true: every move preserves that it does
not hold, and so does every execution. If the goal has such a condition and the initial state
violates it, then no plan is accepted, no formula has a model, and no search with a sound solver
finds a plan.
-/

namespace HorizonPlanner

open HorizonPlanner.Sat HorizonPlanner.Search

namespace Plan

variable {p : Problem} {steps : List PlanStep} {s : State} {v : Violation}

/-! ### Executions without broken conditions -/

private theorem executeStep_ne_violated {step : PlanStep}
    (h : ∀ i ∈ step.operators, i < p.nOperators) :
    executeStep p step s ≠ .error (.violated v) := by
  obtain ⟨operators, hresolve⟩ := Problem.exists_resolve_iff.mpr h
  unfold executeStep
  rw [hresolve]
  simp only
  split
  · simp
  · split <;> simp

/-- If all operators exist, then an execution breaks no calling condition. -/
theorem execute_ne_violated (h : ∀ step ∈ steps, ∀ i ∈ step.operators, i < p.nOperators) :
    execute p steps s ≠ .error (.violated v) := by
  induction steps generalizing s with
  | nil => simp [execute]
  | cons step rest ih =>
    obtain ⟨hstep, hrest⟩ := List.forall_mem_cons.mp h
    have hne : executeStep p step s ≠ .error (.violated v) := executeStep_ne_violated hstep
    unfold execute
    cases hexecute : executeStep p step s with
    | ok t => exact ih hrest
    | error fault =>
      rw [hexecute] at hne
      exact fun heq => hne (by rw [Except.error.inj heq])

/-- A plan whose operators exist is accepted or has a flaw. -/
theorem solves_or_exists_flaw {plan : Plan}
    (h : ∀ step ∈ plan.steps, ∀ i ∈ step.operators, i < p.nOperators) :
    plan.Solves p ∨ ∃ flaw, plan.validate p = .error (.failed flaw) := by
  cases hvalidate : plan.validate p with
  | ok s => exact .inl ⟨s, hvalidate⟩
  | error fault =>
    cases fault with
    | failed flaw => exact .inr ⟨flaw, rfl⟩
    | violated v =>
      have hne : execute p plan.steps p.initial ≠ .error (.violated v) := execute_ne_violated h
      unfold validate at hvalidate
      cases hexecute : execute p plan.steps p.initial with
      | error fault =>
        rw [hexecute] at hvalidate hne
        exact absurd hvalidate hne
      | ok s =>
        rw [hexecute] at hvalidate
        simp only at hvalidate
        split at hvalidate <;> cases hvalidate

end Plan

namespace Problem

open Plan

variable {p : Problem} {c : Condition} {executed : Set Nat} {steps : List PlanStep} {s t : State}
  {horizon : Nat}

/-! ### What no operator produces -/

private theorem mem_unreachableGoals :
    c ∈ p.unreachableGoals ↔
      c ∈ p.goal ∧ ¬ c.holds p.initial = true ∧ ∀ o ∈ p.operators, c ∉ o.effects := by
  simp [unreachableGoals, produces]

/-- A move makes no condition true that is an effect of no operator. -/
theorem Moves.not_holds (h : p.Moves executed s t) (hc : c.fluent < p.nFluents)
    (hnone : ∀ o ∈ p.operators, c ∉ o.effects) (hbefore : ¬ c.holds s = true) :
    ¬ c.holds t = true := by
  intro hafter
  obtain ⟨o, ho, -, heffect⟩ :=
    (forall_causes_iff h.size_eq h.achieved).mpr h.kept c hc hbefore hafter
  exact hnone o ho heffect

/-- Neither does an execution, whatever its steps are. -/
theorem WellFormed.not_holds_of_execute (hp : p.WellFormed) (hc : c.fluent < p.nFluents)
    (hnone : ∀ o ∈ p.operators, c ∉ o.effects) (hs : s.size = p.nFluents)
    (h : execute p steps s = .ok t) (hbefore : ¬ c.holds s = true) : ¬ c.holds t = true := by
  induction steps generalizing s with
  | nil =>
    cases h
    exact hbefore
  | cons step rest ih =>
    obtain ⟨u, hstep, hrest⟩ := execute_cons_eq_ok.mp h
    rw [hp.executeStep_iff hs] at hstep
    exact ih hstep.size_eq hrest (hstep.not_holds hc hnone hbefore)

/-- A goal out of reach is missed by every plan. -/
theorem WellFormed.not_solves_of_mem_unreachableGoals (hp : p.WellFormed)
    (hc : c ∈ p.unreachableGoals) (plan : Plan) : ¬ plan.Solves p := by
  obtain ⟨hgoal, hinitial, hnone⟩ := mem_unreachableGoals.mp hc
  rintro ⟨t, ht⟩
  obtain ⟨hexecute, hholds⟩ := validate_eq_ok.mp ht
  have hmissed : ¬ c.holds t = true :=
    hp.not_holds_of_execute (hp.goal.bounded c hgoal) hnone hp.initial_size hexecute hinitial
  exact hmissed (List.all_eq_true.mp hholds c hgoal)

/-! ### Searches without a model -/

variable {σ : Type} {surroundings : Surroundings (StateM σ)} {config : Config} {deadline : Nat}
  {w₀ w : σ} {records : List Attempt} {a : Assignment}

/-- A search with a sound solver comes to a model only if that satisfies the formula of its
horizon. -/
theorem exists_encode_of_reachable (hs : SoundEngine surroundings.engine)
    (h : Reachable surroundings p config deadline w₀ (.satisfiable horizon a) records w) :
    ∃ clauses, (p.layout horizon).encode p = .ok clauses ∧
      a.satisfiesAll clauses.toList = true := by
  cases h with
  | next _ hnext =>
    obtain ⟨tried, rfl, ⟨-, hstage, -⟩ | ⟨-, finding, record, hattempted, hstage, -⟩⟩ :=
      nextStage_cases hs.answers hnext
    · cases hstage
    · obtain ⟨clauses, limit, w', hencode, hsolve⟩ := hattempted.solved
      obtain ⟨cs, -, hrepresents⟩ := Encoding.Layout.represents_of_encode hencode
      have hright := hs.rightAbout hrepresents.wellFormed hsolve
      cases finding <;> simp only [Config.next] at hstage
      case satisfiable model =>
        cases hstage
        exact ⟨clauses, hencode, hright⟩
      case timedOut => cases hstage
      all_goals split at hstage <;> cases hstage

/-- A search with a sound solver finds no plan where no plan fits any horizon. -/
theorem WellFormed.run_ne_planFound (hp : p.WellFormed) (hs : SoundEngine surroundings.engine)
    (hnone : ∀ horizon, ¬ p.SolvableWithin horizon) (config : Config) (earlier : List Attempt)
    (w : σ) (horizon : Nat) (plan : Plan) :
    (((run surroundings p config).run earlier).run w).1.1 ≠ .ok (.planFound horizon plan) := by
  intro hfound
  rcases hrun : ((run surroundings p config).run earlier).run w with ⟨⟨result, records⟩, w'⟩
  rw [hrun] at hfound
  obtain rfl : result = .ok (.planFound horizon plan) := hfound
  obtain ⟨last, w₁, hreach, houtcome⟩ := exists_reachable_of_run hs.answers hrun
  rcases last with h | ⟨h, model⟩ | ⟨maxHorizon, proven⟩ | h
  · cases houtcome
  · obtain ⟨clauses, hencode, ha⟩ := exists_encode_of_reachable hs hreach
    exact hnone h (hp.solvableWithin_of_satisfiesAll hencode ha)
  · cases houtcome
  · cases houtcome

/-- The test for goals out of reach is a proof. If it names a goal, then every plan whose operators
exist has a flaw, and the formula of every horizon is unsatisfiable, however many variables it has;
it exists if these fit into words. No search with a sound solver returns a plan, whatever its
parameters are. -/
theorem Built.unsolvable_of_unreachableGoals (hp : p.Built) (hgoals : p.unreachableGoals ≠ []) :
    (∀ plan : Plan, (∀ step ∈ plan.steps, ∀ i ∈ step.operators, i < p.nOperators) →
      ∃ flaw, plan.validate p = .error (.failed flaw)) ∧
    (∀ horizon,
      (∀ clauses, (p.layout horizon).encode p = .ok clauses →
        ¬ ∃ a : Assignment, a.satisfiesAll clauses.toList = true) ∧
      ((p.layout horizon).FitsWords → ∃ clauses, (p.layout horizon).encode p = .ok clauses)) ∧
    ∀ {σ : Type} (surroundings : Surroundings (StateM σ)), SoundEngine surroundings.engine →
      ∀ config earlier w horizon plan,
        (((run surroundings p config).run earlier).run w).1.1 ≠ .ok (.planFound horizon plan) := by
  have hwf := hp.wellFormed
  obtain ⟨c, hc⟩ := List.exists_mem_of_ne_nil _ hgoals
  have hmissed : ∀ plan : Plan, ¬ plan.Solves p := hwf.not_solves_of_mem_unreachableGoals hc
  have hnone : ∀ horizon, ¬ p.SolvableWithin horizon := fun _ ⟨plan, hplan⟩ =>
    hmissed plan hplan.solves
  refine ⟨fun plan hplan => ?_, fun horizon => ⟨fun clauses hencode => ?_, hwf.exists_encode⟩,
    fun surroundings hs => hwf.run_ne_planFound hs hnone⟩
  · exact (solves_or_exists_flaw hplan).resolve_left (hmissed plan)
  · rintro ⟨_, ha⟩
    exact hnone horizon (hwf.solvableWithin_of_satisfiesAll hencode ha)

/-- A door that can be unlocked with a key, which nobody can fetch. -/
def lostKey : Problem :=
  afterEdits (.ofList ["key", "locked"])
    [.operator "unlock" [("key", true)] [("locked", false)], .initiallyTrue "locked",
      .goal "key" true, .goal "locked" false]

/-- To unlock the door is not applicable, and nothing else is found either. -/
theorem unsolvable_of_unreachableGoals_lostKey :
    lostKey.unreachableGoals = [⟨0, true⟩] ∧
      (∃ flaw, Plan.validate ⟨[⟨0, [0]⟩]⟩ lostKey = .error (.failed flaw)) ∧
      (∃ clauses, (lostKey.layout 3).encode lostKey = .ok clauses ∧
        ¬ ∃ a : Assignment, a.satisfiesAll clauses.toList = true) ∧
      ∀ horizon plan,
        (((run .ideal lostKey ⟨0, 3, 1, none⟩).run []).run ()).1.1 ≠
          .ok (.planFound horizon plan) := by
  have hgoals : lostKey.unreachableGoals = [⟨0, true⟩] := by decide +kernel
  obtain ⟨hplans, hformulas, hsearches⟩ := Built.unsolvable_of_unreachableGoals (p := lostKey)
    ⟨_, _, rfl⟩ (by rw [hgoals]; simp)
  obtain ⟨hunsatisfiable, hexists⟩ := hformulas 3
  obtain ⟨clauses, hencode⟩ := hexists (by decide)
  exact ⟨hgoals, hplans ⟨[⟨0, [0]⟩]⟩ (by decide),
    ⟨clauses, hencode, hunsatisfiable clauses hencode⟩,
    hsearches .ideal sound_oracle ⟨0, 3, 1, none⟩ [] ()⟩

end Problem

end HorizonPlanner
