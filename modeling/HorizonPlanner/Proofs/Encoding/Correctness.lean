import HorizonPlanner.Proofs.Encoding.Decoding
import HorizonPlanner.Proofs.Encoding.Formula
import HorizonPlanner.Proofs.Solutions
import Mathlib.Data.Finset.Sort

/-!
# Correctness of the encoding

The assignments that satisfy the formula of a horizon are read as plans that fit the horizon, and
every such plan is read off a satisfying assignment, with the operators of each step in order.
Between formula and plan stands a trajectory, whose states are the layers of the interpretation.
-/

namespace HorizonPlanner

open HorizonPlanner.Sat HorizonPlanner.Encoding

/-- The plan with the operators of each step in increasing order and without repetition. -/
def Plan.canonical (plan : Plan) : Plan :=
  ⟨plan.steps.map fun s => ⟨s.time, s.operators.toFinset.sort⟩⟩

/-- The interpretation that has the steps of a plan executed along a sequence of states. -/
def Plan.interpretation (plan : Plan) (σ : Nat → State) : Interpretation
  | .fluent f time => (σ time)[f]? == some true
  | .operator o time => plan.steps.any fun step => step.time == time && step.operators.contains o

namespace Problem

variable {p : Problem} {horizon : Nat}

/-! ### From assignments to plans -/

/-- The layers of an interpretation that satisfies the constraints are a trajectory. -/
theorem WellFormed.trajectory_of_holds (hp : p.WellFormed) {w : Interpretation}
    (h : ∀ k ∈ constraints p horizon, k.Holds w) :
    p.Trajectory ((p.layout horizon).stepsOf w) horizon (w.layer p.nFluents) := by
  refine ⟨Interpretation.size_layer, fun time htime => ?_⟩
  rw [Layout.executedAt_stepsOf htime]
  exact (hp.holds_constraints_iff.mp h).2.2 time htime

/-- The steps of an interpretation that satisfies the constraints fit the horizon. -/
theorem WellFormed.fits_of_holds (hp : p.WellFormed) {w : Interpretation}
    (h : ∀ k ∈ constraints p horizon, k.Holds w) :
    Plan.Fits ⟨(p.layout horizon).stepsOf w⟩ p horizon := by
  obtain ⟨hinitial, hgoal, -⟩ := hp.holds_constraints_iff.mp h
  have hbuilt : Plan.Built ⟨(p.layout horizon).stepsOf w⟩ :=
    Plan.built_iff.mpr ⟨Layout.chronological_stepsOf, fun step hstep =>
      (Layout.mem_stepsOf.mp hstep).2.2⟩
  have htime : ∀ step ∈ (p.layout horizon).stepsOf w, step.time < horizon := fun step hstep =>
    (Layout.mem_stepsOf.mp hstep).1
  have hsolves : Plan.Solves ⟨(p.layout horizon).stepsOf w⟩ p :=
    (Plan.solves_iff_trajectory hp (Plan.built_iff.mp hbuilt).1 htime).mpr
      ⟨_, hp.trajectory_of_holds h, hinitial, hgoal⟩
  exact ⟨hbuilt, hsolves, htime⟩

variable {clauses : ClauseSet}

/-- An assignment that satisfies the formula satisfies the constraints. -/
theorem holds_of_satisfiesAll (hfit : (p.layout horizon).FitsWords)
    (hencode : (p.layout horizon).encode p = .ok clauses) {a : Assignment}
    (ha : a.satisfiesAll clauses.toList = true) :
    ∀ k ∈ constraints p horizon, k.Holds ((p.layout horizon).interpretation a.valuation) :=
  (Layout.holds_encode_iff hfit hencode).mp (Assignment.holds_of_satisfiesAll ha)

/-- An assignment that satisfies the formula is read as a plan that fits the horizon. -/
theorem WellFormed.fits_of_satisfiesAll (hp : p.WellFormed) (hfit : (p.layout horizon).FitsWords)
    (hencode : (p.layout horizon).encode p = .ok clauses) {a : Assignment}
    (ha : a.satisfiesAll clauses.toList = true) {plan : Plan}
    (hplan : (p.layout horizon).decode a = .ok plan) : plan.Fits p horizon := by
  rw [Layout.eq_of_decode_eq_ok hfit.counted hplan]
  exact hp.fits_of_holds (holds_of_satisfiesAll hfit hencode ha)

/-- A formula that some assignment satisfies has a plan that fits the horizon, even if its variables
do not fit into signed words. -/
theorem WellFormed.solvableWithin_of_satisfiesAll (hp : p.WellFormed)
    (hencode : (p.layout horizon).encode p = .ok clauses) {a : Assignment}
    (ha : a.satisfiesAll clauses.toList = true) : p.SolvableWithin horizon :=
  ⟨_, hp.fits_of_holds
    ((Layout.agrees_reading.holds_encode_iff hencode).mp (Assignment.holds_of_satisfiesAll ha))⟩

/-! ### From plans to assignments -/

/-- The states of a trajectory are the layers of its interpretation. -/
theorem layer_interpretation {plan : Plan} {σ : Nat → State} {time : Nat}
    (hsize : (σ time).size = p.nFluents) :
    (plan.interpretation σ).layer p.nFluents time = σ time := by
  refine Array.ext (by simp [hsize]) fun f hf hf' => ?_
  simp [Interpretation.layer, Plan.interpretation, hf']

/-- The interpretation of a plan has the operators of the plan executed. -/
theorem executed_interpretation {plan : Plan} {σ : Nat → State} {time : Nat}
    (hlt : ∀ i ∈ Plan.executedAt plan.steps time, i < p.nOperators) :
    (plan.interpretation σ).executed p time = Plan.executedAt plan.steps time := by
  have hany : ∀ i, plan.interpretation σ (.operator i time) = true ↔
      i ∈ Plan.executedAt plan.steps time := by
    intro i
    simp [Plan.interpretation, Plan.executedAt]
  ext i
  exact ⟨fun hi => (hany i).mp hi.2, fun hi => ⟨hlt i hi, (hany i).mpr hi⟩⟩

/-- The interpretation of a trajectory to the goal satisfies the constraints. -/
theorem WellFormed.holds_interpretation (hp : p.WellFormed) {plan : Plan} {σ : Nat → State}
    (hσ : p.Trajectory plan.steps horizon σ) (hinitial : σ 0 = p.initial)
    (hgoal : p.goalHolds (σ horizon) = true) :
    ∀ k ∈ constraints p horizon, k.Holds (plan.interpretation σ) := by
  rw [hp.holds_constraints_iff, layer_interpretation (hσ.size_eq (Nat.zero_le _)),
    layer_interpretation (hσ.size_eq le_rfl)]
  refine ⟨hinitial, hgoal, fun time htime => ?_⟩
  have hmoves := hσ.moves time htime
  rwa [executed_interpretation hmoves.lt, layer_interpretation (hσ.size_eq (Nat.le_of_lt htime)),
    layer_interpretation (hσ.size_eq htime)]

/-- Filtering the numbers below a bound orders a list and removes its repetitions. -/
theorem filter_range_eq_sort {is : List Nat} {n : Nat} (h : ∀ i ∈ is, i < n) :
    ((List.range n).filter fun i => i ∈ is) = is.toFinset.sort := by
  have hnodup : ((List.range n).filter fun i => i ∈ is).Nodup := List.nodup_range.filter _
  have hsorted : ((List.range n).filter fun i => i ∈ is).Pairwise (· ≤ ·) :=
    List.pairwise_le_range.filter _
  rw [← (List.toFinset_sort _ hnodup).mpr hsorted]
  congr 1
  ext i
  simpa using h i

/-- The steps of the interpretation of a plan are those of the plan, with their operators in
order. -/
theorem stepsOf_eq_canonical {plan : Plan} (hplan : plan.Built) {w : Interpretation}
    (htime : ∀ step ∈ plan.steps, step.time < horizon)
    (hlt : ∀ step ∈ plan.steps, ∀ i ∈ step.operators, i < p.nOperators)
    (hw : ∀ i < p.nOperators, ∀ time < horizon,
      w (.operator i time) = true ↔ i ∈ Plan.executedAt plan.steps time) :
    ⟨(p.layout horizon).stepsOf w⟩ = plan.canonical := by
  obtain ⟨hchron, hne⟩ := Plan.built_iff.mp hplan
  have hlist : ∀ step ∈ plan.steps,
      (p.layout horizon).executedList w step.time = step.operators.toFinset.sort := by
    intro step hstep
    rw [← filter_range_eq_sort (hlt step hstep)]
    refine List.filter_congr fun i hi => ?_
    rw [Bool.eq_iff_iff, hw i (List.mem_range.mp hi) _ (htime step hstep), decide_eq_true_iff]
    constructor
    · rintro ⟨other, hother, heq, hi⟩
      rwa [hchron.eq_of_time_eq hstep hother heq.symm]
    · exact fun hi => ⟨step, hstep, rfl, hi⟩
  have hcanonical : Plan.Chronological plan.canonical.steps := List.pairwise_map.mpr hchron
  refine congrArg Plan.mk (Layout.chronological_stepsOf.eq_of_mem_iff hcanonical fun step => ?_)
  rw [Layout.mem_stepsOf, List.mem_map]
  constructor
  · rintro ⟨hlt, hoperators, hnonempty⟩
    -- Some operator is executed, so the plan has a step at this time.
    obtain ⟨i, hi⟩ := List.exists_mem_of_ne_nil _ hnonempty
    rw [hoperators, Layout.executedList, List.mem_filter, List.mem_range] at hi
    obtain ⟨other, hother, heq, -⟩ := (hw i hi.1 _ hlt).mp hi.2
    refine ⟨other, hother, ?_⟩
    rw [← hlist other hother, heq, ← hoperators]
  · rintro ⟨other, hother, rfl⟩
    refine ⟨htime other hother, (hlist other hother).symm, ?_⟩
    simpa [← List.length_eq_zero_iff] using hne other hother

/-- The assignment of an interpretation is read as this interpretation. -/
theorem interpretation_ofValuation {t : Layout} (hfit : t.FitsWords) {w : Interpretation}
    {q : Proposition} (hq : t.Has q) :
    t.interpretation (Assignment.ofValuation hfit.lt_half (t.valuation w)).valuation q = w q := by
  obtain ⟨x, hx⟩ := (Layout.exists_variableOf_iff hfit.counted).mpr hq
  rw [← Layout.interpretation_valuation hfit.counted (w := w) hq,
    Layout.interpretation_of_variableOf hx, Layout.interpretation_of_variableOf hx,
    Assignment.valuation, Assignment.valueOf_ofValuation (Layout.number_le_nVars hx)]
  cases t.valuation w x <;> rfl

/-- A plan that fits the horizon is read off an assignment that satisfies the formula. -/
theorem WellFormed.satisfiesAll_of_fits (hp : p.WellFormed) (hfit : (p.layout horizon).FitsWords)
    {clauses : ClauseSet} (hencode : (p.layout horizon).encode p = .ok clauses) {plan : Plan}
    (hplan : plan.Fits p horizon) :
    ∃ a : Assignment, a.Total (p.layout horizon).nVars ∧ a.satisfiesAll clauses.toList = true ∧
      ((p.layout horizon).HasRoom → (p.layout horizon).decode a = .ok plan.canonical) := by
  have hchron := (Plan.built_iff.mp hplan.built).1
  obtain ⟨σ, hσ, hinitial, hgoal⟩ :=
    (Plan.solves_iff_trajectory hp hchron hplan.time_lt).mp hplan.solves
  have hlt : ∀ time < horizon, ∀ i ∈ Plan.executedAt plan.steps time, i < p.nOperators :=
    fun time htime => (hσ.moves time htime).lt
  have hholds : ∀ k ∈ constraints p horizon, k.Holds
      ((p.layout horizon).interpretation ((p.layout horizon).valuation (plan.interpretation σ))) :=
    fun k hk => ((hp.within_constraints horizon k hk).holds_congr fun q hq =>
      Layout.interpretation_valuation hfit.counted hq).mpr
        (hp.holds_interpretation hσ hinitial hgoal k hk)
  refine ⟨.ofValuation hfit.lt_half _, Assignment.total_ofValuation _ _,
    Assignment.satisfiesAll_ofValuation (Layout.number_le_of_encode hfit hencode)
      ((Layout.holds_encode_iff hfit hencode).mpr hholds), fun hroom => ?_⟩
  rw [Layout.decode_eq hfit.counted hroom, Except.ok.injEq]
  refine stepsOf_eq_canonical hplan.built hplan.time_lt
    (fun step hstep i hi => hlt _ (hplan.time_lt step hstep) i ⟨step, hstep, rfl, hi⟩)
    fun i hi time htime => ?_
  have hhas : (p.layout horizon).Has (.operator i time) := ⟨hi, htime⟩
  rw [interpretation_ofValuation hfit hhas]
  simp [Plan.interpretation, Plan.executedAt]

/-- The formula of a horizon is satisfiable exactly when some plan fits the horizon. -/
theorem WellFormed.satisfiable_iff (hp : p.WellFormed) (hfit : (p.layout horizon).FitsWords)
    {clauses : ClauseSet} (hencode : (p.layout horizon).encode p = .ok clauses) :
    (∃ a : Assignment, a.satisfiesAll clauses.toList = true) ↔ p.SolvableWithin horizon := by
  constructor
  · rintro ⟨a, ha⟩
    exact hp.solvableWithin_of_satisfiesAll hencode ha
  · rintro ⟨plan, hplan⟩
    obtain ⟨a, -, ha, -⟩ := hp.satisfiesAll_of_fits hfit hencode hplan
    exact ⟨a, ha⟩

/-! ### Models and plans of a problem that was built -/

/-- Soundness of the encoding. The formula of a horizon exists, and every assignment that satisfies
it, whatever variables it leaves without a value, is read as a plan that fits the horizon. The
states along the plan are those that the assignment describes layer by layer. -/
theorem Built.decode_fits_of_satisfiesAll (hp : p.Built) (hfit : (p.layout horizon).FitsWords)
    (hroom : (p.layout horizon).HasRoom) :
    ∃ clauses, (p.layout horizon).encode p = .ok clauses ∧
      ∀ a : Assignment, a.satisfiesAll clauses.toList = true →
        ∃ plan, (p.layout horizon).decode a = .ok plan ∧ plan.Fits p horizon ∧
          ∀ time ≤ horizon, ∃ s,
            Plan.execute p (Plan.before plan.steps time) p.initial = .ok s ∧
              s.size = p.nFluents ∧
                ∀ f < p.nFluents, ∃ x, (p.layout horizon).variableOf (.fluent f time) = .ok x ∧
                  s[f]? = some (a.valueOf x == some true) := by
  have hwf := hp.wellFormed
  obtain ⟨clauses, hencode⟩ := hwf.exists_encode hfit
  refine ⟨clauses, hencode, fun a ha => ?_⟩
  have hholds := holds_of_satisfiesAll hfit hencode ha
  refine ⟨_, Layout.decode_eq hfit.counted hroom, hwf.fits_of_holds hholds, fun time htime => ?_⟩
  let w := (p.layout horizon).interpretation a.valuation
  refine ⟨w.layer p.nFluents time, ?_, Interpretation.size_layer, fun f hf => ?_⟩
  · rw [← (hwf.holds_constraints_iff.mp hholds).1]
    exact (hwf.trajectory_of_holds hholds).execute_before hwf Layout.chronological_stepsOf htime
  · have hhas : (p.layout horizon).Has (.fluent f time) := ⟨hf, htime⟩
    obtain ⟨x, hx⟩ := (Layout.exists_variableOf_iff hfit.counted).mpr hhas
    have hvalue : w (.fluent f time) = (a.valueOf x == some true) :=
      Layout.interpretation_of_variableOf hx
    exact ⟨x, hx, by rw [Interpretation.getElem?_layer hf, hvalue]⟩

/-- The formula of the lamp for two steps is satisfiable, and a model of it is a plan. -/
theorem decode_fits_of_satisfiesAll_lamp : (lamp.layout 2).FitsWords ∧ (lamp.layout 2).HasRoom ∧
    ∃ clauses a, (lamp.layout 2).encode lamp = .ok clauses ∧ a.satisfiesAll clauses.toList = true ∧
      ∃ plan, (lamp.layout 2).decode a = .ok plan ∧ plan.Fits lamp 2 := by
  have hfit : (lamp.layout 2).FitsWords := by decide
  have hroom : (lamp.layout 2).HasRoom := by decide
  obtain ⟨clauses, hencode, hsound⟩ := lamp_built.decode_fits_of_satisfiesAll hfit hroom
  obtain ⟨a, -, ha, -⟩ :=
    lamp_built.wellFormed.satisfiesAll_of_fits hfit hencode Plan.ofLamp_fits
  obtain ⟨plan, hdecode, hplan, -⟩ := hsound a ha
  exact ⟨hfit, hroom, clauses, a, hencode, ha, plan, hdecode, hplan⟩

/-- A problem without fluents and operators. -/
def bare : Problem :=
  .afterEdits (.ofList []) []

/-- Nothing is demanded of the plans for the bare problem. -/
theorem encode_bare (horizon : Nat) : (bare.layout horizon).encode bare = .ok .empty := by
  have hoperators : bare.operators = [] := rfl
  have hchangers : changers bare = [] := rfl
  have hpairs : bare.interferingPairs = [] := by decide +kernel
  have hsteps : ∀ step, stepConstraints bare (changers bare) bare.interferingPairs step = [] := by
    simp [stepConstraints, preconditionConstraints, effectConstraints, frameConstraints,
      exclusionConstraints, hoperators, hchangers, hpairs]
  have hconstraints : constraints bare horizon = [] := by
    refine List.append_eq_nil_iff.mpr ⟨rfl, List.flatMap_eq_nil_iff.mpr fun step _ => hsteps step⟩
  exact Layout.encode_eq_ok_iff.mpr ⟨[], congrArg (List.mapM _) hconstraints, rfl⟩

/-- Nothing has to be done for the bare problem. -/
theorem fits_bare (horizon : Nat) : Plan.Fits ⟨[]⟩ bare horizon :=
  ⟨⟨[], rfl⟩, ⟨#[], rfl⟩, by simp⟩

/-- Where there is no room for the steps of a plan, assignments that satisfy the formula are not
read as plans. -/
theorem decode_bare_eq_error :
    bare.Built ∧ (bare.layout 288230376151711744).FitsWords ∧
      (bare.layout 288230376151711744).encode bare = .ok .empty ∧
      ∀ a : Assignment, a.satisfiesAll ClauseSet.empty.toList = true ∧
        (bare.layout 288230376151711744).decode a = .error .noRoom :=
  ⟨⟨_, _, rfl⟩, by decide, encode_bare _, fun _ => ⟨rfl, Layout.decode_eq_error (by decide)⟩⟩

/-- Completeness of the encoding. Every plan that fits the horizon is read, with the operators of
each step in order and without repetition, off a total assignment that satisfies the formula. -/
theorem Built.exists_total_satisfiesAll (hp : p.Built) (hfit : (p.layout horizon).FitsWords)
    (hroom : (p.layout horizon).HasRoom) {plan : Plan} (hplan : plan.Fits p horizon) :
    ∃ (clauses : ClauseSet) (a : Assignment), (p.layout horizon).encode p = .ok clauses ∧
      a.Total (p.layout horizon).nVars ∧ a.satisfiesAll clauses.toList = true ∧
        (p.layout horizon).decode a = .ok plan.canonical := by
  obtain ⟨clauses, hencode⟩ := hp.wellFormed.exists_encode hfit
  obtain ⟨a, htotal, ha, hdecode⟩ := hp.wellFormed.satisfiesAll_of_fits hfit hencode hplan
  exact ⟨clauses, a, hencode, htotal, ha, hdecode hroom⟩

/-- A plan with idle steps in which an operator is named twice is read off without the
repetition. -/
theorem exists_total_satisfiesAll_lamp : ∃ (clauses : ClauseSet) (a : Assignment),
    (lamp.layout 4).encode lamp = .ok clauses ∧ a.Total 23 ∧
      a.satisfiesAll clauses.toList = true ∧
        (lamp.layout 4).decode a = .ok ⟨[⟨1, [0]⟩, ⟨3, [1]⟩]⟩ := by
  have hfit : (lamp.layout 4).FitsWords := by decide
  have hroom : (lamp.layout 4).HasRoom := by decide
  have hplan : Plan.Fits ⟨[⟨1, [0, 0]⟩, ⟨3, [1]⟩]⟩ lamp 4 :=
    ⟨⟨[⟨1, [0, 0]⟩, ⟨3, [1]⟩], rfl⟩, ⟨#[false, true, true], rfl⟩, by decide⟩
  have hcanonical : Plan.canonical ⟨[⟨1, [0, 0]⟩, ⟨3, [1]⟩]⟩ = ⟨[⟨1, [0]⟩, ⟨3, [1]⟩]⟩ := by
    simp [Plan.canonical]
  obtain ⟨clauses, a, hencode, htotal, ha, hdecode⟩ :=
    lamp_built.exists_total_satisfiesAll hfit hroom hplan
  exact ⟨clauses, a, hencode, htotal, ha, hcanonical ▸ hdecode⟩

/-- Where there is no room for its steps, a plan is read off no assignment, and where the variables
do not fit into signed words, no assignment is total. -/
theorem fits_and_decode_ne_ok :
    (bare.Built ∧ Plan.Fits ⟨[]⟩ bare 288230376151711744 ∧
      ∀ a plan, (bare.layout 288230376151711744).decode a ≠ .ok plan) ∧
    lamp.Built ∧ Plan.ofLamp.Fits lamp 2305843009213693952 ∧
      ∀ a : Assignment, ¬ a.Total (lamp.layout 2305843009213693952).nVars := by
  refine ⟨⟨⟨_, _, rfl⟩, fits_bare _, fun a plan h => ?_⟩, lamp_built,
    Plan.ofLamp_fits.mono (by decide),
    fun a ha => absurd ha.lt (by decide)⟩
  rw [Layout.decode_eq_error (by decide)] at h
  cases h

end Problem

end HorizonPlanner
