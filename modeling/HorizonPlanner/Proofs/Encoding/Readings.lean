import HorizonPlanner.Proofs.Encoding.Correctness

/-!
# All readings of a layout

Every assignment is read as a plan, whatever its length and whatever it satisfies. The plan executes
an operator at a time exactly when the variable of the two is true, so that it depends on the true
action variables only. The plans read in this way are those in canonical form, and they correspond
one to one to the sets of action variables.
-/

namespace HorizonPlanner.Encoding.Layout

open HorizonPlanner.Sat

variable {t : Layout} {a b : Assignment} {w : Interpretation} {plan other : Plan} {o time : Nat}

/-- A variable of the layout that stands for the execution of an operator. -/
abbrev ActionVariable (t : Layout) : Type :=
  { v : Variable // ∃ o time, t.variableOf (.operator o time) = .ok v }

/-- The action variables that an assignment makes true. -/
def trueActions (t : Layout) (a : Assignment) : Set t.ActionVariable :=
  {v | a.valueOf v.val = some true}

private theorem mem_trueActions {v : t.ActionVariable} :
    v ∈ t.trueActions a ↔ a.valueOf v.val = some true :=
  Iff.rfl

/-- The plans in canonical form that the layout has operators and time steps for. -/
structure IsCanonical (t : Layout) (plan : Plan) : Prop where
  /-- The steps come in strictly increasing order of time. -/
  chronological : Plan.Chronological plan.steps
  /-- No step is empty. -/
  nonempty : ∀ step ∈ plan.steps, step.operators ≠ []
  /-- The operators of a step come in strictly increasing order. -/
  increasing : ∀ step ∈ plan.steps, step.operators.Pairwise (· < ·)
  /-- All steps are before the horizon. -/
  time_lt : ∀ step ∈ plan.steps, step.time < t.horizon
  /-- All operators exist. -/
  operator_lt : ∀ step ∈ plan.steps, ∀ o ∈ step.operators, o < t.nOperators

/-! ### The plan of an interpretation -/

private theorem mem_executedList :
    o ∈ t.executedList w time ↔ o < t.nOperators ∧ w (.operator o time) = true := by
  rw [executedList, List.mem_filter, List.mem_range]

/-- What is executed in the plan of an interpretation. -/
theorem mem_executedAt_stepsOf :
    o ∈ Plan.executedAt (t.stepsOf w) time ↔
      time < t.horizon ∧ o < t.nOperators ∧ w (.operator o time) = true := by
  constructor
  · rintro ⟨step, hstep, rfl, ho⟩
    obtain ⟨htime, hoperators, -⟩ := mem_stepsOf.mp hstep
    rw [hoperators, mem_executedList] at ho
    exact ⟨htime, ho⟩
  · rintro ⟨htime, ho⟩
    have hmem : o ∈ t.executedList w time := mem_executedList.mpr ho
    exact ⟨⟨time, _⟩, mem_stepsOf.mpr ⟨htime, rfl, List.ne_nil_of_mem hmem⟩, rfl, hmem⟩

private theorem isCanonical_stepsOf : t.IsCanonical ⟨t.stepsOf w⟩ where
  chronological := chronological_stepsOf
  nonempty step hstep := (mem_stepsOf.mp hstep).2.2
  increasing step hstep := by
    rw [(mem_stepsOf.mp hstep).2.1]
    exact List.pairwise_lt_range.filter _
  time_lt step hstep := (mem_stepsOf.mp hstep).1
  operator_lt step hstep o ho := by
    rw [(mem_stepsOf.mp hstep).2.1, mem_executedList] at ho
    exact ho.1

namespace IsCanonical

/-- The operators of a step are those executed at its time. -/
theorem mem_operators_iff (hplan : t.IsCanonical plan) {step : PlanStep}
    (hstep : step ∈ plan.steps) :
    o ∈ step.operators ↔ o ∈ Plan.executedAt plan.steps step.time := by
  constructor
  · intro ho
    exact ⟨step, hstep, rfl, ho⟩
  · rintro ⟨other, hother, htime, ho⟩
    rwa [hplan.chronological.eq_of_time_eq hstep hother htime.symm]

/-- The steps of a canonical plan are found in another one that executes the same. -/
theorem mem_steps_of_executedAt_eq (hplan : t.IsCanonical plan) (hother : t.IsCanonical other)
    (h : ∀ time, Plan.executedAt plan.steps time = Plan.executedAt other.steps time)
    {step : PlanStep} (hstep : step ∈ plan.steps) : step ∈ other.steps := by
  -- Some operator of the step is executed at its time, so the other plan has a step there, too.
  obtain ⟨o, ho⟩ := List.exists_mem_of_ne_nil _ (hplan.nonempty step hstep)
  have hexecuted : o ∈ Plan.executedAt other.steps step.time := by
    rw [← h]
    exact (hplan.mem_operators_iff hstep).mp ho
  obtain ⟨found, hfound, htime, -⟩ := hexecuted
  have hoperators : step.operators = found.operators := by
    apply eq_of_increasing_of_mem_iff (hplan.increasing step hstep) (hother.increasing found hfound)
    intro i
    rw [hplan.mem_operators_iff hstep, hother.mem_operators_iff hfound, htime, h]
  have heq : step = found := by
    obtain ⟨time, operators⟩ := step
    obtain ⟨time', operators'⟩ := found
    simp_all
  rwa [heq]

/-- A canonical plan is determined by what it executes. -/
theorem eq_of_executedAt_eq (hplan : t.IsCanonical plan) (hother : t.IsCanonical other)
    (h : ∀ time, Plan.executedAt plan.steps time = Plan.executedAt other.steps time) :
    plan = other := by
  obtain ⟨steps⟩ := plan
  obtain ⟨steps'⟩ := other
  congr 1
  apply hplan.chronological.eq_of_mem_iff hother.chronological
  intro step
  exact ⟨hplan.mem_steps_of_executedAt_eq hother h,
    hother.mem_steps_of_executedAt_eq hplan fun time => (h time).symm⟩

/-- A canonical plan is that of its own interpretation. -/
theorem eq_stepsOf (hplan : t.IsCanonical plan)
    (hw : ∀ o < t.nOperators, ∀ time < t.horizon,
      w (.operator o time) = true ↔ o ∈ Plan.executedAt plan.steps time) :
        plan = ⟨t.stepsOf w⟩ := by
  apply hplan.eq_of_executedAt_eq isCanonical_stepsOf
  intro time
  ext o
  rw [mem_executedAt_stepsOf]
  constructor
  · intro ho
    obtain ⟨step, hstep, rfl, hmem⟩ := ho
    have htime := hplan.time_lt step hstep
    have hlt := hplan.operator_lt step hstep o hmem
    exact ⟨htime, hlt, (hw o hlt _ htime).mpr ⟨step, hstep, rfl, hmem⟩⟩
  · rintro ⟨htime, hlt, hvalue⟩
    exact (hw o hlt time htime).mp hvalue

end IsCanonical

/-! ### The plan of an assignment -/

/-- An assignment has an operator executed exactly when it makes the variable of the execution
true. -/
theorem interpretation_operator_iff :
    t.interpretation a.valuation (.operator o time) = true ↔
      ∃ v, t.variableOf (.operator o time) = .ok v ∧ a.valueOf v = some true := by
  constructor
  · intro h
    unfold interpretation at h
    split at h
    · next v hv => exact ⟨v, hv, by simpa [Assignment.valuation] using h⟩
    · cases h
  · rintro ⟨v, hv, hvalue⟩
    rw [interpretation_of_variableOf hv]
    simpa [Assignment.valuation] using hvalue

/-- Assignments that have the same operators executed are read as the same plan. -/
theorem stepsOf_eq_iff {w' : Interpretation} :
    t.stepsOf w = t.stepsOf w' ↔
      ∀ o < t.nOperators, ∀ time < t.horizon, w (.operator o time) = w' (.operator o time) := by
  constructor
  · intro h o ho time htime
    have hsame : o ∈ Plan.executedAt (t.stepsOf w) time ↔ o ∈ Plan.executedAt
        (t.stepsOf w') time := by rw [h]
    rw [mem_executedAt_stepsOf, mem_executedAt_stepsOf, and_iff_right htime, and_iff_right htime,
      and_iff_right ho, and_iff_right ho] at hsame
    exact Bool.eq_iff_iff.mpr hsame
  · intro h
    have hplan : (⟨t.stepsOf w⟩ : Plan) = ⟨t.stepsOf w'⟩ := by
      apply isCanonical_stepsOf.eq_stepsOf
      intro o ho time htime
      rw [mem_executedAt_stepsOf, ← h o ho time htime, and_iff_right htime, and_iff_right ho]
    exact congrArg Plan.steps hplan

/-- Two assignments are read as the same plan exactly when they make the same action variables
true. -/
theorem decode_eq_decode_iff (hwords : t.Counted) (hroom : t.HasRoom) :
    t.decode a = t.decode b ↔ t.trueActions a = t.trueActions b := by
  rw [decode_eq hwords hroom, decode_eq hwords hroom, Except.ok.injEq, Plan.mk.injEq,
    stepsOf_eq_iff]
  constructor
  · intro h
    ext ⟨v, o, time, hv⟩
    have hhas : t.Has (.operator o time) := has_of_variableOf hv
    have hvalue := h o hhas.1 time hhas.2
    rw [interpretation_of_variableOf hv, interpretation_of_variableOf hv] at hvalue
    simpa [mem_trueActions, Assignment.valuation] using Bool.eq_iff_iff.mp hvalue
  · intro h o ho time htime
    have hhas : t.Has (.operator o time) := ⟨ho, htime⟩
    obtain ⟨v, hv⟩ := (exists_variableOf_iff hwords).mpr hhas
    have hmem := Set.ext_iff.mp h ⟨v, o, time, hv⟩
    rw [interpretation_of_variableOf hv, interpretation_of_variableOf hv]
    apply Bool.eq_iff_iff.mpr
    simpa [mem_trueActions, Assignment.valuation] using hmem

open Classical in
/-- Any action variables can be the true ones, as long as assignments reach that far. -/
theorem trueActions_surjective (hfit : t.FitsWords) : Function.Surjective t.trueActions := by
  intro s
  refine ⟨.ofValuation hfit.lt_half fun v => decide (∃ x ∈ s, x.val = v), ?_⟩
  ext ⟨v, o, time, hv⟩
  have hle := number_le_nVars hv
  rw [mem_trueActions, Assignment.valueOf_ofValuation hle, Option.some.injEq, decide_eq_true_iff]
  constructor
  · rintro ⟨x, hx, rfl⟩
    exact hx
  · intro hv
    exact ⟨_, hv, rfl⟩

/-- The plan an assignment is read as. -/
def planOf (t : Layout) (a : Assignment) : { plan // t.IsCanonical plan } :=
  ⟨⟨t.stepsOf (t.interpretation a.valuation)⟩, isCanonical_stepsOf⟩

/-- An assignment is read as its plan. -/
theorem decode_eq_planOf (hwords : t.Counted) (hroom : t.HasRoom) : t.decode a = .ok (t.planOf a) :=
  decode_eq hwords hroom

/-- Every canonical plan is read off some assignment. -/
theorem planOf_surjective (hfit : t.FitsWords) : Function.Surjective t.planOf := by
  rintro ⟨plan, hplan⟩
  let w : Interpretation := plan.interpretation fun _ => #[]
  refine ⟨.ofValuation hfit.lt_half (t.valuation w), Subtype.ext ?_⟩
  symm
  apply hplan.eq_stepsOf
  intro o ho time htime
  have hhas : t.Has (.operator o time) := ⟨ho, htime⟩
  rw [Problem.interpretation_ofValuation hfit hhas]
  simp [w, Plan.interpretation, Plan.executedAt]

/-! ### The correspondence -/

/-- What can be said about an assignment by two functions onto, each of which determines the other,
corresponds one to one. -/
theorem exists_equiv_of_surjective {α β γ : Type} {f : α → β} {g : α → γ}
    (hf : Function.Surjective f) (hg : Function.Surjective g) (h : ∀ x y, f x = f y ↔ g x = g y) :
    ∃ e : β ≃ γ, ∀ x, g x = e (f x) := by
  choose preimage hpreimage using hf
  have happly : ∀ x, g (preimage (f x)) = g x := fun x => (h _ _).mp (hpreimage _)
  have hbijective : Function.Bijective fun y => g (preimage y) := by
    constructor
    · intro y z heq
      have hsame : f (preimage y) = f (preimage z) := (h _ _).mpr heq
      rwa [hpreimage, hpreimage] at hsame
    · intro z
      obtain ⟨x, rfl⟩ := hg z
      exact ⟨f x, happly x⟩
  exact ⟨Equiv.ofBijective _ hbijective, fun x => (happly x).symm⟩

/-- Decoding is exact and canonical, as long as layers and variables are counted by words and there
is room for the steps. Every assignment is read as a plan in canonical form, which executes an
operator at a time exactly when both exist and the variable of the execution is true, and two
assignments are read as the same plan exactly when they make the same action variables true. If the
number of variables is a signed word, as that of the values of an assignment is, then every
canonical plan is read off some assignment, so that decoding is a bijection from the sets of action
variables onto the canonical plans. -/
theorem decode_bijective (hwords : t.Counted) (hroom : t.HasRoom) :
    (∀ a, ∃ plan, t.decode a = .ok plan ∧ t.IsCanonical plan ∧
      ∀ o time, o ∈ Plan.executedAt plan.steps time ↔ time < t.horizon ∧ o < t.nOperators ∧
        ∃ v, t.variableOf (.operator o time) = .ok v ∧ a.valueOf v = some true) ∧
    (∀ a b, t.decode a = t.decode b ↔ t.trueActions a = t.trueActions b) ∧
    (t.FitsWords →
      (∀ plan : { plan // t.IsCanonical plan }, ∃ a, t.decode a = .ok plan) ∧
      (∀ s, ∃ a, t.trueActions a = s) ∧
      ∃ e : Set t.ActionVariable ≃ { plan // t.IsCanonical plan }, ∀ a, t.decode a =
        .ok (e (t.trueActions a))) := by
  have hread : ∀ a, t.decode a = .ok (t.planOf a) := fun a => decode_eq_planOf hwords hroom
  have hsame : ∀ a b, t.trueActions a = t.trueActions b ↔ t.planOf a = t.planOf b := by
    intro a b
    rw [← decode_eq_decode_iff hwords hroom, hread, hread, Except.ok.injEq, Subtype.ext_iff]
  refine ⟨fun a => ⟨t.planOf a, hread a, (t.planOf a).property, fun o time => ?_⟩,
    fun a b => decode_eq_decode_iff hwords hroom, fun hfit => ?_⟩
  · rw [← interpretation_operator_iff]
    exact mem_executedAt_stepsOf
  · obtain ⟨e, he⟩ := exists_equiv_of_surjective (trueActions_surjective hfit)
      (planOf_surjective hfit) hsame
    refine ⟨fun plan => ?_, trueActions_surjective hfit, e, fun a => ?_⟩
    · obtain ⟨a, rfl⟩ := planOf_surjective hfit plan
      exact ⟨a, hread a⟩
    · rw [hread, he]

/-- One of two operators is executed at the second of three steps, and no assignment of other values
is read otherwise. -/
theorem decode_bijective_second :
    let t : Layout := ⟨1, 2, 3⟩
    t.Counted ∧ t.HasRoom ∧ t.FitsWords ∧
      ∃ a, t.decode a = .ok ⟨[⟨1, [1]⟩]⟩ ∧
        ∀ b, t.decode b = .ok ⟨[⟨1, [1]⟩]⟩ ↔ t.trueActions b = t.trueActions a := by
  intro t
  have hwords : t.Counted := by decide
  have hroom : t.HasRoom := by decide
  have hfit : t.FitsWords := by decide
  have hcanonical : t.IsCanonical ⟨[⟨1, [1]⟩]⟩ :=
    ⟨List.pairwise_singleton _ _, by simp, by simp, by simp [t], by simp [t]⟩
  obtain ⟨-, hsame, honto⟩ := decode_bijective hwords hroom
  obtain ⟨a, ha⟩ := (honto hfit).1 ⟨_, hcanonical⟩
  refine ⟨hwords, hroom, hfit, a, ha, fun b => ?_⟩
  rw [← hsame, ha]

/-- Decoding fails where the first variable of an operator is no word, and where there is no room
for the steps. Where the number of variables is a word but no signed one, no assignment is read as
the plan of an operator whose variable is too large. -/
theorem decode_fails :
    (⟨6148914691236517205, 1, 2⟩ : Layout).decode ⟨#[], by decide⟩ = .error (.overflow .addition) ∧
    (⟨0, 0, 288230376151711744⟩ : Layout).decode ⟨#[], by decide⟩ = .error .noRoom ∧
    (⟨4611686018427387904, 1, 2⟩ : Layout).IsCanonical ⟨[⟨0, [0]⟩]⟩ ∧
      ∀ a, (⟨4611686018427387904, 1, 2⟩ : Layout).decode a ≠ .ok ⟨[⟨0, [0]⟩]⟩ := by
  have hcanonical : (⟨4611686018427387904, 1, 2⟩ : Layout).IsCanonical ⟨[⟨0, [0]⟩]⟩ :=
    ⟨List.pairwise_singleton _ _, by simp, by simp, by simp, by simp⟩
  refine ⟨by decide, decode_eq_error (by decide), hcanonical, fun a ha => ?_⟩
  have hexecuted : 0 ∈ Plan.executedAt [⟨0, [0]⟩] 0 := ⟨⟨0, [0]⟩, by simp, rfl, by simp⟩
  have hsteps := Plan.mk.inj (eq_of_decode_eq_ok (by decide) ha)
  rw [hsteps, mem_executedAt_stepsOf, interpretation_operator_iff] at hexecuted
  obtain ⟨-, -, v, hv, hvalue⟩ := hexecuted
  have hlt := Assignment.number_lt_of_valueOf_eq_some hvalue
  have hnumber := (of_variableOf hv).2.2
  rw [hnumber] at hlt
  exact absurd hlt (by decide)

end HorizonPlanner.Encoding.Layout
