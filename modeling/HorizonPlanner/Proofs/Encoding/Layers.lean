import HorizonPlanner.Proofs.Encoding.Meaning
import HorizonPlanner.Proofs.Trajectories

/-!
# Layers

An interpretation gives a state for every step, its layer, and the operators executed at the step.
The constraints say that the layers begin with the initial state, that every layer leads to the next
one by a move with the executed operators, and that the goal holds in the last layer.
-/

namespace HorizonPlanner

open HorizonPlanner.Encoding

namespace Encoding.Interpretation

/-- The state an interpretation describes at a step. -/
def layer (w : Interpretation) (n step : Nat) : State :=
  Array.ofFn fun f : Fin n => w (.fluent f step)

/-- The operators of a problem that an interpretation has executed at a step. -/
def executed (w : Interpretation) (p : Problem) (step : Nat) : Set Nat :=
  {i | i < p.nOperators ∧ w (.operator i step) = true}

variable {w : Interpretation} {n step : Nat}

/-- A layer has a value for each fluent. -/
@[simp] theorem size_layer : (w.layer n step).size = n := by
  simp [layer]

/-- The value of a fluent in a layer is that of its proposition. -/
theorem getElem?_layer {f : Nat} (hf : f < n) :
    (w.layer n step)[f]? = some (w (.fluent f step)) := by
  simp [layer, hf]

/-- A condition is asserted of a step exactly when it holds in the layer. -/
theorem holds_ofCondition {c : Condition} (hc : c.fluent < n) :
    (Assertion.ofCondition step c).Holds w ↔ c.holds (w.layer n step) = true := by
  rw [Condition.holds_iff, getElem?_layer hc, Option.some.injEq]
  rfl

/-- In a layer every condition on a fluent holds or is violated by its opposite. -/
theorem holds_negate_layer {c : Condition} (hc : c.fluent < n) :
    c.negate.holds (w.layer n step) = true ↔ ¬ c.holds (w.layer n step) = true := by
  simp only [Condition.holds_iff, Condition.fluent_negate, Condition.polarity_negate,
    getElem?_layer hc, Option.some.injEq]
  cases w (.fluent c.fluent step) <;> cases c.polarity <;> simp

end Encoding.Interpretation

namespace Problem

variable {p : Problem} {w : Interpretation} {step horizon : Nat}

/-- The first layer is the initial state. -/
theorem WellFormed.holds_initialConstraints_iff (hp : p.WellFormed) :
    (∀ k ∈ initialConstraints p, k.Holds w) ↔ w.layer p.nFluents 0 = p.initial := by
  rw [initialConstraints, List.forall_mem_map]
  constructor
  · intro h
    refine Array.ext (by simp [hp.initial_size]) fun f hf hf' => ?_
    have hmem : (p.initial[f], f) ∈ p.initial.toList.zipIdx := by
      simp [List.mem_zipIdx_iff_getElem?, hf']
    have hvalue : w (.fluent f 0) = p.initial[f] := h _ hmem
    simpa [Interpretation.layer] using hvalue
  · rintro h ⟨b, f⟩ hmem
    rw [List.mem_zipIdx_iff_getElem?, Array.getElem?_toList, ← h] at hmem
    have hf : f < p.nFluents := by
      simpa using (Array.getElem?_eq_some_iff.mp hmem).1
    rw [Interpretation.getElem?_layer hf, Option.some.injEq] at hmem
    exact hmem

/-- The goal holds in the last layer. -/
theorem WellFormed.holds_goalConstraints_iff (hp : p.WellFormed) :
    (∀ k ∈ goalConstraints p horizon, k.Holds w) ↔
      p.goalHolds (w.layer p.nFluents horizon) = true := by
  rw [goalConstraints, List.forall_mem_map, goalHolds, List.all_eq_true]
  exact forall₂_congr fun c hc => Interpretation.holds_ofCondition (hp.goal.bounded c hc)

/-- The consequences of all executed operators hold. -/
theorem WellFormed.holds_whenever_iff (hp : p.WellFormed) {conditions : Operator → List Condition}
    (hconditions : ∀ o ∈ p.operators, ∀ c ∈ conditions o, c.fluent < p.nFluents) {other : Nat} :
    (∀ k ∈ p.operators.map fun o =>
        Constraint.whenever o.id step ((conditions o).map (.ofCondition other)), k.Holds w) ↔
      ∀ o ∈ p.operators, o.id ∈ w.executed p step →
        ∀ c ∈ conditions o, c.holds (w.layer p.nFluents other) = true := by
  rw [List.forall_mem_map]
  refine forall₂_congr fun o ho => ?_
  have hexec : w (.operator o.id step) = true ↔ o.id ∈ w.executed p step :=
    (and_iff_right (hp.id_lt ho)).symm
  rw [Constraint.Holds, hexec, List.forall_mem_map]
  exact imp_congr_right fun _ => forall₂_congr fun c hc =>
    Interpretation.holds_ofCondition (hconditions o ho c hc)

/-- Some executed operator has the condition among its effects. -/
def Causes (p : Problem) (executed : Set Nat) (c : Condition) : Prop :=
  ∃ o ∈ p.operators, o.id ∈ executed ∧ c ∈ o.effects

private theorem WellFormed.exists_executed_producer_iff (hp : p.WellFormed) {c : Condition} :
    (∃ a ∈ (p.producers c).map (Assertion.executed step true), a.Holds w) ↔
      p.Causes (w.executed p step) c := by
  constructor
  · rintro ⟨a, ha, hexec⟩
    obtain ⟨i, hi, rfl⟩ := List.mem_map.mp ha
    obtain ⟨o, ho, hc⟩ := hp.mem_producers.mp hi
    obtain rfl := hp.id_eq ho
    have hmem := hp.mem_operators_iff.mpr ho
    exact ⟨o, hmem, ⟨hp.id_lt hmem, hexec⟩, hc⟩
  · rintro ⟨o, ho, hexec, hc⟩
    have hi : o.id ∈ p.producers c := hp.mem_producers.mpr ⟨o, hp.mem_operators_iff.mp ho, hc⟩
    exact ⟨.executed step true o.id, List.mem_map_of_mem hi, hexec.2⟩

/-- A condition that becomes true at the next step has a cause. -/
def causeConstraint (p : Problem) (step : Nat) (c : Condition) : Constraint :=
  .oneOf (.ofCondition step c :: .ofCondition (step + 1) c.negate
    :: (p.producers c).map (.executed step true))

/-- The two constraints about a fluent are one and the same for its two conditions. -/
theorem frameConstraints_changers : frameConstraints (changers p) step =
    (List.range p.nFluents).flatMap fun f =>
      [p.causeConstraint step ⟨f, false⟩, p.causeConstraint step ⟨f, true⟩] := by
  rw [frameConstraints, changers, List.flatMap_map]
  rfl

private theorem WellFormed.holds_causeConstraint_iff (hp : p.WellFormed) {c : Condition}
    (hc : c.fluent < p.nFluents) :
    (p.causeConstraint step c).Holds w ↔ (¬ c.holds (w.layer p.nFluents step) = true →
      c.holds (w.layer p.nFluents (step + 1)) = true → p.Causes (w.executed p step) c) := by
  have hneg : c.negate.fluent < p.nFluents := hc
  rw [causeConstraint, Constraint.Holds]
  simp only [List.mem_cons, exists_eq_or_imp, hp.exists_executed_producer_iff,
    Interpretation.holds_ofCondition hc, Interpretation.holds_ofCondition hneg,
    Interpretation.holds_negate_layer hc]
  tauto

/-- Every change from a layer to the next one has a cause. -/
theorem WellFormed.holds_frameConstraints_iff (hp : p.WellFormed) :
    (∀ k ∈ frameConstraints (changers p) step, k.Holds w) ↔
      ∀ c : Condition, c.fluent < p.nFluents → ¬ c.holds (w.layer p.nFluents step) = true →
        c.holds (w.layer p.nFluents (step + 1)) = true → p.Causes (w.executed p step) c := by
  rw [frameConstraints_changers, List.forall_mem_flatMap]
  constructor
  · rintro h ⟨f, polarity⟩ hf
    refine (hp.holds_causeConstraint_iff hf).mp (h f (List.mem_range.mpr hf) _ ?_)
    cases polarity <;> simp
  · intro h f hf k hk
    have hf := List.mem_range.mp hf
    rcases List.mem_cons.mp hk with rfl | hk
    · exact (hp.holds_causeConstraint_iff hf).mpr (h _ hf)
    · obtain rfl := List.mem_singleton.mp hk
      exact (hp.holds_causeConstraint_iff hf).mpr (h _ hf)

/-- Of two interfering operators one is not executed. -/
theorem WellFormed.holds_exclusionConstraints_iff (hp : p.WellFormed) :
    (∀ k ∈ exclusionConstraints p.interferingPairs step, k.Holds w) ↔
      ∀ a ∈ p.operators, ∀ b ∈ p.operators, a.id ∈ w.executed p step → b.id ∈ w.executed p step →
        a.interferes b = false := by
  have hpair : ∀ i j, (Constraint.oneOf [.executed step false i, .executed step false j]).Holds w ↔
      ¬ (w (.operator i step) = true ∧ w (.operator j step) = true) := by
    intro i j
    simp only [Constraint.Holds, Assertion.Holds, Assertion.executed, List.mem_cons,
      List.not_mem_nil, or_false, exists_eq_or_imp, exists_eq_left]
    cases w (.operator i step) <;> cases w (.operator j step) <;> simp
  rw [exclusionConstraints, List.forall_mem_map]
  simp only [hpair, Prod.forall, hp.mem_interferingPairs]
  constructor
  · intro h
    -- The pairs name the smaller number first; interference is mutual.
    have hordered : ∀ a ∈ p.operators, ∀ b ∈ p.operators, a.id < b.id →
        a.id ∈ w.executed p step → b.id ∈ w.executed p step → a.interferes b = false := by
      intro a ha b hb hlt hexeca hexecb
      rw [hp.mem_operators_iff] at ha hb
      by_contra hinterferes
      rw [Bool.not_eq_false] at hinterferes
      exact h a.id b.id ⟨hlt, a, b, ha, hb, hinterferes⟩ ⟨hexeca.2, hexecb.2⟩
    intro a ha b hb hexeca hexecb
    rcases Nat.lt_trichotomy a.id b.id with hlt | heq | hlt
    · exact hordered a ha b hb hlt hexeca hexecb
    · simp [Operator.interferes, heq]
    · rw [Operator.interferes_comm (hp.operators a ha) (hp.operators b hb)]
      exact hordered b hb a ha hlt hexecb hexeca
  · rintro h i j ⟨-, a, b, ha, hb, hinterferes⟩ ⟨hi, hj⟩
    obtain rfl := hp.id_eq ha
    obtain rfl := hp.id_eq hb
    rw [← hp.mem_operators_iff] at ha hb
    simp [h a ha b hb ⟨hp.id_lt ha, hi⟩ ⟨hp.id_lt hb, hj⟩] at hinterferes

/-- Where all effects are achieved, every change has a cause exactly when the fluents without an
effect keep their values. -/
theorem forall_causes_iff {executed : Set Nat} {s t : State} (ht : t.size = p.nFluents)
    (hachieved : ∀ o ∈ p.operators, o.id ∈ executed → ∀ c ∈ o.effects, c.holds t = true) :
    (∀ c : Condition, c.fluent < p.nFluents → ¬ c.holds s = true → c.holds t = true →
        p.Causes executed c) ↔
      ∀ f < p.nFluents, (∀ o ∈ p.operators, o.id ∈ executed → ∀ c ∈ o.effects, c.fluent ≠ f) →
        t[f]? = s[f]? := by
  constructor
  · intro hcaused f hf huntouched
    have hvalue : t[f]? = some t[f] := Array.getElem?_eq_getElem (ht ▸ hf)
    by_contra hchange
    -- The new value of the fluent has a cause.
    obtain ⟨o, ho, hexec, hc⟩ := hcaused ⟨f, t[f]⟩ hf
      (fun h => hchange (hvalue.trans (Condition.holds_iff.mp h).symm))
      (Condition.holds_iff.mpr hvalue)
    exact huntouched o ho hexec _ hc rfl
  · intro hkept c hc hbefore hafter
    by_contra hnone
    -- Without a cause no executed operator has an effect on the fluent, so it keeps its value.
    have huntouched :
        ∀ o ∈ p.operators, o.id ∈ executed → ∀ d ∈ o.effects, d.fluent ≠ c.fluent := by
      intro o ho hexec d hd hf
      have hholds := hachieved o ho hexec d hd
      rw [Condition.holds_iff, hf, Condition.holds_iff.mp hafter, Option.some.injEq] at hholds
      have heq : d = c :=
        Condition.rank_injective (by rw [Condition.rank, Condition.rank, hf, hholds])
      exact hnone ⟨o, ho, hexec, heq ▸ hd⟩
    rw [Condition.holds_iff, hkept c.fluent hc huntouched, ← Condition.holds_iff] at hafter
    exact hbefore hafter

/-- The constraints about a step say that its layer leads to the next one. -/
theorem WellFormed.holds_stepConstraints_iff (hp : p.WellFormed) :
    (∀ k ∈ stepConstraints p (changers p) p.interferingPairs step, k.Holds w) ↔
      p.Moves (w.executed p step) (w.layer p.nFluents step) (w.layer p.nFluents (step + 1)) := by
  have hsize : (w.layer p.nFluents (step + 1)).size = p.nFluents := Interpretation.size_layer
  simp only [stepConstraints, List.forall_mem_append, hp.holds_frameConstraints_iff,
    hp.holds_exclusionConstraints_iff]
  rw [preconditionConstraints, effectConstraints,
    hp.holds_whenever_iff fun o ho => (hp.operators o ho).preconditions.bounded,
    hp.holds_whenever_iff fun o ho => (hp.operators o ho).effects.bounded]
  constructor
  · rintro ⟨⟨⟨happlicable, hachieved⟩, hcaused⟩, hcompatible⟩
    exact ⟨fun i hi => hi.1, fun o ho hexec => List.all_eq_true.mpr (happlicable o ho hexec),
      hcompatible, hachieved, (forall_causes_iff hsize hachieved).mp hcaused, hsize⟩
  · intro h
    exact ⟨⟨⟨fun o ho hexec => List.all_eq_true.mp (h.applicable o ho hexec), h.achieved⟩,
      (forall_causes_iff hsize h.achieved).mpr h.kept⟩, h.compatible⟩

/-- The constraints of a horizon say that the layers are a trajectory to the goal. -/
theorem WellFormed.holds_constraints_iff (hp : p.WellFormed) :
    (∀ k ∈ constraints p horizon, k.Holds w) ↔
      w.layer p.nFluents 0 = p.initial ∧ p.goalHolds (w.layer p.nFluents horizon) = true ∧
        ∀ step < horizon, p.Moves (w.executed p step) (w.layer p.nFluents step)
          (w.layer p.nFluents (step + 1)) := by
  simp only [constraints, List.forall_mem_append, hp.holds_initialConstraints_iff,
    hp.holds_goalConstraints_iff, and_assoc, List.forall_mem_flatMap, List.mem_range,
    hp.holds_stepConstraints_iff]

end Problem

end HorizonPlanner
