import HorizonPlanner.Plan.Validation
import HorizonPlanner.Proofs.Interference
import HorizonPlanner.Proofs.Traversal
import Mathlib.Data.Set.Basic

/-!
# Moves

A move leads from one state to another by executing a set of operators together. It is described by
what has to hold before and after it, without an order of the operators. The execution of a step of
a plan succeeds exactly where there is such a move, and gives the state it leads to.
-/

namespace HorizonPlanner

/-! ### Effects applied one after the other -/

namespace Condition

/-- A condition holds if its fluent has the value it asks for. -/
theorem holds_iff {c : Condition} {s : State} :
    c.holds s = true ↔ s[c.fluent]? = some c.polarity := by
  simp [holds]

@[simp] private theorem size_establish (s : State) (c : Condition) :
    (establish s c).size = s.size := by
  simp [establish]

/-- An established condition holds. -/
theorem holds_establish {s : State} {c : Condition} (hc : c.fluent < s.size) :
    c.holds (establish s c) = true := by
  simp [holds_iff, establish, hc]

/-- Establishing a condition leaves the other fluents as they are. -/
theorem getElem?_establish_of_ne {s : State} {c : Condition} {f : Nat} (hf : c.fluent ≠ f) :
    (establish s c)[f]? = s[f]? := by
  simp [establish, Array.getElem?_setIfInBounds_ne hf]

/-- Establishing conditions adds and removes no fluents. -/
@[simp] theorem size_foldl_establish (cs : List Condition) (s : State) :
    (cs.foldl establish s).size = s.size := by
  induction cs generalizing s with
  | nil => rfl
  | cons c rest ih => simp [ih]

/-- A fluent that no condition is about keeps its value. -/
theorem getElem?_foldl_establish_of_ne {cs : List Condition} {s : State} {f : Nat}
    (hf : ∀ c ∈ cs, c.fluent ≠ f) : (cs.foldl establish s)[f]? = s[f]? := by
  induction cs generalizing s with
  | nil => rfl
  | cons c rest ih =>
    rw [List.foldl_cons, ih fun d hd => hf d (by simp [hd])]
    exact getElem?_establish_of_ne (hf c (by simp))

/-- Conditions of which no two disagree all hold after they were established. -/
theorem holds_foldl_establish (cs : List Condition) {s : State}
    (hagree : ∀ c ∈ cs, ∀ d ∈ cs, c.fluent = d.fluent → c = d)
    (hsize : ∀ c ∈ cs, c.fluent < s.size) : ∀ c ∈ cs, c.holds (cs.foldl establish s) = true := by
  induction cs generalizing s with
  | nil => simp
  | cons d rest ih =>
    have hrest : ∀ c ∈ rest, c.holds (rest.foldl establish (establish s d)) = true :=
      ih (fun c hc e he => hagree c (by simp [hc]) e (by simp [he]))
        (fun c hc => by simpa using hsize c (by simp [hc]))
    intro c hc
    rw [List.foldl_cons]
    by_cases hlater : c ∈ rest
    · exact hrest c hlater
    · -- Here `c` is the first condition, and no later one is about its fluent.
      obtain rfl : c = d := by simpa [hlater] using hc
      rw [holds_iff, getElem?_foldl_establish_of_ne, ← holds_iff]
      · exact holds_establish (hsize c hc)
      · intro e he heq
        exact hlater (hagree e (by simp [he]) c hc heq ▸ he)

end Condition

namespace Plan

private theorem applyAll_eq_foldl (operators : List Operator) (s : State) :
    applyAll operators s = (operators.flatMap (·.effects)).foldl Condition.establish s := by
  rw [List.foldl_flatMap]
  rfl

/-- No pair of interfering operators is found exactly when every two of them are compatible. -/
theorem interference?_eq_none_iff {operators : List Operator} :
    interference? operators = none ↔ operators.Pairwise fun a b => a.interferes b = false := by
  induction operators with
  | nil => simp [interference?]
  | cons a rest ih =>
    rw [List.pairwise_cons, ← ih, interference?]
    cases hfind : rest.find? a.interferes with
    | none =>
      simp only [List.find?_eq_none, Bool.not_eq_true] at hfind
      exact ⟨fun h => ⟨hfind, h⟩, fun h => h.2⟩
    | some b =>
      have hb := List.find?_some hfind
      have hmem := List.mem_of_find?_eq_some hfind
      refine ⟨fun h => (by cases h), fun h => ?_⟩
      simp [h.1 b hmem] at hb

/-- What a successful execution of a step has checked, and where it ends. -/
theorem executeStep_eq_ok {p : Problem} {step : PlanStep} {s t : State} :
    executeStep p step s = .ok t ↔ ∃ operators, step.resolve p = .ok operators ∧
      (∀ o ∈ operators, o.applicable s = true) ∧
      operators.Pairwise (fun a b => a.interferes b = false) ∧ applyAll operators s = t := by
  unfold executeStep
  cases hresolve : step.resolve p with
  | error v => simp
  | ok operators =>
    simp only [Except.ok.injEq, exists_eq_left', ← interference?_eq_none_iff]
    cases hfind : operators.find? fun o => !o.applicable s with
    | some o =>
      have ho := List.find?_some hfind
      have hmem := List.mem_of_find?_eq_some hfind
      refine ⟨fun h => (by cases h), fun h => ?_⟩
      simp [h.1 o hmem] at ho
    | none =>
      have happlicable : ∀ o ∈ operators, o.applicable s = true := by simpa using hfind
      cases interference? operators with
      | some x => simp
      | none =>
        refine ⟨fun h => ⟨happlicable, rfl, ?_⟩, fun h => ?_⟩
        · cases h
          rfl
        · rw [h.2.2]

end Plan

/-! ### Moves -/

namespace Problem

/-- Executing the operators with these numbers together leads from one state to another. -/
structure Moves (p : Problem) (executed : Set Nat) (s t : State) : Prop where
  /-- Only operators of the problem are executed. -/
  lt : ∀ i ∈ executed, i < p.nOperators
  /-- All executed operators are applicable. -/
  applicable : ∀ o ∈ p.operators, o.id ∈ executed → o.applicable s = true
  /-- No two executed operators interfere. -/
  compatible : ∀ a ∈ p.operators, ∀ b ∈ p.operators, a.id ∈ executed → b.id ∈ executed →
    a.interferes b = false
  /-- All effects hold afterwards. -/
  achieved : ∀ o ∈ p.operators, o.id ∈ executed → ∀ c ∈ o.effects, c.holds t = true
  /-- A fluent without an effect keeps its value. -/
  kept : ∀ f < p.nFluents,
    (∀ o ∈ p.operators, o.id ∈ executed → ∀ c ∈ o.effects, c.fluent ≠ f) → t[f]? = s[f]?
  /-- The fluents afterwards are those of the problem. -/
  size_eq : t.size = p.nFluents

/-- Where nothing is executed, the state stays the same. -/
theorem moves_empty_iff {p : Problem} {s t : State} (hs : s.size = p.nFluents) :
    p.Moves ∅ s t ↔ s = t := by
  constructor
  · intro h
    refine Array.ext (hs.trans h.size_eq.symm) fun f hf hf' => ?_
    have := h.kept f (hs ▸ hf) (by simp)
    simpa [hf, hf'] using this.symm
  · rintro rfl
    exact ⟨by simp, by simp, by simp, by simp, fun _ _ _ => rfl, hs⟩

/-- Where a move leads is determined. -/
theorem Moves.eq_of_moves {p : Problem} {executed : Set Nat} {s t u : State}
    (ht : p.Moves executed s t) (hu : p.Moves executed s u) : t = u := by
  refine Array.ext (ht.size_eq.trans hu.size_eq.symm) fun f hft hfu => ?_
  have heq : t[f]? = u[f]? := by
    by_cases htouched : ∃ o ∈ p.operators, o.id ∈ executed ∧ ∃ c ∈ o.effects, c.fluent = f
    · obtain ⟨o, ho, hexec, c, hc, rfl⟩ := htouched
      rw [Condition.holds_iff.mp (ht.achieved o ho hexec c hc),
        Condition.holds_iff.mp (hu.achieved o ho hexec c hc)]
    · push Not at htouched
      have hf : f < p.nFluents := ht.size_eq ▸ hft
      rw [ht.kept f hf htouched, hu.kept f hf htouched]
  simpa [hft, hfu] using heq

/-- The operators of a step are those with its numbers. -/
theorem WellFormed.mem_of_resolve {p : Problem} (hp : p.WellFormed) {step : PlanStep}
    {operators : List Operator} (h : step.resolve p = .ok operators) {o : Operator} :
    o ∈ operators ↔ o ∈ p.operators ∧ o.id ∈ step.operators := by
  rw [mem_of_mapM_eq_ok h, hp.mem_operators_iff]
  simp only [operatorById_eq_ok]
  constructor
  · rintro ⟨i, hi, ho⟩
    obtain rfl := hp.id_eq ho
    exact ⟨ho, hi⟩
  · rintro ⟨ho, hi⟩
    exact ⟨o.id, hi, ho⟩

/-- Resolving the numbers of a step gives operators with these numbers. -/
theorem WellFormed.map_id_of_resolve {p : Problem} (hp : p.WellFormed) {step : PlanStep}
    {operators : List Operator} (h : step.resolve p = .ok operators) :
    operators.map (·.id) = step.operators := by
  rw [PlanStep.resolve, mapM_eq_ok_iff] at h
  generalize step.operators = is at h
  induction h with
  | nil => rfl
  | cons ho _ ih => rw [List.map_cons, ih, hp.id_eq (operatorById_eq_ok.mp ho)]

/-- The numbers of a step can be resolved exactly when all of them exist. -/
theorem exists_resolve_iff {p : Problem} {step : PlanStep} :
    (∃ operators, step.resolve p = .ok operators) ↔ ∀ i ∈ step.operators, i < p.nOperators := by
  unfold PlanStep.resolve
  rw [exists_mapM_eq_ok_iff]
  exact forall₂_congr fun i _ => exists_operatorById_iff

/-- Compatible operators of a step do not disagree about a fluent. -/
theorem WellFormed.eq_of_compatible {p : Problem} (hp : p.WellFormed) {a b : Operator}
    (ha : a ∈ p.operators) (hb : b ∈ p.operators) (hab : a.interferes b = false) {c d : Condition}
    (hc : c ∈ a.effects) (hd : d ∈ b.effects) (hf : c.fluent = d.fluent) : c = d := by
  have hwa := hp.operators a ha
  have hwb := hp.operators b hb
  by_cases hid : a.id = b.id
  · rw [hp.mem_operators_iff, hid] at ha
    rw [hp.mem_operators_iff, ha, Option.some.injEq] at hb
    subst hb
    exact hwa.effects.eq_of_fluent_eq hc hd hf
  · rcases Condition.eq_or_eq_negate hf with h | rfl
    · exact h
    · have hopp : b.Opposes a := ⟨d, hd, .inr hc⟩
      simp [(Operator.interferes_iff hwa hwb).mpr ⟨hid, .inr hopp⟩] at hab

/-- Applying compatible operators one after the other is a move. -/
theorem WellFormed.moves_applyAll {p : Problem} (hp : p.WellFormed) {executed : Set Nat}
    {operators : List Operator} {s : State} (hs : s.size = p.nFluents)
    (hlt : ∀ i ∈ executed, i < p.nOperators)
    (hmem : ∀ o, o ∈ operators ↔ o ∈ p.operators ∧ o.id ∈ executed)
    (happlicable : ∀ o ∈ operators, o.applicable s = true)
    (hcompatible : ∀ a ∈ operators, ∀ b ∈ operators, a.interferes b = false) :
    p.Moves executed s (Plan.applyAll operators s) := by
  rw [Plan.applyAll_eq_foldl]
  have hholds := Condition.holds_foldl_establish (operators.flatMap (·.effects)) (s := s)
    (fun c hc d hd hf => by
      obtain ⟨a, ha, hc⟩ := List.mem_flatMap.mp hc
      obtain ⟨b, hb, hd⟩ := List.mem_flatMap.mp hd
      exact hp.eq_of_compatible ((hmem a).mp ha).1 ((hmem b).mp hb).1 (hcompatible a ha b hb)
        hc hd hf)
    (fun c hc => by
      obtain ⟨a, ha, hc⟩ := List.mem_flatMap.mp hc
      exact hs ▸ (hp.operators a ((hmem a).mp ha).1).effects.bounded c hc)
  refine ⟨hlt, ?_, ?_, ?_, ?_, ?_⟩
  · intro o ho hexec
    exact happlicable o ((hmem o).mpr ⟨ho, hexec⟩)
  · intro a ha b hb hexeca hexecb
    exact hcompatible a ((hmem a).mpr ⟨ha, hexeca⟩) b ((hmem b).mpr ⟨hb, hexecb⟩)
  · intro o ho hexec c hc
    exact hholds c (List.mem_flatMap.mpr ⟨o, (hmem o).mpr ⟨ho, hexec⟩, hc⟩)
  · intro f _ hf
    refine Condition.getElem?_foldl_establish_of_ne fun c hc => ?_
    obtain ⟨a, ha, hc⟩ := List.mem_flatMap.mp hc
    exact hf a ((hmem a).mp ha).1 ((hmem a).mp ha).2 c hc
  · rw [Condition.size_foldl_establish, hs]

/-- A step is executed exactly where there is a move with its operators. -/
theorem WellFormed.executeStep_iff {p : Problem} (hp : p.WellFormed) {step : PlanStep}
    {s t : State} (hs : s.size = p.nFluents) :
    Plan.executeStep p step s = .ok t ↔ p.Moves {i | i ∈ step.operators} s t := by
  rw [Plan.executeStep_eq_ok]
  constructor
  · rintro ⟨operators, hresolve, happlicable, hpairwise, rfl⟩
    have hmem := fun o => hp.mem_of_resolve hresolve (o := o)
    have hflip : operators.Pairwise (flip fun a b => a.interferes b = false) := by
      refine hpairwise.imp_of_mem fun {a b} ha hb h => ?_
      have hwa := hp.operators a ((hmem a).mp ha).1
      have hwb := hp.operators b ((hmem b).mp hb).1
      rwa [flip, Operator.interferes_comm hwb hwa]
    have hcompatible : ∀ a ∈ operators, ∀ b ∈ operators, a.interferes b = false :=
      fun a ha b hb => hpairwise.forall_of_forall_of_flip
        (fun a _ => by simp [Operator.interferes]) hflip ha hb
    exact hp.moves_applyAll hs (exists_resolve_iff.mp ⟨operators, hresolve⟩) hmem happlicable
      hcompatible
  · intro h
    obtain ⟨operators, hresolve⟩ := exists_resolve_iff.mpr h.lt
    have hmem := fun o => hp.mem_of_resolve hresolve (o := o)
    have happlicable : ∀ o ∈ operators, o.applicable s = true := fun o ho =>
      h.applicable o ((hmem o).mp ho).1 ((hmem o).mp ho).2
    have hcompatible : ∀ a ∈ operators, ∀ b ∈ operators, a.interferes b = false :=
      fun a ha b hb => h.compatible a ((hmem a).mp ha).1 b ((hmem b).mp hb).1
        ((hmem a).mp ha).2 ((hmem b).mp hb).2
    exact ⟨operators, hresolve, happlicable, List.pairwise_of_forall_mem_list hcompatible,
      (hp.moves_applyAll hs h.lt hmem happlicable hcompatible).eq_of_moves h⟩

end Problem

end HorizonPlanner
