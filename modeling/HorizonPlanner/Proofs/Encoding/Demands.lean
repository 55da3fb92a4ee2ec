import HorizonPlanner.Proofs.Encoding.Layers
import Mathlib.Data.List.Nodup

/-!
# What the clauses of a formula demand

Every clause of a formula makes one demand on the plans: a fluent has a value, an operator has a
consequence, a change has a cause, or two operators exclude each other. A demand can be told from
the assertions of its clause, and all demands are different, except that at horizon zero a goal may
be what the initial state demands already.
-/

namespace HorizonPlanner.Encoding

namespace Assertion

variable {s s' i i' : Nat} {b c : Condition} {value value' : Bool}

/-- The assertion of a condition determines the condition and the step. -/
@[simp] theorem ofCondition_inj : ofCondition s b = ofCondition s' c ↔ s = s' ∧ b = c := by
  obtain ⟨f, x⟩ := b
  obtain ⟨g, y⟩ := c
  simp only [ofCondition, mk.injEq, Proposition.fluent.injEq, Condition.mk.injEq]
  tauto

@[simp] private theorem executed_inj :
    executed s value i = executed s' value' i' ↔ s = s' ∧ value = value' ∧ i = i' := by
  simp only [executed, mk.injEq, Proposition.operator.injEq]
  tauto

@[simp] private theorem ofCondition_ne_executed : ofCondition s b ≠ executed s' value i := by
  simp [ofCondition, executed]

@[simp] private theorem executed_ne_ofCondition : executed s value i ≠ ofCondition s' b :=
  ofCondition_ne_executed.symm

end Assertion

/-- What a clause demands. -/
inductive Demand
  /-- A condition holds at a step. -/
  | value (step : Nat) (condition : Condition)
  /-- If the operator is executed at the step, the condition holds at the other step. -/
  | consequence (step operator other : Nat) (condition : Condition)
  /-- A condition that becomes true behind the step has a cause. -/
  | cause (step : Nat) (condition : Condition)
  /-- Of two operators, one is not executed at the step. -/
  | exclusion (step first second : Nat)
  deriving DecidableEq, Repr

namespace Demand

/-- The assertions one of which the demand wants to be true. -/
def assertions (p : Problem) : Demand → List Assertion
  | .value step c => [.ofCondition step c]
  | .consequence step operator other c => [.executed step false operator, .ofCondition other c]
  | .cause step c => .ofCondition step c :: .ofCondition (step + 1) c.negate
      :: (p.producers c).map (.executed step true)
  | .exclusion step first second => [.executed step false first, .executed step false second]

/-- The step a demand is about, the first one if there are two. -/
def step : Demand → Nat
  | .value step _ | .consequence step _ _ _ | .cause step _ | .exclusion step _ _ => step

/-- The fluent or the operator a demand is about in the first place. -/
def subject : Demand → Nat
  | .value _ c | .cause _ c => c.fluent
  | .consequence _ operator _ _ => operator
  | .exclusion _ first _ => first

/-- An exclusion names the smaller operator first. -/
def Ordered : Demand → Prop
  | .exclusion _ first second => first < second
  | _ => True

variable {p : Problem} {d e : Demand} {s : Nat}

/-- The conditions a demand asserts at a step. -/
def Asserts : Demand → Nat → Condition → Prop
  | .value step c, s, b => s = step ∧ b = c
  | .consequence _ _ other c, s, b => s = other ∧ b = c
  | .cause step c, s, b => s = step ∧ b = c ∨ s = step + 1 ∧ b = c.negate
  | .exclusion _ _ _, _, _ => False

/-- The operators a demand wants not to be executed at a step. -/
def Excludes : Demand → Nat → Nat → Prop
  | .consequence step operator _ _, s, i => s = step ∧ i = operator
  | .exclusion step first second, s, i => s = step ∧ (i = first ∨ i = second)
  | _, _, _ => False

private theorem ofCondition_mem_assertions_iff {b : Condition} :
    .ofCondition s b ∈ d.assertions p ↔ d.Asserts s b := by
  cases d <;> simp [assertions, Asserts]

private theorem executed_mem_assertions_iff {i : Nat} :
    .executed s false i ∈ d.assertions p ↔ d.Excludes s i := by
  cases d <;> simp [assertions, Excludes, and_or_left]

/-- A demand is determined by what it asserts and excludes. -/
theorem eq_of_asserts_iff (hd : d.Ordered) (he : e.Ordered)
    (hasserts : ∀ s b, d.Asserts s b ↔ e.Asserts s b)
    (hexcludes : ∀ s i, d.Excludes s i ↔ e.Excludes s i) : d = e := by
  cases d with
  | value step c =>
    have hc := (hasserts step c).mp ⟨rfl, rfl⟩
    cases e with
    | value step' c' =>
      obtain ⟨rfl, rfl⟩ := hc
      rfl
    | consequence step' operator other c' => exact ((hexcludes step' operator).mpr ⟨rfl, rfl⟩).elim
    | cause step' c' =>
      -- The condition would hold at two different steps.
      have hnow := (hasserts step' c').mpr (.inl ⟨rfl, rfl⟩)
      have hnext := (hasserts (step' + 1) c'.negate).mpr (.inr ⟨rfl, rfl⟩)
      have heq : step' + 1 = step' := hnext.1.trans hnow.1.symm
      omega
    | exclusion step' first second => exact hc.elim
  | consequence step operator other c =>
    have hc := (hasserts other c).mp ⟨rfl, rfl⟩
    have ho := (hexcludes step operator).mp ⟨rfl, rfl⟩
    cases e with
    | value step' c' => exact ho.elim
    | consequence step' operator' other' c' =>
      obtain ⟨rfl, rfl⟩ := hc
      obtain ⟨rfl, rfl⟩ := ho
      rfl
    | cause step' c' => exact ho.elim
    | exclusion step' first second => exact hc.elim
  | cause step c =>
    have hnow := (hasserts step c).mp (.inl ⟨rfl, rfl⟩)
    have hnext := (hasserts (step + 1) c.negate).mp (.inr ⟨rfl, rfl⟩)
    cases e with
    | value step' c' =>
      have heq : step + 1 = step := hnext.1.trans hnow.1.symm
      omega
    | consequence step' operator other c' => exact ((hexcludes step' operator).mpr ⟨rfl, rfl⟩).elim
    | cause step' c' =>
      rcases hnow with ⟨rfl, rfl⟩ | ⟨rfl, rfl⟩
      · rfl
      · rcases hnext with ⟨heq, -⟩ | ⟨heq, -⟩ <;> omega
    | exclusion step' first second => exact hnow.elim
  | exclusion step first second =>
    have hfirst := (hexcludes step first).mp ⟨rfl, .inl rfl⟩
    have hsecond := (hexcludes step second).mp ⟨rfl, .inr rfl⟩
    cases e with
    | value step' c' => exact hfirst.elim
    | consequence step' operator other c' => exact ((hasserts other c').mpr ⟨rfl, rfl⟩).elim
    | cause step' c' => exact hfirst.elim
    | exclusion step' first' second' =>
      obtain ⟨rfl, hfirst⟩ := hfirst
      have hlt : first < second := hd
      have hlt' : first' < second' := he
      obtain ⟨rfl, rfl⟩ : first = first' ∧ second = second' := by
        have hsecond := hsecond.2
        omega
      rfl

/-- A demand is determined by the assertions of its clause. -/
theorem eq_of_mem_assertions_iff (hd : d.Ordered) (he : e.Ordered)
    (h : ∀ a, a ∈ d.assertions p ↔ a ∈ e.assertions p) : d = e := by
  apply eq_of_asserts_iff hd he
  · intro s b
    rw [← ofCondition_mem_assertions_iff, h, ofCondition_mem_assertions_iff]
  · intro s i
    rw [← executed_mem_assertions_iff, h, executed_mem_assertions_iff]

end Demand

/-- The assertions of the clauses of a constraint. -/
def Constraint.lines : Constraint → List (List Assertion)
  | .always a => [[a]]
  | .whenever operator step consequences =>
    consequences.map fun a => [.executed step false operator, a]
  | .oneOf assertions => [assertions]

end HorizonPlanner.Encoding

namespace HorizonPlanner.Problem

open HorizonPlanner.Encoding

variable {p : Problem} {horizon step : Nat}

/-- The conditions that hold in the initial state. -/
def initialConditions (p : Problem) : List Condition :=
  p.initial.toList.zipIdx.map fun e => ⟨e.2, e.1⟩

/-- The demands on one time step. -/
def stepDemands (p : Problem) (step : Nat) : List Demand :=
  (p.operators.flatMap fun o => o.preconditions.map (.consequence step o.id step)) ++
    (p.operators.flatMap fun o => o.effects.map (.consequence step o.id (step + 1))) ++
    ((List.range p.nFluents).flatMap fun f => [.cause step ⟨f, false⟩, .cause step ⟨f, true⟩]) ++
    p.interferingPairs.map fun x => .exclusion step x.1 x.2

/-- All demands on the plans of a horizon, in the order of their clauses. -/
def demands (p : Problem) (horizon : Nat) : List Demand :=
  p.initialConditions.map (.value 0) ++ p.goal.map (.value horizon) ++
    (List.range horizon).flatMap p.stepDemands

/-- Constraints with one clause each have the demands of these clauses. -/
theorem flatMap_lines_map {α : Type} {f : α → Constraint} {g : α → Demand}
    (h : ∀ x, (f x).lines = [(g x).assertions p]) (xs : List α) :
    (xs.map f).flatMap Constraint.lines = (xs.map g).map (Demand.assertions p) := by
  rw [List.flatMap_map, List.map_map, List.map_eq_flatMap]
  exact congrArg (xs.flatMap ·) (funext h)

private theorem lines_stepConstraints (p : Problem) (step : Nat) :
    (stepConstraints p (changers p) p.interferingPairs step).flatMap Constraint.lines =
      (p.stepDemands step).map (Demand.assertions p) := by
  have hexclusions : (exclusionConstraints p.interferingPairs step).flatMap Constraint.lines =
      (p.interferingPairs.map fun x => Demand.exclusion step x.1 x.2).map (Demand.assertions p) :=
    flatMap_lines_map (fun _ => rfl) _
  rw [stepConstraints, frameConstraints_changers, List.flatMap_append, hexclusions,
    stepDemands, List.map_append]
  simp only [preconditionConstraints, effectConstraints, List.flatMap_append,
    List.map_append, List.flatMap_map, List.map_flatMap, List.map_map, List.flatMap_assoc,
    Constraint.lines]
  rfl

/-- The clauses of the constraints on the plans of a horizon make the demands, one each. -/
theorem lines_constraints (p : Problem) (horizon : Nat) :
    (constraints p horizon).flatMap Constraint.lines = (p.demands horizon).map
      (Demand.assertions p) := by
  have hinitial : (initialConstraints p).flatMap Constraint.lines =
      (p.initialConditions.map (Demand.value 0)).map (Demand.assertions p) := by
    have hvalues : p.initialConditions.map (Demand.value 0) =
        p.initial.toList.zipIdx.map fun e => Demand.value 0 ⟨e.2, e.1⟩ := List.map_map
    rw [hvalues]
    exact flatMap_lines_map (fun _ => rfl) _
  have hgoal : (goalConstraints p horizon).flatMap Constraint.lines =
      (p.goal.map (Demand.value horizon)).map (Demand.assertions p) :=
    flatMap_lines_map (fun _ => rfl) _
  simp only [constraints, demands, List.flatMap_append, List.map_append,
    hinitial, hgoal, List.flatMap_assoc, lines_stepConstraints, List.map_flatMap]

/-! ### Assertions about different propositions -/

/-- The numbers of the operators are their positions. -/
theorem WellFormed.map_id (hp : p.WellFormed) :
    p.operators.map (·.id) = List.range p.nOperators := by
  apply List.ext_getElem
  · simp [nOperators]
  · intro i hi hi'
    rw [List.getElem_map, List.getElem_range]
    exact hp.id_eq (List.getElem?_eq_getElem _)

private theorem WellFormed.nodup_id (hp : p.WellFormed) : (p.operators.map (·.id)).Nodup := by
  rw [hp.map_id]
  exact List.nodup_range

private theorem WellFormed.nodup_producers (hp : p.WellFormed) (c : Condition) :
    (p.producers c).Nodup :=
  hp.nodup_id.sublist (List.filter_sublist.map _)

/-- No clause has two assertions about one proposition. -/
theorem WellFormed.nodup_propositions (hp : p.WellFormed) {d : Demand} (hd : d.Ordered) :
    ((d.assertions p).map Assertion.proposition).Nodup := by
  cases d with
  | value s c => exact List.nodup_singleton _
  | consequence s operator other c =>
      simp [Demand.assertions, Assertion.executed, Assertion.ofCondition]
  | cause s c =>
    have hproducers : ((p.producers c).map fun i => Proposition.operator i s).Nodup :=
      (hp.nodup_producers c).map fun i j h => by simpa using h
    simpa [Demand.assertions, Assertion.executed, Assertion.ofCondition,
      Function.comp_def] using hproducers
  | exclusion s first second =>
    have hne : first ≠ second := Nat.ne_of_lt hd
    simpa [Demand.assertions, Assertion.executed] using hne

/-! ### The conditions of the initial state -/

/-- The initial conditions are those that hold in the initial state. -/
theorem mem_initialConditions {c : Condition} :
    c ∈ p.initialConditions ↔ c.holds p.initial = true := by
  rw [Condition.holds_iff, initialConditions, List.mem_map]
  simp only [Prod.exists, List.mem_zipIdx_iff_getElem?, Array.getElem?_toList]
  constructor
  · rintro ⟨value, f, hf, rfl⟩
    exact hf
  · intro hc
    exact ⟨c.polarity, c.fluent, hc, rfl⟩

/-- There is one initial condition for each fluent. -/
theorem WellFormed.length_initialConditions (hp : p.WellFormed) :
    p.initialConditions.length = p.nFluents := by
  rw [← hp.initial_size]
  simp [initialConditions]

/-- No initial condition occurs twice. -/
theorem nodup_initialConditions (p : Problem) : p.initialConditions.Nodup := by
  have hfluents : (p.initialConditions.map (·.fluent)).Nodup := by
    have hmap : p.initialConditions.map (·.fluent) = p.initial.toList.zipIdx.map Prod.snd :=
      List.map_map
    rw [hmap, List.zipIdx_map_snd]
    exact List.nodup_range'
  exact hfluents.of_map _

/-! ### Different demands -/

/-- Lists put one behind the other do not repeat an element if none of them does and the elements
tell the lists apart. -/
theorem nodup_flatMap_of_key {α β : Type} {f : α → List β} (index : α → Nat) (key : β → Nat)
    {xs : List α} (hindex : (xs.map index).Nodup) (hf : ∀ a ∈ xs, (f a).Nodup)
    (hkey : ∀ a ∈ xs, ∀ b ∈ f a, key b = index a) : (xs.flatMap f).Nodup := by
  rw [List.nodup_flatMap]
  refine ⟨hf, (List.pairwise_map.mp hindex).imp_of_mem fun {a a'} ha ha' hne => ?_⟩
  intro b hb hb'
  have heq : index a = index a' := by rw [← hkey a ha b hb, hkey a' ha' b hb']
  exact hne heq

/-- The demands for a list of conditions of every operator are different if the conditions are. -/
theorem WellFormed.nodup_consequences (hp : p.WellFormed) {conditions : Operator → List Condition}
    (step other : Nat) (h : ∀ o ∈ p.operators, (conditions o).Nodup) :
    (p.operators.flatMap fun o => (conditions o).map
      (Demand.consequence step o.id other)).Nodup := by
  refine nodup_flatMap_of_key (·.id) Demand.subject hp.nodup_id (fun o ho => ?_) fun o _ => ?_
  · exact (h o ho).map fun c c' heq => by simpa using heq
  · rw [List.forall_mem_map]
    exact fun _ _ => rfl

private theorem nodup_causes (p : Problem) :
    ((List.range p.nFluents).flatMap fun f =>
      [Demand.cause step ⟨f, false⟩, Demand.cause step ⟨f, true⟩]).Nodup := by
  refine nodup_flatMap_of_key id Demand.subject ?_ (fun f _ => by simp) fun f _ => ?_
  · rw [List.map_id]
    exact List.nodup_range
  · simp [Demand.subject]

private theorem nodup_exclusions (p : Problem) :
    (p.interferingPairs.map fun x => Demand.exclusion step x.1 x.2).Nodup := by
  have hpairs : p.interferingPairs.Nodup :=
    (pairwise_dropRepeats (pairwise_mergeSort_pairLe _)).imp fun hlt heq =>
      (ne_of_lt hlt) (congrArg toLex heq)
  exact hpairs.map fun x y heq => Prod.ext (by simp_all) (by simp_all)

private theorem step_of_mem_stepDemands {d : Demand} (hd : d ∈ p.stepDemands step) :
    d.step = step ∧ ∀ s c, d ≠ .value s c := by
  simp only [stepDemands, List.mem_append, List.mem_flatMap, List.mem_map,
    List.mem_cons, List.not_mem_nil, or_false] at hd
  rcases hd with ((⟨o, -, c, -, rfl⟩ | ⟨o, -, c, -, rfl⟩) | ⟨f, -, rfl | rfl⟩) | ⟨x, -, rfl⟩ <;>
    exact ⟨rfl, fun _ _ h => by cases h⟩

/-- The demands on one time step are different: those of one family by what they are about,
preconditions and effects by the steps of their conditions. -/
theorem WellFormed.nodup_stepDemands (hp : p.WellFormed) : (p.stepDemands step).Nodup := by
  have hpreconditions := hp.nodup_consequences step step fun o ho =>
    (hp.operators o ho).preconditions.nodup
  have heffects := hp.nodup_consequences step (step + 1) fun o ho =>
    (hp.operators o ho).effects.nodup
  rw [stepDemands]
  refine ((hpreconditions.append heffects ?_).append p.nodup_causes ?_).append p.nodup_exclusions ?_
  · intro d hd hd'
    simp only [List.mem_flatMap, List.mem_map] at hd hd'
    obtain ⟨o, -, c, -, rfl⟩ := hd
    obtain ⟨o', -, c', -, heq⟩ := hd'
    simp at heq
  · intro d hd hd'
    simp only [List.mem_append, List.mem_flatMap, List.mem_map, List.mem_cons,
      List.not_mem_nil, or_false] at hd hd'
    rcases hd' with ⟨f, -, rfl | rfl⟩ <;> simp at hd
  · intro d hd hd'
    simp only [List.mem_append, List.mem_flatMap, List.mem_map, List.mem_cons,
      List.not_mem_nil, or_false] at hd hd'
    obtain ⟨x, -, rfl⟩ := hd'
    simp at hd

/-- All demands are different, provided that at horizon zero the initial state does not make those
of the goal. -/
theorem WellFormed.nodup_demands (hp : p.WellFormed)
    (hgoal : ∀ c ∈ p.goal, horizon = 0 → c ∉ p.initialConditions) : (p.demands horizon).Nodup := by
  have hvalue : ∀ s, Function.Injective (Demand.value s) := fun s c c' h => by simpa using h
  have hsteps : ((List.range horizon).flatMap p.stepDemands).Nodup := by
    refine nodup_flatMap_of_key id Demand.step ?_ (fun _ _ => hp.nodup_stepDemands) fun s _ d hd =>
      ?_
    · rw [List.map_id]
      exact List.nodup_range
    · exact (step_of_mem_stepDemands hd).1
  refine ((p.nodup_initialConditions.map (hvalue 0)).append
    (hp.goal.nodup.map (hvalue horizon)) ?_).append hsteps ?_
  · intro d hd hd'
    obtain ⟨c, hc, rfl⟩ := List.mem_map.mp hd
    obtain ⟨c', hc', heq⟩ := List.mem_map.mp hd'
    obtain ⟨hzero, rfl⟩ := Demand.value.inj heq
    exact hgoal c' hc' hzero hc
  · intro d hd hd'
    obtain ⟨s, -, hd'⟩ := List.mem_flatMap.mp hd'
    rw [List.mem_append, List.mem_map, List.mem_map] at hd
    rcases hd with ⟨c, -, rfl⟩ | ⟨c, -, rfl⟩ <;> exact (step_of_mem_stepDemands hd').2 _ _ rfl

/-- All demands of a well-formed problem are in order. -/
theorem WellFormed.ordered_of_mem_demands (hp : p.WellFormed) :
    ∀ d ∈ p.demands horizon, d.Ordered := by
  intro d hd
  simp only [demands, stepDemands, List.mem_append, List.mem_flatMap, List.mem_map,
    List.mem_cons, List.not_mem_nil, or_false] at hd
  rcases hd with (⟨c, -, rfl⟩ | ⟨c, -, rfl⟩) |
    ⟨s, -, ((⟨o, -, c, -, rfl⟩ | ⟨o, -, c, -, rfl⟩) | ⟨f, -, rfl | rfl⟩) | ⟨⟨i, j⟩, hij, rfl⟩⟩
  all_goals try exact trivial
  exact (hp.mem_interferingPairs.mp hij).1

end HorizonPlanner.Problem
