import HorizonPlanner.Proofs.Solutions
import Mathlib.Data.List.Dedup

/-!
# Orders of execution

The operators of a step are executed together. They may as well be executed one at a time, in any
order: a plan solves a problem exactly when no order of the operators within its steps meets an
operator that is not applicable, the states reached do not depend on the orders, and the goal holds
at the end.
-/

namespace HorizonPlanner

/-- The order names the operators of the step, each of them once. -/
def PlanStep.Order (step : PlanStep) (order : List Nat) : Prop :=
  order.Perm step.operators.dedup

/-- A choice of an order for every step. -/
def Plan.Schedules (steps : List PlanStep) (orders : List (List Nat)) : Prop :=
  List.Forall₂ PlanStep.Order steps orders

namespace Problem

/-- The state after the operator with this number was executed, if it is applicable. -/
def fire (p : Problem) (s : State) (i : Nat) : Option State :=
  match p.operators[i]? with
  | some o => if o.applicable s then some (o.apply s) else none
  | none => none

/-- The state after operators were executed one at a time, if each of them was applicable. -/
def fireAll (p : Problem) (s : State) (order : List Nat) : Option State :=
  order.foldlM p.fire s

/-- The state after the operators of all steps were executed one at a time. -/
def fireSteps (p : Problem) (s : State) (orders : List (List Nat)) : Option State :=
  orders.foldlM p.fireAll s

end Problem

/-- The order in which the operators of each step are executed does not matter. -/
structure Plan.OrderFree (p : Problem) (steps : List PlanStep) (s : State) : Prop where
  /-- No choice of orders meets an operator that is not applicable. -/
  executable : ∀ orders, Schedules steps orders → ∃ t, p.fireSteps s orders = some t
  /-- The state after each step does not depend on the orders. -/
  confluent : ∀ orders orders', Schedules steps orders → Schedules steps orders' →
    ∀ n, p.fireSteps s (orders.take n) = p.fireSteps s (orders'.take n)

/-! ### One operator at a time -/

/-- A condition that holds is kept where no established condition is its opposite. -/
theorem Condition.holds_foldl_establish_of_holds {cs : List Condition} {c : Condition} {s : State}
    (hagree : ∀ d ∈ cs, d.fluent = c.fluent → d = c) (hc : c.holds s = true) :
    c.holds (cs.foldl establish s) = true := by
  induction cs generalizing s with
  | nil => exact hc
  | cons d rest ih =>
    refine ih (fun e he => hagree e (by simp [he])) ?_
    by_cases hf : d.fluent = c.fluent
    · obtain rfl := hagree d (by simp) hf
      rw [holds_iff] at hc
      exact holds_establish (Array.getElem?_eq_some_iff.mp hc).1
    · rwa [holds_iff, getElem?_establish_of_ne hf, ← holds_iff]

/-- A condition and its opposite do not both hold. -/
theorem Condition.not_holds_negate {c : Condition} {s : State} (hc : c.holds s = true) :
    c.negate.holds s ≠ true := by
  rw [holds_iff] at hc
  rw [Ne, holds_iff, fluent_negate, hc, polarity_negate]
  simp

namespace Operator

variable {a b o : Operator} {s : State} {n : Nat}

@[simp] private theorem size_apply (o : Operator) (s : State) : (o.apply s).size = s.size :=
  Condition.size_foldl_establish _ _

/-- The effects of an operator hold after it was executed. -/
theorem WellFormed.holds_apply (ho : o.WellFormed n) (hs : s.size = n) :
    ∀ c ∈ o.effects, c.holds (o.apply s) = true :=
  Condition.holds_foldl_establish _ (fun _ hc _ hd hf => ho.effects.eq_of_fluent_eq hc hd hf)
    fun c hc => hs ▸ ho.effects.bounded c hc

/-- An operator stays applicable after another one was executed that does not oppose it. -/
theorem applicable_apply (hopposes : ¬ a.Opposes b) (hb : b.applicable s = true) :
    b.applicable (a.apply s) = true := by
  rw [applicable, List.all_eq_true] at hb ⊢
  intro c hc
  refine Condition.holds_foldl_establish_of_holds (fun d hd hf => ?_) (hb c hc)
  rcases Condition.eq_or_eq_negate hf with h | rfl
  · exact h
  · exact (hopposes ⟨c.negate, hd, .inl (by rwa [Condition.negate_negate])⟩).elim

end Operator

/-! ### Orders of a step -/

namespace PlanStep.Order

variable {step : PlanStep} {order : List Nat} {i j : Nat}

/-- An order of a step has the operators of the step. -/
theorem mem_iff (h : step.Order order) : i ∈ order ↔ i ∈ step.operators := by
  rw [List.Perm.mem_iff h, List.mem_dedup]

/-- An order names no operator twice. -/
theorem nodup (h : step.Order order) : order.Nodup :=
  (List.Perm.nodup_iff h).mpr (List.nodup_dedup _)

/-- Every operator of a step comes first in some order. -/
theorem exists_first (hi : i ∈ step.operators) : ∃ rest, step.Order (i :: rest) :=
  ⟨_, (List.perm_cons_erase (List.mem_dedup.mpr hi)).symm⟩

/-- Every operator of a step comes last in some order. -/
theorem exists_last (hi : i ∈ step.operators) : ∃ rest, step.Order (rest ++ [i]) := by
  obtain ⟨rest, hrest⟩ := exists_first hi
  exact ⟨rest, (List.perm_append_singleton i rest).trans hrest⟩

/-- Any two operators of a step come first in some order. -/
theorem exists_first_two (hi : i ∈ step.operators) (hj : j ∈ step.operators) (hij : i ≠ j) :
    ∃ rest, step.Order (i :: j :: rest) := by
  obtain ⟨rest, hrest⟩ := exists_first hi
  have hj : j ∈ rest := by
    simpa [hij.symm] using hrest.mem_iff.mpr hj
  exact ⟨_, ((List.perm_cons_erase hj).symm.cons i).trans hrest⟩

end PlanStep.Order

namespace Problem

open Plan

variable {p : Problem} {step : PlanStep} {steps : List PlanStep} {s t : State} {i : Nat}
  {order : List Nat} {orders : List (List Nat)}

private theorem fire_eq_some : p.fire s i = some t ↔
    ∃ o, p.operators[i]? = some o ∧ o.applicable s = true ∧ o.apply s = t := by
  unfold fire
  cases p.operators[i]? <;> simp

private theorem fireAll_cons : p.fireAll s (i :: order) = some t ↔
    ∃ u, p.fire s i = some u ∧ p.fireAll u order = some t := by
  simp [fireAll, Option.bind_eq_some_iff]

private theorem fireAll_concat : p.fireAll s (order ++ [i]) = some t ↔
    ∃ u, p.fireAll s order = some u ∧ p.fire u i = some t := by
  simp [fireAll, Option.bind_eq_some_iff]

private theorem size_fireAll (h : p.fireAll s order = some t) : t.size = s.size := by
  induction order generalizing s with
  | nil =>
    cases h
    rfl
  | cons i rest ih =>
    obtain ⟨u, hu, ht⟩ := fireAll_cons.mp h
    obtain ⟨o, -, -, rfl⟩ := fire_eq_some.mp hu
    rw [ih ht, Operator.size_apply]

/-- A fluent that no executed operator has an effect on keeps its value. -/
theorem WellFormed.getElem?_fireAll (hp : p.WellFormed) {f : Nat} (h : p.fireAll s order = some t)
    (hf : ∀ o ∈ p.operators, o.id ∈ order → ∀ c ∈ o.effects, c.fluent ≠ f) : t[f]? = s[f]? := by
  induction order generalizing s with
  | nil =>
    cases h
    rfl
  | cons i rest ih =>
    obtain ⟨u, hu, ht⟩ := fireAll_cons.mp h
    obtain ⟨o, ho, -, rfl⟩ := fire_eq_some.mp hu
    obtain rfl := hp.id_eq ho
    rw [ih ht fun a ha hmem => hf a ha (by simp [hmem])]
    exact Condition.getElem?_foldl_establish_of_ne (hf o (List.mem_of_getElem? ho) (by simp))

/-! ### From moves to orders -/

/-- Different operators that are applicable and compatible may be executed one at a time. -/
theorem WellFormed.fireAll_map_id (hp : p.WellFormed) {operators : List Operator}
    (hmem : ∀ o ∈ operators, o ∈ p.operators) (hnodup : (operators.map (·.id)).Nodup)
    (happlicable : ∀ o ∈ operators, o.applicable s = true)
    (hcompatible : ∀ a ∈ operators, ∀ b ∈ operators, a.interferes b = false) :
    p.fireAll s (operators.map (·.id)) = some (applyAll operators s) := by
  induction operators generalizing s with
  | nil => rfl
  | cons a rest ih =>
    rw [List.map_cons, List.nodup_cons] at hnodup
    have ha : a ∈ p.operators := hmem a (by simp)
    have hfire : p.fire s a.id = some (a.apply s) :=
      fire_eq_some.mpr ⟨a, hp.mem_operators_iff.mp ha, happlicable a (by simp), rfl⟩
    -- The others are still applicable after the first operator.
    have hrest : ∀ b ∈ rest, b.applicable (a.apply s) = true := by
      intro b hb
      refine Operator.applicable_apply (fun hopposes => ?_) (happlicable b (by simp [hb]))
      have hne : a.id ≠ b.id := fun h => hnodup.1 (h ▸ List.mem_map_of_mem hb)
      have hinterferes : a.interferes b = true :=
        (Operator.interferes_iff (hp.operators a ha) (hp.operators b (hmem b (by simp [hb])))).mpr
          ⟨hne, .inl hopposes⟩
      simp [hcompatible a (by simp) b (by simp [hb])] at hinterferes
    refine fireAll_cons.mpr ⟨a.apply s, hfire, ih ?_ hnodup.2 hrest ?_⟩
    · exact fun b hb => hmem b (by simp [hb])
    · exact fun b hb c hc => hcompatible b (by simp [hb]) c (by simp [hc])

/-- Every order of the operators of a step leads where the move leads. -/
theorem WellFormed.fireAll_of_moves (hp : p.WellFormed) (hs : s.size = p.nFluents)
    (hmoves : p.Moves {i | i ∈ step.operators} s t) (horder : step.Order order) :
    p.fireAll s order = some t := by
  obtain ⟨operators, hresolve⟩ : ∃ operators, PlanStep.resolve ⟨step.time, order⟩ p =
    .ok operators :=
    exists_resolve_iff.mpr fun i hi => hmoves.lt i (horder.mem_iff.mp hi)
  have hids : operators.map (·.id) = order := hp.map_id_of_resolve hresolve
  have hmem : ∀ o, o ∈ operators ↔ o ∈ p.operators ∧ o.id ∈ step.operators := fun o => by
    rw [hp.mem_of_resolve hresolve, horder.mem_iff]
  have happlicable : ∀ o ∈ operators, o.applicable s = true := fun o ho =>
    hmoves.applicable o ((hmem o).mp ho).1 ((hmem o).mp ho).2
  have hcompatible : ∀ a ∈ operators, ∀ b ∈ operators, a.interferes b = false := fun a ha b hb =>
    hmoves.compatible a ((hmem a).mp ha).1 b ((hmem b).mp hb).1 ((hmem a).mp ha).2
      ((hmem b).mp hb).2
  have hfire := hp.fireAll_map_id (fun o ho => ((hmem o).mp ho).1) (hids ▸ horder.nodup) happlicable
    hcompatible
  have htogether := hp.moves_applyAll hs hmoves.lt hmem happlicable hcompatible
  rw [← hids, hfire, htogether.eq_of_moves hmoves]

/-! ### From orders to moves -/

/-- The operator that comes first in an order is applicable. -/
theorem WellFormed.applicable_of_fireAll (hp : p.WellFormed) {o : Operator} (ho : o ∈ p.operators)
    (h : p.fireAll s (o.id :: order) = some t) :
    o.applicable s = true ∧ p.fireAll (o.apply s) order = some t := by
  obtain ⟨u, hu, ht⟩ := fireAll_cons.mp h
  obtain ⟨o', ho', happlicable, rfl⟩ := fire_eq_some.mp hu
  rw [hp.mem_operators_iff, ho', Option.some.injEq] at ho
  subst ho
  exact ⟨happlicable, ht⟩

/-- The effects of the operator that comes last in an order hold at the end. -/
theorem WellFormed.holds_of_fireAll (hp : p.WellFormed) (hs : s.size = p.nFluents) {o : Operator}
    (ho : o ∈ p.operators) (h : p.fireAll s (order ++ [o.id]) = some t) :
    ∀ c ∈ o.effects, c.holds t = true := by
  obtain ⟨u, hu, ht⟩ := fireAll_concat.mp h
  obtain ⟨o', ho', -, rfl⟩ := fire_eq_some.mp ht
  rw [hp.mem_operators_iff, ho', Option.some.injEq] at ho
  subst ho
  exact (hp.operators o' (List.mem_of_getElem? ho')).holds_apply ((size_fireAll hu).trans hs)

/-- Operators of a step that leads to one state in all orders do not oppose each other. -/
theorem WellFormed.not_opposes_of_orders (hp : p.WellFormed) (hs : s.size = p.nFluents)
    (h : ∀ order, step.Order order → p.fireAll s order = some t) {a b : Operator}
    (ha : a ∈ p.operators) (hb : b ∈ p.operators) (hastep : a.id ∈ step.operators)
    (hbstep : b.id ∈ step.operators) (hne : a.id ≠ b.id) : ¬ a.Opposes b := by
  rintro ⟨e, he, hpre | heff⟩
  · -- Right after the first operator the second one is not applicable.
    obtain ⟨rest, hrest⟩ := PlanStep.Order.exists_first_two hastep hbstep hne
    obtain ⟨-, hafter⟩ := hp.applicable_of_fireAll ha (h _ hrest)
    obtain ⟨happlicable, -⟩ := hp.applicable_of_fireAll hb hafter
    have hholds : e.holds (a.apply s) = true := (hp.operators a ha).holds_apply hs e he
    exact Condition.not_holds_negate hholds (List.all_eq_true.mp happlicable _ hpre)
  · -- The operator that comes last decides about the fluent.
    obtain ⟨rest, hrest⟩ := PlanStep.Order.exists_last hastep
    obtain ⟨rest', hrest'⟩ := PlanStep.Order.exists_last hbstep
    have hholds : e.holds t = true := hp.holds_of_fireAll hs ha (h _ hrest) e he
    exact Condition.not_holds_negate hholds (hp.holds_of_fireAll hs hb (h _ hrest') _ heff)

/-- If all orders of the operators of a step lead to one state, then the step is a move to it. -/
theorem WellFormed.moves_of_orders (hp : p.WellFormed) (hs : s.size = p.nFluents)
    (h : ∀ order, step.Order order → p.fireAll s order = some t) :
    p.Moves {i | i ∈ step.operators} s t := by
  have hdedup : p.fireAll s step.operators.dedup = some t := h _ (.refl _)
  refine ⟨fun i hi => ?_, fun o ho hstep => ?_, fun a ha b hb hastep hbstep => ?_,
    fun o ho hstep => ?_, fun f _ hf => ?_, ?_⟩
  · obtain ⟨rest, hrest⟩ := PlanStep.Order.exists_first hi
    obtain ⟨u, hu, -⟩ := fireAll_cons.mp (h _ hrest)
    obtain ⟨o, ho, -⟩ := fire_eq_some.mp hu
    exact (List.getElem?_eq_some_iff.mp ho).1
  · obtain ⟨rest, hrest⟩ := PlanStep.Order.exists_first hstep
    exact (hp.applicable_of_fireAll ho (h _ hrest)).1
  · by_contra hinterferes
    rw [Bool.not_eq_false, Operator.interferes_iff (hp.operators a ha) (hp.operators b hb)]
      at hinterferes
    obtain ⟨hne, hopposes | hopposes⟩ := hinterferes
    · exact hp.not_opposes_of_orders hs h ha hb hastep hbstep hne hopposes
    · exact hp.not_opposes_of_orders hs h hb ha hbstep hastep hne.symm hopposes
  · obtain ⟨rest, hrest⟩ := PlanStep.Order.exists_last hstep
    exact hp.holds_of_fireAll hs ho (h _ hrest)
  · exact hp.getElem?_fireAll hdedup fun o ho hmem => hf o ho (List.mem_dedup.mp hmem)
  · rw [size_fireAll hdedup, hs]

/-- A step is executed exactly where all orders of its operators lead to the same state. -/
theorem WellFormed.executeStep_iff_orders (hp : p.WellFormed) (hs : s.size = p.nFluents) :
    executeStep p step s = .ok t ↔ ∀ order, step.Order order → p.fireAll s order = some t := by
  rw [hp.executeStep_iff hs]
  exact ⟨fun h _ horder => hp.fireAll_of_moves hs h horder, hp.moves_of_orders hs⟩

/-! ### Schedules of a plan -/

private theorem fireSteps_cons :
    p.fireSteps s (order :: orders) = (p.fireAll s order).bind (p.fireSteps · orders) := by
  simp [fireSteps]

/-- Every schedule leads where the steps lead. -/
theorem WellFormed.fireSteps_of_execute (hp : p.WellFormed) (hs : s.size = p.nFluents)
    (h : execute p steps s = .ok t) (horders : Schedules steps orders) :
    p.fireSteps s orders = some t := by
  induction horders generalizing s with
  | nil =>
    cases h
    rfl
  | cons horder _ ih =>
    obtain ⟨u, hu, ht⟩ := execute_cons_eq_ok.mp h
    have hsize : u.size = p.nFluents := ((hp.executeStep_iff hs).mp hu).size_eq
    rw [fireSteps_cons, (hp.executeStep_iff_orders hs).mp hu _ horder]
    exact ih hsize ht

private theorem schedules_dedup (steps : List PlanStep) :
    Schedules steps (steps.map (·.operators.dedup)) :=
  List.forall₂_map_right_iff.mpr (List.forall₂_same.mpr fun _ _ => .refl _)

/-- Steps can be executed if the orders of their operators do not matter. -/
theorem WellFormed.exists_execute_of_orderFree (hp : p.WellFormed) (hs : s.size = p.nFluents)
    (h : OrderFree p steps s) : ∃ t, execute p steps s = .ok t := by
  induction steps generalizing s with
  | nil => exact ⟨s, rfl⟩
  | cons step rest ih =>
    have hrest : Schedules rest (rest.map (·.operators.dedup)) := schedules_dedup rest
    have hfirst : step.Order step.operators.dedup := .refl _
    obtain ⟨t, ht⟩ : ∃ t, p.fireAll s step.operators.dedup = some t := by
      obtain ⟨u, hu⟩ := h.executable _ (.cons hfirst hrest)
      rw [fireSteps_cons, Option.bind_eq_some_iff] at hu
      obtain ⟨t, ht, -⟩ := hu
      exact ⟨t, ht⟩
    have hstep : executeStep p step s = .ok t := by
      refine (hp.executeStep_iff_orders hs).mpr fun order horder => ?_
      have hsame := h.confluent _ _ (.cons horder hrest) (.cons hfirst hrest) 1
      simpa [fireSteps, ht] using hsame
    have hnext : OrderFree p rest t := by
      refine ⟨fun orders horders => ?_, fun orders orders' horders horders' n => ?_⟩
      · simpa [fireSteps_cons, ht] using h.executable _ (.cons hfirst horders)
      · simpa [fireSteps_cons, ht] using
          h.confluent _ _ (.cons hfirst horders) (.cons hfirst horders') (n + 1)
    obtain ⟨u, hu⟩ := ih ((size_fireAll ht).trans hs) hnext
    exact ⟨u, execute_cons_eq_ok.mpr ⟨t, hstep, hu⟩⟩

/-- The orders do not matter where the steps can be executed. -/
theorem WellFormed.orderFree_of_execute (hp : p.WellFormed) (hs : s.size = p.nFluents)
    (h : execute p steps s = .ok t) : OrderFree p steps s := by
  refine ⟨fun orders horders => ⟨t, hp.fireSteps_of_execute hs h horders⟩, ?_⟩
  intro orders orders' horders horders' n
  rw [← List.take_append_drop n steps] at h
  obtain ⟨u, hu, -⟩ := execute_append_eq_ok.mp h
  rw [hp.fireSteps_of_execute hs hu (List.forall₂_take n horders),
    hp.fireSteps_of_execute hs hu (List.forall₂_take n horders')]

/-- The operators of a step may be executed in any order. A plan solves a problem exactly when no
order of the operators within its steps meets an operator that is not applicable, the state after
each step does not depend on the orders, and the last state satisfies the goal. The state after each
step is then the one that results from applying the effects of the step together. -/
theorem Built.solves_iff_orderFree (hp : p.Built) (plan : Plan) :
    (plan.Solves p ↔ OrderFree p plan.steps p.initial ∧
      ∀ orders t, Schedules plan.steps orders → p.fireSteps p.initial orders = some t →
        p.goalHolds t = true) ∧
      (plan.Solves p → ∀ n (hn : n < plan.steps.length), ∃ s operators,
        execute p (plan.steps.take n) p.initial = .ok s ∧
          plan.steps[n].resolve p = .ok operators ∧
            ∀ orders, Schedules plan.steps orders →
              p.fireSteps p.initial (orders.take n) = some s ∧
                p.fireSteps p.initial (orders.take (n + 1)) = some (applyAll operators s)) := by
  have hwf := hp.wellFormed
  have hs := hwf.initial_size
  refine ⟨⟨?_, ?_⟩, ?_⟩
  · rintro ⟨t, h⟩
    obtain ⟨hexecute, hgoal⟩ := validate_eq_ok.mp h
    refine ⟨hwf.orderFree_of_execute hs hexecute, fun orders u horders hu => ?_⟩
    rw [hwf.fireSteps_of_execute hs hexecute horders, Option.some.injEq] at hu
    rwa [← hu]
  · rintro ⟨hfree, hgoal⟩
    obtain ⟨t, ht⟩ := hwf.exists_execute_of_orderFree hs hfree
    have hend := hwf.fireSteps_of_execute hs ht (schedules_dedup plan.steps)
    exact ⟨t, validate_eq_ok.mpr ⟨ht, hgoal _ t (schedules_dedup plan.steps) hend⟩⟩
  · rintro ⟨t, h⟩ n hn
    obtain ⟨hexecute, -⟩ := validate_eq_ok.mp h
    rw [← List.take_append_drop (n + 1) plan.steps] at hexecute
    obtain ⟨u, hu, -⟩ := execute_append_eq_ok.mp hexecute
    have hnext := hu
    rw [List.take_succ_eq_append_getElem hn] at hnext
    obtain ⟨s, hbefore, hstep⟩ := execute_append_eq_ok.mp hnext
    obtain ⟨operators, hresolve, -, -, rfl⟩ := executeStep_eq_ok.mp (execute_singleton.mp hstep)
    refine ⟨s, operators, hbefore, hresolve, fun orders horders => ⟨?_, ?_⟩⟩
    · exact hwf.fireSteps_of_execute hs hbefore (List.forall₂_take n horders)
    · exact hwf.fireSteps_of_execute hs hu (List.forall₂_take (n + 1) horders)

/-- The candle is lit while the table is dusted, and burned afterwards. The dusting is named
twice. -/
theorem solves_iff_orderFree_candle :
    Plan.Solves ⟨[⟨0, [3, 0, 3]⟩, ⟨2, [1]⟩]⟩ candle ∧
      ∀ orders, Schedules [⟨0, [3, 0, 3]⟩, ⟨2, [1]⟩] orders →
        ∃ t, candle.fireSteps candle.initial orders = some t ∧ candle.goalHolds t = true := by
  have hsolves : Plan.Solves ⟨[⟨0, [3, 0, 3]⟩, ⟨2, [1]⟩]⟩ candle :=
    ⟨#[false, true, true], by decide +kernel⟩
  obtain ⟨hfree, hgoal⟩ := (candle_built.solves_iff_orderFree _).1.mp hsolves
  refine ⟨hsolves, fun orders horders => ?_⟩
  obtain ⟨t, ht⟩ := hfree.executable orders horders
  exact ⟨t, ht, hgoal orders t horders ht⟩

end Problem

end HorizonPlanner
