import HorizonPlanner.Proofs.Encoding.Contradictions
import HorizonPlanner.Proofs.Encoding.Demands
import HorizonPlanner.Proofs.Sat.Dimacs
import HorizonPlanner.Proofs.Sat.Insertions
import HorizonPlanner.Proofs.Search.Attempts
import Mathlib.Algebra.BigOperators.Group.List.Basic
import Mathlib.Data.List.Permutation

/-!
# The size of a formula

Different demands have clauses with different literals, and none of these clauses is a tautology. A
formula therefore has the clauses of all constraints, except that at horizon zero goals which the
initial state states are not stated again. Their number can be told from the problem, and their
variables are those the solver is asked to reserve.
-/

namespace HorizonPlanner

open HorizonPlanner.Sat HorizonPlanner.Encoding

namespace Encoding

/-- The constraints that have clauses of their own: all but those of the goal that are initial ones
as well. -/
def keptConstraints (p : Problem) (horizon : Nat) : List Constraint :=
  initialConstraints p ++ (goalConstraints p horizon).filter (· ∉ initialConstraints p)
    ++ (List.range horizon).flatMap (stepConstraints p (changers p) p.interferingPairs)

variable {t : Layout} {k : Constraint}

/-- A constraint about propositions of the layout has assertions about these only. -/
theorem Constraint.Within.has (hk : k.Within t) :
    ∀ as ∈ k.lines, ∀ a ∈ as, t.Has a.proposition := by
  cases k with
  | always a => exact List.forall_mem_singleton.mpr (List.forall_mem_singleton.mpr hk)
  | whenever operator step consequences =>
    obtain ⟨hoperator, hconsequences⟩ := hk
    refine List.forall_mem_map.mpr fun a ha => List.forall_mem_cons.mpr ⟨hoperator, ?_⟩
    exact List.forall_mem_singleton.mpr (hconsequences a ha)
  | oneOf assertions => exact List.forall_mem_singleton.mpr hk

namespace Layout

variable {a b : Assertion} {as bs : List Assertion}

/-- The literal of an assertion. An assertion without one is given the first variable. -/
def literalOf (t : Layout) (a : Assertion) : Literal :=
  match t.literal a with
  | .ok l => l
  | .error _ => ⟨⟨1, Nat.one_pos⟩, a.value⟩

/-- The clause that wants one of the assertions to be true. -/
def clauseOf (t : Layout) (as : List Assertion) : Clause :=
  as.map t.literalOf

private theorem literal_eq_literalOf (hfit : t.FitsWords) (ha : t.Has a.proposition) :
    t.literal a = .ok (t.literalOf a) := by
  obtain ⟨l, hl⟩ := exists_literal hfit ha
  simp [literalOf, hl]

/-- A constraint has a clause for each of its lines. -/
theorem clauses_eq (hfit : t.FitsWords) (hk : k.Within t) :
    t.clauses k = .ok (k.lines.map t.clauseOf) := by
  cases k with
  | always a =>
    rw [clauses, literal_eq_literalOf hfit hk]
    rfl
  | whenever operator step consequences =>
    obtain ⟨hoperator, hconsequences⟩ := hk
    have hclause : ∀ a ∈ consequences, (do
        let l ← t.literal a
        return [t.literalOf (.executed step false operator), l] : Except Violation Clause) =
          .ok (t.clauseOf [.executed step false operator, a]) := fun a ha => by
      rw [literal_eq_literalOf hfit (hconsequences a ha)]
      rfl
    rw [clauses, literal_eq_literalOf hfit (a := .executed step false operator) hoperator,
      Constraint.lines, List.map_map]
    exact mapM_eq_ok_map hclause
  | oneOf assertions =>
    rw [clauses, mapM_eq_ok_map fun a ha => literal_eq_literalOf hfit (hk a ha)]
    rfl

/-- Different assertions about propositions of the layout have different literals. -/
theorem literalOf_inj (hfit : t.FitsWords) (ha : t.Has a.proposition) (hb : t.Has b.proposition) :
    t.literalOf a = t.literalOf b ↔ a = b := by
  refine ⟨fun heq => ?_, fun heq => heq ▸ rfl⟩
  have hla := literal_eq_literalOf hfit ha
  have hlb := literal_eq_literalOf hfit hb
  rw [heq] at hla
  have hproposition : a.proposition = b.proposition := (var_eq_iff hfit hla hlb).mp rfl
  have hvalue : a.value = b.value := by
    rw [← ((literal_eq_ok hfit).mp hla).2, ((literal_eq_ok hfit).mp hlb).2]
  cases a
  cases b
  simp_all

/-- Assertions about different propositions are about different variables. -/
theorem nodup_var_clauseOf (hfit : t.FitsWords) (has : ∀ a ∈ as, t.Has a.proposition)
    (hnodup : (as.map Assertion.proposition).Nodup) : ((t.clauseOf as).map Literal.var).Nodup := by
  rw [clauseOf, List.map_map]
  refine List.pairwise_map.mpr ((List.pairwise_map.mp hnodup).imp_of_mem fun {a b} ha hb hne heq =>
    hne ?_)
  exact (var_eq_iff hfit (literal_eq_literalOf hfit (has a ha))
    (literal_eq_literalOf hfit (has b hb))).mp heq

/-- Clauses with the same literals are about the same assertions. -/
theorem mem_iff_of_toFinset_eq (hfit : t.FitsWords) (has : ∀ a ∈ as, t.Has a.proposition)
    (hbs : ∀ b ∈ bs, t.Has b.proposition) (h : (t.clauseOf as).toFinset = (t.clauseOf bs).toFinset)
    (a : Assertion) : a ∈ as ↔ a ∈ bs := by
  have hmem : ∀ l, l ∈ t.clauseOf as ↔ l ∈ t.clauseOf bs := List.toFinset.ext_iff.mp h
  constructor
  · intro ha
    obtain ⟨b, hb, heq⟩ := List.mem_map.mp ((hmem _).mp (List.mem_map_of_mem ha))
    rwa [← (literalOf_inj hfit (hbs b hb) (has a ha)).mp heq]
  · intro ha
    obtain ⟨b, hb, heq⟩ := List.mem_map.mp ((hmem _).mpr (List.mem_map_of_mem ha))
    rwa [← (literalOf_inj hfit (has b hb) (hbs a ha)).mp heq]

end Layout

end Encoding

/-- A clause about different variables repeats no literal and has no opposite ones. -/
theorem Sat.Clause.nodup_and_not_tautological {c : Clause} (h : (c.map Literal.var).Nodup) :
    c.Nodup ∧ ¬ c.Tautological := by
  refine ⟨h.of_map _, ?_⟩
  rintro ⟨l, hl, hneg⟩
  exact l.negate_ne_self (List.inj_on_of_nodup_map h hneg hl rfl)

namespace Problem

variable {p : Problem} {horizon : Nat}

/-- The clause of a demand. -/
def clauseOf (p : Problem) (horizon : Nat) (d : Demand) : Clause :=
  (p.layout horizon).clauseOf (d.assertions p)

/-- The problem without the goals that the initial state states already when it is the last one. -/
def withoutStatedGoals (p : Problem) (horizon : Nat) : Problem :=
  { p with goal := p.goal.filter fun c => horizon ≠ 0 ∨ c ∉ p.initialConditions }

private theorem WellFormed.withoutStatedGoals (hp : p.WellFormed) (horizon : Nat) :
    (p.withoutStatedGoals horizon).WellFormed :=
  { hp with
    goal := ⟨hp.goal.increasing.filter _, fun c hc => hp.goal.bounded c (List.mem_filter.mp hc).1⟩ }

/-- The demands on the plans of a horizon are about the propositions of its layout. -/
theorem WellFormed.has_of_mem_demands (hp : p.WellFormed) {d : Demand}
    (hd : d ∈ p.demands horizon) :
    ∀ a ∈ d.assertions p, (p.layout horizon).Has a.proposition := by
  have hmem : d.assertions p ∈ (constraints p horizon).flatMap Constraint.lines := by
    rw [lines_constraints]
    exact List.mem_map_of_mem hd
  obtain ⟨k, hk, hlines⟩ := List.mem_flatMap.mp hmem
  exact (hp.within_constraints horizon k hk).has _ hlines

/-- The clauses of the constraints are those of the demands. -/
theorem WellFormed.exists_mapM_clauses (hp : p.WellFormed) (hfit : (p.layout horizon).FitsWords) :
    ∃ cs, (constraints p horizon).mapM (p.layout horizon).clauses = .ok cs ∧
      cs.flatten = (p.demands horizon).map (p.clauseOf horizon) := by
  refine ⟨_, mapM_eq_ok_map fun k hk => Layout.clauses_eq hfit (hp.within_constraints horizon k hk),
    ?_⟩
  calc ((constraints p horizon).map fun k => k.lines.map (p.layout horizon).clauseOf).flatten
      = ((constraints p horizon).flatMap Constraint.lines).map (p.layout horizon).clauseOf :=
        List.map_flatMap.symm
    _ = (p.demands horizon).map (p.clauseOf horizon) := by
      rw [lines_constraints, List.map_map]
      rfl

/-! ### Different clauses -/

/-- Demands whose clauses have the same literals are equal. -/
theorem WellFormed.eq_of_toFinset_eq (hp : p.WellFormed) (hfit : (p.layout horizon).FitsWords)
    {d e : Demand} (hd : d ∈ p.demands horizon) (he : e ∈ p.demands horizon)
    (h : (p.clauseOf horizon d).toFinset = (p.clauseOf horizon e).toFinset) : d = e := by
  apply Demand.eq_of_mem_assertions_iff (hp.ordered_of_mem_demands d hd)
    (hp.ordered_of_mem_demands e he)
  exact Layout.mem_iff_of_toFinset_eq hfit (hp.has_of_mem_demands hd) (hp.has_of_mem_demands he) h

/-- The clauses of different demands are kept in a set as they are. -/
theorem WellFormed.distinct_clauses (hp : p.WellFormed) (hfit : (p.layout horizon).FitsWords)
    {ds : List Demand} (hds : ∀ d ∈ ds, d ∈ p.demands horizon) (hnodup : ds.Nodup) :
    Clause.Distinct (ds.map (p.clauseOf horizon)) := by
  have hclause : ∀ d ∈ ds, (p.clauseOf horizon d).Nodup ∧ ¬ (p.clauseOf horizon d).Tautological :=
    fun d hd =>
    Clause.nodup_and_not_tautological
      (Layout.nodup_var_clauseOf hfit (hp.has_of_mem_demands (hds d hd))
      (hp.nodup_propositions (hp.ordered_of_mem_demands d (hds d hd))))
  refine ⟨List.forall_mem_map.mpr fun d hd => (hclause d hd).1,
    List.forall_mem_map.mpr fun d hd => (hclause d hd).2, ?_⟩
  refine List.pairwise_map.mpr (hnodup.imp_of_mem fun {d e} hd he hne heq => hne ?_)
  exact hp.eq_of_toFinset_eq hfit (hds d hd) (hds e he) heq

/-- At horizon zero there are the clauses of the initial state, and behind them those of the goal
that are not among them. -/
theorem WellFormed.firstOccurrences_clauses_zero (hp : p.WellFormed)
    (hfit : (p.layout 0).FitsWords) :
    Clause.firstOccurrences ((p.demands 0).map (p.clauseOf 0)) =
      ((p.withoutStatedGoals 0).demands 0).map (p.clauseOf 0) := by
  have hdemands : ∀ q : Problem, q.demands 0 = q.initialConditions.map (.value 0) ++ q.goal.map
      (.value 0) :=
    fun q => by simp [demands]
  have hinitial : ∀ c ∈ p.initialConditions, .value 0 c ∈ p.demands 0 := fun c hc => by
    rw [hdemands]
    exact List.mem_append_left _ (List.mem_map_of_mem hc)
  have hgoal : ∀ c ∈ p.goal, .value 0 c ∈ p.demands 0 := fun c hc => by
    rw [hdemands]
    exact List.mem_append_right _ (List.mem_map_of_mem hc)
  have hvalue : Function.Injective (Demand.value 0) := fun c c' h => by simpa using h
  have hfirst := hp.distinct_clauses hfit (List.forall_mem_map.mpr hinitial)
    (p.nodup_initialConditions.map hvalue)
  have hsecond := hp.distinct_clauses hfit (List.forall_mem_map.mpr hgoal)
    (hp.goal.nodup.map hvalue)
  have hnew : ∀ c ∈ p.goal,
      (∀ d ∈ (p.initialConditions.map (.value 0)).map (p.clauseOf 0),
        d.toFinset ≠ (p.clauseOf 0 (.value 0 c)).toFinset) ↔ c ∉ p.initialConditions :=
          fun c hc => by
    rw [List.forall_mem_map, List.forall_mem_map]
    constructor
    · intro h hmem
      exact h c hmem rfl
    · intro h b hb heq
      obtain rfl := hvalue (hp.eq_of_toFinset_eq hfit (hinitial b hb) (hgoal c hc) heq)
      exact h hb
  have hgoals : (p.withoutStatedGoals 0).goal = p.goal.filter (· ∉ p.initialConditions) := by
    simp [Problem.withoutStatedGoals]
  rw [hdemands, hdemands, List.map_append, List.map_append, hsecond.firstOccurrences_append,
    hfirst.firstOccurrences_eq, List.filter_map, List.filter_map, hgoals]
  congr 3
  exact List.filter_congr fun c hc => decide_eq_decide.mpr (hnew c hc)

/-- Nothing is left out of a formula but the clauses of goals that the initial state states
already. -/
theorem WellFormed.toList_encode (hp : p.WellFormed) (hfit : (p.layout horizon).FitsWords)
    {clauses : ClauseSet} (h : (p.layout horizon).encode p = .ok clauses) :
    clauses.toList = ((p.withoutStatedGoals horizon).demands horizon).map (p.clauseOf horizon) := by
  obtain ⟨cs, hcs, hflatten⟩ := hp.exists_mapM_clauses hfit
  have hencode : (p.layout horizon).encode p = .ok (ClauseSet.ofList cs.flatten) :=
    Layout.encode_eq_ok_iff.mpr ⟨cs, hcs, rfl⟩
  rw [hencode, Except.ok.injEq] at h
  rw [← h, ClauseSet.toList_ofList, hflatten]
  by_cases hzero : horizon = 0
  · subst hzero
    exact hp.firstOccurrences_clauses_zero hfit
  · have hgoals : p.withoutStatedGoals horizon = p := by
      simp [Problem.withoutStatedGoals, hzero]
    have hnodup : (p.demands horizon).Nodup := hp.nodup_demands fun c _ heq => absurd heq hzero
    rw [hgoals, (hp.distinct_clauses hfit (fun d hd => hd) hnodup).firstOccurrences_eq]

/-! ### Numbers -/

private theorem length_stepDemands (p : Problem) (step : Nat) :
    (p.stepDemands step).length =
      (p.operators.map fun o => o.preconditions.length + o.effects.length).sum + 2 * p.nFluents +
        p.interferingPairs.length := by
  have hcauses : ((List.range p.nFluents).map fun _ => 2).sum = 2 * p.nFluents := by
    rw [List.map_const', List.length_range, List.sum_replicate_nat, Nat.mul_comm]
  simp only [stepDemands, List.length_append, List.length_flatMap, List.length_map,
    List.length_cons, List.length_nil, hcauses, List.sum_map_add]

private theorem WellFormed.length_demands (hp : p.WellFormed) (horizon : Nat) :
    (p.demands horizon).length = p.nFluents + p.goal.length +
      horizon * ((p.operators.map fun o => o.preconditions.length + o.effects.length).sum +
        2 * p.nFluents +
        p.interferingPairs.length) := by
  rw [demands, List.length_append, List.length_append, List.length_map, List.length_map,
    List.length_flatMap, hp.length_initialConditions]
  simp only [length_stepDemands, List.map_const', List.length_range, List.sum_replicate_nat]

/-! ### The whole formula -/

/-- A constraint of the goal is an initial one exactly when the initial state states it at the last
step. -/
theorem always_mem_initialConstraints_iff {c : Condition} :
    .always (.ofCondition horizon c) ∈ initialConstraints p ↔ horizon = 0 ∧
      c ∈ p.initialConditions := by
  have hmap : (p.initialConditions.map fun b => Constraint.always (.ofCondition 0 b)) =
      initialConstraints p :=
    List.map_map
  rw [← hmap, List.mem_map]
  simp only [Constraint.always.injEq, Assertion.ofCondition_inj]
  constructor
  · rintro ⟨b, hb, rfl, rfl⟩
    exact ⟨rfl, hb⟩
  · rintro ⟨rfl, hc⟩
    exact ⟨c, hc, rfl, rfl⟩

private theorem constraints_withoutStatedGoals (p : Problem) (horizon : Nat) :
    constraints (p.withoutStatedGoals horizon) horizon = keptConstraints p horizon := by
  have hgoals : goalConstraints (p.withoutStatedGoals horizon) horizon =
      (goalConstraints p horizon).filter (· ∉ initialConstraints p) := by
    rw [goalConstraints, goalConstraints, List.filter_map, Problem.withoutStatedGoals]
    congr 1
    refine List.filter_congr fun c _ => decide_eq_decide.mpr ?_
    exact (always_mem_initialConstraints_iff.not.trans not_and_or).symm
  rw [keptConstraints, ← hgoals]
  rfl

/-- At horizon zero the goals that are stated are those that the initial state does not make
true. -/
theorem length_goal_withoutStatedGoals (p : Problem) (horizon : Nat) :
    (p.withoutStatedGoals horizon).goal.length =
      if horizon = 0 then (p.goal.filter fun c => !c.holds p.initial).length
        else p.goal.length := by
  rw [Problem.withoutStatedGoals]
  split
  · next hzero => simp [hzero, mem_initialConditions]
  · next hzero => simp [hzero]

/-- The formula of a problem and a horizon exists and has the clauses of all constraints, except
that at horizon zero goals which the initial state states are not stated again. Their number is
known, and all their variables are among those the solver reserves. -/
theorem Built.size_encode (hp : p.Built) (hfit : (p.layout horizon).FitsWords) :
    ∃ clauses cs, (p.layout horizon).encode p = .ok clauses ∧
      (p.layout horizon).varCount = .ok (p.layout horizon).nVars ∧
      (keptConstraints p horizon).mapM (p.layout horizon).clauses = .ok cs ∧
        clauses.toList = cs.flatten ∧
      clauses.size =
        (if horizon = 0 then p.nFluents + (p.goal.filter fun c => !c.holds p.initial).length
        else p.nFluents + p.goal.length +
          horizon * ((p.operators.map fun o => o.preconditions.length + o.effects.length).sum +
            2 * p.nFluents +
            p.interferingPairs.length)) ∧
      (∀ c ∈ clauses.toList, ∀ l ∈ c, 1 ≤ l.var.number ∧ l.var.number ≤ (p.layout horizon).nVars) ∧
      ∀ limit, (Search.instanceOf clauses (p.layout horizon).nVars limit).nVars =
        (p.layout horizon).nVars := by
  have hwf := hp.wellFormed
  obtain ⟨clauses, hencode⟩ := hwf.exists_encode hfit
  obtain ⟨cs, hcs, hflatten⟩ := (hwf.withoutStatedGoals horizon).exists_mapM_clauses hfit
  rw [constraints_withoutStatedGoals] at hcs
  have htoList : clauses.toList = cs.flatten := (hwf.toList_encode hfit hencode).trans hflatten.symm
  have hbound := Layout.number_le_of_encode hfit hencode
  have hlength := (hwf.withoutStatedGoals horizon).length_demands horizon
  rw [length_goal_withoutStatedGoals] at hlength
  refine ⟨clauses, cs, hencode, Layout.varCount_eq_ok_iff.mpr ⟨hfit.counted, rfl⟩, hcs, htoList, ?_,
    fun c hc l hl => ?_, fun limit => ?_⟩
  · have hsize : clauses.size = ((p.withoutStatedGoals horizon).demands horizon).length := by
      rw [← List.length_map (f := p.clauseOf horizon), ← hwf.toList_encode hfit hencode]
      exact Array.length_toList.symm
    rw [hsize, hlength]
    split
    · next hzero =>
      rw [hzero, Nat.zero_mul, Nat.add_zero]
      rfl
    · rfl
  · exact ⟨l.var.number_pos, hbound c hc l hl⟩
  · rw [Search.instanceOf_eq, Instance.nVars]
    exact Nat.max_eq_left (Instance.largestVariable_le_iff.mpr hbound)

/-- A door that is to be locked and not to be open. -/
def door : Problem :=
  afterEdits (.ofList ["open", "locked"])
    [.operator "lock" [("open", false)] [("locked", true)],
      .operator "unlock" [("locked", true)] [("locked", false)],
      .goal "open" false, .goal "locked" true]

private theorem door_built : door.Built := ⟨_, _, rfl⟩

/-- The door is not locked and unlocked at one time. -/
theorem interferingPairs_door : door.interferingPairs = [(0, 1)] := by
  rw [interferingPairs, List.mergeSort_of_pairwise (by decide)]
  rfl

/-- The door is closed at first, which is therefore stated once at horizon zero. -/
theorem size_encode_door :
    door.Built ∧ (door.layout 0).FitsWords ∧ (door.layout 2).FitsWords ∧
      (∃ clauses, (door.layout 0).encode door = .ok clauses ∧ clauses.size = 3) ∧
      ∃ clauses, (door.layout 2).encode door = .ok clauses ∧ clauses.size = 22 := by
  have hzero : (door.layout 0).FitsWords := by decide
  have htwo : (door.layout 2).FitsWords := by decide
  obtain ⟨clauses, -, hencode, -, -, -, hsize, -⟩ := door_built.size_encode hzero
  obtain ⟨clauses', -, hencode', -, -, -, hsize', -⟩ := door_built.size_encode htwo
  refine ⟨door_built, hzero, htwo, ⟨clauses, hencode, ?_⟩, clauses', hencode', ?_⟩
  · exact hsize.trans (by rw [interferingPairs_door]; rfl)
  · exact hsize'.trans (by rw [interferingPairs_door]; rfl)

end Problem

end HorizonPlanner
