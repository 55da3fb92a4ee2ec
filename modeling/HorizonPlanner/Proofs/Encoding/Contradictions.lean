import HorizonPlanner.Proofs.Encoding.Correctness

/-!
# Visible contradictions

A set of clauses notices an empty clause and two opposite unit clauses. The unit clauses of a
formula are about the initial state and the goal alone: all its other clauses have literals on two
variables, whatever the operators are. The goal and the initial state do not contradict themselves,
and they contradict each other at horizon zero only.
-/

namespace HorizonPlanner

open HorizonPlanner.Sat HorizonPlanner.Encoding

/-- The clause has literals on different variables. -/
def Sat.Clause.Wide (c : Clause) : Prop :=
  ∃ k ∈ c, ∃ l ∈ c, k.var ≠ l.var

/-- The constraint connects different propositions. -/
def Encoding.Constraint.Wide : Constraint → Prop
  | .always _ => False
  | .whenever operator step consequences =>
    ∀ a ∈ consequences, a.proposition ≠ .operator operator step
  | .oneOf assertions => ∃ a ∈ assertions, ∃ b ∈ assertions, a.proposition ≠ b.proposition

private theorem Sat.Clause.not_wide_singleton {l : Literal} : ¬ Clause.Wide [l] := by
  simp [Wide]

/-- A clause without repetition that has the literals of a unit clause is this clause. -/
theorem Sat.Clause.eq_singleton {c : Clause} {l : Literal} (hc : c.Nodup)
    (h : ∀ k, k ∈ c ↔ k ∈ [l]) : c = [l] :=
  List.perm_singleton.mp ((List.perm_ext_iff_of_nodup hc (List.nodup_singleton l)).mpr h)

private theorem Sat.Clause.not_tautological_singleton {l : Literal} :
    ¬ Clause.Tautological [l] := by
  simp [Tautological]

namespace Encoding.Layout

variable {t : Layout} {a b : Assertion} {k l : Literal}

/-- Literals are on one variable exactly when their assertions are about one proposition. -/
theorem var_eq_iff (hfit : t.FitsWords) (ha : t.literal a = .ok k) (hb : t.literal b = .ok l) :
    k.var = l.var ↔ a.proposition = b.proposition := by
  obtain ⟨hk, -⟩ := (literal_eq_ok hfit).mp ha
  obtain ⟨hl, -⟩ := (literal_eq_ok hfit).mp hb
  constructor
  · intro h
    rw [← h] at hl
    exact eq_of_variableOf_eq hk hl
  · intro h
    rw [h, hl, Except.ok.injEq] at hk
    exact hk.symm

/-- Constraints that connect different propositions have no other clauses than such with different
variables. -/
theorem wide_of_mem_clauses (hfit : t.FitsWords) {k : Constraint} (hk : k.Wide) {cs : List Clause}
    (h : t.clauses k = .ok cs) : ∀ c ∈ cs, c.Wide := by
  cases k with
  | always a => exact hk.elim
  | whenever operator step consequences =>
    obtain ⟨o, ho, ls, hls, rfl⟩ := clauses_whenever h
    rw [List.forall_mem_map]
    intro l hl
    obtain ⟨a, ha, hal⟩ := (mem_of_mapM_eq_ok (mapM_eq_ok_iff.mpr hls)).mp hl
    exact ⟨l, by simp, o, by simp, fun hvar => hk a ha ((var_eq_iff hfit hal ho).mp hvar)⟩
  | oneOf assertions =>
    obtain ⟨c, hc, rfl⟩ := clauses_oneOf h
    rw [List.forall_mem_singleton]
    have hmapM : assertions.mapM t.literal = .ok c := mapM_eq_ok_iff.mpr hc
    have hliteral : ∀ a ∈ assertions, ∃ l ∈ c, t.literal a = .ok l := fun a ha => by
      obtain ⟨l, hl⟩ := exists_mapM_eq_ok_iff.mp ⟨c, hmapM⟩ a ha
      exact ⟨l, (mem_of_mapM_eq_ok hmapM).mpr ⟨a, ha, hl⟩, hl⟩
    obtain ⟨a, ha, b, hb, hne⟩ := hk
    obtain ⟨k, hk, hak⟩ := hliteral a ha
    obtain ⟨l, hl, hbl⟩ := hliteral b hb
    exact ⟨k, hk, l, hl, fun hvar => hne ((var_eq_iff hfit hak hbl).mp hvar)⟩

private theorem nodup_of_mem_encode {p : Problem} {clauses : ClauseSet}
    (h : t.encode p = .ok clauses) :
    ∀ c ∈ clauses.toList, c.Nodup := by
  obtain ⟨cs, -, rfl⟩ := encode_eq_ok_iff.mp h
  exact ClauseSet.nodup_of_mem_ofList _

end Encoding.Layout

namespace Problem

variable {p : Problem} {horizon step : Nat}

/-- The constraints about a step connect different propositions: an operator and a fluent, a fluent
at two steps, or two operators. -/
theorem WellFormed.wide_of_mem_stepConstraints (hp : p.WellFormed) :
    ∀ k ∈ stepConstraints p (changers p) p.interferingPairs step, k.Wide := by
  intro k hk
  simp only [stepConstraints, List.mem_append] at hk
  rcases hk with ((hk | hk) | hk) | hk
  · obtain ⟨o, -, rfl⟩ := List.mem_map.mp hk
    exact List.forall_mem_map.mpr fun c _ => by simp [Assertion.ofCondition]
  · obtain ⟨o, -, rfl⟩ := List.mem_map.mp hk
    exact List.forall_mem_map.mpr fun c _ => by simp [Assertion.ofCondition]
  · rw [frameConstraints_changers] at hk
    obtain ⟨f, -, hk⟩ := List.mem_flatMap.mp hk
    have hcause : ∀ c, (p.causeConstraint step c).Wide := fun c =>
      ⟨.ofCondition step c, by simp, .ofCondition (step + 1) c.negate, by simp,
        by simp [Assertion.ofCondition]⟩
    simp only [List.mem_cons, List.not_mem_nil, or_false] at hk
    rcases hk with rfl | rfl <;> exact hcause _
  · obtain ⟨⟨i, j⟩, hij, rfl⟩ := List.mem_map.mp hk
    have hne : i ≠ j := Nat.ne_of_lt (hp.mem_interferingPairs.mp hij).1
    exact ⟨.executed step false i, by simp, .executed step false j, by simp,
      by simpa [Assertion.executed] using hne⟩

/-- An assertion is made of every plan if the initial state or the goal makes it. -/
theorem WellFormed.always_mem_constraints_iff (hp : p.WellFormed) {a : Assertion} :
    .always a ∈ constraints p horizon ↔
      (∃ f, p.initial[f]? = some a.value ∧ a.proposition = .fluent f 0) ∨
        ∃ c ∈ p.goal, a = .ofCondition horizon c := by
  have hstep : ¬ ∃ step < horizon,
      .always a ∈ stepConstraints p (changers p) p.interferingPairs step :=
    fun ⟨_, _, hk⟩ => hp.wide_of_mem_stepConstraints _ hk
  simp only [constraints, List.mem_append, List.mem_flatMap, List.mem_range, or_iff_left hstep]
  refine or_congr ?_ ?_
  · simp only [initialConstraints, List.mem_map, Constraint.always.injEq, Prod.exists,
      List.mem_zipIdx_iff_getElem?, Array.getElem?_toList]
    constructor
    · rintro ⟨value, f, hf, rfl⟩
      exact ⟨f, hf, rfl⟩
    · rintro ⟨f, hf, hproposition⟩
      exact ⟨a.value, f, hf, by rw [← hproposition]⟩
  · simp only [goalConstraints, List.mem_map, Constraint.always.injEq]
    exact exists_congr fun c => and_congr_right fun _ => eq_comm

/-- All constraints connect different propositions, except those that make one assertion. -/
theorem WellFormed.always_or_wide (hp : p.WellFormed) {k : Constraint}
    (hk : k ∈ constraints p horizon) : (∃ a, k = .always a) ∨ k.Wide := by
  simp only [constraints, List.mem_append, List.mem_flatMap] at hk
  rcases hk with (hk | hk) | ⟨step, -, hk⟩
  · obtain ⟨e, -, rfl⟩ := List.mem_map.mp hk
    exact .inl ⟨_, rfl⟩
  · obtain ⟨c, -, rfl⟩ := List.mem_map.mp hk
    exact .inl ⟨_, rfl⟩
  · exact .inr (hp.wide_of_mem_stepConstraints k hk)

variable {clauses : ClauseSet}

/-- The clauses of a formula with more than one variable are those that come from no single
assertion. -/
theorem WellFormed.unit_or_wide (hp : p.WellFormed) (hfit : (p.layout horizon).FitsWords)
    (hencode : (p.layout horizon).encode p = .ok clauses) {c : Clause} (hc : c ∈ clauses.toList) :
    (∃ a l, .always a ∈ constraints p horizon ∧ (p.layout horizon).literal a = .ok l ∧ c = [l]) ∨
      c.Wide := by
  obtain ⟨cs, hcs, hrepresents⟩ := Layout.represents_of_encode hencode
  obtain ⟨d, hd, hsame⟩ := hrepresents.origin c hc
  obtain ⟨ds, hds, hd⟩ := List.mem_flatten.mp hd
  obtain ⟨k, hk, hkds⟩ := (mem_of_mapM_eq_ok hcs).mp hds
  rcases hp.always_or_wide hk with ⟨a, rfl⟩ | hwide
  · obtain ⟨l, hl, rfl⟩ := Layout.clauses_always hkds
    rw [List.mem_singleton] at hd
    subst hd
    exact .inl ⟨a, l, hk, hl, Clause.eq_singleton (Layout.nodup_of_mem_encode hencode c hc) hsame⟩
  · obtain ⟨k, hk, l, hl, hne⟩ := Layout.wide_of_mem_clauses hfit hwide hkds d hd
    exact .inr ⟨k, (hsame k).mpr hk, l, (hsame l).mpr hl, hne⟩

/-- The unit clauses of a formula are the literals of the assertions about all plans. -/
theorem WellFormed.singleton_mem_encode_iff (hp : p.WellFormed)
    (hfit : (p.layout horizon).FitsWords) (hencode : (p.layout horizon).encode p = .ok clauses)
    {l : Literal} :
    [l] ∈ clauses.toList ↔
      ∃ a, .always a ∈ constraints p horizon ∧ (p.layout horizon).literal a = .ok l := by
  constructor
  · intro hl
    rcases hp.unit_or_wide hfit hencode hl with ⟨a, k, ha, hk, heq⟩ | hwide
    · obtain rfl : l = k := by simpa using heq
      exact ⟨a, ha, hk⟩
    · exact absurd hwide Clause.not_wide_singleton
  · rintro ⟨a, ha, hl⟩
    obtain ⟨cs, hcs, hrepresents⟩ := Layout.represents_of_encode hencode
    have hmem : [l] ∈ cs.flatten := List.mem_flatten.mpr
      ⟨[[l]], (mem_of_mapM_eq_ok hcs).mpr ⟨.always a, ha, by rw [Layout.clauses, hl]; rfl⟩, by simp⟩
    rcases hrepresents.kept [l] hmem with htaut | ⟨c, hc, hsame⟩
    · exact absurd htaut Clause.not_tautological_singleton
    · rwa [← Clause.eq_singleton (Layout.nodup_of_mem_encode hencode c hc) hsame]

/-- A formula is visibly contradictory exactly when two assertions about all plans are opposite. -/
theorem WellFormed.contradictory_encode_iff_exists_always (hp : p.WellFormed)
    (hfit : (p.layout horizon).FitsWords) (hencode : (p.layout horizon).encode p = .ok clauses) :
    clauses.contradictory = true ↔ ∃ a b, .always a ∈ constraints p horizon ∧
      .always b ∈ constraints p horizon ∧ a.proposition = b.proposition ∧ b.value = !a.value := by
  obtain ⟨cs, hcs, hrepresents⟩ := Layout.represents_of_encode hencode
  have hnil : [] ∉ clauses.toList := fun hmem => by
    rcases hp.unit_or_wide hfit hencode hmem with ⟨a, l, -, -, heq⟩ | ⟨k, hk, -⟩
    · cases heq
    · cases hk
  rw [hrepresents.wellFormed.contradictory, or_iff_right hnil]
  simp only [hp.singleton_mem_encode_iff hfit hencode]
  constructor
  · rintro ⟨l, ⟨a, ha, hal⟩, ⟨b, hb, hbl⟩⟩
    obtain ⟨hvar, hvalue⟩ := (Layout.literal_eq_ok hfit).mp hal
    obtain ⟨hvar', hvalue'⟩ := (Layout.literal_eq_ok hfit).mp hbl
    refine ⟨a, b, ha, hb, Layout.eq_of_variableOf_eq hvar hvar', ?_⟩
    rw [← hvalue, ← hvalue']
    rfl
  · rintro ⟨a, b, ha, hb, hproposition, hvalue⟩
    obtain ⟨l, hl⟩ := Layout.exists_literal hfit (hp.within_constraints horizon _ ha)
    obtain ⟨hvar, hpositive⟩ := (Layout.literal_eq_ok hfit).mp hl
    refine ⟨l, ⟨a, ha, hl⟩, b, hb, (Layout.literal_eq_ok hfit).mpr ⟨?_, ?_⟩⟩
    · rw [← hproposition, hvar]
      rfl
    · rw [hvalue, ← hpositive]
      rfl

/-- A condition of the goal is opposite to an assertion about all plans only at horizon zero, where
it does not hold in the initial state. -/
theorem WellFormed.exists_opposite_iff (hp : p.WellFormed) {c : Condition} (hc : c ∈ p.goal) :
    (∃ a, .always a ∈ constraints p horizon ∧ a.proposition = .fluent c.fluent horizon ∧
        a.value = !c.polarity) ↔ horizon = 0 ∧ ¬ c.holds p.initial = true := by
  rw [Condition.holds_iff]
  constructor
  · rintro ⟨⟨q, value⟩, ha, rfl, rfl⟩
    rcases hp.always_mem_constraints_iff.mp ha with ⟨f, hf, heq⟩ | ⟨d, hd, heq⟩
    · cases heq
      exact ⟨rfl, by simp [hf]⟩
    · -- The goal asks for every fluent once.
      rw [Assertion.ofCondition, Assertion.mk.injEq, Proposition.fluent.injEq] at heq
      obtain rfl := eq_of_increasing hp.goal.increasing hc hd heq.1.1
      simp at heq
  · rintro ⟨rfl, hne⟩
    obtain ⟨value, hvalue⟩ : ∃ value, p.initial[c.fluent]? = some value :=
      ⟨_, Array.getElem?_eq_getElem (by rw [hp.initial_size]; exact hp.goal.bounded c hc)⟩
    refine ⟨⟨.fluent c.fluent 0, value⟩,
      hp.always_mem_constraints_iff.mpr (.inl ⟨_, hvalue, rfl⟩), rfl, ?_⟩
    rw [hvalue, Option.some.injEq] at hne
    exact Bool.eq_not.mpr hne

/-- A formula is visibly contradictory exactly at horizon zero, if the goal does not hold there. -/
theorem WellFormed.contradictory_encode_iff (hp : p.WellFormed)
    (hfit : (p.layout horizon).FitsWords) (hencode : (p.layout horizon).encode p = .ok clauses) :
    clauses.contradictory = true ↔ horizon = 0 ∧ ¬ p.goalHolds p.initial = true := by
  rw [hp.contradictory_encode_iff_exists_always hfit hencode]
  constructor
  · rintro ⟨a, b, ha, hb, hproposition, hvalue⟩
    have hmissed : ∀ c ∈ p.goal, ¬ c.holds p.initial = true → ¬ p.goalHolds p.initial = true :=
      fun c hc hne hgoal => hne (List.all_eq_true.mp hgoal c hc)
    rcases hp.always_mem_constraints_iff.mp hb with ⟨f, hf, hbf⟩ | ⟨c, hc, rfl⟩
    · rcases hp.always_mem_constraints_iff.mp ha with ⟨g, hg, hag⟩ | ⟨c, hc, rfl⟩
      · -- The initial state gives one value to every fluent.
        rw [hbf, hag, Proposition.fluent.injEq] at hproposition
        rw [hproposition.1, hf, hvalue] at hg
        simp at hg
      · refine ((hp.exists_opposite_iff hc).mp ⟨b, hb, hproposition.symm, hvalue⟩).imp_right ?_
        exact hmissed c hc
    · have hopposite : a.value = !c.polarity := by
        rw [show c.polarity = !a.value from hvalue, Bool.not_not]
      exact ((hp.exists_opposite_iff hc).mp ⟨a, ha, hproposition, hopposite⟩).imp_right
        (hmissed c hc)
  · rintro ⟨rfl, hgoal⟩
    obtain ⟨c, hc, hne⟩ : ∃ c ∈ p.goal, ¬ c.holds p.initial = true := by
      simpa [goalHolds] using hgoal
    obtain ⟨a, ha, hproposition, hvalue⟩ := (hp.exists_opposite_iff hc).mpr ⟨rfl, hne⟩
    have hopposite : c.polarity = !a.value := by rw [hvalue, Bool.not_not]
    exact ⟨a, .ofCondition 0 c, ha, hp.always_mem_constraints_iff.mpr (.inr ⟨c, hc, rfl⟩),
      hproposition, hopposite⟩

/-- At horizon zero a formula without a visible contradiction is satisfiable. -/
theorem WellFormed.contradictory_encode_zero_iff (hp : p.WellFormed)
    (hfit : (p.layout 0).FitsWords) (hencode : (p.layout 0).encode p = .ok clauses) :
    clauses.contradictory = true ↔ ¬ ∃ a : Assignment, a.satisfiesAll clauses.toList = true := by
  rw [hp.contradictory_encode_iff hfit hencode, hp.satisfiable_iff hfit hencode,
    solvableWithin_zero_iff, and_iff_right rfl]

end Problem

end HorizonPlanner
