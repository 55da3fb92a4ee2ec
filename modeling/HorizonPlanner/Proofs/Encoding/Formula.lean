import HorizonPlanner.Proofs.Encoding.Meaning

/-!
# The formula of a well-formed problem

All constraints on the plans of a well-formed problem are about propositions of the layout of their
horizon. The formula therefore exists, its variables are those of the layout, and it says that the
constraints hold.
-/

namespace HorizonPlanner

open HorizonPlanner.Sat HorizonPlanner.Encoding

namespace Problem

variable {p : Problem} {horizon : Nat}

/-- A larger horizon has at least as many variables. -/
theorem nVars_layout_mono (p : Problem) {larger : Nat} (hle : horizon ≤ larger) :
    (p.layout horizon).nVars ≤ (p.layout larger).nVars :=
  Nat.add_le_add (Nat.mul_le_mul_left _ (Nat.succ_le_succ hle)) (Nat.mul_le_mul_left _ hle)

/-- The constraints about a step are about propositions of its layer and the next one. -/
theorem WellFormed.within_stepConstraints (hp : p.WellFormed) {step : Nat}
    (hstep : step < horizon) :
    ∀ k ∈ stepConstraints p (changers p) p.interferingPairs step, k.Within (p.layout horizon) := by
  have hle : step ≤ horizon := Nat.le_of_lt hstep
  have hproducer : ∀ {c : Condition} {i : Nat}, i ∈ p.producers c →
      (p.layout horizon).Has (.operator i step) := fun hi => by
    obtain ⟨o, ho, -⟩ := hp.mem_producers.mp hi
    exact ⟨(List.getElem?_eq_some_iff.mp ho).1, hstep⟩
  intro k hk
  simp only [stepConstraints, List.mem_append] at hk
  rcases hk with ((hk | hk) | hk) | hk
  · obtain ⟨o, ho, rfl⟩ := List.mem_map.mp hk
    refine ⟨⟨hp.id_lt ho, hstep⟩, List.forall_mem_map.mpr fun c hc => ?_⟩
    exact ⟨(hp.operators o ho).preconditions.bounded c hc, hle⟩
  · obtain ⟨o, ho, rfl⟩ := List.mem_map.mp hk
    refine ⟨⟨hp.id_lt ho, hstep⟩, List.forall_mem_map.mpr fun c hc => ?_⟩
    exact ⟨(hp.operators o ho).effects.bounded c hc, hstep⟩
  · obtain ⟨c, hc, hk⟩ := List.mem_flatMap.mp hk
    obtain ⟨f, hf, rfl⟩ := List.mem_map.mp hc
    have hnow : (p.layout horizon).Has (.fluent f step) := ⟨List.mem_range.mp hf, hle⟩
    have hnext : (p.layout horizon).Has (.fluent f (step + 1)) := ⟨List.mem_range.mp hf, hstep⟩
    have hcause : ∀ c : Condition, ∀ a ∈ (p.producers c).map (Assertion.executed step true),
        (p.layout horizon).Has a.proposition := fun c =>
      List.forall_mem_map.mpr fun i hi => hproducer hi
    rcases List.mem_cons.mp hk with rfl | hk
    · exact List.forall_mem_cons.mpr ⟨hnow, List.forall_mem_cons.mpr ⟨hnext, hcause _⟩⟩
    · obtain rfl := List.mem_singleton.mp hk
      exact List.forall_mem_cons.mpr ⟨hnow, List.forall_mem_cons.mpr ⟨hnext, hcause _⟩⟩
  · obtain ⟨⟨i, j⟩, hij, rfl⟩ := List.mem_map.mp hk
    obtain ⟨-, a, b, ha, hb, -⟩ := hp.mem_interferingPairs.mp hij
    have hi : (p.layout horizon).Has (.operator i step) :=
      ⟨(List.getElem?_eq_some_iff.mp ha).1, hstep⟩
    have hj : (p.layout horizon).Has (.operator j step) :=
      ⟨(List.getElem?_eq_some_iff.mp hb).1, hstep⟩
    exact List.forall_mem_cons.mpr ⟨hi, List.forall_mem_singleton.mpr hj⟩

/-- The constraints on the plans of a horizon are about the propositions of its layout. -/
theorem WellFormed.within_constraints (hp : p.WellFormed) (horizon : Nat) :
    ∀ k ∈ constraints p horizon, k.Within (p.layout horizon) := by
  intro k hk
  simp only [constraints, List.mem_append, List.mem_flatMap, List.mem_range] at hk
  rcases hk with (hk | hk) | ⟨step, hstep, hk⟩
  · obtain ⟨e, he, rfl⟩ := List.mem_map.mp hk
    have hlt : e.2 < p.initial.toList.length := List.snd_lt_of_mem_zipIdx he
    rw [Array.length_toList, hp.initial_size] at hlt
    exact ⟨hlt, Nat.zero_le horizon⟩
  · obtain ⟨c, hc, rfl⟩ := List.mem_map.mp hk
    exact ⟨hp.goal.bounded c hc, Nat.le_refl horizon⟩
  · exact hp.within_stepConstraints hstep k hk

end Problem

namespace Encoding.Layout

variable {t : Layout} {p : Problem} {clauses : ClauseSet}

/-! ### The formula as a whole -/

/-- Constraints are added to a set by adding the list of all their clauses. -/
theorem addAll_eq_ok_iff {set : ClauseSet} {ks : List Constraint} :
    t.addAll set ks = .ok clauses ↔
      ∃ cs, ks.mapM t.clauses = .ok cs ∧ clauses = set.insertAll cs.flatten := by
  induction ks generalizing set with
  | nil =>
    rw [addAll, List.foldlM_nil, List.mapM_nil]
    exact ⟨fun h => (by cases h; exact ⟨[], rfl, rfl⟩),
      fun ⟨_, h, hclauses⟩ => (by cases h; rw [hclauses]; rfl)⟩
  | cons k ks ih =>
    have hstep : t.addAll set (k :: ks) = .ok clauses ↔
        ∃ ds, t.clauses k = .ok ds ∧ t.addAll (set.insertAll ds) ks = .ok clauses := by
      simp only [addAll, List.foldlM_cons, bind_assoc, pure_bind, bind_eq_ok_iff]
    have happend : ∀ ds es : List Clause, (set.insertAll ds).insertAll es = set.insertAll
        (ds ++ es) :=
      fun ds es => List.foldl_append.symm
    simp only [hstep, ih, List.mapM_cons, bind_eq_ok_iff, happend]
    constructor
    · rintro ⟨ds, hds, es, hes, rfl⟩
      exact ⟨ds :: es, ⟨ds, hds, es, hes, rfl⟩, rfl⟩
    · rintro ⟨_, ⟨ds, hds, es, hes, hcons⟩, rfl⟩
      cases hcons
      exact ⟨ds, hds, es, hes, rfl⟩

/-- Steps are added one after the other by adding the constraints of all of them. -/
theorem addSteps_eq {cs : List Changers} {pairs : List (Nat × Nat)} {n step : Nat}
    {set : ClauseSet} :
    t.addSteps p cs pairs n step set =
      t.addAll set ((List.range' step n).flatMap (stepConstraints p cs pairs)) := by
  induction n generalizing step set with
  | zero => rfl
  | succ n ih =>
    simp only [addSteps, ih, List.range'_succ, List.flatMap_cons, addAll, List.foldlM_append]

/-- The formula is the set of the clauses of all constraints, if they all have clauses. -/
theorem encode_eq_ok_iff :
    t.encode p = .ok clauses ↔
      ∃ cs, (constraints p t.horizon).mapM t.clauses = .ok cs ∧ clauses = .ofList cs.flatten := by
  have hencode : t.encode p = t.addAll .empty (constraints p t.horizon) := by
    simp only [encode, constraints, addSteps_eq, List.range_eq_range', addAll, List.foldlM_append]
  rw [hencode]
  exact addAll_eq_ok_iff

end Encoding.Layout

/-- A well-formed problem has a formula for every horizon whose variables fit into words. -/
theorem Problem.WellFormed.exists_encode {p : Problem} {horizon : Nat} (hp : p.WellFormed)
    (hfit : (p.layout horizon).FitsWords) :
    ∃ clauses, (p.layout horizon).encode p = .ok clauses := by
  obtain ⟨cs, hcs⟩ := exists_mapM_eq_ok_iff.mpr fun k hk =>
    Layout.exists_clauses hfit (hp.within_constraints horizon k hk)
  exact ⟨ClauseSet.ofList cs.flatten, Layout.encode_eq_ok_iff.mpr ⟨cs, hcs, rfl⟩⟩

namespace Encoding.Layout

variable {t : Layout} {p : Problem} {clauses : ClauseSet} {v : Valuation}

/-- A formula represents the clauses of all constraints. -/
theorem represents_of_encode (h : t.encode p = .ok clauses) :
    ∃ cs, (constraints p t.horizon).mapM t.clauses = .ok cs ∧ clauses.Represents cs.flatten := by
  obtain ⟨cs, hcs, rfl⟩ := encode_eq_ok_iff.mp h
  exact ⟨cs, hcs, ClauseSet.represents_ofList _⟩

/-- A formula is true under a valuation exactly when all constraints hold under an interpretation
that agrees with it. -/
theorem Agrees.holds_encode_iff {w : Interpretation} (hw : t.Agrees v w)
    (h : t.encode p = .ok clauses) :
    (∀ c ∈ clauses.toList, c.Holds v) ↔ ∀ k ∈ constraints p t.horizon, k.Holds w := by
  obtain ⟨cs, hcs, hrepresents⟩ := represents_of_encode h
  rw [hrepresents.holds_iff]
  clear hrepresents
  rw [mapM_eq_ok_iff] at hcs
  generalize constraints p t.horizon = ks at hcs
  induction hcs with
  | nil => simp
  | cons hk _ ih =>
    rw [List.flatten_cons, List.forall_mem_append, List.forall_mem_cons, ih,
      holds_clauses_iff hw hk]

/-- A formula is true exactly when all constraints hold. -/
theorem holds_encode_iff (hfit : t.FitsWords) (h : t.encode p = .ok clauses) :
    (∀ c ∈ clauses.toList, c.Holds v) ↔
      ∀ k ∈ constraints p t.horizon, k.Holds (t.interpretation v) :=
  (agrees_interpretation hfit).holds_encode_iff h

/-- The variables of a formula are those of the layout. -/
theorem number_le_of_encode (hfit : t.FitsWords) (h : t.encode p = .ok clauses) :
    ∀ c ∈ clauses.toList, ∀ l ∈ c, l.var.number ≤ t.nVars := by
  obtain ⟨cs, hcs, hrepresents⟩ := represents_of_encode h
  intro c hc l hl
  obtain ⟨d, hd, hsame⟩ := hrepresents.origin c hc
  obtain ⟨ds, hds, hd⟩ := List.mem_flatten.mp hd
  obtain ⟨k, -, hk⟩ := (mem_of_mapM_eq_ok hcs).mp hds
  obtain ⟨a, ha⟩ := exists_literal_of_mem_clauses hk d hd l ((hsame l).mp hl)
  exact number_le_nVars ((literal_eq_ok hfit).mp ha).1

end Encoding.Layout

end HorizonPlanner
