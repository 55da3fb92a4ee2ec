import HorizonPlanner.Proofs.Changes
import HorizonPlanner.Proofs.Conditions
import HorizonPlanner.Proofs.Fluents

/-!
# Well-formed problems

A problem grows from its fluents by edits. Whatever the edits are, and whether or not they are
refused, its operators are numbered by their positions and so in the index, all conditions are about
existing fluents and are kept in canonical form, and the initial state gives a value to every
fluent.
-/

namespace HorizonPlanner

/-- An operator whose conditions are canonical for `n` fluents. -/
structure Operator.WellFormed (n : Nat) (o : Operator) : Prop where
  /-- The preconditions are canonical. -/
  preconditions : Condition.Canonical n o.preconditions
  /-- The effects are canonical. -/
  effects : Condition.Canonical n o.effects

namespace Problem

/-- What every edit of a problem preserves. -/
structure WellFormed (p : Problem) : Prop where
  /-- Operators are numbered by their positions. -/
  id_eq : ∀ {i : Nat} {o : Operator}, p.operators[i]? = some o → o.id = i
  /-- No two operators have the same label. -/
  labels_nodup : (p.operators.map (·.label)).Nodup
  /-- The index has the positions of all labels, and nothing else. -/
  operatorIds_eq : p.operatorIds = .ofLabels (p.operators.map (·.label))
  /-- The conditions of operators are canonical. -/
  operators : ∀ o ∈ p.operators, o.WellFormed p.nFluents
  /-- The initial state knows every fluent and no other. -/
  initial_size : p.initial.size = p.nFluents
  /-- The goal is canonical. -/
  goal : Condition.Canonical p.nFluents p.goal

/-- The problems that can be built: from fluents added one after the other, by a history of edits of
which the refused ones leave no trace. -/
def Built (p : Problem) : Prop :=
  ∃ (labels : List String) (history : List Edit), p = afterEdits (FluentSet.ofList labels) history

/-- The number found for a label is that of a fluent. -/
theorem idOf?_lt {p : Problem} {label : String} {id : Nat} (h : p.fluents.idOf? label = some id) :
    id < p.nFluents := by
  have hlt := (List.getElem?_eq_some_iff.mp (FluentSet.getElem?_of_idOf? h)).1
  rwa [FluentSet.length_labels] at hlt

/-! ### Resolving conditions -/

section

variable {p : Problem} {conditions rest : List LabelledCondition} {numbered : List Condition}
  {resolved : List Condition} {label : String} {polarity : Bool} {fault : ConditionFault}

/-- The labels of conditions are replaced one after the other. -/
theorem number_cons_eq_ok_iff :
    p.number ((label, polarity) :: rest) = .ok numbered ↔
      ∃ f others, p.fluents.get? label = some f ∧ p.number rest = .ok others ∧
        numbered = ⟨f.id, polarity⟩ :: others := by
  rw [number]
  cases p.fluents.get? label with
  | none => simp
  | some f => cases p.number rest <;> simp [Except.map, eq_comm]

/-- Conditions are resolved to the ordered ones if all labels are known and no two disagree. -/
theorem resolve_eq_ok_iff :
    p.resolve conditions = .ok resolved ↔
      ∃ numbered, p.number conditions = .ok numbered ∧
        Condition.contradiction? (Condition.normalize numbered) = none ∧
          resolved = Condition.normalize numbered := by
  unfold resolve
  cases p.number conditions with
  | error fault => simp
  | ok numbered =>
    cases hcontradiction : Condition.contradiction? (Condition.normalize numbered) <;>
      simp [hcontradiction, eq_comm]

/-- Conditions are not resolved if a label is unknown, or if two of them disagree. -/
theorem resolve_eq_error_iff :
    p.resolve conditions = .error fault ↔
      p.number conditions = .error fault ∨
        ∃ numbered f, p.number conditions = .ok numbered ∧
          Condition.contradiction? (Condition.normalize numbered) = some f ∧
            fault = .contradictory (p.fluentLabel f) := by
  unfold resolve
  cases p.number conditions with
  | error fault => simp
  | ok numbered =>
    cases hcontradiction : Condition.contradiction? (Condition.normalize numbered) <;>
      simp [hcontradiction, eq_comm]

/-- Conditions on labels become conditions on existing fluents. -/
theorem fluent_lt_of_number (h : p.number conditions = .ok numbered) :
    ∀ c ∈ numbered, c.fluent < p.nFluents := by
  induction conditions generalizing numbered with
  | nil =>
    cases h
    simp
  | cons e rest ih =>
    obtain ⟨f, others, hf, hrest, rfl⟩ := number_cons_eq_ok_iff.mp h
    exact List.forall_mem_cons.mpr ⟨idOf?_lt (FluentSet.get?_eq_some.mp hf).1, ih hrest⟩

/-- Resolved conditions are canonical. -/
theorem canonical_of_resolve (h : p.resolve conditions = .ok resolved) :
    Condition.Canonical p.nFluents resolved := by
  obtain ⟨numbered, hnumbered, hnone, rfl⟩ := resolve_eq_ok_iff.mp h
  have hordered := Condition.ordered_normalize numbered
  refine ⟨hordered.increasing_of_contradiction?_eq_none hnone, fun c hc => ?_⟩
  exact fluent_lt_of_number hnumbered c (Condition.mem_normalize.mp hc)

end

/-! ### Changes -/

/-- A problem without operators and goals is well-formed. -/
theorem wellFormed_ofFluents (fluents : FluentSet) : (ofFluents fluents).WellFormed where
  id_eq h := by simp [ofFluents] at h
  labels_nodup := List.nodup_nil
  operatorIds_eq := rfl
  operators o ho := by simp [ofFluents] at ho
  initial_size := by simp [ofFluents, nFluents]
  goal := ⟨.nil, by simp [ofFluents]⟩

/-- A new operator gets the next number, and a goal condition its place in the order. -/
theorem WellFormed.change {p q : Problem} (hp : p.WellFormed) {e : Edit} (h : p.Change e q) :
    q.WellFormed := by
  cases h with
  | @operator label preconditions effects pre eff hfree hpre heff =>
    have hnew : Operator.WellFormed p.nFluents ⟨p.operators.length, label, pre, eff⟩ :=
      ⟨canonical_of_resolve hpre, canonical_of_resolve heff⟩
    refine ⟨fun {i o} ho => ?_, ?_, ?_, fun o ho => ?_, hp.initial_size, hp.goal⟩
    · rw [List.getElem?_append] at ho
      split at ho
      · exact hp.id_eq ho
      · rw [List.getElem?_singleton] at ho
        split at ho
        · cases ho
          show p.operators.length = i
          omega
        · cases ho
    · rw [List.map_append, List.map_singleton]
      exact List.nodup_append.mpr ⟨hp.labels_nodup, List.nodup_singleton _, by simpa using hfree⟩
    · rw [List.map_append, List.map_singleton, Index.ofLabels_concat, ← hp.operatorIds_eq,
        List.length_map]
    · rcases List.mem_append.mp ho with ho | ho
      · exact hp.operators o ho
      · rw [List.mem_singleton] at ho
        exact ho ▸ hnew
  | initiallyTrue =>
    refine ⟨hp.id_eq, hp.labels_nodup, hp.operatorIds_eq, hp.operators, ?_, hp.goal⟩
    simpa [nFluents] using hp.initial_size
  | goal hid hopposite =>
    exact ⟨hp.id_eq, hp.labels_nodup, hp.operatorIds_eq, hp.operators, hp.initial_size,
      hp.goal.insertInto (idOf?_lt hid) hopposite⟩

/-- An operator has a label exactly when the index has it. -/
theorem WellFormed.hasOperator_iff {p : Problem} (hp : p.WellFormed) {label : String} :
    p.hasOperator label = true ↔ ∃ o ∈ p.operators, o.label = label := by
  rw [hasOperator, hp.operatorIds_eq, Index.contains_ofLabels_iff, List.mem_map]

/-- An edit that is carried out is one of the changes. -/
theorem WellFormed.change_of_edit {p q : Problem} (hp : p.WellFormed) {e : Edit}
    (h : p.edit e = .ok q) :
    p.Change e q := by
  rw [edit_eq_ok_iff] at h
  cases e with
  | operator label preconditions effects =>
    rw [respond_operator] at h
    split at h
    · cases h
    · next hfree =>
      split at h
      · cases h
      · next pre hpre =>
        split at h
        · cases h
        · next eff heff =>
          cases h
          exact .operator (fun o ho hlabel => hfree (hp.hasOperator_iff.mpr ⟨o, ho, hlabel⟩))
            hpre heff
  | initiallyTrue label =>
    rw [respond_initiallyTrue] at h
    split at h
    · cases h
    · next f hf =>
      cases h
      exact .initiallyTrue (FluentSet.get?_eq_some.mp hf).1
  | goal label polarity =>
    rw [respond_goal] at h
    split at h
    · cases h
    · next f hf =>
      split at h
      · cases h
      · next hopposite =>
        cases h
        rw [hp.goal.ordered.placeInto_eq]
        exact .goal (FluentSet.get?_eq_some.mp hf).1 fun hmem =>
          hopposite (List.contains_iff_mem.mpr hmem)

/-! ### Histories -/

/-- A problem stays well-formed whether or not an edit is carried out. -/
theorem WellFormed.attempt {p : Problem} (hp : p.WellFormed) (e : Edit) :
    (p.attempt e).WellFormed := by
  cases hedit : p.edit e with
  | error r =>
    rw [attempt_of_edit_eq_error hedit]
    exact hp
  | ok q =>
    rw [attempt_of_edit_eq_ok hedit]
    exact hp.change (hp.change_of_edit hedit)

/-- A problem stays well-formed over a whole history. -/
theorem wellFormed_afterEdits (fluents : FluentSet) (history : List Edit) :
    (afterEdits fluents history).WellFormed :=
  List.foldlRecOn history Problem.attempt (motive := WellFormed) (wellFormed_ofFluents fluents)
    fun _ hp e _ => hp.attempt e

/-- Every problem that was built is well-formed. -/
theorem Built.wellFormed {p : Problem} (hp : p.Built) : p.WellFormed := by
  obtain ⟨labels, history, rfl⟩ := hp
  exact wellFormed_afterEdits _ _

/-- The operator with a number stands in this place. -/
theorem operatorById_eq_ok {p : Problem} {i : Nat} {o : Operator} :
    p.operatorById i = .ok o ↔ p.operators[i]? = some o := by
  unfold operatorById lookup
  cases p.operators[i]? <;> simp

/-- The numbers of operators are those below their count. -/
theorem exists_operatorById_iff {p : Problem} {i : Nat} :
    (∃ o, p.operatorById i = .ok o) ↔ i < p.nOperators := by
  simp [operatorById_eq_ok, ← Option.isSome_iff_exists, nOperators]

end Problem

end HorizonPlanner
