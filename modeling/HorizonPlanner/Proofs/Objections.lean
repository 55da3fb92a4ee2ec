import HorizonPlanner.Proofs.Fluents
import HorizonPlanner.Proofs.WellFormed

/-!
# Reasons to refuse an edit

An edit is refused exactly when there is a reason: a label that is taken, a label without a fluent,
or a fluent that is required to have both truth values. The refusal then states such a reason.
-/

namespace HorizonPlanner

namespace Problem

/-- What is wrong with a list of conditions. -/
inductive FaultIn (p : Problem) (conditions : List LabelledCondition) : ConditionFault → Prop
  /-- A condition is about a label that no fluent has. -/
  | unknownFluent {label : String} {polarity : Bool} (mem : (label, polarity) ∈ conditions)
    (unknown : label ∉ p.fluents.labels) : FaultIn p conditions (.unknownFluent label)
  /-- A fluent is required to be both true and false. -/
  | contradictory {label : String} (mem_true : (label, true) ∈ conditions)
    (mem_false : (label, false) ∈ conditions) : FaultIn p conditions (.contradictory label)

/-- What is wrong with an edit. -/
inductive Objection (p : Problem) : Edit → Refusal → Prop
  /-- The label of the new operator is taken. -/
  | operatorExists {label : String} {preconditions effects : List LabelledCondition} {o : Operator}
    (mem : o ∈ p.operators) (label_eq : o.label = label) :
    Objection p (.operator label preconditions effects) (.operatorExists label)
  /-- There is a fault in the preconditions of the new operator. -/
  | preconditions {label : String} {preconditions effects : List LabelledCondition}
    {fault : ConditionFault} (faultIn : p.FaultIn preconditions fault) :
    Objection p (.operator label preconditions effects) (.preconditions label fault)
  /-- There is a fault in the effects of the new operator. -/
  | effects {label : String} {preconditions effects : List LabelledCondition}
    {fault : ConditionFault} (faultIn : p.FaultIn effects fault) :
    Objection p (.operator label preconditions effects) (.effects label fault)
  /-- No fluent has the label. -/
  | initialFluent {label : String} (unknown : label ∉ p.fluents.labels) :
    Objection p (.initiallyTrue label) (.initialFluent label)
  /-- No fluent has the label of the goal. -/
  | goalFluent {label : String} {polarity : Bool} (unknown : label ∉ p.fluents.labels) :
    Objection p (.goal label polarity) (.goalFluent label)
  /-- The goal already requires the other truth value of the fluent. -/
  | goalContradiction {label : String} {polarity : Bool} {id : Nat}
    (known : p.fluents.idOf? label = some id) (mem : ⟨id, !polarity⟩ ∈ p.goal) :
    Objection p (.goal label polarity) (.goalContradiction label)

variable {p q : Problem} {conditions : List LabelledCondition} {numbered : List Condition}
  {fault : ConditionFault} {label : String} {e : Edit} {r : Refusal}

/-- A fault in some conditions remains one when another condition is put in front. -/
theorem FaultIn.cons {c : LabelledCondition} (h : p.FaultIn conditions fault) :
    p.FaultIn (c :: conditions) fault := by
  cases h with
  | unknownFluent hmem hunknown => exact .unknownFluent (List.mem_cons_of_mem c hmem) hunknown
  | contradictory htrue hfalse =>
    exact .contradictory (List.mem_cons_of_mem c htrue) (List.mem_cons_of_mem c hfalse)

/-! ### Conditions on labels and on numbers -/

private theorem faultIn_of_number (h : p.number conditions = .error fault) :
    p.FaultIn conditions fault := by
  induction conditions with
  | nil => cases h
  | cons c rest ih =>
    obtain ⟨label, polarity⟩ := c
    unfold number at h
    split at h
    · next hnone =>
      cases h
      exact .unknownFluent List.mem_cons_self (FluentSet.get?_eq_none_iff.mp hnone)
    · cases hrest : p.number rest with
      | ok others => simp [hrest, Except.map] at h
      | error fault' =>
        simp only [hrest, Except.map, Except.error.injEq] at h
        subst h
        exact (ih hrest).cons

/-- The numbered conditions are those of the labels, and all labels have fluents. -/
theorem mem_iff_of_number (h : p.number conditions = .ok numbered) :
    (∀ c : Condition, c ∈ numbered ↔
      ∃ label, p.fluents.idOf? label = some c.fluent ∧ (label, c.polarity) ∈ conditions) ∧
      ∀ label polarity, (label, polarity) ∈ conditions → ∃ id, p.fluents.idOf? label = some id := by
  induction conditions generalizing numbered with
  | nil =>
    cases h
    simp
  | cons c rest ih =>
    obtain ⟨label, polarity⟩ := c
    obtain ⟨f, others, hf, hrest, rfl⟩ := number_cons_eq_ok_iff.mp h
    obtain ⟨hid, -⟩ := FluentSet.get?_eq_some.mp hf
    obtain ⟨hmem, hknown⟩ := ih hrest
    refine ⟨fun c => ?_, ?_⟩
    · rw [List.mem_cons, hmem]
      constructor
      · rintro (rfl | ⟨l, hl, hrest⟩)
        · exact ⟨label, hid, List.mem_cons_self⟩
        · exact ⟨l, hl, List.mem_cons_of_mem _ hrest⟩
      · rintro ⟨l, hl, hcons⟩
        rcases List.mem_cons.mp hcons with heq | hrest
        · obtain ⟨rfl, rfl⟩ := Prod.mk.inj heq
          rw [hid, Option.some.injEq] at hl
          exact .inl (by rw [hl])
        · exact .inr ⟨l, hl, hrest⟩
    · intro l polarity' hcons
      rcases List.mem_cons.mp hcons with heq | hrest
      · cases heq
        exact ⟨f.id, hid⟩
      · exact hknown l polarity' hrest

/-- What is reported of a list of conditions is wrong with it. -/
theorem faultIn_of_resolve (h : p.resolve conditions = .error fault) :
    p.FaultIn conditions fault := by
  rcases resolve_eq_error_iff.mp h with hnumber | ⟨numbered, f, hnumber, hf, rfl⟩
  · exact faultIn_of_number hnumber
  · obtain ⟨hmem, -⟩ := mem_iff_of_number hnumber
    obtain ⟨hfalse, htrue⟩ :=
      (Condition.ordered_normalize numbered).mem_of_contradiction?_eq_some hf
    rw [Condition.mem_normalize, hmem] at hfalse htrue
    obtain ⟨label, hlabel, hfalse⟩ := hfalse
    obtain ⟨label', hlabel', htrue⟩ := htrue
    have hget := FluentSet.getElem?_of_idOf? hlabel
    have hget' := FluentSet.getElem?_of_idOf? hlabel'
    obtain rfl : label' = label := Option.some.inj (hget'.symm.trans hget)
    have hname : p.fluentLabel f = label' := by
      rw [fluentLabel, List.getD_eq_getElem?_getD, hget, Option.getD_some]
    rw [hname]
    exact .contradictory htrue hfalse

/-- There is nothing wrong with conditions that are resolved. -/
theorem not_faultIn_of_resolve {resolved : List Condition}
    (h : p.resolve conditions = .ok resolved) :
    ¬ p.FaultIn conditions fault := by
  obtain ⟨numbered, hnumber, hnone, -⟩ := resolve_eq_ok_iff.mp h
  obtain ⟨hmem, hknown⟩ := mem_iff_of_number hnumber
  intro hfault
  cases hfault with
  | @unknownFluent label polarity hcondition hunknown =>
    obtain ⟨id, hid⟩ := hknown label polarity hcondition
    rw [FluentSet.idOf?_eq_none_iff.mpr hunknown] at hid
    cases hid
  | @contradictory label htrue hfalse =>
    obtain ⟨id, hid⟩ := hknown label true htrue
    refine (Condition.ordered_normalize numbered).contradiction?_ne_none (f := id) ?_ ?_ hnone
    · exact Condition.mem_normalize.mpr ((hmem ⟨id, false⟩).mpr ⟨label, hid, hfalse⟩)
    · exact Condition.mem_normalize.mpr ((hmem ⟨id, true⟩).mpr ⟨label, hid, htrue⟩)

/-! ### Edits that are refused and edits that are carried out -/

/-- A refusal names something that is wrong with the edit. -/
theorem WellFormed.objection_of_edit (hp : p.WellFormed) (h : p.edit e = .error r) :
    p.Objection e r := by
  rw [edit_eq_error_iff] at h
  cases e with
  | operator label preconditions effects =>
    rw [respond_operator] at h
    split at h
    · next htaken =>
      cases h
      obtain ⟨o, ho, hlabel⟩ := hp.hasOperator_iff.mp htaken
      exact .operatorExists ho hlabel
    · split at h
      · next hpre =>
        cases h
        exact .preconditions (faultIn_of_resolve hpre)
      · split at h
        · next heff =>
          cases h
          exact .effects (faultIn_of_resolve heff)
        · cases h
  | initiallyTrue label =>
    rw [respond_initiallyTrue] at h
    split at h
    · next hnone =>
      cases h
      exact .initialFluent (FluentSet.get?_eq_none_iff.mp hnone)
    · cases h
  | goal label polarity =>
    rw [respond_goal] at h
    split at h
    · next hnone =>
      cases h
      exact .goalFluent (FluentSet.get?_eq_none_iff.mp hnone)
    · next f hf =>
      split at h
      · next hopposite =>
        cases h
        exact .goalContradiction (FluentSet.get?_eq_some.mp hf).1
          (List.contains_iff_mem.mp hopposite)
      · cases h

/-- There is nothing wrong with an edit that is carried out. -/
theorem Change.not_objection (h : p.Change e q) : ¬ p.Objection e r := by
  intro hobjection
  cases hobjection with
  | operatorExists ho hlabel =>
    cases h with
    | operator hfree => exact hfree _ ho hlabel
  | preconditions hfault =>
    cases h with
    | operator _ hpre => exact not_faultIn_of_resolve hpre hfault
  | effects hfault =>
    cases h with
    | operator _ _ heff => exact not_faultIn_of_resolve heff hfault
  | initialFluent hunknown =>
    cases h with
    | initiallyTrue hid => rw [FluentSet.idOf?_eq_none_iff.mpr hunknown] at hid; cases hid
  | goalFluent hunknown =>
    cases h with
    | goal hid => rw [FluentSet.idOf?_eq_none_iff.mpr hunknown] at hid; cases hid
  | goalContradiction hid hmem =>
    cases h with
    | goal hid' hopposite =>
      rw [hid, Option.some.injEq] at hid'
      exact hopposite (hid' ▸ hmem)

/-- An edit is refused exactly when something is wrong with it. -/
theorem WellFormed.exists_edit_eq_error_iff (hp : p.WellFormed) :
    (∃ r, p.edit e = .error r) ↔ ∃ r, p.Objection e r := by
  constructor
  · rintro ⟨r, h⟩
    exact ⟨r, hp.objection_of_edit h⟩
  · rintro ⟨r, hobjection⟩
    cases h : p.edit e with
    | error reported => exact ⟨reported, rfl⟩
    | ok q => exact ((hp.change_of_edit h).not_objection hobjection).elim

end Problem

end HorizonPlanner
