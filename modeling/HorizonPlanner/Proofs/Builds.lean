import HorizonPlanner.Proofs.Objections
import HorizonPlanner.Proofs.Traversal

/-!
# Series of edits

A problem is built from its fluents by a series of edits, none of which may be refused. The series
succeeds exactly when one problem records all the edits together, and this problem is the only one:
the order of the edits decides how the operators are numbered, and nothing else.
-/

namespace HorizonPlanner

/-- The label of the operator an edit adds. -/
def Edit.operatorLabel? : Edit → Option String
  | .operator label _ _ => some label
  | _ => none

/-- The conditions are those stated, for fluents given by their labels. -/
structure FluentSet.Collects (s : FluentSet) (stated : String → Bool → Prop) (cs : List Condition) :
    Prop where
  /-- Every fluent something is stated about exists. -/
  known : ∀ label polarity, stated label polarity → ∃ id, s.idOf? label = some id
  /-- The conditions are the numbered ones of those stated. -/
  mem_iff : ∀ c : Condition, c ∈ cs ↔ ∃ label, s.idOf? label = some c.fluent ∧
    stated label c.polarity

/-- Lists that collect the same conditions have the same elements. -/
theorem FluentSet.Collects.mem_iff_of {s : FluentSet} {stated : String → Bool → Prop}
    {cs ds : List Condition} (hcs : s.Collects stated cs) (hds : s.Collects stated ds)
    (c : Condition) : c ∈ cs ↔ c ∈ ds :=
  (hcs.mem_iff c).trans (hds.mem_iff c).symm

/-- What is collected depends only on what is stated. -/
theorem FluentSet.Collects.congr {s : FluentSet} {stated stated' : String → Bool → Prop}
    {cs : List Condition} (h : s.Collects stated cs)
    (hiff : ∀ label polarity, stated label polarity ↔ stated' label polarity) :
    s.Collects stated' cs where
  known label polarity hstated := h.known label polarity ((hiff label polarity).mpr hstated)
  mem_iff c := by simp only [h.mem_iff, hiff]

/-- No fluent is stated to have both truth values if one canonical list collects all that is
stated. -/
theorem FluentSet.Collects.not_both {s : FluentSet} {stated : String → Bool → Prop}
    {cs : List Condition} {n : Nat} (h : s.Collects stated cs) (hcs : Condition.Canonical n cs)
    {label : String} :
    ¬ (stated label true ∧ stated label false) := by
  rintro ⟨htrue, hfalse⟩
  obtain ⟨id, hid⟩ := h.known label true htrue
  have htrue : ⟨id, true⟩ ∈ cs := (h.mem_iff _).mpr ⟨label, hid, htrue⟩
  have hfalse : ⟨id, false⟩ ∈ cs := (h.mem_iff _).mpr ⟨label, hid, hfalse⟩
  exact hcs.negate_notMem htrue hfalse

/-- One more condition is stated, and inserted. -/
theorem FluentSet.Collects.insertInto {s : FluentSet} {stated : String → Bool → Prop}
    {cs : List Condition} {label : String} {polarity : Bool} {id : Nat} (h : s.Collects stated cs)
    (hid : s.idOf? label = some id) :
    s.Collects (fun l b => stated l b ∨ l = label ∧ b = polarity)
      (Condition.insertInto ⟨id, polarity⟩ cs) where
  known l b hstated := by
    rcases hstated with hstated | ⟨rfl, -⟩
    · exact h.known l b hstated
    · exact ⟨id, hid⟩
  mem_iff c := by
    rw [Condition.mem_insertInto, h.mem_iff]
    constructor
    · rintro (rfl | ⟨l, hl, hstated⟩)
      · exact ⟨label, hid, .inr ⟨rfl, rfl⟩⟩
      · exact ⟨l, hl, .inl hstated⟩
    · rintro ⟨l, hl, hstated | ⟨rfl, hpolarity⟩⟩
      · exact .inr ⟨l, hl, hstated⟩
      · obtain rfl := Option.some.inj (hl.symm.trans hid)
        exact .inl (by rw [← hpolarity])

namespace Problem

/-- The problem of these fluents and edits. -/
structure Records (fluents : FluentSet) (es : List Edit) (p : Problem) : Prop where
  /-- Operators are numbered, conditions are canonical, and the initial state knows exactly the
  fluents. -/
  wellFormed : p.WellFormed
  /-- The fluents are as given. -/
  fluents_eq : p.fluents = fluents
  /-- The operators come in the order in which they are added. -/
  labels_eq : p.operators.map (·.label) = es.filterMap Edit.operatorLabel?
  /-- Every operator added has the conditions stated for it. -/
  operators : ∀ label preconditions effects, .operator label preconditions effects ∈ es →
    ∃ o ∈ p.operators, o.label = label ∧
      fluents.Collects (fun l b => (l, b) ∈ preconditions) o.preconditions ∧
      fluents.Collects (fun l b => (l, b) ∈ effects) o.effects
  /-- Every fluent that is made initially true exists. -/
  initial_known : ∀ label, .initiallyTrue label ∈ es → ∃ id, fluents.idOf? label = some id
  /-- The fluents that are initially true are those that are made so. -/
  initial : ∀ id, p.initial[id]? = some true ↔ ∃ label, fluents.idOf? label = some id ∧
    .initiallyTrue label ∈ es
  /-- The goal consists of the conditions added to it. -/
  goal : fluents.Collects (fun l b => .goal l b ∈ es) p.goal

/-- The fluents are those that were given. -/
theorem Records.nFluents_eq {p : Problem} {fluents : FluentSet} {es : List Edit}
    (h : Records fluents es p) :
    p.nFluents = fluents.size := by
  rw [nFluents, h.fluents_eq]

variable {p q : Problem} {fluents : FluentSet} {es : List Edit} {e : Edit} {r : Refusal}

/-! ### Resolved conditions -/

/-- Conditions are resolved to those stated. -/
theorem collects_of_resolve {conditions : List LabelledCondition} {resolved : List Condition}
    (h : p.resolve conditions = .ok resolved) :
    p.fluents.Collects (fun l b => (l, b) ∈ conditions) resolved := by
  obtain ⟨numbered, hnumber, -, rfl⟩ := resolve_eq_ok_iff.mp h
  obtain ⟨hmem, hknown⟩ := mem_iff_of_number hnumber
  exact ⟨hknown, fun c => by rw [Condition.mem_normalize, hmem]⟩

/-- There is nothing wrong with conditions that some canonical list collects. -/
theorem not_faultIn_of_collects {conditions : List LabelledCondition} {resolved : List Condition}
    {fault : ConditionFault} {n : Nat} (hcanonical : Condition.Canonical n resolved)
    (h : p.fluents.Collects (fun l b => (l, b) ∈ conditions) resolved) :
    ¬ p.FaultIn conditions fault := by
  intro hfault
  cases hfault with
  | unknownFluent hmem hunknown => exact hunknown (FluentSet.exists_idOf?_iff.mp (h.known _ _ hmem))
  | contradictory htrue hfalse => exact h.not_both hcanonical ⟨htrue, hfalse⟩

/-! ### One edit -/

/-- A new problem records no edits. -/
theorem records_ofFluents (fluents : FluentSet) : Records fluents [] (ofFluents fluents) where
  wellFormed := wellFormed_ofFluents fluents
  fluents_eq := rfl
  labels_eq := rfl
  operators := by simp
  initial_known := by simp
  initial id := by simp [ofFluents, Array.getElem?_replicate]
  goal := ⟨by simp, by simp [ofFluents]⟩

/-- A fluent is initially true after it was made so, or if it was before. -/
theorem initial_markInitiallyTrue {initial : State} {id i : Nat} (hid : id < initial.size) :
    (initial.setIfInBounds id true)[i]? = some true ↔ i = id ∨ initial[i]? = some true := by
  rw [Array.getElem?_setIfInBounds]
  by_cases h : id = i
  · simp [h, h ▸ hid]
  · simp [h, Ne.symm h]

/-- An edit that is carried out is recorded, and what was recorded before stays. -/
theorem Records.change (h : Records fluents es p) (hchange : p.Change e q) :
    Records fluents (es ++ [e]) q := by
  have hwf : q.WellFormed := h.wellFormed.change hchange
  obtain ⟨hold, rfl, hlabels, hoperators, hknown, hinitial, hgoal⟩ := h
  cases hchange with
  | @operator label preconditions effects pre eff hfree hpre heff =>
    refine ⟨hwf, rfl, ?_, ?_, by simpa using hknown, by simpa using hinitial, hgoal.congr (by simp)⟩
    · simp [hlabels, Edit.operatorLabel?]
    · intro l ps fs hmem
      rcases List.mem_append.mp hmem with hmem | hmem
      · obtain ⟨o, ho, hrest⟩ := hoperators l ps fs hmem
        exact ⟨o, List.mem_append_left _ ho, hrest⟩
      · cases List.mem_singleton.mp hmem
        exact ⟨_, List.mem_append_right _ (List.mem_singleton_self _), rfl,
          collects_of_resolve hpre,
          collects_of_resolve heff⟩
  | @initiallyTrue label id hid =>
    refine ⟨hwf, rfl, by simp [hlabels, Edit.operatorLabel?], by simpa using hoperators, ?_, ?_,
      hgoal.congr (by simp)⟩
    · intro l hmem
      rcases List.mem_append.mp hmem with hmem | hmem
      · exact hknown l hmem
      · cases List.mem_singleton.mp hmem
        exact ⟨id, hid⟩
    · intro i
      have hbound : id < p.initial.size := hold.initial_size ▸ idOf?_lt hid
      rw [initial_markInitiallyTrue hbound, hinitial]
      constructor
      · rintro (rfl | ⟨l, hl, hmem⟩)
        · exact ⟨label, hid, by simp⟩
        · exact ⟨l, hl, List.mem_append_left _ hmem⟩
      · rintro ⟨l, hl, hmem⟩
        rcases List.mem_append.mp hmem with hmem | hmem
        · exact .inr ⟨l, hl, hmem⟩
        · cases List.mem_singleton.mp hmem
          exact .inl (Option.some.inj (hl.symm.trans hid))
  | goal hid hcompatible =>
    exact ⟨hwf, rfl, by simp [hlabels, Edit.operatorLabel?], by simpa using hoperators,
      by simpa using hknown, by simpa using hinitial, (hgoal.insertInto hid).congr (by simp)⟩

/-- An edit to which there is an objection is not recorded, whatever comes later. -/
theorem Records.not_objection (h : Records fluents es p) {later : List Edit}
    (hlater : Records fluents (es ++ e :: later) q) : ¬ p.Objection e r := by
  obtain ⟨-, rfl, hlabels, -, -, -, hgoal⟩ := h
  obtain ⟨hwf, -, hlabels', hoperators', hknown', -, hgoal'⟩ := hlater
  have hnodup' := hwf.labels_nodup
  have hmem : e ∈ es ++ e :: later := by simp
  intro hobjection
  cases hobjection with
  | @operatorExists label preconditions effects o ho hlabel =>
    have hold : label ∈ es.filterMap Edit.operatorLabel? :=
      hlabels ▸ List.mem_map.mpr ⟨o, ho, hlabel⟩
    rw [hlabels', List.filterMap_append, List.nodup_append] at hnodup'
    exact hnodup'.2.2 label hold label (by simp [Edit.operatorLabel?]) rfl
  | preconditions hfault =>
    obtain ⟨o, ho, -, hcollects, -⟩ := hoperators' _ _ _ hmem
    exact not_faultIn_of_collects (hwf.operators o ho).preconditions hcollects hfault
  | effects hfault =>
    obtain ⟨o, ho, -, -, hcollects⟩ := hoperators' _ _ _ hmem
    exact not_faultIn_of_collects (hwf.operators o ho).effects hcollects hfault
  | initialFluent hunknown => exact hunknown (FluentSet.exists_idOf?_iff.mp (hknown' _ hmem))
  | goalFluent hunknown => exact hunknown (FluentSet.exists_idOf?_iff.mp (hgoal'.known _ _ hmem))
  | @goalContradiction label polarity id hid hopposite =>
    obtain ⟨l, hl, hopposite⟩ := (hgoal.mem_iff _).mp hopposite
    have hadded : ⟨id, polarity⟩ ∈ q.goal := (hgoal'.mem_iff _).mpr ⟨label, hid, hmem⟩
    have hnegated : ⟨id, !polarity⟩ ∈ q.goal :=
      (hgoal'.mem_iff _).mpr ⟨l, hl, List.mem_append_left _ hopposite⟩
    exact hwf.goal.negate_notMem hadded hnegated

/-! ### A series of edits -/

/-- An operator of the problem is the one that was added under its label. -/
theorem Records.eq_of_label_eq (h : Records fluents es p) {a b : Operator} (ha : a ∈ p.operators)
    (hb : b ∈ p.operators) (hlabel : a.label = b.label) : a = b :=
  List.inj_on_of_nodup_map h.wellFormed.labels_nodup ha hb hlabel

/-- Operators of the same label have the same conditions in all problems that record the edits. -/
theorem Records.conditions_eq (hp : Records fluents es p) (hq : Records fluents es q)
    {a b : Operator} (ha : a ∈ p.operators) (hb : b ∈ q.operators) (hlabel : a.label = b.label) :
    a.preconditions = b.preconditions ∧ a.effects = b.effects := by
  have hadded : a.label ∈ es.filterMap Edit.operatorLabel? := hp.labels_eq ▸ List.mem_map_of_mem ha
  obtain ⟨e, he, hoperator⟩ := List.mem_filterMap.mp hadded
  cases e with
  | operator label preconditions effects =>
    obtain rfl := Option.some.inj hoperator
    obtain ⟨a', ha', hla, hpa, hea⟩ := hp.operators _ _ _ he
    obtain ⟨b', hb', hlb, hpb, heb⟩ := hq.operators _ _ _ he
    obtain rfl := hp.eq_of_label_eq ha' ha hla
    obtain rfl := hq.eq_of_label_eq hb' hb (hlb.trans hlabel)
    have hwa := hp.nFluents_eq ▸ hp.wellFormed.operators a' ha
    have hwb := hq.nFluents_eq ▸ hq.wellFormed.operators b' hb
    exact ⟨hwa.preconditions.ext hwb.preconditions (hpa.mem_iff_of hpb),
      hwa.effects.ext hwb.effects (hea.mem_iff_of heb)⟩
  | initiallyTrue label => cases hoperator
  | goal label polarity => cases hoperator

/-- Only one problem records a series of edits. -/
theorem Records.unique (hp : Records fluents es p) (hq : Records fluents es q) : p = q := by
  have hlabels : p.operators.map (·.label) = q.operators.map (·.label) :=
    hp.labels_eq.trans hq.labels_eq.symm
  have hoperators : p.operators = q.operators := by
    refine List.ext_getElem? fun i => ?_
    have hlabel := congrArg (fun labels => labels[i]?) hlabels
    simp only [List.getElem?_map] at hlabel
    cases ha : p.operators[i]? with
    | none =>
      rw [ha] at hlabel
      exact (Option.map_eq_none_iff.mp hlabel.symm).symm
    | some a =>
      obtain ⟨b, hb, hlabel⟩ := Option.map_eq_some_iff.mp (hlabel.symm.trans (congrArg _ ha))
      obtain ⟨hpre, heff⟩ := hp.conditions_eq hq (List.mem_of_getElem? ha)
        (List.mem_of_getElem? hb) hlabel.symm
      have hid : a.id = b.id := (hp.wellFormed.id_eq ha).trans (hq.wellFormed.id_eq hb).symm
      rw [hb]
      cases a
      cases b
      simp_all
  have hids : p.operatorIds = q.operatorIds := by
    rw [hp.wellFormed.operatorIds_eq, hq.wellFormed.operatorIds_eq, hlabels]
  have hinitial : p.initial = q.initial := by
    have hsize : p.initial.size = q.initial.size := by
      rw [hp.wellFormed.initial_size, hq.wellFormed.initial_size, hp.nFluents_eq, hq.nFluents_eq]
    refine Array.ext hsize fun i hi hi' => Bool.eq_iff_iff.mpr ?_
    have htrue := (hp.initial i).trans (hq.initial i).symm
    rwa [Array.getElem?_eq_getElem hi, Array.getElem?_eq_getElem hi', Option.some.injEq,
      Option.some.injEq] at htrue
  have hgoal : p.goal = q.goal :=
    (hp.nFluents_eq ▸ hp.wellFormed.goal).ext (hq.nFluents_eq ▸ hq.wellFormed.goal)
      (hp.goal.mem_iff_of hq.goal)
  have hfluents : p.fluents = q.fluents := hp.fluents_eq.trans hq.fluents_eq.symm
  cases p
  cases q
  simp_all

/-- A series of edits that can be recorded is carried out. -/
theorem Records.exists_foldlM {later : List Edit} (h : Records fluents es p)
    (hlater : Records fluents (es ++ later) q) : later.foldlM edit p = .ok q := by
  induction later generalizing es p with
  | nil =>
    rw [List.append_nil] at hlater
    exact congrArg Except.ok (h.unique hlater)
  | cons e later ih =>
    cases hedit : p.edit e with
    | error r => exact (h.not_objection hlater (h.wellFormed.objection_of_edit hedit)).elim
    | ok next =>
      rw [List.foldlM_cons, hedit]
      exact ih (h.change (h.wellFormed.change_of_edit hedit)) (by simpa using hlater)

/-- What a series of edits makes of a problem records the series. -/
theorem Records.of_foldlM {later : List Edit} (h : Records fluents es p)
    (hfold : later.foldlM edit p = .ok q) : Records fluents (es ++ later) q := by
  induction later generalizing es p with
  | nil =>
    cases hfold
    simpa using h
  | cons e later ih =>
    rw [List.foldlM_cons] at hfold
    obtain ⟨next, hedit, hrest⟩ := bind_eq_ok_iff.mp hfold
    simpa using ih (h.change (h.wellFormed.change_of_edit hedit)) hrest

/-- A series of edits is carried out exactly when it can be recorded, and gives the problem that
records it. -/
theorem build_eq_ok_iff : build fluents es = .ok p ↔ Records fluents es p :=
  ⟨(records_ofFluents fluents).of_foldlM, (records_ofFluents fluents).exists_foldlM⟩

/-- A series of edits that is carried out is a history without refusals. -/
theorem afterEdits_of_build (h : build fluents es = .ok p) : afterEdits fluents es = p := by
  have hfold : ∀ {es : List Edit} {q : Problem}, es.foldlM edit q = .ok p →
      es.foldl attempt q = p := by
    intro es
    induction es with
    | nil =>
      intro q hq
      cases hq
      rfl
    | cons e rest ih =>
      intro q hq
      rw [List.foldlM_cons] at hq
      obtain ⟨next, hedit, hrest⟩ := bind_eq_ok_iff.mp hq
      rw [List.foldl_cons, attempt_of_edit_eq_ok hedit]
      exact ih hrest
  exact hfold h

end Problem

end HorizonPlanner
