import HorizonPlanner.Proofs.Builds

/-!
# Histories of edits

Whatever is done to a problem, it records exactly the edits that were carried out, and its fluents
and operators can be looked up by label and by number. The next edit is refused exactly when
something is wrong with it. A refused edit leaves the problem as it was, and an edit that is carried
out makes its change and no other.
-/

namespace HorizonPlanner

namespace Problem

variable {p : Problem} {label : String} {e : Edit}

/-! ### Looking up operators -/

/-- The operator of a label stands at the number of the label. -/
theorem WellFormed.operator?_eq_some (hp : p.WellFormed) {o : Operator} :
    p.operator? label = some o ↔ o ∈ p.operators ∧ o.label = label := by
  have hposition : ∀ i, p.operatorIds.get? label = some i ↔ (p.operators[i]?).map
      (·.label) = some label := fun i => by
    rw [hp.operatorIds_eq, Index.get?_ofLabels_eq_some_iff hp.labels_nodup, List.getElem?_map]
  rw [operator?, Option.bind_eq_some_iff]
  constructor
  · rintro ⟨i, hi, ho⟩
    rw [hposition, ho] at hi
    exact ⟨List.mem_of_getElem? ho, Option.some.inj hi⟩
  · rintro ⟨ho, rfl⟩
    obtain ⟨i, hi⟩ := List.mem_iff_getElem?.mp ho
    exact ⟨i, (hposition i).mpr (by rw [hi]; rfl), hi⟩

/-- Operators are found by label and by number alike. -/
theorem WellFormed.registered (hp : p.WellFormed) :
    Registered (p.operators.map (·.label)) Operator.label Operator.id p.operator?
      p.operatorById where
  nodup := hp.labels_nodup
  exists_byId i := by rw [exists_operatorById_iff, List.length_map, nOperators]
  of_byId i o h := by
    rw [operatorById_eq_ok] at h
    have ho : o ∈ p.operators := List.mem_of_getElem? h
    exact ⟨hp.id_eq h, by rw [List.getElem?_map, h]; rfl, hp.operator?_eq_some.mpr ⟨ho, rfl⟩⟩
  exists_byLabel l := by simp [hp.operator?_eq_some]
  of_byLabel l o h := by
    obtain ⟨ho, hlabel⟩ := hp.operator?_eq_some.mp h
    obtain ⟨i, hi⟩ := List.mem_iff_getElem?.mp ho
    exact ⟨hlabel, operatorById_eq_ok.mpr (hp.id_eq hi ▸ hi)⟩

/-! ### What a history keeps -/

/-- What holds of a problem whose fluents were given by these labels, whatever edits follow. -/
structure Consistent (labels : List String) (p : Problem) : Prop where
  /-- The fluents are numbered in the order in which their labels first occur. -/
  fluents : Registered labels.eraseDups Fluent.label Fluent.id p.fluents.get? p.fluents.byId
  /-- The number of fluents is that of the different labels. -/
  nFluents_eq : p.nFluents = labels.eraseDups.length
  /-- The operators are numbered by their positions. -/
  operators : Registered (p.operators.map (·.label)) Operator.label Operator.id
    p.operator? p.operatorById
  /-- All conditions are canonical, the index agrees with the operators, and the initial state knows
  exactly the fluents. -/
  wellFormed : p.WellFormed

/-- What the call for an edit does to a problem. -/
structure Answers (p : Problem) (e : Edit) : Prop where
  /-- The edit is refused exactly when something is wrong with it. -/
  refused_iff : (∃ r, (p.respond e).1 = .error r) ↔ ∃ r, p.Objection e r
  /-- A refusal states what is wrong, and the problem is what it was before. -/
  of_refused : ∀ r, (p.respond e).1 = .error r → p.Objection e r ∧ (p.respond e).2 = p
  /-- An edit that is carried out makes its change. -/
  of_carriedOut : (p.respond e).1 = .ok () → p.Change e (p.respond e).2

/-- The edits of a history that are carried out, from a problem on. -/
def carriedOut (p : Problem) : List Edit → List Edit
  | [] => []
  | e :: rest =>
    match (p.respond e).1 with
    | .ok _ => e :: (p.respond e).2.carriedOut rest
    | .error _ => (p.respond e).2.carriedOut rest

/-- The problem of fluents some of which are given at once and some added later, after a history of
edits. -/
def ofHistory (labels later : List String) (history : List Edit) : Problem :=
  afterEdits ((FluentSet.ofList labels).insertAll later) history

/-- Calls on a well-formed problem do what they should. -/
theorem WellFormed.answers (hp : p.WellFormed) (e : Edit) : p.Answers e where
  refused_iff := by simpa only [edit_eq_error_iff] using hp.exists_edit_eq_error_iff
  of_refused r h := ⟨hp.objection_of_edit (edit_eq_error_iff.mpr h),
    attempt_of_edit_eq_error (edit_eq_error_iff.mpr h)⟩
  of_carriedOut h := hp.change_of_edit (edit_eq_ok_iff.mpr (Prod.ext h rfl))

/-- After a history a problem records the edits that were carried out, besides those it recorded
before. -/
theorem Records.foldl_attempt {fluents : FluentSet} {es : List Edit} (h : Records fluents es p)
    (history : List Edit) :
    Records fluents (es ++ p.carriedOut history) (history.foldl attempt p) := by
  induction history generalizing es p with
  | nil => simpa [carriedOut] using h
  | cons e rest ih =>
    rw [List.foldl_cons, carriedOut]
    rcases p.respond_cases e with ⟨r, hrespond⟩ | ⟨q, hrespond⟩
    · rw [attempt, hrespond]
      exact ih h
    · have hchange := h.wellFormed.change_of_edit (edit_eq_ok_iff.mpr hrespond)
      rw [attempt, hrespond]
      simpa using ih (h.change hchange)

/-- The invariant of problems. Over every history of edits, refused ones included, fluents and
operators are numbered and found consistently, all conditions are canonical, and what the problem
consists of was put there by the edits that were carried out. The next edit is refused exactly when
something is wrong with it; then the refusal says so, and the problem is what it was before.
Otherwise the edit makes its change. -/
theorem consistent_ofHistory (labels later : List String) (history : List Edit) :
    (ofHistory labels later history).Consistent (labels ++ later) ∧
      Records (.ofList (labels ++ later))
        ((ofFluents (.ofList (labels ++ later))).carriedOut history)
        (ofHistory labels later history) ∧
      ∀ e, (ofHistory labels later history).Answers e := by
  have hrecords :
      Records (.ofList (labels ++ later))
      ((ofFluents (.ofList (labels ++ later))).carriedOut history)
      (ofHistory labels later history) := by
    rw [ofHistory, FluentSet.insertAll_ofList]
    exact (records_ofFluents _).foldl_attempt history
  have hwf := hrecords.wellFormed
  have hlabels : (ofHistory labels later history).fluents.labels = (labels ++ later).eraseDups := by
    rw [hrecords.fluents_eq, FluentSet.labels_ofList]
  have hnodup : (ofHistory labels later history).fluents.labels.Nodup := by
    rw [hrecords.fluents_eq]
    exact FluentSet.nodup_labels_ofList _
  refine ⟨⟨hlabels ▸ FluentSet.registered hnodup, ?_, hwf.registered, hwf⟩, hrecords, hwf.answers⟩
  rw [nFluents, ← FluentSet.length_labels, hlabels]

end Problem

end HorizonPlanner
