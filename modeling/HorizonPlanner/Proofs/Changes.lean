import HorizonPlanner.Problem

/-!
# Changes of a problem

An edit that is carried out adds an operator, makes a fluent initially true or adds a goal
condition, and leaves everything else as it is. Every exit at which an edit is refused comes before
the first change, so that a refused edit leaves the problem as it was.
-/

namespace HorizonPlanner

/-! ### Calls step by step -/

namespace Call

variable {α ε : Type}

@[simp]
private theorem run_get_bind (next : Problem → Call) (p : Problem) :
    (get >>= next).run.run p = (next p).run.run p := rfl

@[simp]
private theorem run_throw (r : Refusal) (p : Problem) :
    (throw r : Call).run.run p = (.error r, p) := rfl

@[simp]
private theorem run_modify (f : Problem → Problem) (p : Problem) :
    (modify f : Call).run.run p = (.ok (), f p) := rfl

@[simp]
private theorem run_modify_bind (f : Problem → Problem) (next : Unit → Call) (p : Problem) :
    (modify f >>= next).run.run p = (next ()).run.run (f p) := rfl

@[simp]
private theorem run_ok_bind (f : ε → Refusal) (a : α) (next : α → Call) (p : Problem) :
    (liftM ((Except.ok a).mapError f) >>= next).run.run p = (next a).run.run p := rfl

@[simp]
private theorem run_error_bind (f : ε → Refusal) (x : ε) (next : α → Call) (p : Problem) :
    (liftM ((Except.error x).mapError f) >>= next).run.run p = (.error (f x), p) := rfl

end Call

namespace Problem

/-- The three exits of adding an operator, and what it does when none is taken. -/
theorem respond_operator (p : Problem) (label : String)
    (preconditions effects : List LabelledCondition) :
    p.respond (.operator label preconditions effects) =
      if p.hasOperator label then (.error (.operatorExists label), p)
      else
        match p.resolve preconditions with
        | .error fault => (.error (.preconditions label fault), p)
        | .ok pre =>
          match p.resolve effects with
          | .error fault => (.error (.effects label fault), p)
          | .ok eff =>
            (.ok (), { p with
              operatorIds := p.operatorIds.insert label p.operators.length
              operators := p.operators ++ [⟨p.operators.length, label, pre, eff⟩] }) := by
  simp only [respond, Edit.call, Call.addOperator, Call.run_get_bind]
  split
  · rfl
  · rw [Call.run_get_bind]
    cases p.resolve preconditions with
    | error fault => rw [Call.run_error_bind]
    | ok pre =>
      rw [Call.run_ok_bind, Call.run_get_bind]
      cases p.resolve effects with
      | error fault => rw [Call.run_error_bind]
      | ok eff => rw [Call.run_ok_bind, Call.run_get_bind, Call.run_modify_bind, Call.run_modify]

/-- The exit of making a fluent initially true, and what it does otherwise. -/
theorem respond_initiallyTrue (p : Problem) (label : String) :
    p.respond (.initiallyTrue label) =
      match p.fluents.get? label with
      | none => (.error (.initialFluent label), p)
      | some f => (.ok (), { p with initial := p.initial.setIfInBounds f.id true }) := by
  simp only [respond, Edit.call, Call.markInitiallyTrue, Call.run_get_bind]
  cases p.fluents.get? label with
  | none => rw [Call.run_throw]
  | some f => rw [Call.run_modify]

/-- The two exits of adding a goal condition, and what it does otherwise. -/
theorem respond_goal (p : Problem) (label : String) (polarity : Bool) :
    p.respond (.goal label polarity) =
      match p.fluents.get? label with
      | none => (.error (.goalFluent label), p)
      | some f =>
        if p.goal.contains (Condition.negate ⟨f.id, polarity⟩) then
          (.error (.goalContradiction label), p)
        else (.ok (), { p with goal := Condition.placeInto ⟨f.id, polarity⟩ p.goal }) := by
  simp only [respond, Edit.call, Call.addGoal, Call.run_get_bind]
  cases p.fluents.get? label with
  | none => rw [Call.run_throw]
  | some f =>
    simp only [Call.run_get_bind]
    split
    · rfl
    · rw [Call.run_modify]

variable {p q : Problem} {e : Edit} {r : Refusal}

/-- An edit that is refused leaves the problem as it was. -/
theorem respond_cases (p : Problem) (e : Edit) :
    (∃ r, p.respond e = (.error r, p)) ∨ ∃ q, p.respond e = (.ok (), q) := by
  cases e with
  | operator label preconditions effects =>
    rw [respond_operator]
    split
    · exact .inl ⟨_, rfl⟩
    · split
      · exact .inl ⟨_, rfl⟩
      · split
        · exact .inl ⟨_, rfl⟩
        · exact .inr ⟨_, rfl⟩
  | initiallyTrue label =>
    rw [respond_initiallyTrue]
    split
    · exact .inl ⟨_, rfl⟩
    · exact .inr ⟨_, rfl⟩
  | goal label polarity =>
    rw [respond_goal]
    split
    · exact .inl ⟨_, rfl⟩
    · split
      · exact .inl ⟨_, rfl⟩
      · exact .inr ⟨_, rfl⟩

/-- An edit that must be carried out is refused exactly when its call is. -/
theorem edit_eq_error_iff : p.edit e = .error r ↔ (p.respond e).1 = .error r := by
  unfold edit
  cases (p.respond e).1 <;> simp [Except.map]

/-- An edit that must be carried out gives the problem that its call leaves behind. -/
theorem edit_eq_ok_iff : p.edit e = .ok q ↔ p.respond e = (.ok (), q) := by
  unfold edit
  obtain ⟨answer, left⟩ := p.respond e
  cases answer <;> simp [Except.map]

/-- A refused edit of a history leaves no trace. -/
theorem attempt_of_edit_eq_error (h : p.edit e = .error r) : p.attempt e = p := by
  rw [edit_eq_error_iff] at h
  rcases p.respond_cases e with ⟨reported, hrespond⟩ | ⟨q, hrespond⟩
  · rw [attempt, hrespond]
  · rw [hrespond] at h
    cases h

/-- An edit of a history that is carried out leaves the changed problem behind. -/
theorem attempt_of_edit_eq_ok (h : p.edit e = .ok q) : p.attempt e = q := by
  rw [attempt, edit_eq_ok_iff.mp h]

/-- What an edit that is carried out makes of a problem. -/
inductive Change (p : Problem) : Edit → Problem → Prop
  /-- An operator with a new label is added under the next number, and the number is entered for the
  label. -/
  | operator {label : String} {preconditions effects : List LabelledCondition}
    {pre eff : List Condition} (free : ∀ o ∈ p.operators, o.label ≠ label)
    (preconditions_eq : p.resolve preconditions = .ok pre)
    (effects_eq : p.resolve effects = .ok eff) :
    Change p (.operator label preconditions effects)
      { p with
        operatorIds := p.operatorIds.insert label p.operators.length
        operators := p.operators ++ [⟨p.operators.length, label, pre, eff⟩] }
  /-- A fluent is made initially true. -/
  | initiallyTrue {label : String} {id : Nat} (known : p.fluents.idOf? label = some id) :
    Change p (.initiallyTrue label) { p with initial := p.initial.setIfInBounds id true }
  /-- A condition is added to the goal, which does not have the opposite one. -/
  | goal {label : String} {polarity : Bool} {id : Nat} (known : p.fluents.idOf? label = some id)
    (compatible : ⟨id, !polarity⟩ ∉ p.goal) :
    Change p (.goal label polarity) { p with goal := Condition.insertInto ⟨id, polarity⟩ p.goal }

end Problem

end HorizonPlanner
