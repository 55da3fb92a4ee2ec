import HorizonPlanner.Encoding.Formula
import HorizonPlanner.Proofs.Encoding.Numbering
import HorizonPlanner.Proofs.Interference
import HorizonPlanner.Proofs.Sat.ClauseSets
import HorizonPlanner.Proofs.Traversal

/-!
# The meaning of a formula

Constraints are about propositions, clauses about variables. Under the numbering of a layout the
clauses of a constraint are true exactly when the constraint holds, and the formula of a horizon
says that all constraints on the plans of the problem hold.
-/

namespace HorizonPlanner.Encoding

open HorizonPlanner.Sat

/-- An interpretation gives a truth value to every proposition. -/
abbrev Interpretation := Proposition → Bool

/-- The proposition has the asserted truth value. -/
def Assertion.Holds (w : Interpretation) (a : Assertion) : Prop :=
  w a.proposition = a.value

/-- What a constraint demands of an interpretation. -/
def Constraint.Holds (w : Interpretation) : Constraint → Prop
  | .always a => a.Holds w
  | .whenever operator step consequences =>
    w (.operator operator step) = true → ∀ a ∈ consequences, a.Holds w
  | .oneOf assertions => ∃ a ∈ assertions, a.Holds w

/-- The constraint is about propositions of the layout only. -/
def Constraint.Within (t : Layout) : Constraint → Prop
  | .always a => t.Has a.proposition
  | .whenever operator step consequences =>
    t.Has (.operator operator step) ∧ ∀ a ∈ consequences, t.Has a.proposition
  | .oneOf assertions => ∀ a ∈ assertions, t.Has a.proposition

/-- A constraint on propositions of a layout depends on these only. -/
theorem Constraint.Within.holds_congr {t : Layout} {k : Constraint} (hk : k.Within t)
    {w w' : Interpretation} (hw : ∀ q, t.Has q → w q = w' q) : k.Holds w ↔ k.Holds w' := by
  have hassertion : ∀ a : Assertion, t.Has a.proposition → (a.Holds w ↔ a.Holds w') :=
    fun a ha => by rw [Assertion.Holds, Assertion.Holds, hw _ ha]
  cases k with
  | always a => exact hassertion a hk
  | whenever operator step consequences =>
    obtain ⟨hoperator, hconsequences⟩ := hk
    rw [Holds, Holds, hw _ hoperator]
    exact imp_congr_right fun _ => forall₂_congr fun a ha => hassertion a (hconsequences a ha)
  | oneOf assertions =>
    exact exists_congr fun a => and_congr_right fun ha => hassertion a (hk a ha)

namespace Layout

variable {t : Layout} {v : Valuation} {w : Interpretation}

/-- The literals of assertions are true under the valuation exactly when the assertions hold. -/
def Agrees (t : Layout) (v : Valuation) (w : Interpretation) : Prop :=
  ∀ a l, t.literal a = .ok l → (l.Holds v ↔ a.Holds w)

/-- What a valuation of the variables says about propositions; those without a variable are
false. -/
def interpretation (t : Layout) (v : Valuation) : Interpretation := fun q =>
  match t.variableOf q with
  | .ok x => v x
  | .error _ => false

/-- The valuation that gives every variable the value of its proposition. -/
def valuation (t : Layout) (w : Interpretation) : Valuation := fun x =>
  match t.proposition? x.number with
  | some q => w q
  | none => false

/-- A proposition has the value of its variable. -/
theorem interpretation_of_variableOf {q : Proposition} {x : Variable} (h : t.variableOf q = .ok x) :
    t.interpretation v q = v x := by
  simp [interpretation, h]

/-- The valuation of an interpretation says the same about the propositions of the layout. -/
theorem interpretation_valuation (hwords : t.Counted) {w : Interpretation} {q : Proposition}
    (hq : t.Has q) : t.interpretation (t.valuation w) q = w q := by
  obtain ⟨x, hx⟩ := (exists_variableOf_iff hwords).mpr hq
  rw [interpretation_of_variableOf hx, valuation, proposition?_of_variableOf hx]

/-! ### Clauses of a constraint -/

/-- The literal of an assertion gives the asserted value to the variable of its proposition. -/
theorem literal_eq_ok (hfit : t.FitsWords) {a : Assertion} {l : Literal} :
    t.literal a = .ok l ↔ t.variableOf a.proposition = .ok l.var ∧ l.positive = a.value := by
  obtain ⟨y, positive⟩ := l
  rw [literal, bind_eq_ok_iff]
  constructor
  · rintro ⟨x, hx, hl⟩
    rw [Literal.ofVariable_of_lt (Nat.lt_of_le_of_lt (number_le_nVars hx) hfit.lt_half),
      Except.ok.injEq, Literal.mk.injEq] at hl
    exact ⟨hl.1 ▸ hx, hl.2.symm⟩
  · rintro ⟨hx, rfl⟩
    exact ⟨y, hx, Literal.ofVariable_of_lt (Nat.lt_of_le_of_lt (number_le_nVars hx) hfit.lt_half) _⟩

/-- An assertion about a proposition of the layout has a literal. -/
theorem exists_literal (hfit : t.FitsWords) {a : Assertion} (ha : t.Has a.proposition) :
    ∃ l, t.literal a = .ok l := by
  obtain ⟨x, hx⟩ := (exists_variableOf_iff hfit.counted).mpr ha
  exact ⟨⟨x, a.value⟩, (literal_eq_ok hfit).mpr ⟨hx, rfl⟩⟩

/-- The literals under a valuation say what its interpretation says. -/
theorem agrees_interpretation (hfit : t.FitsWords) : t.Agrees v (t.interpretation v) := by
  intro a l h
  obtain ⟨hx, hvalue⟩ := (literal_eq_ok hfit).mp h
  rw [Literal.Holds, Assertion.Holds, interpretation_of_variableOf hx, hvalue]

/-- What the literals of a layout say about propositions under a valuation. Where variables do not
fit into words, two propositions may share one. -/
def reading (t : Layout) (v : Valuation) : Interpretation := fun q =>
  match t.literal ⟨q, true⟩ with
  | .ok l => v l.var == l.positive
  | .error _ => false

/-- Where a proposition can be denied, it can be asserted by the opposite literal. -/
theorem literal_true_of_false {q : Proposition} {l : Literal} (h : t.literal ⟨q, false⟩ = .ok l) :
    t.literal ⟨q, true⟩ = .ok l.negate := by
  obtain ⟨x, hx, hl⟩ := bind_eq_ok_iff.mp h
  exact bind_eq_ok_iff.mpr ⟨x, hx, Literal.ofVariable_true_of_false hl⟩

/-- Whatever the size of the layout, some interpretation agrees with a valuation. -/
theorem agrees_reading : t.Agrees v (t.reading v) := by
  have htrue : ∀ {q k}, t.literal ⟨q, true⟩ = .ok k → (t.reading v q = true ↔ k.Holds v) :=
    fun hk => by
    simp [reading, hk, Literal.Holds]
  rintro ⟨q, value⟩ l h
  cases value with
  | true => rw [← htrue h, Assertion.Holds]
  | false =>
    rw [Assertion.Holds, ← Bool.not_eq_true, htrue (literal_true_of_false h),
      Literal.holds_negate, not_not]

/-- A constraint on propositions of the layout has clauses. -/
theorem exists_clauses (hfit : t.FitsWords) {k : Constraint} (hk : k.Within t) :
    ∃ cs, t.clauses k = .ok cs := by
  cases k with
  | always a =>
    obtain ⟨l, hl⟩ := exists_literal hfit hk
    exact ⟨[[l]], by rw [clauses, hl]; rfl⟩
  | whenever operator step consequences =>
    obtain ⟨hoperator, hconsequences⟩ := hk
    obtain ⟨o, ho⟩ := exists_literal hfit (a := .executed step false operator) hoperator
    rw [clauses, ho]
    refine exists_mapM_eq_ok_iff.mpr fun a ha => ?_
    obtain ⟨l, hl⟩ := exists_literal hfit (hconsequences a ha)
    exact ⟨[o, l], by rw [hl]; rfl⟩
  | oneOf assertions =>
    obtain ⟨c, hc⟩ := exists_mapM_eq_ok_iff.mpr fun a ha => exists_literal hfit (hk a ha)
    exact ⟨[c], by rw [clauses, hc]; rfl⟩

/-- The literals belong to the assertions, one to one. -/
def Translates (t : Layout) : List Assertion → List Literal → Prop :=
  List.Forall₂ fun a l => t.literal a = .ok l

/-- An assertion that is always true is a clause of one literal. -/
theorem clauses_always {a : Assertion} {cs : List Clause} (h : t.clauses (.always a) = .ok cs) :
    ∃ l, t.literal a = .ok l ∧ cs = [[l]] := by
  obtain ⟨l, hl, h⟩ := bind_eq_ok_iff.mp h
  cases h
  exact ⟨l, hl, rfl⟩

/-- Each consequence of an operator shares a clause with the denial of its execution. -/
theorem clauses_whenever {operator step : Nat} {consequences : List Assertion} {cs : List Clause}
    (h : t.clauses (.whenever operator step consequences) = .ok cs) :
    ∃ o, t.literal (.executed step false operator) = .ok o ∧
      ∃ ls, t.Translates consequences ls ∧ cs = ls.map fun l => [o, l] := by
  obtain ⟨o, ho, hrest⟩ := bind_eq_ok_iff.mp h
  clear h
  refine ⟨o, ho, ?_⟩
  rw [mapM_eq_ok_iff] at hrest
  induction hrest with
  | nil => exact ⟨[], .nil, rfl⟩
  | cons hc _ ih =>
    obtain ⟨l, hl, hc⟩ := bind_eq_ok_iff.mp hc
    cases hc
    obtain ⟨ls, hls, rfl⟩ := ih
    exact ⟨l :: ls, .cons hl hls, rfl⟩

/-- Alternatives are the literals of one clause. -/
theorem clauses_oneOf {assertions : List Assertion} {cs : List Clause}
    (h : t.clauses (.oneOf assertions) = .ok cs) :
    ∃ c, t.Translates assertions c ∧ cs = [c] := by
  obtain ⟨c, hc, h⟩ := bind_eq_ok_iff.mp h
  cases h
  exact ⟨c, mapM_eq_ok_iff.mp hc, rfl⟩

namespace Translates

variable {as : List Assertion} {ls : List Literal}

/-- Literals of assertions are true exactly when the assertions hold, all of them. -/
theorem forall_holds_iff (h : t.Translates as ls) (hw : t.Agrees v w) :
    (∀ l ∈ ls, l.Holds v) ↔ ∀ a ∈ as, a.Holds w := by
  induction h with
  | nil => simp
  | cons ha _ ih => simp [hw _ _ ha, ih]

/-- Literals of assertions are true exactly when the assertions hold, one of them. -/
theorem exists_holds_iff (h : t.Translates as ls) (hw : t.Agrees v w) :
    (∃ l ∈ ls, l.Holds v) ↔ ∃ a ∈ as, a.Holds w := by
  induction h with
  | nil => simp
  | cons ha _ ih => simp [hw _ _ ha, ih]

/-- Every literal of a translation is that of an assertion. -/
theorem exists_literal (h : t.Translates as ls) : ∀ l ∈ ls, ∃ a, t.literal a = .ok l := by
  induction h with
  | nil => simp
  | cons ha _ ih => exact List.forall_mem_cons.mpr ⟨⟨_, ha⟩, ih⟩

end Translates

/-- The clauses of a constraint are true exactly when the constraint holds. -/
theorem holds_clauses_iff (hw : t.Agrees v w) {k : Constraint} {cs : List Clause}
    (h : t.clauses k = .ok cs) : (∀ c ∈ cs, c.Holds v) ↔ k.Holds w := by
  cases k with
  | always a =>
    obtain ⟨l, hl, rfl⟩ := clauses_always h
    simp [Clause.Holds, Constraint.Holds, hw _ _ hl]
  | whenever operator step consequences =>
    obtain ⟨o, ho, ls, hls, rfl⟩ := clauses_whenever h
    -- The first literal of every clause says that the operator is not executed.
    have hoperator : o.Holds v ↔ ¬ w (.operator operator step) = true := by
      rw [hw _ _ ho, Assertion.Holds, Bool.not_eq_true]
      rfl
    rw [Constraint.Holds, ← hls.forall_holds_iff hw]
    simp only [List.forall_mem_map, Clause.Holds, List.mem_cons, List.not_mem_nil, or_false,
      exists_eq_or_imp, exists_eq_left, hoperator, ← imp_iff_not_or]
    exact ⟨fun h hexec l hl => h l hl hexec, fun h l hl hexec => h hexec l hl⟩
  | oneOf assertions =>
    obtain ⟨c, hc, rfl⟩ := clauses_oneOf h
    rw [List.forall_mem_singleton, Clause.Holds, Constraint.Holds, hc.exists_holds_iff hw]

/-- The clauses of a constraint are made of literals of assertions. -/
theorem exists_literal_of_mem_clauses {k : Constraint} {cs : List Clause}
    (h : t.clauses k = .ok cs) : ∀ c ∈ cs, ∀ l ∈ c, ∃ a, t.literal a = .ok l := by
  cases k with
  | always a =>
    obtain ⟨l, hl, rfl⟩ := clauses_always h
    simpa using ⟨a, hl⟩
  | whenever operator step consequences =>
    obtain ⟨o, ho, ls, hls, rfl⟩ := clauses_whenever h
    simpa using fun l hl => And.intro ⟨_, ho⟩ (hls.exists_literal l hl)
  | oneOf assertions =>
    obtain ⟨c, hc, rfl⟩ := clauses_oneOf h
    simpa using hc.exists_literal

end Layout

end HorizonPlanner.Encoding
