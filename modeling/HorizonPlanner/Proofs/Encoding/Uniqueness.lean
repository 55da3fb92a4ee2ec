import HorizonPlanner.Proofs.Encoding.Correctness

/-!
# Models and plans, one to one

In a model of the formula of a horizon the executed operators determine all layers: the first one is
the initial state, and every move leads to one state only. Reading a plan off a model loses none of
these operators, so that different models are read as different plans.
-/

namespace HorizonPlanner

open HorizonPlanner.Sat HorizonPlanner.Encoding

namespace Encoding.Layout

variable {t : Layout} {w w' : Interpretation}

/-- The steps depend on the executed operators only. -/
theorem stepsOf_congr
    (h : ∀ o < t.nOperators, ∀ time < t.horizon, w (.operator o time) = w' (.operator o time)) :
    t.stepsOf w = t.stepsOf w' := by
  have hlist : ∀ time < t.horizon, t.executedList w time = t.executedList w' time :=
    fun time htime => List.filter_congr fun o ho => h o (List.mem_range.mp ho) time htime
  unfold stepsOf
  congr 1
  refine List.map_congr_left fun time htime => ?_
  rw [hlist time (List.mem_range.mp htime)]

end Encoding.Layout

namespace Problem

variable {p : Problem} {horizon : Nat} {w w' : Interpretation}

/-- Steps read off two interpretations are the same only if both have the same operators
executed. -/
theorem executed_eq_of_stepsOf_eq
    (h : (p.layout horizon).stepsOf w = (p.layout horizon).stepsOf w') {time : Nat}
    (htime : time < horizon) : w.executed p time = w'.executed p time := by
  rw [← Layout.executedAt_stepsOf htime, h, Layout.executedAt_stepsOf htime]

/-- The executed operators determine the layers of an interpretation that satisfies the
constraints. -/
theorem WellFormed.layer_eq_of_executed_eq (hp : p.WellFormed)
    (hw : ∀ k ∈ constraints p horizon, k.Holds w) (hw' : ∀ k ∈ constraints p horizon, k.Holds w')
    (hexecuted : ∀ time < horizon, w.executed p time = w'.executed p time) {time : Nat}
    (htime : time ≤ horizon) : w.layer p.nFluents time = w'.layer p.nFluents time := by
  obtain ⟨hinitial, -, hmoves⟩ := hp.holds_constraints_iff.mp hw
  obtain ⟨hinitial', -, hmoves'⟩ := hp.holds_constraints_iff.mp hw'
  induction time with
  | zero => rw [hinitial, hinitial']
  | succ time ih =>
    have hmove := hmoves time htime
    rw [hexecuted time htime, ih (Nat.le_of_succ_le htime)] at hmove
    exact hmove.eq_of_moves (hmoves' time htime)

/-- The executed operators determine such an interpretation on the whole layout. -/
theorem WellFormed.interpretation_eq_of_executed_eq (hp : p.WellFormed)
    (hw : ∀ k ∈ constraints p horizon, k.Holds w) (hw' : ∀ k ∈ constraints p horizon, k.Holds w')
    (hexecuted : ∀ time < horizon, w.executed p time = w'.executed p time) {q : Proposition}
    (hq : (p.layout horizon).Has q) : w q = w' q := by
  cases q with
  | fluent f time =>
    have hlayer := hp.layer_eq_of_executed_eq hw hw' hexecuted hq.2
    have hvalue := congrArg (fun s : State => s[f]?) hlayer
    simpa [Interpretation.getElem?_layer (show f < p.nFluents from hq.1)] using hvalue
  | operator o time =>
    have hmem : o ∈ w.executed p time ↔ o ∈ w'.executed p time := by
      rw [hexecuted time hq.2]
    have hlt : o < p.nOperators := hq.1
    rw [Bool.eq_iff_iff]
    exact ⟨fun h => (hmem.mp ⟨hlt, h⟩).2, fun h => (hmem.mpr ⟨hlt, h⟩).2⟩

/-- Total models that are read as the same steps are equal. -/
theorem WellFormed.eq_of_stepsOf_eq (hp : p.WellFormed) (hfit : (p.layout horizon).FitsWords)
    {clauses : ClauseSet} (hencode : (p.layout horizon).encode p = .ok clauses) {a b : Assignment}
    (ha : a.Total (p.layout horizon).nVars) (hb : b.Total (p.layout horizon).nVars)
    (hamodel : a.satisfiesAll clauses.toList = true)
    (hbmodel : b.satisfiesAll clauses.toList = true)
    (hsteps : (p.layout horizon).stepsOf ((p.layout horizon).interpretation a.valuation) =
      (p.layout horizon).stepsOf ((p.layout horizon).interpretation b.valuation)) : a = b := by
  refine ha.eq_of_valuation_eq hb fun x hx => ?_
  obtain ⟨q, hq⟩ := Layout.exists_variableOf_of_number_le hfit.counted hx
  have hvalue := hp.interpretation_eq_of_executed_eq (holds_of_satisfiesAll hfit hencode hamodel)
    (holds_of_satisfiesAll hfit hencode hbmodel)
    (fun time htime => executed_eq_of_stepsOf_eq hsteps htime)
    (Layout.has_of_variableOf hq)
  rwa [Layout.interpretation_of_variableOf hq, Layout.interpretation_of_variableOf hq] at hvalue

/-- Models and plans correspond one to one. Two total models of the formula of a horizon are equal
as soon as they are read as the same plan, and as soon as they agree on the variables of operators.
That there are total assignments says that the variables fit into signed words; the formula exists
then. -/
theorem Built.eq_of_decode_eq (hp : p.Built) (horizon : Nat) :
    ((p.layout horizon).FitsWords → ∃ clauses, (p.layout horizon).encode p = .ok clauses) ∧
      ∀ clauses, (p.layout horizon).encode p = .ok clauses →
        ∀ a b : Assignment, a.Total (p.layout horizon).nVars → b.Total (p.layout horizon).nVars →
          a.satisfiesAll clauses.toList = true → b.satisfiesAll clauses.toList = true →
            (∀ plan, (p.layout horizon).decode a = .ok plan →
              (p.layout horizon).decode b = .ok plan → a = b) ∧
            ((∀ o < p.nOperators, ∀ time < horizon, ∀ x,
              (p.layout horizon).variableOf (.operator o time) = .ok x →
                a.valueOf x = b.valueOf x) → a = b) := by
  refine ⟨hp.wellFormed.exists_encode, fun clauses hencode a b ha hb hamodel hbmodel => ?_⟩
  rcases Layout.fitsWords_or_nVars_eq_zero ha.lt with hfit | hzero
  · refine ⟨fun plan hadecode hbdecode => ?_, fun hvalues => ?_⟩
    · have hsteps := (Layout.eq_of_decode_eq_ok hfit.counted hadecode).symm.trans
        (Layout.eq_of_decode_eq_ok hfit.counted hbdecode)
      rw [Plan.mk.injEq] at hsteps
      exact hp.wellFormed.eq_of_stepsOf_eq hfit hencode ha hb hamodel hbmodel hsteps
    · refine hp.wellFormed.eq_of_stepsOf_eq hfit hencode ha hb hamodel hbmodel ?_
      refine Layout.stepsOf_congr fun o ho time htime => ?_
      have hhas : (p.layout horizon).Has (.operator o time) := ⟨ho, htime⟩
      obtain ⟨x, hx⟩ := (Layout.exists_variableOf_iff hfit.counted).mpr hhas
      rw [Layout.interpretation_of_variableOf hx, Layout.interpretation_of_variableOf hx,
        Assignment.valuation, Assignment.valuation, hvalues o ho time htime x hx]
  · -- Only one assignment knows no variables at all.
    have hsame : a = b := ha.eq_of_valuation_eq hb fun x hx => absurd x.number_pos (by omega)
    exact ⟨fun _ _ _ => hsame, fun _ => hsame⟩

/-- The lamp has one total model for two steps that is read as its plan. -/
theorem eq_of_decode_eq_lamp : ∃ (clauses : ClauseSet) (a : Assignment),
    (lamp.layout 2).encode lamp = .ok clauses ∧ a.Total 13 ∧ a.satisfiesAll clauses.toList = true ∧
      (lamp.layout 2).decode a = .ok Plan.ofLamp ∧
        ∀ b : Assignment, b.Total 13 → b.satisfiesAll clauses.toList = true →
          (lamp.layout 2).decode b = .ok Plan.ofLamp → b = a := by
  have hfit : (lamp.layout 2).FitsWords := by decide
  have hroom : (lamp.layout 2).HasRoom := by decide
  have hcanonical : Plan.ofLamp.canonical = Plan.ofLamp := by
    simp [Plan.canonical, Plan.ofLamp]
  obtain ⟨hexists, hunique⟩ := lamp_built.eq_of_decode_eq 2
  obtain ⟨clauses, hencode⟩ := hexists hfit
  obtain ⟨a, htotal, ha, hdecode⟩ :=
    lamp_built.wellFormed.satisfiesAll_of_fits hfit hencode Plan.ofLamp_fits
  rw [hcanonical] at hdecode
  exact ⟨clauses, a, hencode, htotal, ha, hdecode hroom, fun b hb hbmodel hbdecode =>
    (hunique clauses hencode b a hb htotal hbmodel ha).1 _ hbdecode (hdecode hroom)⟩

end Problem

end HorizonPlanner
