import HorizonPlanner.Encoding.Decoding
import HorizonPlanner.Proofs.Encoding.Layers
import HorizonPlanner.Proofs.Sat.Assignments

/-!
# What an assignment is read as

The plan read off an assignment executes at every step the operators whose variables are true. This
depends on the interpretation of the assignment only.
-/

namespace HorizonPlanner.Encoding.Layout

open HorizonPlanner.Sat

variable {t : Layout} {a : Assignment} {w : Interpretation}

/-- There is room for a step at every time before the horizon, whether or not something is executed
there. -/
def HasRoom (t : Layout) : Prop :=
  t.horizon * PlanStep.bytes < Word.half

instance (t : Layout) : Decidable t.HasRoom :=
  inferInstanceAs (Decidable (t.horizon * PlanStep.bytes < Word.half))

/-- The operators that an interpretation has executed at a step, in numbering order. -/
def executedList (t : Layout) (w : Interpretation) (step : Nat) : List Nat :=
  (List.range t.nOperators).filter fun o => w (.operator o step)

/-- The steps at which an interpretation has operators executed. -/
def stepsOf (t : Layout) (w : Interpretation) : List PlanStep :=
  ((List.range t.horizon).map fun step => ⟨step, t.executedList w step⟩).filter fun s =>
    !s.operators.isEmpty

/-- The operators read off an assignment are those of its interpretation. -/
theorem stepOf_eq (hwords : t.Counted) {step : Nat} (hstep : step < t.horizon) :
    t.stepOf a step = .ok ⟨step, t.executedList (t.interpretation a.valuation) step⟩ := by
  have hexists : ∃ actions, t.actionsAt step = .ok actions := by
    refine exists_mapM_eq_ok_iff.mpr fun o ho => ?_
    have hhas : t.Has (.operator o step) := ⟨List.mem_range.mp ho, hstep⟩
    obtain ⟨x, hx⟩ := (exists_variableOf_iff hwords).mpr hhas
    exact ⟨(o, x), by rw [hx]; rfl⟩
  obtain ⟨actions, hactions⟩ := hexists
  have hlist : (actions.filter fun x => a.valueOf x.2 == some true).map (·.1) =
      t.executedList (t.interpretation a.valuation) step := by
    rw [actionsAt, mapM_eq_ok_iff] at hactions
    rw [executedList]
    generalize List.range t.nOperators = os at hactions
    induction hactions with
    | nil => rfl
    | @cons o action os actions haction _ ih =>
      cases hx : t.variableOf (.operator o step) with
      | error v => simp [hx, Except.map] at haction
      | ok x =>
        rw [hx] at haction
        cases haction
        have hvalue : t.interpretation a.valuation (.operator o step) =
            (a.valueOf x == some true) := interpretation_of_variableOf hx
        rw [List.filter_cons, List.filter_cons, hvalue]
        split
        · rw [List.map_cons, ih]
        · exact ih
  rw [stepOf, hactions, ← hlist]
  rfl

/-- The steps of an interpretation come in order of time. -/
theorem chronological_stepsOf : Plan.Chronological (t.stepsOf w) := by
  refine List.Pairwise.filter _ (List.pairwise_map.mpr ?_)
  exact List.pairwise_lt_range

/-- Every assignment is read as a plan, if there is room for the steps and the variables have words
for numbers. -/
theorem decode_eq (hwords : t.Counted) (hroom : t.HasRoom) :
    t.decode a = .ok ⟨t.stepsOf (t.interpretation a.valuation)⟩ := by
  have hsteps : (List.range t.horizon).mapM (t.stepOf a) =
      .ok ((List.range t.horizon).map fun step =>
        ⟨step, t.executedList (t.interpretation a.valuation) step⟩) :=
    mapM_eq_ok_map fun step hstep => stepOf_eq hwords (List.mem_range.mp hstep)
  rw [decode, Word.room_eq_ok_iff.mpr hroom, hsteps]
  exact if_pos (Plan.increasing_iff.mpr chronological_stepsOf)

/-- Without room nothing is read. -/
theorem decode_eq_error (hroom : ¬ t.HasRoom) : t.decode a = .error .noRoom := by
  unfold HasRoom at hroom
  rw [decode, Word.room, if_neg hroom]
  rfl

/-- Where an assignment is read as a plan, there is room. -/
theorem hasRoom_of_decode {plan : Plan} (h : t.decode a = .ok plan) : t.HasRoom := by
  by_contra hroom
  rw [decode_eq_error hroom] at h
  cases h

/-- The plan an assignment is read as is that of its interpretation. -/
theorem eq_of_decode_eq_ok (hwords : t.Counted) {plan : Plan} (h : t.decode a = .ok plan) :
    plan = ⟨t.stepsOf (t.interpretation a.valuation)⟩ := by
  rw [decode_eq hwords (hasRoom_of_decode h), Except.ok.injEq] at h
  exact h.symm

/-- The steps are those before the horizon at which some operator is executed. -/
theorem mem_stepsOf {step : PlanStep} :
    step ∈ t.stepsOf w ↔ step.time < t.horizon ∧ step.operators = t.executedList w step.time ∧
      step.operators ≠ [] := by
  obtain ⟨time, operators⟩ := step
  simp only [stepsOf, List.mem_filter, List.mem_map, List.mem_range, PlanStep.mk.injEq]
  constructor
  · rintro ⟨⟨time, htime, rfl, rfl⟩, hne⟩
    exact ⟨htime, rfl, by simpa using hne⟩
  · rintro ⟨htime, rfl, hne⟩
    exact ⟨⟨time, htime, rfl, rfl⟩, by simpa using hne⟩

/-- The plan executes what the interpretation has executed. -/
theorem executedAt_stepsOf {p : Problem} {horizon time : Nat} (htime : time < horizon) :
    Plan.executedAt ((p.layout horizon).stepsOf w) time = w.executed p time := by
  have hlist : ∀ i, i ∈ (p.layout horizon).executedList w time ↔ i ∈ w.executed p time := by
    intro i
    rw [executedList, List.mem_filter, List.mem_range]
    rfl
  ext i
  rw [← hlist]
  constructor
  · rintro ⟨step, hstep, rfl, hi⟩
    rwa [← (mem_stepsOf.mp hstep).2.1]
  · intro hi
    exact ⟨⟨time, _⟩, mem_stepsOf.mpr ⟨htime, rfl, List.ne_nil_of_mem hi⟩, rfl, hi⟩

end HorizonPlanner.Encoding.Layout
