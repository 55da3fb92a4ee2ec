import HorizonPlanner.Proofs.Search.Attempts

/-!
# Runs of a search

A search passes from stage to stage, one horizon at a time, and keeps the records of its attempts.
The reachable stages are those of all runs. With a solver that always answers every run ends, and
its outcome is that of the last stage it reaches.
-/

namespace HorizonPlanner.Search

open HorizonPlanner.Sat

variable {σ : Type}

/-- The stages a search passes through when it starts in these surroundings, each with the records
so far and the surroundings at that time. -/
inductive Reachable (s : Surroundings (StateM σ)) (p : Problem) (c : Config)
    (deadline : Nat) (w₀ : σ) :
    Stage → List Attempt → σ → Prop
  /-- The search begins with the minimal horizon. -/
  | start : Reachable s p c deadline w₀ (.trying c.minHorizon) [] w₀
  /-- A stage is followed by the next one. -/
  | next {stage following : Stage} {records extended : List Attempt} {w w' : σ} :
    Reachable s p c deadline w₀ stage records w →
    ((nextStage s p c deadline stage).run records).run w = ((.ok following, extended), w') →
    Reachable s p c deadline w₀ following extended w'

/-- The outcome of a search that ends in a stage. -/
def Stage.outcome? (p : Problem) : Stage → Option (Except Violation Outcome)
  | .trying _ => none
  | .satisfiable horizon model => some (((p.layout horizon).decode model).map (.planFound horizon))
  | .exhausted (.bound maxHorizon proven) => some (.ok (.horizonExhausted maxHorizon proven))
  | .exhausted (.timeout horizon) => some (.ok (.timedOut horizon))

variable {s : Surroundings (StateM σ)} {p : Problem} {c : Config} {deadline : Nat} {w₀ w w' : σ}
  {records : List Attempt} {stage : Stage}

/-- An operation on the surroundings leaves the records as they are. -/
theorem run_lift_bind {α β : Type} (x : StateM σ α) (f : α → StateT (List Attempt) (StateM σ) β)
    (records : List Attempt) (w : σ) :
    ((liftM x >>= f).run records).run w = ((f (x.run w).1).run records).run (x.run w).2 := rfl

/-- The stage that follows is that of what was found out about the horizon. -/
theorem nextStage_run (horizon : Nat) :
    ((nextStage s p c deadline (.trying horizon)).run records).run w =
      match (tryHorizon s p c deadline horizon).run w with
      | (.error v, w') => ((.error v, records), w')
      | (.ok (finding, record), w') =>
        ((.ok (c.next p.nFluents horizon finding), records ++ record.toList), w') := by
  rw [nextStage, run_lift_bind]
  obtain ⟨⟨v⟩ | ⟨finding, record⟩, w'⟩ := (tryHorizon s p c deadline horizon).run w <;> rfl

/-- Only a horizon to be tried is followed by another stage. -/
theorem nextStage_eq_ok {following : Stage} {extended : List Attempt}
    (h : ((nextStage s p c deadline stage).run records).run w = ((.ok following, extended), w')) :
    ∃ horizon finding record, stage = .trying horizon ∧
      (tryHorizon s p c deadline horizon).run w = (.ok (finding, record), w') ∧
        following = c.next p.nFluents horizon finding ∧ extended = records ++ record.toList := by
  cases stage with
  | satisfiable horizon model => cases h
  | exhausted why => cases h
  | trying horizon =>
    rw [nextStage_run] at h
    rcases htry : (tryHorizon s p c deadline horizon).run w with ⟨⟨v⟩ | ⟨finding, record⟩, w₁⟩
    · rw [htry] at h
      cases h
    · rw [htry] at h
      cases h
      exact ⟨horizon, finding, record, rfl, htry, rfl, rfl⟩

/-- All that may happen at a stage of a search whose solver always answers. -/
theorem nextStage_cases (hs : Answers s.engine) {following : Stage} {extended : List Attempt}
    (h : ((nextStage s p c deadline stage).run records).run w = ((.ok following, extended), w')) :
    ∃ horizon, stage = .trying horizon ∧
      (deadline ≤ (s.now.run w).1 ∧ following = .exhausted (.timeout horizon) ∧
          extended = records ∨
        (s.now.run w).1 < deadline ∧ ∃ finding record, Attempted s p horizon finding record ∧
          following = c.next p.nFluents horizon finding ∧ extended = records ++ [record]) := by
  obtain ⟨horizon, finding, record, rfl, htry, rfl, rfl⟩ := nextStage_eq_ok h
  refine ⟨horizon, rfl, ?_⟩
  rcases tryHorizon_cases hs with ⟨v, -, h⟩ | ⟨hlate, h⟩ | ⟨hintime, found, kept, hattempted, h⟩
  · rw [htry] at h
    cases h
  · rw [htry] at h
    cases h
    exact .inl ⟨hlate, rfl, List.append_nil _⟩
  · rw [htry] at h
    cases h
    exact .inr ⟨hintime, finding, kept, hattempted, rfl, rfl⟩

/-- The search from a horizon on passes to the next stage, and ends there or goes on. -/
theorem searchFrom_run (horizon : Nat) :
    ((searchFrom s p c deadline horizon).run records).run w =
      match ((nextStage s p c deadline (.trying horizon)).run records).run w with
      | ((.error v, extended), w') => ((.error v, extended), w')
      | ((.ok (.trying h), extended), w') => ((searchFrom s p c deadline h).run extended).run w'
      | ((.ok (.satisfiable h model), extended), w') =>
        ((((p.layout h).decode model).map (.planFound h), extended), w')
      | ((.ok (.exhausted (.bound maxHorizon proven)), extended), w') =>
        ((.ok (.horizonExhausted maxHorizon proven), extended), w')
      | ((.ok (.exhausted (.timeout h)), extended), w') => ((.ok (.timedOut h), extended), w') := by
  rw [searchFrom, nextStage_run, run_lift_bind]
  obtain ⟨⟨v⟩ | ⟨finding, record⟩, w'⟩ := (tryHorizon s p c deadline horizon).run w
  · rfl
  · dsimp only
    generalize c.next p.nFluents horizon finding = stage
    rcases stage with h | ⟨h, model⟩ | ⟨maxHorizon, proven⟩ | h <;> rfl

/-- How a search ends: in the last of the stages it reaches, or at a horizon whose formula cannot be
built. -/
inductive Stops (p : Problem) : Stage → Except Violation Outcome → Prop
  /-- The stage has an outcome. -/
  | last {stage : Stage} {result : Except Violation Outcome} :
    stage.outcome? p = some result → Stops p stage result
  /-- The horizon cannot be attempted. -/
  | broken {horizon : Nat} (v : Violation) :
      ¬ Expressible p horizon → Stops p (.trying horizon) (.error v)

/-- From a stage that is reached, the search goes on to a last one. -/
theorem Reachable.ends (hs : Answers s.engine) {horizon : Nat}
    (h : Reachable s p c deadline w₀ (.trying horizon) records w) :
    ∃ last extended w₁ result w', Reachable s p c deadline w₀ last extended w₁ ∧
      Stops p last result ∧
      ((searchFrom s p c deadline horizon).run records).run w = ((result, extended), w') := by
  -- The horizons to be tried grow up to the maximal one.
  induction hn : c.maxHorizon - horizon using Nat.strong_induction_on
    generalizing horizon records w with
  | h n ih =>
    have htry : (∃ v w', ¬ Expressible p horizon ∧
        (tryHorizon s p c deadline horizon).run w = (.error v, w')) ∨
        ∃ finding record w', (tryHorizon s p c deadline horizon).run w =
          (.ok (finding, record), w') := by
      rcases tryHorizon_cases hs with ⟨v, hbroken, h⟩ | ⟨-, h⟩ | ⟨-, finding, record, -, h⟩
      · exact .inl ⟨v, _, hbroken, Prod.ext h rfl⟩
      · exact .inr ⟨_, _, _, Prod.ext h rfl⟩
      · exact .inr ⟨_, _, _, Prod.ext h rfl⟩
    rcases htry with ⟨v, w', hbroken, htry⟩ | ⟨finding, record, w', htry⟩
    · refine ⟨_, _, _, _, w', h, .broken v hbroken, ?_⟩
      rw [searchFrom_run, nextStage_run, htry]
    · have hnext : ((nextStage s p c deadline (.trying horizon)).run records).run w =
          ((.ok (c.next p.nFluents horizon finding), records ++ record.toList), w') := by
        rw [nextStage_run, htry]
      have hreach := h.next hnext
      rw [searchFrom_run, hnext]
      cases hstage : c.next p.nFluents horizon finding with
      | trying following =>
        rw [hstage] at hreach
        obtain ⟨rfl, hlt⟩ := Config.next_eq_trying hstage
        exact ih _ (by omega) hreach rfl
      | satisfiable h model =>
        rw [hstage] at hreach
        exact ⟨_, _, _, _, _, hreach, .last rfl, rfl⟩
      | exhausted why =>
        rw [hstage] at hreach
        cases why with
        | bound maxHorizon proven => exact ⟨_, _, _, _, _, hreach, .last rfl, rfl⟩
        | timeout h => exact ⟨_, _, _, _, _, hreach, .last rfl, rfl⟩

/-- A run looks at the clock and begins with the minimal horizon, unless the clock cannot show its
deadline. Whatever records there are at its beginning are forgotten. -/
theorem run_run (s : Surroundings (StateM σ)) (p : Problem) (c : Config)
    (earlier : List Attempt) (w : σ) :
    ((run s p c).run earlier).run w =
      if (s.now.run w).1 + c.timeout < endOfTime then
        ((searchFrom s p c ((s.now.run w).1 + c.timeout) c.minHorizon).run []).run (s.now.run w).2
      else ((.error .unreachableDeadline, []), (s.now.run w).2) := by
  show ((StateT.run (if (s.now.run w).1 + c.timeout < endOfTime then
    searchFrom s p c ((s.now.run w).1 + c.timeout) c.minHorizon
    else return .error .unreachableDeadline) []).run (s.now.run w).2) = _
  split <;> rfl

/-- A run breaks down where its first formula does. -/
theorem run_of_encode {v : Violation} (hencode : (p.layout c.minHorizon).encode p = .error v)
    (hdeadline : (s.now.run w).1 + c.timeout < endOfTime)
    (hintime : (s.now.run (s.now.run w).2).1 < (s.now.run w).1 + c.timeout)
    (earlier : List Attempt) :
    (((run s p c).run earlier).run w).1 = (.error v, []) := by
  rw [run_run, if_pos hdeadline, searchFrom_run, nextStage_run]
  have htry : ((tryHorizon s p c ((s.now.run w).1 + c.timeout) c.minHorizon).run
      (s.now.run w).2).1 =
      .error v := by
    rw [tryHorizon_run, if_neg (Nat.not_le_of_lt hintime), attempt_run_of_encode hencode]
    rfl
  generalize (tryHorizon s p c ((s.now.run w).1 + c.timeout) c.minHorizon).run (s.now.run w).2 =
    x at htry ⊢
  obtain ⟨result, w'⟩ := x
  subst htry
  rfl

/-- Every run with a solver that always answers ends in a stage it reaches, unless the clock cannot
show its deadline. -/
theorem run_ends (hs : Answers s.engine) (c : Config) (earlier : List Attempt) (w : σ) :
    (endOfTime ≤ (s.now.run w).1 + c.timeout ∧
      ((run s p c).run earlier).run w = ((.error .unreachableDeadline, []), (s.now.run w).2)) ∨
    ∃ last records w₁ result w',
      Reachable s p c ((s.now.run w).1 + c.timeout) (s.now.run w).2 last records w₁ ∧
        Stops p last result ∧ ((run s p c).run earlier).run w = ((result, records), w') := by
  rw [run_run]
  split
  · exact .inr (Reachable.start.ends hs)
  · next hlate => exact .inl ⟨Nat.le_of_not_lt hlate, rfl⟩

/-- An outcome of a run is that of a stage it reaches. -/
theorem exists_reachable_of_run (hs : Answers s.engine) {earlier : List Attempt} {outcome : Outcome}
    (h : ((run s p c).run earlier).run w = ((.ok outcome, records), w')) :
    ∃ last w₁, Reachable s p c ((s.now.run w).1 + c.timeout) (s.now.run w).2 last records w₁ ∧
      last.outcome? p = some (.ok outcome) := by
  rcases run_ends (p := p) hs c earlier w with ⟨-, hrun⟩ | ⟨last, kept, w₁,
    result, w₂, hreach, hstops, hrun⟩
  · rw [h] at hrun
    cases hrun
  · rw [h] at hrun
    cases hrun
    cases hstops with
    | last houtcome => exact ⟨last, w₁, hreach, houtcome⟩

/-! ### What every run keeps -/

/-- Only horizons up to the maximal one are tried. -/
theorem Reachable.le_max {horizon : Nat} (hc : c.minHorizon ≤ c.maxHorizon)
    (h : Reachable s p c deadline w₀ (.trying horizon) records w) : horizon ≤ c.maxHorizon := by
  cases h with
  | start => exact hc
  | next _ hnext =>
    obtain ⟨tried, finding, record, -, -, hstage, -⟩ := nextStage_eq_ok hnext
    obtain ⟨rfl, hlt⟩ := Config.next_eq_trying hstage.symm
    exact hlt

/-- The formulas that are recorded are those of horizons that were reached. -/
theorem Reachable.exists_trying_of_mem (hs : Answers s.engine)
    (h : Reachable s p c deadline w₀ stage records w) :
    ∀ r ∈ records, ∃ horizon kept w', Reachable s p c deadline w₀ (.trying horizon) kept w' ∧
      r.nVars = (p.layout horizon).nVars := by
  induction h with
  | start => simp
  | next hreach hnext ih =>
    obtain ⟨horizon, rfl, ⟨-, -, rfl⟩ | ⟨-, finding, record, hattempted, -, rfl⟩⟩ :=
      nextStage_cases hs hnext
    · exact ih
    · refine List.forall_mem_append.mpr ⟨ih, List.forall_mem_singleton.mpr ?_⟩
      exact ⟨horizon, _, _, hreach, hattempted.recorded.nVars_eq⟩

/-- A model is found for a horizon that was reached. -/
theorem Reachable.exists_trying_of_satisfiable {horizon : Nat} {model : Assignment}
    (h : Reachable s p c deadline w₀ (.satisfiable horizon model) records w) :
    ∃ kept w', Reachable s p c deadline w₀ (.trying horizon) kept w' := by
  cases h with
  | next hreach hnext =>
    obtain ⟨tried, finding, record, rfl, -, hstage, -⟩ := nextStage_eq_ok hnext
    cases finding <;> simp only [Config.next] at hstage
    case satisfiable =>
      cases hstage
      exact ⟨_, _, hreach⟩
    case timedOut => cases hstage
    all_goals split at hstage <;> cases hstage

/-! ### Runs for which there is room -/

/-- What a run needs to come to an outcome: a deadline that the clock can show, literals for the
variables of the horizons it reaches, and room for the steps of the plan where a horizon has a
model. -/
structure Feasible (s : Surroundings (StateM σ)) (p : Problem) (c : Config) (w : σ) : Prop where
  /-- The time at the end of the budget can be shown. -/
  deadline : (s.now.run w).1 + c.timeout < endOfTime
  /-- The variables of every horizon that is reached fit into words. -/
  fits : ∀ horizon records w',
    Reachable s p c ((s.now.run w).1 + c.timeout) (s.now.run w).2 (.trying horizon) records w' →
      (p.layout horizon).FitsWords
  /-- There is room for a step at each time before a horizon that has a model. -/
  room : ∀ horizon model records w',
    Reachable s p c ((s.now.run w).1 + c.timeout) (s.now.run w).2
      (.satisfiable horizon model) records w' →
      (p.layout horizon).HasRoom

/-- The variables of all horizons fit into words if those of the maximal one do. -/
theorem fitsWords_of_le {horizon larger : Nat} (hle : horizon ≤ larger)
    (h : (p.layout larger).FitsWords) : (p.layout horizon).FitsWords :=
  ⟨Nat.lt_of_le_of_lt (Nat.succ_le_succ hle) h.1, Nat.lt_of_le_of_lt (p.nVars_layout_mono hle) h.2⟩

/-- There is room for the steps before every horizon if there is for those before the maximal
one. -/
theorem hasRoom_of_le {horizon larger : Nat} (hle : horizon ≤ larger)
    (h : (p.layout larger).HasRoom) : (p.layout horizon).HasRoom :=
  Nat.lt_of_le_of_lt (Nat.mul_le_mul_right _ hle) h

/-- A run has all it needs if there is enough for the maximal horizon. -/
theorem feasible_of_maxHorizon (hc : c.minHorizon ≤ c.maxHorizon)
    (hdeadline : (s.now.run w).1 + c.timeout < endOfTime) (hfit : (p.layout c.maxHorizon).FitsWords)
    (hroom : (p.layout c.maxHorizon).HasRoom) : Feasible s p c w where
  deadline := hdeadline
  fits _ _ _ hreach := fitsWords_of_le (hreach.le_max hc) hfit
  room _ _ _ _ hreach := by
    obtain ⟨kept, w', htrying⟩ := hreach.exists_trying_of_satisfiable
    exact hasRoom_of_le (htrying.le_max hc) hroom

/-- A stage with an outcome that cannot be had is one with a model. -/
theorem Stage.eq_satisfiable_of_outcome? {v : Violation} (h : stage.outcome? p = some (.error v)) :
    ∃ horizon model, stage = .satisfiable horizon model ∧
      (p.layout horizon).decode model = .error v := by
  rcases stage with horizon | ⟨horizon, model⟩ | ⟨maxHorizon, proven⟩ | horizon
  · cases h
  · refine ⟨horizon, model, rfl, ?_⟩
    cases hdecode : (p.layout horizon).decode model with
    | error v' =>
      rw [outcome?, hdecode] at h
      cases h
      rfl
    | ok plan =>
      rw [outcome?, hdecode] at h
      cases h
  · cases h
  · cases h

/-- Where there is room for all it needs, a run with a solver that always answers ends with an
outcome, and the variables of all its formulas fit into words. -/
theorem Feasible.exists_outcome (h : Feasible s p c w) (hs : Answers s.engine) (hp : p.WellFormed)
    (earlier : List Attempt) :
    ∃ outcome records w', ((run s p c).run earlier).run w = ((.ok outcome, records), w') ∧
      ∀ r ∈ records, r.nVars < Word.half := by
  rcases run_ends (p := p) hs c earlier w with ⟨hlate, -⟩ | ⟨last, kept,
    w₁, result, w₂, hreach, hstops, hrun⟩
  · exact absurd h.deadline (Nat.not_lt_of_le hlate)
  · have hfit : ∀ r ∈ kept, r.nVars < Word.half := fun r hr => by
      obtain ⟨horizon, _, _, htrying, hnVars⟩ := hreach.exists_trying_of_mem hs r hr
      exact hnVars ▸ (h.fits _ _ _ htrying).lt_half
    cases result with
    | ok outcome => exact ⟨outcome, kept, w₂, hrun, hfit⟩
    | error v =>
      cases hstops with
      | last houtcome =>
        obtain ⟨horizon, model, rfl, hdecode⟩ := Stage.eq_satisfiable_of_outcome? houtcome
        obtain ⟨_, _, htrying⟩ := hreach.exists_trying_of_satisfiable
        rw [Encoding.Layout.decode_eq (h.fits _ _ _ htrying).counted
          (h.room _ _ _ _ hreach)] at hdecode
        cases hdecode
      | broken v hbroken => exact absurd (expressible_of_fitsWords hp (h.fits _ _ _ hreach)) hbroken

/-- The outcome at the maximal horizon tells it, and whether its bound excludes all plans. -/
theorem Reachable.bound_eq {maxHorizon : Nat} {proven : Bool}
    (h : Reachable s p c deadline w₀ (.exhausted (.bound maxHorizon proven)) records w) :
    maxHorizon = c.maxHorizon ∧ proven = provesAbsence p.nFluents c.maxHorizon := by
  cases h with
  | next _ hnext =>
    obtain ⟨tried, finding, record, -, -, hstage, -⟩ := nextStage_eq_ok hnext
    cases finding <;> simp only [Config.next] at hstage
    case satisfiable => cases hstage
    case timedOut => cases hstage
    all_goals
      split at hstage
      · cases hstage
        exact ⟨rfl, rfl⟩
      · cases hstage

end HorizonPlanner.Search
