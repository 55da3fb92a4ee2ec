import HorizonPlanner.Proofs.Encoding.Correctness
import HorizonPlanner.Proofs.Sat.Dimacs
import HorizonPlanner.Search.Horizon

/-!
# What an attempt finds out

The surroundings of a search are a state that the solver and the clock read and change in any way
whatever. A sound solver is right when it answers. What an attempt then finds out about a horizon is
true of the plans that fit it.
-/

namespace HorizonPlanner.Search

open HorizonPlanner.Sat

variable {σ : Type}

/-- A solver that always answers, if only that it does not know. -/
def Answers (engine : Engine (StateM σ)) : Prop :=
  ∀ i w, ∃ answer, ((engine i).run w).1 = .ok answer

/-- A solver that is right: its models satisfy the clauses, and clauses that it refutes have no
model. It may leave any question open. -/
structure SoundEngine (engine : Engine (StateM σ)) : Prop where
  /-- What the solver says can be understood. -/
  answers : Answers engine
  /-- A model satisfies all clauses. -/
  model : ∀ i w a, ((engine i).run w).1 = .ok (.satisfiable a) →
    a.satisfiesAll i.clauses.toList = true
  /-- Refuted clauses have no model. -/
  refutation : ∀ i w, ((engine i).run w).1 = .ok .unsatisfiable →
    ¬ ∃ a : Assignment, a.satisfiesAll i.clauses.toList = true

/-! ### An ideal solver -/

open Classical in
/-- The solver that knows everything. -/
noncomputable def oracle : Engine (StateM Unit) := fun i =>
  pure (.ok (if h : ∃ a : Assignment, a.satisfiesAll i.clauses.toList = true then
    .satisfiable h.choose else .unsatisfiable))

/-- The oracle is a sound solver. -/
theorem sound_oracle : SoundEngine oracle where
  answers i w := ⟨_, rfl⟩
  model i w a h := by
    change Except.ok _ = Except.ok _ at h
    split at h
    · next hexists =>
      cases h
      exact hexists.choose_spec
    · cases h
  refutation i w h := by
    change Except.ok _ = Except.ok _ at h
    split at h
    · cases h
    · next hnone => exact hnone

/-- The oracle leaves no question open. -/
theorem oracle_knows (i : Instance) (w : Unit) : ((oracle i).run w).1 ≠ .ok .unknown := by
  intro h
  change Except.ok _ = Except.ok _ at h
  split at h <;> cases h

/-- The surroundings of the ideal solver, where the clock stands still. -/
noncomputable def Surroundings.ideal : Surroundings (StateM Unit) :=
  ⟨oracle, pure 0, fun _ => pure ()⟩

/-! ### Findings -/

/-- What a finding says about a list of clauses. -/
def Finding.RightAbout (cs : List Clause) : Finding → Prop
  | .satisfiable a => a.satisfiesAll cs = true
  | .unsatisfiable | .contradiction => ¬ ∃ a : Assignment, a.satisfiesAll cs = true
  | .timedOut => True

variable {s : Surroundings (StateM σ)} {p : Problem} {horizon limit : Nat} {clauses : ClauseSet}

/-- The instance of a clause set has its clauses in their order, the variables and the limit. -/
theorem instanceOf_eq (clauses : ClauseSet) (nVars limit : Nat) :
    instanceOf clauses nVars limit = ⟨clauses.clauses, nVars, some limit⟩ := by
  simp [instanceOf, Instance.addClauses_eq, Instance.limitTime, Instance.empty, Instance.reserve,
    ClauseSet.toList]

private theorem clauses_instanceOf (clauses : ClauseSet) (nVars limit : Nat) :
    (instanceOf clauses nVars limit).clauses.toList = clauses.toList := by
  rw [instanceOf_eq]
  rfl

/-- A visible contradiction is not worth a call, otherwise the solver is asked. -/
theorem solve_run (engine : Engine (StateM σ)) (clauses : ClauseSet) (nVars limit : Nat) (w : σ) :
    ((solve engine clauses nVars limit).run w).1 =
      if clauses.contradictory then .ok .contradiction
      else ((engine (instanceOf clauses nVars limit)).run w).1.map Finding.ofAnswer := by
  unfold solve
  split <;> rfl

/-- With a solver that always answers there is a finding about every set of clauses. -/
theorem Answers.solve {engine : Engine (StateM σ)} (hs : Answers engine) (clauses : ClauseSet)
    (nVars limit : Nat) (w : σ) :
    ∃ finding, ((Search.solve engine clauses nVars limit).run w).1 = .ok finding := by
  rw [solve_run]
  split
  · exact ⟨_, rfl⟩
  · obtain ⟨answer, hanswer⟩ := hs (instanceOf clauses nVars limit) w
    exact ⟨.ofAnswer answer, by rw [hanswer]; rfl⟩

/-- With a sound solver the finding about a set of clauses is right. -/
theorem SoundEngine.rightAbout (hs : SoundEngine s.engine) (hclauses : clauses.WellFormed)
    {nVars : Nat} {w : σ} {finding : Finding}
    (h : ((solve s.engine clauses nVars limit).run w).1 = .ok finding) :
    finding.RightAbout clauses.toList := by
  rw [solve_run] at h
  split at h
  · next hcontradictory =>
    cases h
    rintro ⟨a, ha⟩
    exact hclauses.not_holds_of_contradictory hcontradictory (Assignment.holds_of_satisfiesAll ha)
  · obtain ⟨answer, hanswer⟩ := hs.answers (instanceOf clauses nVars limit) w
    rw [hanswer] at h
    cases h
    rw [← clauses_instanceOf clauses nVars limit]
    cases answer with
    | satisfiable a => exact hs.model _ _ _ hanswer
    | unsatisfiable => exact hs.refutation _ _ hanswer
    | unknown => trivial

/-- What the record of an attempt says about it. -/
structure RecordOf (p : Problem) (horizon : Nat) (finding : Finding) (r : Attempt) : Prop where
  /-- The horizon is the one that was tried. -/
  horizon_eq : r.horizon = horizon
  /-- The variables are those of the layout. -/
  nVars_eq : r.nVars = (p.layout horizon).nVars
  /-- The clauses are those of the formula. -/
  nClauses_eq : ∃ clauses, (p.layout horizon).encode p = .ok clauses ∧ r.nClauses = clauses.size
  /-- The verdict is the kind of the finding. -/
  verdict_eq : r.verdict = finding.verdict

/-- The formula of a horizon can be built, and its variables are counted by words. -/
structure Expressible (p : Problem) (horizon : Nat) : Prop where
  /-- Every constraint has its clauses. -/
  encodes : ∃ clauses, (p.layout horizon).encode p = .ok clauses
  /-- The variables are counted. -/
  counted : (p.layout horizon).Counted

/-- If the variables of a horizon fit into words, then its formula can be built. -/
theorem expressible_of_fitsWords (hp : p.WellFormed) (hfit : (p.layout horizon).FitsWords) :
    Expressible p horizon :=
  ⟨hp.exists_encode hfit, hfit.counted⟩

/-- Two operations on the surroundings take place one after the other. -/
theorem run_bind {α β : Type} (x : StateM σ α) (f : α → StateM σ β) (w : σ) :
    (x >>= f).run w = (f (x.run w).1).run (x.run w).2 := rfl

/-- An attempt ends like the call of the solver on the formula, and keeps a record of it. -/
theorem attempt_run (hencode : (p.layout horizon).encode p = .ok clauses)
    (hcounted : (p.layout horizon).Counted) (limit : Nat) (w : σ) :
    ∃ w', match ((solve s.engine clauses (p.layout horizon).nVars limit).run w').1 with
      | .error v => ((attempt s p horizon limit).run w).1 = .error v
      | .ok finding => ∃ record, ((attempt s p horizon limit).run w).1 = .ok (finding, record) ∧
        RecordOf p horizon finding record := by
  have hvars := Encoding.Layout.varCount_eq_ok_iff.mpr ⟨hcounted, rfl⟩
  -- The solver is called after the event was told and the clock was read three times.
  refine ⟨(s.now.run (s.now.run (s.now.run ((s.tell (.trying horizon limit)).run w).2).2).2).2, ?_⟩
  simp only [attempt, run_bind, hencode, hvars]
  generalize (s.now.run (s.now.run (s.now.run ((s.tell (.trying horizon limit)).run w).2).2).2).2 =
    w'
  cases ((solve s.engine clauses (p.layout horizon).nVars limit).run w').1 with
  | error v => rfl
  | ok finding => exact ⟨_, rfl, rfl, rfl, ⟨clauses, hencode, rfl⟩, rfl⟩

/-- An attempt breaks down where the formula does. -/
theorem attempt_run_of_encode {v : Violation} (hencode : (p.layout horizon).encode p = .error v)
    (limit : Nat) (w : σ) : ((attempt s p horizon limit).run w).1 = .error v := by
  simp only [attempt, run_bind, hencode]
  rfl

/-- An attempt breaks down if the formula cannot be built or its variables are not counted. -/
theorem attempt_run_eq_error (h : ¬ Expressible p horizon) (limit : Nat) (w : σ) :
    ∃ v, ((attempt s p horizon limit).run w).1 = .error v := by
  cases hencode : (p.layout horizon).encode p with
  | error v => exact ⟨v, attempt_run_of_encode hencode limit w⟩
  | ok clauses =>
    simp only [attempt, run_bind, hencode]
    cases hvars : (p.layout horizon).varCount with
    | error v => exact ⟨v, rfl⟩
    | ok nVars =>
      exact absurd ⟨⟨clauses, hencode⟩, (Encoding.Layout.varCount_eq_ok_iff.mp hvars).1⟩ h

/-- A horizon is attempted unless the deadline has passed. -/
theorem tryHorizon_run (c : Config) (deadline horizon : Nat) (w : σ) :
    ((tryHorizon s p c deadline horizon).run w).1 =
      if deadline ≤ (s.now.run w).1 then .ok (.timedOut, none)
      else ((attempt s p horizon (c.limit (deadline - (s.now.run w).1))).run (s.now.run w).2).1.map
        fun x => (x.1, some x.2) := by
  simp only [tryHorizon, run_bind, Nat.sub_eq_zero_iff_le]
  split
  · rfl
  · simp only [run_bind]
    generalize (attempt s p horizon (c.limit (deadline - (s.now.run w).1))).run (s.now.run w).2 = x
    obtain ⟨⟨v⟩ | ⟨finding, record⟩, w'⟩ := x <;> rfl

variable {c : Config} {deadline : Nat} {w : σ}

/-- The solver was asked about the formula of the horizon, and this was found out and recorded. -/
structure Attempted (s : Surroundings (StateM σ)) (p : Problem) (horizon : Nat) (finding : Finding)
    (record : Attempt) : Prop where
  /-- The finding is what became of a call of the solver. -/
  solved : ∃ clauses limit w, (p.layout horizon).encode p = .ok clauses ∧
    ((solve s.engine clauses (p.layout horizon).nVars limit).run w).1 = .ok finding
  /-- The variables are counted. -/
  counted : (p.layout horizon).Counted
  /-- The record tells of the attempt. -/
  recorded : RecordOf p horizon finding record

/-- All that may happen when a horizon is tried with a solver that always answers. -/
theorem tryHorizon_cases (hs : Answers s.engine) :
    (∃ v, ¬ Expressible p horizon ∧ ((tryHorizon s p c deadline horizon).run w).1 = .error v) ∨
    deadline ≤ (s.now.run w).1 ∧
        ((tryHorizon s p c deadline horizon).run w).1 = .ok (.timedOut, none) ∨
      (s.now.run w).1 < deadline ∧ ∃ finding record, Attempted s p horizon finding record ∧
        ((tryHorizon s p c deadline horizon).run w).1 = .ok (finding, some record) := by
  rw [tryHorizon_run]
  split
  · next hlate => exact .inr (.inl ⟨hlate, rfl⟩)
  · next hintime =>
    by_cases hexpressible : Expressible p horizon
    · refine .inr (.inr ⟨Nat.lt_of_not_le hintime, ?_⟩)
      obtain ⟨⟨clauses, hencode⟩, hcounted⟩ := hexpressible
      obtain ⟨w', hw'⟩ := attempt_run (s := s) hencode hcounted
        (c.limit (deadline - (s.now.run w).1)) (s.now.run w).2
      obtain ⟨finding, hfinding⟩ := hs.solve clauses (p.layout horizon).nVars
        (c.limit (deadline - (s.now.run w).1)) w'
      rw [hfinding] at hw'
      obtain ⟨record, hattempt, hrecord⟩ := hw'
      refine ⟨finding, record, ⟨⟨clauses, _, w', hencode, hfinding⟩, hcounted, hrecord⟩, ?_⟩
      rw [hattempt]
      rfl
    · obtain ⟨v, hv⟩ := attempt_run_eq_error (s := s) hexpressible
        (c.limit (deadline - (s.now.run w).1)) (s.now.run w).2
      exact .inl ⟨v, hexpressible, by rw [hv]; rfl⟩

/-- What a finding says about the plans that fit a horizon. -/
def Finding.RightFor (p : Problem) (horizon : Nat) : Finding → Prop
  | .satisfiable a => ∀ plan, (p.layout horizon).decode a = .ok plan → plan.Fits p horizon
  | .unsatisfiable | .contradiction => ¬ p.SolvableWithin horizon
  | .timedOut => True

/-- With a sound solver an attempt is right for the plans, as long as the variables fit into
words. -/
theorem Attempted.rightFor {finding : Finding} {record : Attempt}
    (h : Attempted s p horizon finding record) (hs : SoundEngine s.engine) (hp : p.WellFormed)
    (hfit : record.nVars < Word.half) : finding.RightFor p horizon := by
  obtain ⟨clauses, limit, w, hencode, hsolve⟩ := h.solved
  obtain ⟨cs, -, hrepresents⟩ := Encoding.Layout.represents_of_encode hencode
  have hright := hs.rightAbout hrepresents.wellFormed hsolve
  have hlayout : (p.layout horizon).FitsWords := ⟨h.counted.1, h.recorded.nVars_eq ▸ hfit⟩
  have hsatisfiable := hp.satisfiable_iff hlayout hencode
  cases finding with
  | satisfiable a => exact fun plan hplan => hp.fits_of_satisfiesAll hlayout hencode hright hplan
  | unsatisfiable => exact fun hplan => hright (hsatisfiable.mpr hplan)
  | contradiction => exact fun hplan => hright (hsatisfiable.mpr hplan)
  | timedOut => trivial

/-- With a solver that always knows, an attempt does not run out of time. -/
theorem Attempted.ne_timedOut {finding : Finding} {record : Attempt}
    (h : Attempted s p horizon finding record) (hs : Answers s.engine)
    (hknows : ∀ i w, ((s.engine i).run w).1 ≠ .ok .unknown) : finding ≠ .timedOut := by
  rintro rfl
  obtain ⟨clauses, limit, w, -, hsolve⟩ := h.solved
  rw [solve_run] at hsolve
  split at hsolve
  · cases hsolve
  · obtain ⟨answer, hanswer⟩ := hs (instanceOf clauses (p.layout horizon).nVars limit) w
    rw [hanswer] at hsolve
    cases answer with
    | satisfiable a => cases hsolve
    | unsatisfiable => cases hsolve
    | unknown => exact hknows _ _ hanswer

end HorizonPlanner.Search
