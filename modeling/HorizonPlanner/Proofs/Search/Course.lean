import Mathlib
import HorizonPlanner.Proofs.Search.Correctness

/-!
# The course of a search

A search uses its surroundings in three ways: it looks at the clock, it tells what happens, and it
asks the solver. Noting all this down changes nothing, and the notes show the course of a run:
episode after episode one horizon is attempted, with one question to a fresh solver at most, until
an episode or the clock ends the run. This holds for every solver that answers, however wrong its
answers are, and for every clock.
-/

namespace HorizonPlanner.Search

open HorizonPlanner.Sat

variable {σ : Type}

/-! ### Notes -/

/-- One use of the surroundings. -/
inductive Interaction
  /-- The clock was looked at and showed this time. -/
  | looked (time : Nat)
  /-- The event was told. -/
  | told (event : Event)
  /-- A fresh solver was given the instance and answered. -/
  | asked (question : Instance) (answer : Except Violation Answer)

/-- The operation with a note of its result behind all earlier notes. -/
def noting {α : Type} (x : StateM σ α) (note : α → Interaction) :
    StateM (σ × List Interaction) α := fun w =>
  ((x.run w.1).1, ((x.run w.1).2, w.2 ++ [note (x.run w.1).1]))

/-- The surroundings in which all interactions are noted. -/
def Surroundings.noted (s : Surroundings (StateM σ)) :
    Surroundings (StateM (σ × List Interaction)) :=
  ⟨fun i => noting (s.engine i) (.asked i), noting s.now .looked,
    fun e => noting (s.tell e) fun _ => .told e⟩

/-- An operation and its noted twin give the same result in the same surroundings, and these are the
notes that come in addition. -/
structure Performs {α : Type} (x : StateM σ α) (y : StateM (σ × List Interaction) α) (w : σ) (a : α)
    (w' : σ) (notes : List Interaction) : Prop where
  /-- The result of the operation. -/
  plain : x.run w = (a, w')
  /-- The result of its twin. -/
  noted : ∀ log, y.run (w, log) = (a, (w', log ++ notes))

namespace Performs

variable {α β : Type} {x : StateM σ α} {y : StateM (σ × List Interaction) α} {w w₁ w₂ : σ}
  {notes more : List Interaction}

/-- To do nothing needs no notes. -/
theorem pure (a : α) (w : σ) : Performs (Pure.pure a) (Pure.pure a) w a w [] :=
  ⟨rfl, fun log => by rw [List.append_nil]; rfl⟩

/-- A noted operation has its result, and one note. -/
theorem noting (x : StateM σ α) (note : α → Interaction) (w : σ) :
    Performs x (Search.noting x note) w (x.run w).1 (x.run w).2 [note (x.run w).1] :=
  ⟨rfl, fun _ => rfl⟩

/-- The notes of two operations come one behind the other. -/
theorem bind {f : α → StateM σ β} {g : α → StateM (σ × List Interaction) β} {a : α} {b : β}
    (hx : Performs x y w a w₁ notes) (hf : Performs (f a) (g a) w₁ b w₂ more) :
    Performs (x >>= f) (y >>= g) w b w₂ (notes ++ more) := by
  refine ⟨?_, fun log => ?_⟩
  · rw [run_bind, hx.plain, hf.plain]
  · rw [run_bind, hx.noted, hf.noted, List.append_assoc]

/-- An operation with one note in front of others. -/
theorem step {f : α → StateM σ β} {g : α → StateM (σ × List Interaction) β} {a : α} {b : β}
    {i : Interaction} (hx : Performs x y w a w₁ [i]) (hf : Performs (f a) (g a) w₁ b w₂ more) :
    Performs (x >>= f) (y >>= g) w b w₂ (i :: more) :=
  hx.bind hf

/-- An operation followed by one without notes. -/
theorem last {f : α → StateM σ β} {g : α → StateM (σ × List Interaction) β} {a : α} {b : β}
    (hx : Performs x y w a w₁ notes) (hf : Performs (f a) (g a) w₁ b w₂ []) :
    Performs (x >>= f) (y >>= g) w b w₂ notes := by
  rw [← List.append_nil notes]
  exact hx.bind hf

end Performs

/-! ### Questions and attempts -/

variable {s : Surroundings (StateM σ)} {p : Problem} {c : Config} {deadline horizon limit : Nat}
  {clauses : ClauseSet} {records : List Attempt} {w : σ}

private theorem now_performs (s : Surroundings (StateM σ)) (w : σ) :
    ∃ time w', Performs s.now s.noted.now w time w' [.looked time] :=
  ⟨_, _, .noting s.now .looked w⟩

private theorem tell_performs (s : Surroundings (StateM σ)) (e : Event) (w : σ) :
    ∃ w', Performs (s.tell e) (s.noted.tell e) w () w' [.told e] :=
  ⟨_, .noting (s.tell e) (fun _ => .told e) w⟩

/-- The solver is asked once, unless the clauses are visibly contradictory. -/
theorem solve_performs (s : Surroundings (StateM σ)) (clauses : ClauseSet)
    (nVars limit : Nat) (w : σ) :
    clauses.contradictory = true ∧
        Performs (solve s.engine clauses nVars limit) (solve s.noted.engine clauses nVars limit) w
          (.ok .contradiction) w [] ∨
      clauses.contradictory = false ∧ ∃ answer w',
        ((s.engine ⟨clauses.clauses, nVars, some limit⟩).run w).1 = answer ∧
          Performs (solve s.engine clauses nVars limit) (solve s.noted.engine clauses nVars limit) w
            (answer.map .ofAnswer) w' [.asked ⟨clauses.clauses, nVars, some limit⟩ answer] := by
  unfold solve
  rw [instanceOf_eq]
  cases clauses.contradictory with
  | true => exact .inl ⟨rfl, .pure _ _⟩
  | false =>
    exact .inr ⟨rfl, _, _, rfl, (Performs.noting (s.engine _) (.asked _) w).bind (.pure _ _)⟩

/-- An attempt tells that it begins, looks at the clock before and after it builds the formula and
once more before it calls the solver. If the answer can be understood, a last look and the record
follow. -/
theorem attempt_performs (s : Surroundings (StateM σ))
    (hencode : (p.layout horizon).encode p = .ok clauses) (hcounted : (p.layout horizon).Counted)
    (limit : Nat) (w : σ) :
    ∃ start encoded called w₁, ∀ result w₂ calls,
      Performs (solve s.engine clauses (p.layout horizon).nVars limit)
        (solve s.noted.engine clauses (p.layout horizon).nVars limit) w₁ result w₂ calls →
      match result with
      | .error v => Performs (attempt s p horizon limit) (attempt s.noted p horizon limit) w
          (.error v) w₂
          (.told (.trying horizon limit) :: .looked start :: .looked encoded ::
            .looked called :: calls)
      | .ok finding => ∃ solved record w₃,
        record = ⟨horizon, (p.layout horizon).nVars, clauses.size, encoded - start, solved - called,
          finding.verdict⟩ ∧
        Performs (attempt s p horizon limit) (attempt s.noted p horizon limit) w
          (.ok (finding, record)) w₃
          (.told (.trying horizon limit) :: .looked start :: .looked encoded :: .looked called ::
            (calls ++ [.looked solved, .told (.tried record)])) := by
  have hvars := Encoding.Layout.varCount_eq_ok_iff.mpr ⟨hcounted, rfl⟩
  obtain ⟨w₀, htell⟩ := tell_performs s (.trying horizon limit) w
  obtain ⟨start, w₀, hstart⟩ := now_performs s w₀
  obtain ⟨encoded, w₀, hencoded⟩ := now_performs s w₀
  obtain ⟨called, w₁, hcalled⟩ := now_performs s w₀
  refine ⟨start, encoded, called, w₁, fun result w₂ calls hsolve => ?_⟩
  unfold attempt
  simp only [hencode, hvars]
  cases result with
  | error v =>
    refine htell.step (hstart.step (hencoded.step (hcalled.step ?_)))
    exact hsolve.last (.pure _ _)
  | ok finding =>
    obtain ⟨solved, w₃, hsolved⟩ := now_performs s w₂
    let record : Attempt := ⟨horizon, (p.layout horizon).nVars, clauses.size, encoded - start,
      solved - called, finding.verdict⟩
    obtain ⟨w₄, htold⟩ := tell_performs s (.tried record) w₃
    refine ⟨solved, record, w₄, rfl, htell.step (hstart.step (hencoded.step (hcalled.step ?_)))⟩
    exact hsolve.bind (hsolved.step (htold.step (.pure _ _)))

/-! ### Episodes -/

/-- An attempt within a search that has a deadline. -/
structure Episode (p : Problem) (c : Config) (deadline : Nat) where
  /-- The record that is kept of the attempt. -/
  record : Attempt
  /-- The formula that is attempted. -/
  clauses : ClauseSet
  /-- The time at which the horizon is taken up. -/
  time : Nat
  /-- The time limit. -/
  limit : Nat
  /-- The time before the formula is built. -/
  start : Nat
  /-- The time after the formula was built. -/
  encoded : Nat
  /-- The time before the solver is called. -/
  called : Nat
  /-- The time after the formula was solved. -/
  solved : Nat
  /-- The answer of the solver, if one is asked. -/
  answer : Option Answer
  /-- The formula is that of the horizon. -/
  encode_eq : (p.layout record.horizon).encode p = .ok clauses
  /-- The variables are the fluents at all steps and the operators at all but the last. -/
  nVars_eq : record.nVars = p.nFluents * (record.horizon + 1) + p.nOperators * record.horizon
  /-- The clauses are counted. -/
  nClauses_eq : record.nClauses = clauses.size
  /-- The time it took to build the formula. -/
  encodingTime_eq : record.encodingTime = encoded - start
  /-- The time it took to solve it. -/
  solvingTime_eq : record.solvingTime = solved - called
  /-- The deadline has not passed. -/
  time_lt : time < deadline
  /-- There is some time. -/
  limit_pos : 0 < limit
  /-- There is no more time than remains. -/
  limit_le : limit ≤ deadline - time
  /-- There is no more time than a call may take. -/
  limit_le_attempt : ∀ l, c.attemptTimeout = some l → limit ≤ l
  /-- Without a question there is a visible contradiction. -/
  answer_eq_none_iff : answer = none ↔ record.verdict = .contradiction
  /-- The answer to the question is the verdict. -/
  verdict_eq : ∀ a, answer = some a → record.verdict = (Finding.ofAnswer a).verdict

/-- What is noted of an attempt. The only question to a solver is about the clauses of the formula,
in their order, and reserves all its variables. -/
def Episode.notes (e : Episode p c deadline) : List Interaction :=
  .looked e.time :: .told (.trying e.record.horizon e.limit) :: .looked e.start ::
    .looked e.encoded ::
    .looked e.called :: ((e.answer.toList.map fun a => .asked ⟨e.clauses.clauses,
      e.record.nVars, some e.limit⟩ (.ok a)) ++
      [.looked e.solved, .told (.tried e.record)])

/-- Sensible parameters leave some time for a call as long as some remains. -/
theorem Config.limit_bounds (hc : c.validate = .ok ()) {remaining : Nat} (hpos : 0 < remaining) :
    0 < c.limit remaining ∧ c.limit remaining ≤ remaining ∧
      ∀ l, c.attemptTimeout = some l → c.limit remaining ≤ l := by
  have hattempt : c.attemptTimeout ≠ some 0 := by
    unfold Config.validate at hc
    split at hc
    · cases hc
    · split at hc
      · cases hc
      · split at hc
        · cases hc
        · assumption
  unfold Config.limit
  cases hlimit : c.attemptTimeout with
  | none => exact ⟨hpos, le_rfl, fun _ h => by cases h⟩
  | some limit =>
    have hne : limit ≠ 0 := fun h => hattempt (by rw [hlimit, h])
    refine ⟨Nat.lt_min.mpr ⟨Nat.pos_of_ne_zero hne, hpos⟩, Nat.min_le_right _ _, fun l hl => ?_⟩
    cases hl
    exact Nat.min_le_left _ _

/-- A finding is made without a question or is the answer to the only one. -/
theorem exists_solve_performs (hs : Answers s.engine) (clauses : ClauseSet)
    (nVars limit : Nat) (w : σ) :
    ∃ (answer : Option Answer) (w' : σ),
      Performs (solve s.engine clauses nVars limit) (solve s.noted.engine clauses nVars limit) w
        (.ok (answer.elim .contradiction .ofAnswer)) w'
        (answer.toList.map fun a => .asked ⟨clauses.clauses, nVars, some limit⟩ (.ok a)) := by
  rcases solve_performs s clauses nVars limit w with ⟨-, h⟩ | ⟨-, answer, w', hanswer, h⟩
  · exact ⟨none, w, h⟩
  · obtain ⟨a, ha⟩ := hs ⟨clauses.clauses, nVars, some limit⟩ w
    rw [ha] at hanswer
    subst hanswer
    exact ⟨some a, w', h⟩

/-- An attempt before the deadline, with a solver that always answers, is an episode if the formula
can be built. -/
theorem exists_episode (hs : Answers s.engine) (hexpressible : Expressible p horizon)
    (hc : c.validate = .ok ()) {time : Nat} (htime : time < deadline) (w : σ) :
    ∃ (e : Episode p c deadline) (finding : Finding) (w' : σ) (notes : List Interaction),
      e.record.horizon = horizon ∧ e.record.verdict = finding.verdict ∧
        e.notes = .looked time :: notes ∧
          Performs (attempt s p horizon (c.limit (deadline - time)))
            (attempt s.noted p horizon (c.limit (deadline - time))) w (.ok (finding, e.record)) w'
            notes := by
  obtain ⟨hpos, hle, hattempt⟩ := Config.limit_bounds hc (Nat.sub_pos_of_lt htime)
  obtain ⟨⟨clauses, hencode⟩, hcounted⟩ := hexpressible
  obtain ⟨start, encoded, called, w₁, hperforms⟩ :=
    attempt_performs s hencode hcounted (c.limit (deadline - time)) w
  obtain ⟨answer, w₂, hsolve⟩ := exists_solve_performs hs clauses (p.layout horizon).nVars
    (c.limit (deadline - time)) w₁
  obtain ⟨solved, record, w₃, hrecord, hattempted⟩ := hperforms _ _ _ hsolve
  have hhorizon : record.horizon = horizon := by rw [hrecord]
  have hnVars : record.nVars = (p.layout horizon).nVars := by rw [hrecord]
  have hverdict : record.verdict = (answer.elim .contradiction Finding.ofAnswer).verdict := by
    rw [hrecord]
  let e : Episode p c deadline :=
    { record, clauses, time, limit := c.limit (deadline - time), start, encoded,
      called, solved, answer
      encode_eq := by rw [hhorizon, hencode]
      nVars_eq := by
        rw [hnVars, hhorizon]
        rfl
      nClauses_eq := by rw [hrecord]
      encodingTime_eq := by rw [hrecord]
      solvingTime_eq := by rw [hrecord]
      time_lt := htime
      limit_pos := hpos
      limit_le := hle
      limit_le_attempt := hattempt
      answer_eq_none_iff := by
        rw [hverdict]
        rcases answer with _ | _ | _ | _ <;> simp [Finding.ofAnswer, Finding.verdict]
      verdict_eq := by
        rintro a rfl
        exact hverdict }
  refine ⟨e, _, w₃, _, hhorizon, hverdict, ?_, hattempted⟩
  rw [Episode.notes, hhorizon, hnVars]

/-- A horizon breaks down, is taken up too late, or an episode follows. -/
theorem tryHorizon_performs (hs : Answers s.engine) (p : Problem) (hc : c.validate = .ok ())
    (deadline horizon : Nat) (w : σ) :
    (∃ v, ((tryHorizon s p c deadline horizon).run w).1 = .error v) ∨
    (∃ time w', deadline ≤ time ∧
      Performs (tryHorizon s p c deadline horizon) (tryHorizon s.noted p c deadline horizon) w
        (.ok (.timedOut, none)) w' [.looked time]) ∨
      ∃ (e : Episode p c deadline) (finding : Finding) (w' : σ),
        e.record.horizon = horizon ∧ e.record.verdict = finding.verdict ∧
          Performs (tryHorizon s p c deadline horizon) (tryHorizon s.noted p c deadline horizon) w
            (.ok (finding, some e.record)) w' e.notes := by
  obtain ⟨time, w₁, hnow⟩ := now_performs s w
  by_cases hlate : deadline - time = 0
  · refine .inr (.inl ⟨time, w₁, Nat.sub_eq_zero_iff_le.mp hlate, ?_⟩)
    unfold tryHorizon
    refine hnow.step ?_
    rw [if_pos hlate, if_pos hlate]
    exact .pure _ _
  · have htime : time < deadline := by omega
    by_cases hexpressible : Expressible p horizon
    · obtain ⟨e, finding, w₂, notes, hhorizon, hverdict, hnotes, hattempted⟩ :=
        exists_episode hs hexpressible hc htime w₁
      refine .inr (.inr ⟨e, finding, w₂, hhorizon, hverdict, hnotes ▸ ?_⟩)
      unfold tryHorizon
      refine hnow.step ?_
      rw [if_neg hlate, if_neg hlate]
      exact hattempted.last (.pure _ _)
    · obtain ⟨v, hv⟩ := attempt_run_eq_error (s := s) hexpressible (c.limit (deadline - time)) w₁
      refine .inl ⟨v, ?_⟩
      rw [tryHorizon_run, hnow.plain, if_neg (Nat.not_le_of_lt htime), hv]
      rfl

/-! ### Runs -/

/-- The verdict excludes a model. -/
def Verdict.Refutes (v : Verdict) : Prop :=
  v = .unsatisfiable ∨ v = .contradiction

/-- A refuted horizon is followed by the next one, up to the maximal one. -/
theorem Config.next_of_refutes {nFluents : Nat} {finding : Finding} (h : finding.verdict.Refutes) :
    c.next nFluents horizon finding =
      if c.maxHorizon ≤ horizon then
        .exhausted (.bound c.maxHorizon (provesAbsence nFluents c.maxHorizon))
      else .trying (horizon + 1) := by
  cases finding with
  | satisfiable model => simp [Verdict.Refutes, Finding.verdict] at h
  | timedOut => simp [Verdict.Refutes, Finding.verdict] at h
  | unsatisfiable => rfl
  | contradiction => rfl

/-- The horizon that was tried and what became of it. -/
def Attempt.entry (r : Attempt) : Nat × Verdict :=
  (r.horizon, r.verdict)

/-- How a search that begins with a horizon may end, given the records of its attempts: with the
outcome, and with these notes behind those of the attempts. -/
inductive Ending (c : Config) (deadline first : Nat) (records : List Attempt) :
    Outcome → List Interaction → Prop
  /-- The last attempt has found a model. -/
  | found {horizon : Nat} (plan : Plan) :
    (records.map Attempt.entry).getLast? = some (horizon, .satisfiable) →
    Ending c deadline first records (.planFound horizon plan) []
  /-- All horizons were attempted, and the last of them was refuted. -/
  | exhausted (proven : Bool) {v : Verdict} :
    records.length = c.maxHorizon - first + 1 →
    (records.map Attempt.entry).getLast? = some (c.maxHorizon, v) → v.Refutes →
    Ending c deadline first records (.horizonExhausted c.maxHorizon proven) []
  /-- The last attempt has run out of time. -/
  | gaveUp {horizon : Nat} : (records.map Attempt.entry).getLast? = some (horizon, .timedOut) →
    Ending c deadline first records (.timedOut horizon) []
  /-- The deadline had passed before the next attempt could begin. -/
  | late {time : Nat} : deadline ≤ time →
    Ending c deadline first records (.timedOut (first + records.length)) [.looked time]

/-- The course of a search that begins with a horizon. -/
structure Course (c : Config) (deadline first : Nat) (records : List Attempt) (outcome : Outcome)
    (rest : List Interaction) : Prop where
  /-- The horizons are tried in order, without gap or repetition. -/
  horizons_eq : records.map (·.horizon) = List.range' first records.length
  /-- There are no more attempts than horizons. -/
  length_le : records.length ≤ c.maxHorizon - first + 1
  /-- All attempts but the last have refuted their horizons. -/
  refuted : ∀ r ∈ records.dropLast, r.verdict.Refutes
  /-- How the search ends. -/
  ending : Ending c deadline first records outcome rest

variable {first : Nat} {outcome : Outcome} {rest : List Interaction}

/-- A refuted horizon in front of a search that begins with the next one. -/
theorem Course.cons {r : Attempt} (hr : r.horizon = first) (hrefutes : r.verdict.Refutes)
    (hlt : first < c.maxHorizon) (h : Course c deadline (first + 1) records outcome rest) :
    Course c deadline first (r :: records) outcome rest := by
  refine ⟨?_, ?_, ?_, ?_⟩
  · rw [List.map_cons, h.horizons_eq, hr, List.length_cons, List.range'_succ]
  · have := h.length_le
    rw [List.length_cons]
    omega
  · cases records with
    | nil => simp
    | cons r' others =>
      rw [List.dropLast_cons_cons]
      exact List.forall_mem_cons.mpr ⟨hrefutes, h.refuted⟩
  · have hlast : ∀ {x : Nat × Verdict}, (records.map Attempt.entry).getLast? = some x →
        ((r :: records).map Attempt.entry).getLast? = some x := by
      intro x hx
      rw [List.map_cons, List.getLast?_cons, hx]
      rfl
    cases h.ending with
    | found plan hmodel => exact .found plan (hlast hmodel)
    | exhausted proven hlength hbound hv =>
      refine .exhausted proven ?_ (hlast hbound) hv
      rw [List.length_cons]
      omega
    | gaveUp htime => exact .gaveUp (hlast htime)
    | late htime =>
      have hnumber : first + 1 + records.length = first + (r :: records).length := by
        rw [List.length_cons]
        omega
      rw [hnumber]
      exact .late htime

variable {finding : Finding} {record : Option Attempt} {w₁ w₂ : σ}

/-- A search goes on with the horizon that is to be tried next. -/
theorem searchFrom_of_trying {following : Nat}
    (htry : (tryHorizon s p c deadline horizon).run w = (.ok (finding, record), w₁))
    (hnext : c.next p.nFluents horizon finding = .trying following) :
    ((searchFrom s p c deadline horizon).run records).run w =
      ((searchFrom s p c deadline following).run (records ++ record.toList)).run w₁ := by
  rw [searchFrom_run, nextStage_run, htry]
  simp only [hnext]

/-- A search ends with the outcome of the next stage, if that has one. -/
theorem searchFrom_of_outcome? {result : Except Violation Outcome}
    (htry : (tryHorizon s p c deadline horizon).run w = (.ok (finding, record), w₁))
    (houtcome : (c.next p.nFluents horizon finding).outcome? p = some result) :
    ((searchFrom s p c deadline horizon).run records).run w =
      ((result, records ++ record.toList), w₁) := by
  rw [searchFrom_run, nextStage_run, htry]
  dsimp only
  generalize c.next p.nFluents horizon finding = stage at houtcome ⊢
  rcases stage with h | ⟨h, model⟩ | ⟨maxHorizon, proven⟩ | h <;> cases houtcome <;> rfl

/-- The search from a horizon on breaks down. -/
def Breaks (s : Surroundings (StateM σ)) (p : Problem) (c : Config) (deadline first : Nat) (w : σ) :
    Prop :=
  ∀ records, ∃ v, (((searchFrom s p c deadline first).run records).run w).1.1 = .error v

/-- The search from a horizon on passes through these episodes and ends with the outcome. -/
structure Passes (s : Surroundings (StateM σ)) (p : Problem) (c : Config) (deadline first : Nat)
    (w : σ) (episodes : List (Episode p c deadline)) (rest : List Interaction) (outcome : Outcome)
    (w' : σ) : Prop where
  /-- The records and the notes are those of the episodes. -/
  performs : ∀ records, Performs ((searchFrom s p c deadline first).run records)
    ((searchFrom s.noted p c deadline first).run records) w
    (.ok outcome, records ++ episodes.map (·.record)) w' (episodes.flatMap (·.notes) ++ rest)
  /-- The records make up the course of a search. -/
  course : Course c deadline first (episodes.map (·.record)) outcome rest

/-- A search whose deadline has passed ends at once. -/
theorem Passes.late {time : Nat} (hlate : deadline ≤ time)
    (htry : Performs (tryHorizon s p c deadline horizon) (tryHorizon s.noted p c deadline horizon) w
      (.ok (.timedOut, none)) w₁ [.looked time]) :
    Passes s p c deadline horizon w [] [.looked time] (.timedOut horizon) w₁ :=
  ⟨fun _ =>
      ⟨searchFrom_of_outcome? htry.plain rfl,
        fun log => searchFrom_of_outcome? (htry.noted log) rfl⟩,
    by simp, by simp, by simp, .late hlate⟩

variable {e : Episode p c deadline} {episodes : List (Episode p c deadline)}

/-- A search may end with an episode. -/
theorem Passes.last (hhorizon : e.record.horizon = horizon)
    (htry : Performs (tryHorizon s p c deadline horizon) (tryHorizon s.noted p c deadline horizon) w
      (.ok (finding, some e.record)) w₁ e.notes)
    (houtcome : (c.next p.nFluents horizon finding).outcome? p = some (.ok outcome))
    (hending : Ending c deadline horizon [e.record] outcome []) :
    Passes s p c deadline horizon w [e] [] outcome w₁ := by
  refine ⟨fun records => ⟨searchFrom_of_outcome? htry.plain houtcome, fun log => ?_⟩,
    by simp [hhorizon], by simp, by simp, hending⟩
  simpa using searchFrom_of_outcome? (htry.noted log) houtcome

/-- A search goes on behind an episode that has refuted its horizon. -/
theorem Passes.cons (hhorizon : e.record.horizon = horizon) (hrefutes : e.record.verdict.Refutes)
    (htry : Performs (tryHorizon s p c deadline horizon) (tryHorizon s.noted p c deadline horizon) w
      (.ok (finding, some e.record)) w₁ e.notes)
    (hnext : c.next p.nFluents horizon finding = .trying (horizon + 1))
    (hpasses : Passes s p c deadline (horizon + 1) w₁ episodes rest outcome w₂) :
    Passes s p c deadline horizon w (e :: episodes) rest outcome w₂ := by
  have hlt := (Config.next_eq_trying hnext).2
  refine ⟨fun records => ?_, hpasses.course.cons hhorizon hrefutes hlt⟩
  have hrest := hpasses.performs (records ++ [e.record])
  refine ⟨?_, fun log => ?_⟩
  · rw [searchFrom_of_trying htry.plain hnext]
    simpa using hrest.plain
  · rw [searchFrom_of_trying (htry.noted log) hnext]
    simpa using hrest.noted (log ++ e.notes)

/-- A search breaks down with the horizon it tries. -/
theorem Breaks.of_tryHorizon {v : Violation}
    (htry : ((tryHorizon s p c deadline horizon).run w).1 = .error v) :
    Breaks s p c deadline horizon w := by
  intro records
  refine ⟨v, ?_⟩
  rw [searchFrom_run, nextStage_run]
  generalize (tryHorizon s p c deadline horizon).run w = x at htry
  obtain ⟨result, w'⟩ := x
  subst htry
  rfl

/-- The search from a horizon on breaks down or has a course. -/
theorem breaks_or_exists_passes (hs : Answers s.engine) (p : Problem) (hc : c.validate = .ok ())
    (deadline : Nat) {first : Nat} (hle : first ≤ c.maxHorizon) (w : σ) :
    Breaks s p c deadline first w ∨
      ∃ episodes rest outcome w', Passes s p c deadline first w episodes rest outcome w' := by
  -- The horizons to be tried grow up to the maximal one.
  induction hn : c.maxHorizon - first using Nat.strong_induction_on generalizing first w with
  | h n ih =>
    rcases tryHorizon_performs hs p hc deadline first w with
      ⟨v, htry⟩ | ⟨time, w₁, hlate, htry⟩ | ⟨e, finding, w₁, hhorizon, hverdict, htry⟩
    · exact .inl (.of_tryHorizon htry)
    · exact .inr ⟨_, _, _, _, .late hlate htry⟩
    · have hentry : ([e.record].map Attempt.entry).getLast? = some (first, finding.verdict) := by
        simp [Attempt.entry, hhorizon, hverdict]
      have hrefuted : finding.verdict.Refutes → Breaks s p c deadline first w ∨
          ∃ episodes rest outcome w', Passes s p c deadline first w episodes rest outcome w' := by
        intro hrefutes
        have hnext : c.next p.nFluents first finding =
            if c.maxHorizon ≤ first then
              .exhausted (.bound c.maxHorizon (provesAbsence p.nFluents c.maxHorizon))
            else .trying (first + 1) := Config.next_of_refutes hrefutes
        split at hnext
        · next hmax =>
          obtain rfl : first = c.maxHorizon := Nat.le_antisymm hle hmax
          exact .inr ⟨_, _, _, _, .last hhorizon htry (by rw [hnext]; rfl)
            (.exhausted _ (by simp) hentry hrefutes)⟩
        · next hlt =>
          rcases ih _ (by omega) (show first + 1 ≤ c.maxHorizon by omega) w₁ rfl with
            hbreaks | ⟨episodes, rest, outcome, w₂, hpasses⟩
          · refine .inl fun records => ?_
            rw [searchFrom_of_trying htry.plain hnext]
            exact hbreaks _
          · exact .inr ⟨_, _, _, _, hpasses.cons hhorizon (hverdict ▸ hrefutes) htry hnext⟩
      cases finding with
      | satisfiable model =>
        have houtcome : Stage.outcome? p (c.next p.nFluents first (.satisfiable model)) =
            some (((p.layout first).decode model).map (.planFound first)) := rfl
        cases hdecode : (p.layout first).decode model with
        | error v =>
          refine .inl fun records => ⟨v, ?_⟩
          rw [searchFrom_of_outcome? htry.plain houtcome, hdecode]
          rfl
        | ok plan =>
          rw [hdecode] at houtcome
          exact .inr ⟨_, _, _, _, .last hhorizon htry houtcome (.found _ hentry)⟩
      | timedOut => exact .inr ⟨_, _, _, _, .last hhorizon htry rfl (.gaveUp hentry)⟩
      | unsatisfiable => exact hrefuted (.inl rfl)
      | contradiction => exact hrefuted (.inr rfl)

/-- The course of a run, whatever a solver that always answers says and whatever the clock shows,
and whatever records are left of an earlier one. Noting the interactions of a run that ends with an
outcome does not change it. Its records are those of episodes at the minimal horizon and the
following ones, in order; what is noted is a first look at the clock, from which the deadline is
counted, then one episode after the other, and at most a look at a clock that has reached the
deadline. Where there is room for all it needs, a run ends with an outcome. -/
theorem run_course (hp : p.Built) (hc : c.validate = .ok ()) (hs : Answers s.engine)
    (earlier : List Attempt) (w : σ) :
    (∀ outcome records w', ((run s p c).run earlier).run w = ((.ok outcome, records), w') →
      ∃ (start : Nat) (episodes : List (Episode p c (start + c.timeout))) (rest : List Interaction),
        records = episodes.map (·.record) ∧
        ((run s.noted p c).run earlier).run (w, []) = ((.ok outcome, records),
          (w', .looked start :: (episodes.flatMap (·.notes) ++ rest))) ∧
        Course c (start + c.timeout) c.minHorizon records outcome rest) ∧
    (Feasible s p c w →
      ∃ outcome records w', ((run s p c).run earlier).run w = ((.ok outcome, records), w')) := by
  refine ⟨fun outcome records w' hrun => ?_, fun hfeasible => ?_⟩
  · obtain ⟨start, w₁, hstart⟩ := now_performs s w
    have hnoted : s.noted.now.run (w, []) = (start, (w₁, [.looked start])) := hstart.noted []
    rw [run_run, hstart.plain] at hrun
    rw [run_run, hnoted]
    split at hrun
    · next hdeadline =>
      rw [if_pos hdeadline]
      rcases breaks_or_exists_passes hs p hc (start + c.timeout) (Config.min_le_max hc) w₁ with
        hbreaks | ⟨episodes, rest, outcome', w₂, hpasses⟩
      · obtain ⟨v, hv⟩ := hbreaks []
        rw [hrun] at hv
        cases hv
      · have hperforms := hpasses.performs []
        rw [hperforms.plain] at hrun
        cases hrun
        refine ⟨start, episodes, rest, rfl, ?_, hpasses.course⟩
        simpa using hperforms.noted [.looked start]
    · cases hrun
  · obtain ⟨outcome, records, w', hrun, -⟩ :=
      hfeasible.exists_outcome hs hp.wellFormed earlier
    exact ⟨outcome, records, w', hrun⟩

/-- A solver that claims a model whatever it is asked, and a clock that shows how often it was
looked at. -/
def Surroundings.hasty : Surroundings (StateM Nat) :=
  ⟨fun _ => pure (.ok (.satisfiable ⟨#[], by decide⟩)), fun n => (n, n + 1), fun _ => pure ()⟩

/-- The hasty solver is not asked about the lamp at horizon zero. At the next horizon its claim ends
the run, although no plan fits so few steps. -/
theorem run_course_hasty : ∃ (start : Nat)
    (episodes : List (Episode .lamp ⟨0, 5, 100, none⟩ (start + 100))) (w' : Nat),
      Feasible .hasty .lamp ⟨0, 5, 100, none⟩ 0 ∧
      ((run Surroundings.hasty.noted .lamp ⟨0, 5, 100, none⟩).run []).run (0, []) =
        ((.ok (.planFound 1 ⟨[]⟩), episodes.map (·.record)),
          (w', .looked start :: episodes.flatMap (·.notes))) ∧
      (episodes.map (·.record)).map Attempt.entry = [(0, .contradiction), (1, .satisfiable)] := by
  have hvalue : ((run .hasty .lamp ⟨0, 5, 100, none⟩).run []).run 0 = ((.ok (.planFound 1 ⟨[]⟩),
      [⟨0, 3, 4, 1, 1, .contradiction⟩, ⟨1, 8, 15, 1, 1, .satisfiable⟩]), 11) := by
    cbv
  obtain ⟨hcourse, -⟩ :=
    run_course Problem.lamp_built (c := ⟨0, 5, 100, none⟩) rfl (s := .hasty)
      (fun _ _ => ⟨_, rfl⟩) [] 0
  obtain ⟨start, episodes, rest, hrecords, hnoted, hcourse⟩ := hcourse _ _ _ hvalue
  have hentries := congrArg (List.map Attempt.entry) hrecords
  cases hcourse.ending with
  | found _ _ =>
    exact ⟨start, episodes, 11, feasible_of_maxHorizon (by decide) (by decide)
      (by decide) (by decide),
      by rw [← hrecords]; simpa using hnoted, hentries.symm⟩

/-- A search that tries the largest word only comes to no outcome, and neither does one whose
deadline the clock cannot show. -/
theorem run_hasty_breaks :
    litLamp.Built ∧ largestOnly.validate = .ok () ∧
      Config.validate ⟨0, 0, endOfTime, none⟩ = .ok () ∧
      Answers Surroundings.hasty.engine ∧
      (((run .hasty litLamp ⟨18446744073709551615, 18446744073709551615, 2, none⟩).run []).run
        0).1 =
        (.error (.overflow .addition), []) ∧
      (((run .hasty litLamp ⟨0, 0, endOfTime, none⟩).run []).run 0).1 =
        (.error .unreachableDeadline, []) := by
  refine ⟨⟨_, _, rfl⟩, rfl, by decide, fun _ _ => ⟨_, rfl⟩, ?_, ?_⟩
  · exact run_of_encode (c := ⟨18446744073709551615, 18446744073709551615, 2, none⟩) encode_litLamp
      (by decide)
      (by decide) []
  · rw [run_run, if_neg (by decide)]

end HorizonPlanner.Search
