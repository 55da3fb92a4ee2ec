import HorizonPlanner.Proofs.Search.Runs
import Mathlib.Order.Bounds.Basic

/-!
# Correctness of the search

With a sound solver a search has good reason for whatever it does: when it tries a horizon, no plan
fits a smaller one, as far as it has looked. This is preserved from stage to stage, and makes the
outcome right: the plan found fits its horizon and no smaller one that was tried, and a search that
gives up at the maximal horizon has excluded all plans up to it.
-/

namespace HorizonPlanner.Search

open HorizonPlanner.Sat

variable {σ : Type}

/-- The search has come to this horizon, and has excluded plans for the one before. -/
structure Config.Reached (c : Config) (p : Problem) (horizon : Nat) : Prop where
  /-- The horizon is not below the minimal one. -/
  min_le : c.minHorizon ≤ horizon
  /-- The horizon is not above the maximal one. -/
  le_max : horizon ≤ c.maxHorizon
  /-- No plan fits the horizon before, if that was tried. -/
  excluded : c.minHorizon < horizon → ¬ p.SolvableWithin (horizon - 1)

/-- What a stage of a search says about the plans of the problem. -/
def Stage.Correct (p : Problem) (c : Config) : Stage → Prop
  | .trying horizon => c.Reached p horizon
  | .satisfiable horizon model =>
    c.Reached p horizon ∧
      ∀ plan, (p.layout horizon).decode model = .ok plan → plan.Fits p horizon
  | .exhausted (.bound maxHorizon _) => ¬ p.SolvableWithin maxHorizon
  | .exhausted (.timeout horizon) => c.Reached p horizon

/-- What the outcome of a search says about the plans of the problem. -/
def Outcome.Correct (p : Problem) (c : Config) : Outcome → Prop
  | .planFound horizon plan => c.Reached p horizon ∧ plan.Fits p horizon
  | .horizonExhausted maxHorizon _ => ¬ p.SolvableWithin maxHorizon
  | .timedOut horizon => c.Reached p horizon

/-- The clock has not reached the deadline whenever the search that starts in these surroundings
looks at it before it tries a horizon. -/
def InTime (s : Surroundings (StateM σ)) (p : Problem) (c : Config) (w : σ) : Prop :=
  ∀ horizon records w',
    Reachable s p c ((s.now.run w).1 + c.timeout) (s.now.run w).2 (.trying horizon) records w' →
      (s.now.run w').1 < (s.now.run w).1 + c.timeout

variable {s : Surroundings (StateM σ)} {p : Problem} {c : Config} {deadline : Nat} {w₀ w : σ}
  {records : List Attempt} {stage : Stage}

/-- A right finding leads from a horizon to a stage that is right. -/
theorem Config.Reached.next {horizon : Nat} {finding : Finding} (h : c.Reached p horizon)
    (hright : finding.RightFor p horizon) : (c.next p.nFluents horizon finding).Correct p c := by
  have hrefuted : ¬ p.SolvableWithin horizon →
      Stage.Correct p c (c.next p.nFluents horizon .unsatisfiable) := by
    intro hnone
    simp only [Config.next]
    split
    · next hle =>
      obtain rfl : horizon = c.maxHorizon := Nat.le_antisymm h.le_max hle
      exact hnone
    · next hlt => exact ⟨Nat.le_succ_of_le h.min_le, Nat.lt_of_not_le hlt, fun _ => hnone⟩
  cases finding with
  | satisfiable model => exact ⟨h, hright⟩
  | unsatisfiable => exact hrefuted hright
  | contradiction => exact hrefuted hright
  | timedOut => exact h

/-- All stages that a search with a sound solver reaches are right. -/
theorem Reachable.correct (hs : SoundEngine s.engine) (hp : p.WellFormed)
    (hc : c.minHorizon ≤ c.maxHorizon) (h : Reachable s p c deadline w₀ stage records w)
    (hfit : ∀ r ∈ records, r.nVars < Word.half) : stage.Correct p c := by
  induction h with
  | start => exact ⟨le_rfl, hc, fun hlt => absurd hlt (Nat.lt_irrefl _)⟩
  | next _ hnext ih =>
    obtain ⟨horizon, rfl, ⟨-, rfl, rfl⟩ | ⟨-, finding, record, hattempted, rfl, rfl⟩⟩ :=
      nextStage_cases hs.answers hnext
    · exact ih hfit
    · have hreached : c.Reached p horizon := ih fun r hr => hfit r (List.mem_append_left _ hr)
      exact hreached.next (hattempted.rightFor hs hp (hfit record (by simp)))

/-- With a solver that always knows and a clock that never reaches the deadline, time is never
over. -/
theorem Reachable.ne_timeout (hs : Answers s.engine)
    (hknows : ∀ i w, ((s.engine i).run w).1 ≠ .ok .unknown)
    (htime : ∀ horizon records w, Reachable s p c deadline w₀ (.trying horizon) records w →
      (s.now.run w).1 < deadline)
    (h : Reachable s p c deadline w₀ stage records w) (horizon : Nat) :
    stage ≠ .exhausted (.timeout horizon) := by
  cases h with
  | start => simp
  | next hreach hnext =>
    obtain ⟨tried, rfl, ⟨hlate, -, -⟩ | ⟨-, finding, record, hattempted, rfl, -⟩⟩ :=
      nextStage_cases hs hnext
    · exact absurd (htime _ _ _ hreach) (Nat.not_lt_of_le hlate)
    · have hne := hattempted.ne_timedOut hs hknows
      cases finding with
      | timedOut => exact absurd rfl hne
      | satisfiable model => simp [Config.next]
      | unsatisfiable =>
        simp only [Config.next]
        split <;> simp
      | contradiction =>
        simp only [Config.next]
        split <;> simp

/-- The last stage of a search gives an outcome that is right if the stage is. -/
theorem Stage.correct_of_outcome? {outcome : Outcome} (h : stage.outcome? p = some (.ok outcome)) :
    (stage.Correct p c → outcome.Correct p c) ∧
      (∀ horizon, outcome = .timedOut horizon → stage = .exhausted (.timeout horizon)) ∧
        ∀ maxHorizon proven, outcome = .horizonExhausted maxHorizon proven →
          stage = .exhausted (.bound maxHorizon proven) := by
  cases stage with
  | trying horizon => cases h
  | satisfiable horizon model =>
    rw [outcome?, Option.some.injEq] at h
    cases hdecode : (p.layout horizon).decode model with
    | error v =>
      rw [hdecode] at h
      cases h
    | ok plan =>
      rw [hdecode] at h
      cases h
      exact ⟨fun hcorrect => ⟨hcorrect.1, hcorrect.2 plan hdecode⟩, fun _ h => (by cases h),
        fun _ _ h => (by cases h)⟩
  | exhausted why =>
    cases why with
    | bound maxHorizon proven =>
      cases h
      exact ⟨id, fun _ h => (by cases h), fun _ _ h => (by cases h; rfl)⟩
    | timeout horizon =>
      cases h
      exact ⟨id, fun _ h => (by cases h; rfl), fun _ _ h => (by cases h)⟩

/-- Sensible parameters have a range of horizons. -/
theorem Config.min_le_max (hc : c.validate = .ok ()) : c.minHorizon ≤ c.maxHorizon := by
  unfold Config.validate at hc
  split at hc
  · cases hc
  · next hle => exact Nat.le_of_not_lt hle

/-- What is known about a run that ends with an outcome. -/
structure Explained (s : Surroundings (StateM σ)) (p : Problem) (c : Config) (w : σ)
    (outcome : Outcome) (records : List Attempt) : Prop where
  /-- The outcome is right, as long as the variables of all formulas fit into words. -/
  correct : (∀ r ∈ records, r.nVars < Word.half) → outcome.Correct p c
  /-- Time is over only if the solver does not know or the clock reaches the deadline. -/
  ne_timedOut : (∀ i w, ((s.engine i).run w).1 ≠ .ok .unknown) → InTime s p c w →
    ∀ horizon, outcome ≠ .timedOut horizon
  /-- The maximal horizon is given, and whether its bound excludes all plans. -/
  bound_eq : ∀ maxHorizon proven, outcome = .horizonExhausted maxHorizon proven →
    maxHorizon = c.maxHorizon ∧ proven = provesAbsence p.nFluents c.maxHorizon

/-- The outcome of every run with a sound solver is explained. -/
theorem explained_of_run (hs : SoundEngine s.engine) (hp : p.WellFormed) (hc : c.validate = .ok ())
    {earlier : List Attempt} {outcome : Outcome} {w' : σ}
    (h : ((run s p c).run earlier).run w = ((.ok outcome, records), w')) :
    Explained s p c w outcome records := by
  obtain ⟨last, w₁, hreach, houtcome⟩ := exists_reachable_of_run hs.answers h
  obtain ⟨hcorrect, htimeout, hbound⟩ := Stage.correct_of_outcome? (c := c) houtcome
  refine ⟨fun hfit => ?_, fun hknows htime horizon h => ?_, fun maxHorizon proven h => ?_⟩
  · exact hcorrect (hreach.correct hs hp (Config.min_le_max hc) hfit)
  · exact hreach.ne_timeout hs.answers hknows htime horizon (htimeout horizon h)
  · rw [hbound maxHorizon proven h] at hreach
    exact hreach.bound_eq

/-- If the solver always knows and time is never over, a plan is found exactly when one fits the
maximal horizon. -/
theorem Explained.planFound_iff {outcome : Outcome} (h : Explained s p c w outcome records)
    (hfit : ∀ r ∈ records, r.nVars < Word.half)
    (hknows : ∀ i w, ((s.engine i).run w).1 ≠ .ok .unknown) (htime : InTime s p c w) :
    (∃ horizon plan, outcome = .planFound horizon plan) ↔ p.SolvableWithin c.maxHorizon := by
  have hcorrect := h.correct hfit
  constructor
  · rintro ⟨horizon, plan, rfl⟩
    exact ⟨plan, hcorrect.2.mono hcorrect.1.le_max⟩
  · intro hsolvable
    cases outcome with
    | planFound horizon plan => exact ⟨horizon, plan, rfl⟩
    | horizonExhausted maxHorizon proven =>
      obtain ⟨rfl, -⟩ := h.bound_eq _ _ rfl
      exact absurd hsolvable hcorrect
    | timedOut horizon => exact absurd rfl (h.ne_timedOut hknows htime horizon)

/-- The horizon of a plan that was found is the smallest one that has a plan, or the minimal one. -/
theorem Config.Reached.isLeast {horizon : Nat} (h : c.Reached p horizon)
    (hsolvable : p.SolvableWithin horizon) :
    ∃ k, IsLeast {k | p.SolvableWithin k} k ∧ horizon = max c.minHorizon k := by
  classical
  have hexists : ∃ k, p.SolvableWithin k := ⟨horizon, hsolvable⟩
  refine ⟨Nat.find hexists, ⟨Nat.find_spec hexists, fun k hk => Nat.find_min' hexists hk⟩, ?_⟩
  have hle : Nat.find hexists ≤ horizon := Nat.find_min' hexists hsolvable
  have hmin := h.min_le
  by_cases hlt : c.minHorizon < horizon
  · -- No plan fits the horizon before, so the smallest one is this one.
    have hge : horizon ≤ Nat.find hexists := by
      by_contra hlt'
      exact h.excluded hlt ((Nat.find_spec hexists).mono (by omega))
    omega
  · omega

/-- There is room for a search of few horizons for the lamp. -/
theorem feasible_lamp : Feasible .ideal .lamp ⟨0, 7, 1, none⟩ () :=
  feasible_of_maxHorizon (by decide) (by decide) (by decide) (by decide)

/-- A lamp that is lit and has to be lit. -/
def litLamp : Problem :=
  .afterEdits (.ofList ["lit"]) [.initiallyTrue "lit", .goal "lit" true]

/-- Nothing has to be done for the lamp that is lit. -/
theorem fits_litLamp (horizon : Nat) : Plan.Fits ⟨[]⟩ litLamp horizon :=
  ⟨⟨[], rfl⟩, ⟨#[true], rfl⟩, by simp⟩

/-- The parameters of a search that tries the largest word only. -/
def largestOnly : Config :=
  ⟨18446744073709551615, 18446744073709551615, 1, none⟩

/-- At the largest word there is no variable for the goal. -/
theorem encode_litLamp :
    (litLamp.layout 18446744073709551615).encode litLamp = .error (.overflow .addition) := by
  have hlayout : litLamp.layout 18446744073709551615 = ⟨1, 0, 18446744073709551615⟩ := by rfl
  have hinitial : Encoding.initialConstraints litLamp = [.always ⟨.fluent 0 0, true⟩] := by decide
  have hgoal : Encoding.goalConstraints litLamp 18446744073709551615 =
      [.always ⟨.fluent 0 18446744073709551615, true⟩] := by decide
  rw [Encoding.Layout.encode, hlayout, hinitial, hgoal]
  rfl

end HorizonPlanner.Search
