import HorizonPlanner.Proofs.Encoding.Contradictions
import HorizonPlanner.Proofs.Search.Course

/-!
# The questions of an attempt

An attempt asks the solver unless the formula is visibly contradictory. This is so at horizon zero
only, and there it tells all that a solver could.
-/

namespace HorizonPlanner.Search

open HorizonPlanner.Sat

variable {σ : Type}

/-- The question to a solver and the answer, if the interaction is one. -/
def Interaction.question? : Interaction → Option (Instance × Except Violation Answer)
  | .asked question answer => some (question, answer)
  | .looked _ | .told _ => none

variable {p : Problem} {horizon limit : Nat} {clauses : ClauseSet}

/-- The questions of an attempt are those of the call of the solver. -/
theorem attempt_performs_questions (s : Surroundings (StateM σ))
    (hencode : (p.layout horizon).encode p = .ok clauses) (hcounted : (p.layout horizon).Counted)
    (limit : Nat) (w : σ) :
    ∃ w₁, ∀ result w₂ calls,
      Performs (solve s.engine clauses (p.layout horizon).nVars limit)
        (solve s.noted.engine clauses (p.layout horizon).nVars limit) w₁ result w₂ calls →
      ∃ result' w' notes,
        Performs (attempt s p horizon limit) (attempt s.noted p horizon limit) w result' w' notes ∧
          notes.filterMap Interaction.question? = calls.filterMap Interaction.question? := by
  obtain ⟨start, encoded, called, w₁, hperforms⟩ := attempt_performs s hencode hcounted limit w
  refine ⟨w₁, fun result w₂ calls hsolve => ?_⟩
  have hattempt := hperforms result w₂ calls hsolve
  cases result with
  | error v => exact ⟨_, _, _, hattempt, rfl⟩
  | ok finding =>
    obtain ⟨solved, record, w₃, -, hattempt⟩ := hattempt
    refine ⟨_, _, _, hattempt, ?_⟩
    show List.filterMap Interaction.question? (calls ++ [.looked solved, .told (.tried record)]) = _
    rw [List.filterMap_append]
    exact List.append_nil _

/-- An attempt at a formula without a visible contradiction asks one question, about the formula. -/
theorem exists_attempt_performs_asked (s : Surroundings (StateM σ))
    (hencode : (p.layout horizon).encode p = .ok clauses) (hcounted : (p.layout horizon).Counted)
    (hclauses : clauses.contradictory = false) (limit : Nat) (w : σ) :
    ∃ result w' notes answer,
      Performs (attempt s p horizon limit) (attempt s.noted p horizon limit) w result w' notes ∧
        notes.filterMap Interaction.question? =
          [(⟨clauses.clauses, (p.layout horizon).nVars, some limit⟩, answer)] := by
  obtain ⟨w₁, hperforms⟩ := attempt_performs_questions s hencode hcounted limit w
  rcases solve_performs s clauses (p.layout horizon).nVars limit w₁ with
    ⟨hcontradictory, -⟩ | ⟨-, answer, w₂, -, hsolve⟩
  · rw [hclauses] at hcontradictory
    cases hcontradictory
  · obtain ⟨result, w', notes, hattempt, hquestions⟩ := hperforms _ _ _ hsolve
    exact ⟨result, w', notes, answer, hattempt, by rw [hquestions]; rfl⟩

end HorizonPlanner.Search
