import Mathlib
import HorizonPlanner.Proofs.Sat.Competition
import HorizonPlanner.Proofs.Search.Attempts

/-!
# Calls of a program

A set of clauses crosses to a program as a text, and its answer comes back as another. With a
competition solver nothing is lost on the way.
-/

namespace HorizonPlanner.Search

open HorizonPlanner.Sat

variable {σ : Type} {program : Program σ}

/-- The call of a program breaks down where there is no room for the values of all variables,
whatever the program prints. -/
theorem engine_run_of_half_le (program : Program σ) {i : Instance} (h : Word.half ≤ i.nVars)
    (w : σ) :
    ((program.engine i).run w).1 = .error .noRoom :=
  AnswerText.read_eq_noRoom_iff.mpr h

/-- A call of a competition solver about a set of clauses ends with a finding if the set is visibly
contradictory or if there is room for the values of its variables, and the finding is right: a model
of all clauses and of all variables if there is one, and otherwise a contradiction if one is visible
and a refutation if not. In all other cases the call breaks down. -/
theorem exists_solve_eq_ok (hprogram : program.Competes) (cs : List Clause)
    (nVars limit : Nat) (w : σ) :
    ((ClauseSet.ofList cs).contradictory = true ∨
        max nVars (Instance.largestVariable (ClauseSet.ofList cs).toList) < Word.half →
      ∃ finding, ((solve program.engine (.ofList cs) nVars limit).run w).1 = .ok finding ∧
        ((∃ a, finding = .satisfiable a) ↔
          ∃ a : Assignment, a.satisfiesAll (ClauseSet.ofList cs).toList = true) ∧
        (∀ a, finding = .satisfiable a →
          a.size = max nVars (Instance.largestVariable (ClauseSet.ofList cs).toList) ∧
            a.satisfiesAll (ClauseSet.ofList cs).toList = true) ∧
        ((¬ ∃ a : Assignment, a.satisfiesAll (ClauseSet.ofList cs).toList = true) →
          finding =
            if (ClauseSet.ofList cs).contradictory then .contradiction else .unsatisfiable)) ∧
    ((ClauseSet.ofList cs).contradictory = false →
      Word.half ≤ max nVars (Instance.largestVariable (ClauseSet.ofList cs).toList) →
      ((solve program.engine (.ofList cs) nVars limit).run w).1 = .error .noRoom) := by
  have hwf := (ClauseSet.represents_ofList cs).wellFormed
  generalize ClauseSet.ofList cs = clauses at hwf ⊢
  rw [solve_run, instanceOf_eq]
  by_cases hcontradictory : clauses.contradictory = true
  · have hnone : ¬ ∃ a : Assignment, a.satisfiesAll clauses.toList = true := fun ⟨a, ha⟩ =>
      hwf.not_holds_of_contradictory hcontradictory (Assignment.holds_of_satisfiesAll ha)
    refine ⟨fun _ => ⟨.contradiction, by rw [if_pos hcontradictory], by simpa using hnone,
      nofun, fun _ => ?_⟩,
      fun hvisible => ?_⟩
    · rw [if_pos hcontradictory]
    · rw [hcontradictory] at hvisible
      cases hvisible
  · rw [if_neg hcontradictory, if_neg hcontradictory]
    have hbreaks : Word.half ≤ max nVars (Instance.largestVariable clauses.toList) →
        ((program.engine ⟨clauses.clauses, nVars, some limit⟩).run w).1 = .error .noRoom :=
      fun hlarge => engine_run_of_half_le program (i := ⟨clauses.clauses, nVars, some limit⟩)
        hlarge w
    refine ⟨fun hroom => ?_, fun _ hlarge => by rw [hbreaks hlarge]; rfl⟩
    have hwords := hroom.resolve_left hcontradictory
    rcases hprogram.engine_run (i := ⟨clauses.clauses, nVars, some limit⟩) hwords w with
      ⟨a, htotal, ha, hrun⟩ | ⟨hnone, hrun⟩
    · rw [hrun]
      refine ⟨.satisfiable a, rfl, ⟨fun _ => ⟨a, ha⟩, fun _ => ⟨a, rfl⟩⟩,
        ?_, fun h => absurd ⟨a, ha⟩ h⟩
      rintro _ ⟨rfl⟩
      exact ⟨htotal.1, ha⟩
    · have hnone' : ¬ ∃ a : Assignment, a.satisfiesAll clauses.toList = true := fun ⟨a, ha⟩ =>
        hnone (Assignment.exists_total_of_satisfiesAll hwords (fun c hc l hl =>
          (Instance.number_le_largestVariable hc hl).trans (Nat.le_max_right _ _)) ha)
      rw [hrun]
      exact ⟨.unsatisfiable, rfl, by simpa using hnone', nofun, fun _ => rfl⟩

/-- Two clauses that leave no choice for their variables. -/
def forcing : List Clause :=
  [[⟨⟨1, by decide⟩, true⟩, ⟨⟨2, by decide⟩, true⟩], [⟨⟨1, by decide⟩, false⟩]]

/-- The clauses of two literals on two variables. Whatever the values are, one of them is false. -/
def excluding : List Clause :=
  [[⟨⟨1, by decide⟩, true⟩, ⟨⟨2, by decide⟩, true⟩],
    [⟨⟨1, by decide⟩, true⟩, ⟨⟨2, by decide⟩, false⟩],
    [⟨⟨1, by decide⟩, false⟩, ⟨⟨2, by decide⟩, true⟩],
      [⟨⟨1, by decide⟩, false⟩, ⟨⟨2, by decide⟩, false⟩]]

private theorem not_holds_excluding {v : Valuation} : ¬ ∀ c ∈ excluding, c.Holds v := by
  simp only [excluding, List.forall_mem_cons]
  simp only [Clause.Holds, Literal.Holds, List.mem_cons, List.not_mem_nil, or_false,
    exists_eq_or_imp, exists_eq_left]
  grind

private theorem toList_forcing : (ClauseSet.ofList forcing).toList = forcing := by cbv

private theorem toList_excluding : (ClauseSet.ofList excluding).toList = excluding := by cbv

private theorem contradictory_excluding :
    (ClauseSet.ofList excluding).contradictory = false := by cbv

/-- The ideal program finds a model over all four variables it is told of, and a refutation where
there is no visible contradiction. -/
theorem exists_solve_eq_ok_ideal :
    (∃ a, ((solve Program.ideal.engine (.ofList forcing) 4 5).run ()).1 = .ok (.satisfiable a) ∧
        a.size = 4) ∧
      ((solve Program.ideal.engine (.ofList excluding) 2 5).run ()).1 = .ok .unsatisfiable := by
  constructor
  · obtain ⟨finding, hsolve, hiff, hmodel, -⟩ :=
      (exists_solve_eq_ok Program.competes_ideal forcing 4 5 ()).1
        (.inr (by rw [toList_forcing]; decide))
    have hsatisfiable : ∃ a : Assignment, a.satisfiesAll (ClauseSet.ofList forcing).toList = true :=
      ⟨⟨#[some false, some true], by decide⟩, by rw [toList_forcing]; decide⟩
    obtain ⟨a, rfl⟩ := hiff.mpr hsatisfiable
    refine ⟨a, hsolve, ?_⟩
    rw [(hmodel a rfl).1, toList_forcing]
    decide
  · obtain ⟨finding, hsolve, -, -, hnone⟩ :=
      (exists_solve_eq_ok Program.competes_ideal excluding 2 5 ()).1
        (.inr (by rw [toList_excluding]; decide))
    have hunsatisfiable :
        ¬ ∃ a : Assignment, a.satisfiesAll (ClauseSet.ofList excluding).toList = true := by
      rintro ⟨a, ha⟩
      rw [toList_excluding] at ha
      exact not_holds_excluding (Assignment.holds_of_satisfiesAll ha)
    rw [hsolve, hnone hunsatisfiable, contradictory_excluding]
    rfl

/-- A competition solver would refute the clauses, but if all words are reserved for variables the
call breaks down. -/
theorem solve_excluding_eq_error :
    Program.ideal.Competes ∧ (ClauseSet.ofList excluding).contradictory = false ∧
      (¬ ∃ a : Assignment, a.satisfiesAll (ClauseSet.ofList excluding).toList = true) ∧
      ((solve Program.ideal.engine (.ofList excluding) 18446744073709551615 5).run ()).1 =
        .error .noRoom := by
  refine ⟨Program.competes_ideal, contradictory_excluding, ?_, ?_⟩
  · rintro ⟨a, ha⟩
    rw [toList_excluding] at ha
    exact not_holds_excluding (Assignment.holds_of_satisfiesAll ha)
  · rw [solve_run, contradictory_excluding, instanceOf_eq]
    simp only [Bool.false_eq_true, if_false]
    rw [engine_run_of_half_le Program.ideal (le_max_of_le_left (by decide))]
    rfl

end HorizonPlanner.Search
