import HorizonPlanner.StandIn.Learning.Conflict

/-!
# Forgetting

The more clauses a solver has learnt, the longer it takes to draw consequences. Now and then it
forgets half of them: those that were spread among many choices, and the older ones of those that
were spread among equally many. A clause spread among two choices is never forgotten.
-/

namespace HorizonPlanner.StandIn.Learning

/-- The learnt clauses that are kept. -/
def Solver.lessonsKept (s : Solver) : Array Nat :=
  let lessons := (Array.range s.clauses.size).filter fun i => s.spreads.getD i 0 ≠ 0
  let spread (i : Nat) : Nat := s.spreads.getD i 0
  let ordered := lessons.qsort fun i j => spread i < spread j || (spread i == spread j && j < i)
  let half := ordered.size / 2
  ordered.take half ++ (ordered.drop half).filter fun i => spread i ≤ 2

/-- Forgets learnt clauses. No choice may have been made, and all consequences must have been
drawn. -/
def Solver.forget (s : Solver) : Solver :=
  let given := (Array.range s.clauses.size).filter fun i => s.spreads.getD i 0 = 0
  let kept := given ++ s.lessonsKept.qsortOrd
  let bare : Solver := { s with
    clauses := #[]
    spreads := #[]
    watchers := Array.replicate s.watchers.size #[] }
  kept.foldl (fun t i => t.add (s.clauses.getD i #[]) (s.spreads.getD i 0)) bare

end HorizonPlanner.StandIn.Learning
