import HorizonPlanner.Proofs.Sat.Assignments
import HorizonPlanner.Proofs.Sat.Dimacs
import HorizonPlanner.Sat.Embedded
import Mathlib.Data.List.Sections

/-!
# Clauses narrowed to words

The embedded solver hands its clauses to a library as words. A clause with a literal that is
narrowed to zero is taken for several ones, and other literals may be taken for those of smaller
variables. What the solver answers is right about the clauses that the library reads; these are the
clauses that were added exactly when all literals are words.
-/

namespace HorizonPlanner.Sat

/-- A call of a solver before it is asked for an answer. -/
inductive Call
  /-- Adds a clause. -/
  | addClause (c : Clause)
  /-- Makes at least this number of variables known. -/
  | reserve (n : Nat)
  deriving DecidableEq, Repr

namespace Call

/-- The clause a call adds, if any. -/
def clause? : Call → Option Clause
  | .addClause c => some c
  | .reserve _ => none

/-- The call is about the first `n` variables only. -/
def Within (n : Nat) : Call → Prop
  | .addClause c => ∀ l ∈ c, l.var.number ≤ n
  | .reserve m => m ≤ n

end Call

/-- The clauses that are added, in order. -/
def addedClauses (calls : List Call) : List Clause :=
  calls.filterMap Call.clause?

namespace Instance

/-- Carries out a call. -/
def perform (i : Instance) : Call → Instance
  | .addClause c => i.addClause c
  | .reserve n => i.reserve n

/-- The instance after these calls, one after the other. -/
def afterCalls (calls : List Call) : Instance :=
  calls.foldl perform empty

variable {calls : List Call} {n : Nat}

/-- Calls put their clauses behind those of an instance and raise the reserved number of
variables. -/
theorem foldl_perform (i : Instance) (calls : List Call) :
    (calls.foldl perform i).clauses.toList = i.clauses.toList ++ addedClauses calls ∧
      ∀ n, (calls.foldl perform i).reserved ≤ n ↔ i.reserved ≤ n ∧ ∀ m, .reserve m ∈ calls →
        m ≤ n := by
  induction calls generalizing i with
  | nil => simp [addedClauses]
  | cons call calls ih =>
    obtain ⟨hclauses, hreserved⟩ := ih (i.perform call)
    rw [List.foldl_cons, hclauses]
    simp only [hreserved]
    cases call with
    | addClause c => simp [perform, addClause, addedClauses, Call.clause?]
    | reserve m =>
      have hadded : addedClauses (.reserve m :: calls) = addedClauses calls :=
        List.filterMap_cons_none rfl
      refine ⟨by rw [hadded]; rfl, fun n => ?_⟩
      have hmax : (i.perform (.reserve m)).reserved ≤ n ↔ i.reserved ≤ n ∧ m ≤ n := Nat.max_le
      rw [hmax, and_assoc]
      simp

/-- The clauses after some calls are those that were added, in order. -/
theorem clauses_afterCalls (calls : List Call) :
    (afterCalls calls).clauses.toList = addedClauses calls := by
  rw [afterCalls, (foldl_perform empty calls).1]
  rfl

/-- The number of known variables is the least one within which all calls are. -/
theorem nVars_afterCalls_le_iff : (afterCalls calls).nVars ≤ n ↔ ∀ call ∈ calls, call.Within n := by
  have hreserved := (foldl_perform empty calls).2 n
  rw [nVars, Nat.max_le, afterCalls, hreserved, ← afterCalls, clauses_afterCalls,
    largestVariable_le_iff]
  constructor
  · rintro ⟨⟨-, hreserved⟩, hadded⟩ call hcall
    cases call with
    | addClause c => exact hadded c (List.mem_filterMap.mpr ⟨_, hcall, rfl⟩)
    | reserve m => exact hreserved m hcall
  · intro h
    refine ⟨⟨n.zero_le, fun m hm => h _ hm⟩, fun c hc => ?_⟩
    obtain ⟨call, hcall, hclause⟩ := List.mem_filterMap.mp hc
    cases call with
    | addClause d =>
      cases hclause
      exact h _ hcall
    | reserve m => cases hclause

end Instance

namespace Embedded

/-! ### What the library reads -/

/-- The clauses which the words of a clause are read as. A literal that is narrowed to zero closes
one of them. -/
def pieces : Clause → List Clause
  | [] => [[]]
  | l :: rest =>
    if h : narrow l = 0 then [] :: pieces rest
    else (pieces rest).modifyHead (Literal.ofNonzero (narrow l) h :: ·)

/-- The literal is a signed word. -/
def IsWord (l : Literal) : Prop :=
  -(halfOfWords : Int) ≤ l.toInt ∧ l.toInt < halfOfWords

/-- All variables of the clauses fit into words, and so do both of their literals. -/
def FitWords (cs : List Clause) : Prop :=
  ∀ c ∈ cs, ∀ l ∈ c, l.var.number < halfOfWords

variable {c : Clause} {l : Literal} {cs : List Clause} {i : Instance}

private theorem narrow_bounds (l : Literal) :
    -(halfOfWords : Int) ≤ narrow l ∧ narrow l < halfOfWords := by
  have hwords : Nat.pow 2 32 = 2 * halfOfWords := by decide
  have hpos : 0 < 2 * halfOfWords := by decide
  have hle := Int.le_bmod (x := l.toInt) hpos
  have hlt := Int.bmod_lt (x := l.toInt) hpos
  rw [narrow_eq_bmod, hwords]
  omega

/-- Narrowing keeps the words as they are, and only these. -/
theorem narrow_eq_toInt_iff : narrow l = l.toInt ↔ IsWord l := by
  constructor
  · intro h
    rw [IsWord, ← h]
    exact narrow_bounds l
  · rintro ⟨hle, hlt⟩
    have hwords : Nat.pow 2 32 = 2 * halfOfWords := by decide
    rw [narrow_eq_bmod, hwords]
    exact Int.bmod_eq_of_le (by omega) (by omega)

private theorem isWord_of_lt (h : l.var.number < halfOfWords) : IsWord l := by
  unfold IsWord Literal.toInt
  split <;> omega

private theorem pieces_ne_nil (c : Clause) : pieces c ≠ [] := by
  cases c with
  | nil => simp [pieces]
  | cons l c =>
    rw [pieces]
    split <;> simp [pieces_ne_nil c]

/-- The literals of a clause are read as they are exactly when they are words. -/
theorem pieces_eq_singleton_iff : pieces c = [c] ↔ ∀ l ∈ c, IsWord l := by
  induction c with
  | nil => simp [pieces]
  | cons l c ih =>
    rw [List.forall_mem_cons, ← ih, ← narrow_eq_toInt_iff, pieces]
    split
    · next hzero =>
      have hne : narrow l ≠ l.toInt := fun h => l.toInt_ne_zero (h ▸ hzero)
      simp [hne]
    · next hne =>
      have hliteral : Literal.ofNonzero (narrow l) hne = l ↔ narrow l = l.toInt := by
        constructor
        · intro h
          rw [← Literal.toInt_ofNonzero hne, h]
        · intro h
          simp only [h, Literal.ofNonzero_toInt]
      cases hpieces : pieces c with
      | nil => exact absurd hpieces (pieces_ne_nil c)
      | cons d ds => simp [hliteral, and_assoc]

/-- The words of a clause are read as its pieces, the first of which continues the clause under
way. -/
theorem clausesFrom_wordsOf (complete : Array Clause) (current : List Literal)
    (c : Clause) (rest : List Int) :
    clausesFrom complete current (wordsOf c ++ rest) =
      clausesFrom (complete ++ ((pieces c).modifyHead (current.reverse ++ ·)).toArray) [] rest := by
  induction c generalizing complete current with
  | nil => simp [wordsOf, pieces, clausesFrom]
  | cons l c ih =>
    have hwords : wordsOf (l :: c) ++ rest = narrow l :: (wordsOf c ++ rest) := rfl
    rw [hwords, clausesFrom, pieces]
    split
    · rw [ih]
      cases pieces c <;> simp
    · rw [ih]
      cases pieces c <;> simp

/-- The library reads the pieces of the clauses. -/
theorem seenClauses_eq (i : Instance) : seenClauses i = i.clauses.toList.flatMap pieces := by
  have hread : ∀ (cs : List Clause) (complete : Array Clause),
      (clausesFrom complete [] (cs.flatMap wordsOf)).toList = complete.toList ++
        cs.flatMap pieces := fun cs => by
    induction cs with
    | nil => simp [clausesFrom]
    | cons c cs ih =>
      intro complete
      rw [List.flatMap_cons, clausesFrom_wordsOf, ih, List.flatMap_cons]
      cases pieces c <;> simp
  simpa [seenClauses] using hread i.clauses.toList #[]

private theorem length_le_length_flatMap_pieces (cs : List Clause) :
    cs.length ≤ (cs.flatMap pieces).length := by
  induction cs with
  | nil => simp
  | cons c cs ih =>
    have hpos : 0 < (pieces c).length := List.length_pos_of_ne_nil (pieces_ne_nil c)
    rw [List.flatMap_cons, List.length_append, List.length_cons]
    omega

/-- Clauses are read as they are exactly when all their literals are words. -/
theorem flatMap_pieces_eq_self_iff : cs.flatMap pieces = cs ↔ ∀ c ∈ cs, ∀ l ∈ c, IsWord l := by
  induction cs with
  | nil => simp
  | cons c cs ih =>
    rw [List.flatMap_cons, List.forall_mem_cons, ← ih, ← pieces_eq_singleton_iff]
    constructor
    · intro h
      -- No clause is read as several ones, since there are no more clauses afterwards than before.
      cases hpieces : pieces c with
      | nil => exact absurd hpieces (pieces_ne_nil c)
      | cons d ds =>
        rw [hpieces, List.cons_append, List.cons.injEq] at h
        obtain ⟨rfl, hrest⟩ := h
        have hlength := congrArg List.length hrest
        have hle := length_le_length_flatMap_pieces cs
        rw [List.length_append] at hlength
        have hds : ds = [] := List.length_eq_zero_iff.mp (by omega)
        rw [hds, List.nil_append] at hrest
        exact ⟨by rw [hds], hrest⟩
    · rintro ⟨hc, hcs⟩
      rw [hc, hcs]
      rfl

/-- The integers of the pieces are words that literals are narrowed to. -/
theorem exists_narrow_eq {d : Clause} {k : Literal} (hd : d ∈ pieces c) (hk : k ∈ d) :
    ∃ l ∈ c, narrow l = k.toInt := by
  induction c generalizing d with
  | nil =>
    rw [pieces, List.mem_singleton] at hd
    simp [hd] at hk
  | cons l c ih =>
    have hrest : ∀ e ∈ pieces c, k ∈ e → ∃ l' ∈ l :: c, narrow l' = k.toInt := fun e he hke => by
      obtain ⟨l', hl', hnarrow⟩ := ih he hke
      exact ⟨l', List.mem_cons_of_mem _ hl', hnarrow⟩
    rw [pieces] at hd
    split at hd
    · rcases List.mem_cons.mp hd with rfl | hd
      · simp at hk
      · exact hrest d hd hk
    · next hne =>
      cases hpieces : pieces c with
      | nil => exact absurd hpieces (pieces_ne_nil c)
      | cons e es =>
        rw [hpieces] at hrest
        rw [hpieces, List.modifyHead_cons] at hd
        rcases List.mem_cons.mp hd with rfl | hd
        · rcases List.mem_cons.mp hk with rfl | hk
          · exact ⟨l, List.mem_cons_self, (Literal.toInt_ofNonzero hne).symm⟩
          · exact hrest e List.mem_cons_self hk
        · exact hrest d (List.mem_cons_of_mem _ hd) hk

/-- What is read fits into words, unless a literal is narrowed to the least word, which has no
opposite. -/
theorem fitWords_flatMap_pieces (h : ∀ c ∈ cs, ∀ l ∈ c, narrow l ≠ -halfOfWords) :
    FitWords (cs.flatMap pieces) := by
  intro d hd k hk
  obtain ⟨c, hc, hd⟩ := List.mem_flatMap.mp hd
  obtain ⟨l, hl, hnarrow⟩ := exists_narrow_eq hd hk
  have hleast := h c hc l hl
  have hbounds := narrow_bounds l
  have habs := k.natAbs_toInt
  omega

/-! ### The library -/

/-- The library is sound and complete for clauses whose variables fit into words. -/
structure Library.Decides (library : Library) : Prop where
  /-- A model makes a literal of every clause true. -/
  model : ∀ {cs value}, FitWords cs → library cs = .model value →
    ∀ c ∈ cs, ∃ l ∈ c, value l.var = some l.positive
  /-- Refuted clauses have no model. -/
  refuted : ∀ {cs}, FitWords cs → library cs = .refuted → ¬ ∃ v : Valuation, ∀ c ∈ cs, c.Holds v
  /-- There is always an answer. -/
  definite : ∀ {cs}, FitWords cs → library cs ≠ .gaveUp

/-- The answer is definite and right about the clauses, and a model has values for `n` variables. It
is missing only if there is a model, and no room for so many values. -/
def RightAbout (n : Nat) (cs : List Clause) : Except Violation Answer → Prop
  | .ok (.satisfiable a) => a.size = n ∧ a.satisfiesAll cs = true
  | .ok .unsatisfiable => ¬ ∃ v : Valuation, ∀ c ∈ cs, c.Holds v
  | .ok .unknown => False
  | .error violation => violation = .noRoom ∧ Word.half ≤ n ∧ ∃ v : Valuation, ∀ c ∈ cs, c.Holds v

variable {library : Library} {n : Nat} {x : Variable} {value : Variable → Option Bool}

/-- Values that make a literal of every clause true are those of a valuation. -/
theorem exists_valuation (h : ∀ c ∈ cs, ∃ l ∈ c, value l.var = some l.positive) :
    ∃ v : Valuation, ∀ c ∈ cs, c.Holds v := by
  refine ⟨fun x => value x == some true, fun c hc => ?_⟩
  obtain ⟨l, hl, htrue⟩ := h c hc
  refine ⟨l, hl, ?_⟩
  show (value l.var == some true) = l.positive
  rw [htrue]
  cases l.positive <;> rfl

/-- The answer of the embedded solver is right about the clauses that the library reads. -/
theorem Library.Decides.rightAbout_seen (hlibrary : library.Decides)
    (hfit : FitWords (seenClauses i)) :
    RightAbout (nVars i) (seenClauses i) (library.solve i) := by
  rw [Library.solve]
  cases hreply : library (seenClauses i) with
  | model value =>
    have hmodel := hlibrary.model hfit hreply
    rw [Reply.answer]
    split
    · refine ⟨?_, List.all_eq_true.mpr fun c hc => Assignment.satisfies_iff.mpr ?_⟩
      · simp [Assignment.ofValues, Assignment.size, nVars, Nat.max_comm]
      · obtain ⟨l, hl, htrue⟩ := hmodel c hc
        have hle := Instance.number_le_largestVariable hc hl
        refine ⟨l, hl, ?_⟩
        rw [Assignment.valueOf_ofValues (hle.trans (Nat.le_max_left _ _)), if_pos hle, htrue]
    · next hroom =>
      refine ⟨rfl, ?_, exists_valuation hmodel⟩
      rw [nVars, Nat.max_comm]
      exact Nat.le_of_not_lt hroom
  | refuted => exact hlibrary.refuted hfit hreply
  | gaveUp => exact hlibrary.definite hfit hreply

/-! ### A library that tries all values -/

/-- The value of a variable in a list of values, the first one being that of the first variable. -/
def valueIn (values : List Bool) (x : Variable) : Option Bool :=
  values[x.number - 1]?

/-- The library that tries all values of the variables that occur. -/
def exhaustive : Library := fun cs =>
  match (List.replicate (Instance.largestVariable cs) [false, true]).sections.find? fun values =>
      cs.all fun c => c.any fun l => valueIn values l.var == some l.positive with
  | some values => .model (valueIn values)
  | none => .refuted

/-- Every valuation is tried as far as variables occur. -/
theorem exists_mem_sections (n : Nat) (v : Valuation) :
    ∃ values ∈ (List.replicate n [false, true]).sections,
      ∀ x : Variable, x.number ≤ n → valueIn values x = some (v x) := by
  refine ⟨(List.range n).map fun k => v ⟨k + 1, Nat.succ_pos k⟩, ?_, fun x hx => ?_⟩
  · have hreplicate : List.replicate n [false, true] = (List.range n).map fun _ =>
        [false, true] := by
      simp
    rw [List.mem_sections, hreplicate, List.forall₂_map_left_iff, List.forall₂_map_right_iff,
      List.forall₂_same]
    intro k _
    cases v ⟨k + 1, Nat.succ_pos k⟩ <;> simp
  · have hlt : x.number - 1 < n := by
      have hpos := x.number_pos
      omega
    simp [valueIn, hlt, x.mk_number_sub_one_add_one]

private theorem decides_exhaustive : exhaustive.Decides where
  model {cs value} _ hreply c hc := by
    unfold exhaustive at hreply
    split at hreply
    · next values hfind =>
      cases hreply
      have hall := List.find?_some hfind
      simpa using List.all_eq_true.mp hall c hc
    · cases hreply
  refuted {cs} _ hreply := by
    unfold exhaustive at hreply
    split at hreply
    · cases hreply
    · next hfind =>
      rintro ⟨v, hv⟩
      obtain ⟨values, hvalues, hvalue⟩ := exists_mem_sections (Instance.largestVariable cs) v
      refine List.find?_eq_none.mp hfind values hvalues (List.all_eq_true.mpr fun c hc => ?_)
      obtain ⟨l, hl, htrue⟩ := hv c hc
      refine List.any_eq_true.mpr ⟨l, hl, ?_⟩
      rw [hvalue _ (Instance.number_le_largestVariable hc hl), htrue, beq_self_eq_true]
  definite {cs} _ hreply := by
    unfold exhaustive at hreply
    split at hreply <;> cases hreply

/-! ### Answers after calls -/

/-- What a solver with a library that decides makes of calls: its answer is right about what the
library reads of the clauses, unless a literal is narrowed to the least word. This is what was added
exactly when all literals are words. If all variables fit into words, the answer is right about the
clauses that were added, and a model covers as many variables as are known: all that were reserved
or occur. -/
theorem Library.Decides.rightAbout_added (hlibrary : library.Decides) (calls : List Call) :
    seenClauses (.afterCalls calls) = (addedClauses calls).flatMap pieces ∧
    (seenClauses (.afterCalls calls) = addedClauses calls ↔
      ∀ c ∈ addedClauses calls, ∀ l ∈ c, IsWord l) ∧
    ((∀ c ∈ addedClauses calls, ∀ l ∈ c, narrow l ≠ -halfOfWords) →
      RightAbout (nVars (.afterCalls calls)) (seenClauses (.afterCalls calls))
        (library.solve (.afterCalls calls))) ∧
    (FitWords (addedClauses calls) →
      RightAbout (nVars (.afterCalls calls)) (addedClauses calls)
        (library.solve (.afterCalls calls)) ∧
      nVars (.afterCalls calls) = (Instance.afterCalls calls).nVars) ∧
    ∀ n, (Instance.afterCalls calls).nVars ≤ n ↔ ∀ call ∈ calls, call.Within n := by
  have hseen : seenClauses (.afterCalls calls) = (addedClauses calls).flatMap pieces := by
    rw [seenClauses_eq, Instance.clauses_afterCalls]
  have hself : seenClauses (.afterCalls calls) = addedClauses calls ↔
      ∀ c ∈ addedClauses calls, ∀ l ∈ c, IsWord l := by
    rw [hseen, flatMap_pieces_eq_self_iff]
  refine ⟨hseen, hself, fun hleast => ?_, fun hfit => ?_, fun n => Instance.nVars_afterCalls_le_iff⟩
  · apply hlibrary.rightAbout_seen
    rw [hseen]
    exact fitWords_flatMap_pieces hleast
  · have heq : seenClauses (.afterCalls calls) = addedClauses calls :=
      hself.mpr fun c hc l hl => isWord_of_lt (hfit c hc l hl)
    have hright := hlibrary.rightAbout_seen (i := .afterCalls calls) (heq ▸ hfit)
    rw [heq] at hright
    refine ⟨hright, ?_⟩
    rw [nVars, Instance.nVars, heq, Instance.clauses_afterCalls]

/-- Two clauses with one model and a third variable that is reserved. -/
theorem rightAbout_added_forced :
    let calls := [Call.reserve 3, .addClause [⟨⟨1, by decide⟩, true⟩],
      .addClause [⟨⟨1, by decide⟩, false⟩, ⟨⟨2, by decide⟩, false⟩]]
    exhaustive.Decides ∧ FitWords (addedClauses calls) ∧
      exhaustive.solve (.afterCalls calls) =
        .ok (.satisfiable ⟨#[some true, some false, none], by decide⟩) ∧
      RightAbout 3 (addedClauses calls) (exhaustive.solve (.afterCalls calls)) := by
  intro calls
  have hfit : FitWords (addedClauses calls) := by
    unfold FitWords
    decide
  have hvars : nVars (.afterCalls calls) = 3 := by decide
  obtain ⟨-, -, -, hright, -⟩ := decides_exhaustive.rightAbout_added calls
  refine ⟨decides_exhaustive, hfit, by decide, ?_⟩
  exact hvars ▸ (hright hfit).1

/-- The variable `4294967297` is taken for the first one, the negation of which is then refuted. -/
theorem refutes_wrapped :
    let calls := [Call.addClause [⟨⟨4294967297, by decide⟩, true⟩],
      .addClause [⟨⟨1, by decide⟩, false⟩]]
    exhaustive.Decides ∧ exhaustive.solve (.afterCalls calls) = .ok .unsatisfiable ∧
      (∃ v : Valuation, ∀ c ∈ addedClauses calls, c.Holds v) ∧
      ¬ RightAbout (nVars (.afterCalls calls)) (addedClauses calls)
        (exhaustive.solve (.afterCalls calls)) ∧
      nVars (.afterCalls calls) = 1 ∧ (Instance.afterCalls calls).nVars = 4294967297 := by
  intro calls
  have hsolve : exhaustive.solve (.afterCalls calls) = .ok .unsatisfiable := by decide
  have hmodel : ∃ v : Valuation, ∀ c ∈ addedClauses calls, c.Holds v := by
    refine ⟨fun x => decide (x.number ≠ 1), ?_⟩
    simp [calls, addedClauses, Call.clause?, Clause.holds_singleton, Literal.Holds]
  refine ⟨decides_exhaustive, hsolve, hmodel, ?_, by decide, by decide⟩
  rw [hsolve]
  exact fun hright => hright hmodel

end Embedded

end HorizonPlanner.Sat
