import HorizonPlanner.Proofs.Sat.Transmission
import HorizonPlanner.Sat.Buffer

/-!
# Buffers and instances

Whatever a solver is asked to do, in whatever order, its buffer holds the text, the numbers and the
limit of the instance that was collected. A program therefore reads the text of that instance.
-/

namespace HorizonPlanner.Sat

/-- A buffer holds what was collected in an instance. -/
structure Buffer.Holds (b : Buffer) (i : Instance) : Prop where
  /-- The text of the clauses was written. -/
  text_eq : b.text.toList = i.clauseText
  /-- The clauses were counted. -/
  nClauses_eq : b.nClauses = i.nClauses
  /-- The known variables are the same. -/
  nVars_eq : b.nVars = i.nVars
  /-- The limit of time is the same. -/
  timeLimit_eq : b.timeLimit = i.timeLimit

namespace Instance

variable (i : Instance) (c : Clause)

/-- A clause is written behind those before it. -/
theorem clauseText_addClause : (i.addClause c).clauseText = i.clauseText ++ c.dimacs := by
  simp [clauseText, addClause]

/-- A clause makes its variables known. -/
theorem nVars_addClause : (i.addClause c).nVars = max i.nVars c.maxVariable := by
  simp [nVars, addClause, largestVariable, Nat.max_assoc]

end Instance

namespace Buffer

variable {b : Buffer} {i : Instance}

private theorem holds_empty : Holds .empty .empty :=
  ⟨rfl, rfl, rfl, rfl⟩

/-- The largest variable of a clause is that of its first literal or one behind it. -/
theorem maxVariable_cons (l : Literal) (c : Clause) :
    Clause.maxVariable (l :: c) = max l.var.number c.maxVariable := by
  refine eq_of_forall_ge_iff fun n => ?_
  rw [Nat.max_le, Clause.maxVariable, Clause.maxVariable, foldl_max_le_iff,
    foldl_max_le_iff, List.forall_mem_cons, and_iff_right n.zero_le, and_iff_right n.zero_le]

/-- The literals of a clause are written one after the other, and the largest variable is kept. -/
theorem foldl_addLiteral (b : Buffer) (c : Clause) :
    c.foldl addLiteral b =
      { b with
        text := b.text ++ c.flatMap fun l => l.text ++ [' ']
        nVars := max b.nVars c.maxVariable } := by
  induction c generalizing b with
  | nil => simp [Clause.maxVariable]
  | cons l rest ih =>
    have htext : b.text ++ l.text ++ [' '] ++ rest.flatMap (fun l => l.text ++ [' ']) =
        b.text ++ (l :: rest).flatMap fun l => l.text ++ [' '] := by
      rw [← Array.toList_inj]
      simp
    rw [List.foldl_cons, ih, maxVariable_cons, addLiteral, htext, Nat.max_assoc]

/-- A clause is written, counted and looked through for variables. -/
theorem Holds.addClause (h : b.Holds i) (c : Clause) : (b.addClause c).Holds (i.addClause c) where
  text_eq := by
    rw [Buffer.addClause, foldl_addLiteral, Instance.clauseText_addClause, ← h.text_eq]
    simp [closeClause, Clause.dimacs]
  nClauses_eq := by
    rw [Buffer.addClause, foldl_addLiteral, Instance.nClauses, Instance.addClause, Array.size_push]
    exact congrArg (· + 1) h.nClauses_eq
  nVars_eq := by
    rw [Buffer.addClause, foldl_addLiteral, Instance.nVars_addClause, ← h.nVars_eq]
    rfl
  timeLimit_eq := by
    rw [Buffer.addClause, foldl_addLiteral]
    exact h.timeLimit_eq

/-- Reserved variables are known. -/
theorem Holds.reserve (h : b.Holds i) (n : Nat) : (b.reserve n).Holds (i.reserve n) := by
  have hnVars : (i.reserve n).nVars = max i.nVars n := by
    simp only [Instance.nVars, Instance.reserve]
    omega
  unfold Buffer.reserve
  split
  · next hlt =>
    have hmax : n = max b.nVars n := (Nat.max_eq_right hlt.le).symm
    exact ⟨h.text_eq, h.nClauses_eq, by rw [hnVars, ← h.nVars_eq]; exact hmax, h.timeLimit_eq⟩
  · next hge =>
    have hmax : b.nVars = max b.nVars n := by omega
    exact ⟨h.text_eq, h.nClauses_eq, by rw [hnVars, ← h.nVars_eq]; exact hmax, h.timeLimit_eq⟩

/-- Carries out a request. A question changes nothing. -/
def handle (b : Buffer) : Request → Buffer
  | .call (.addClause c) => b.addClause c
  | .call (.reserve n) => b.reserve n
  | .limitTime limit => b.limitTime limit
  | .solve => b

/-- The next request keeps the buffer and the instance in step. -/
theorem Holds.handle (h : b.Holds i) (r : Request) : (b.handle r).Holds (i.handle r) := by
  cases r with
  | call c =>
    cases c with
    | addClause c => exact h.addClause c
    | reserve n => exact h.reserve n
  | limitTime limit => exact ⟨h.text_eq, h.nClauses_eq, h.nVars_eq, rfl⟩
  | solve => exact h

/-- After any requests a buffer holds what the requests collect. -/
theorem Holds.foldl_handle (h : b.Holds i) (requests : List Request) :
    (requests.foldl Buffer.handle b).Holds (requests.foldl Instance.handle i) := by
  induction requests generalizing b i with
  | nil => exact h
  | cons r rest ih => exact ih (h.handle r)

/-- What a program is given at each question when a buffer is kept. -/
def questions : Buffer → List Request → List (Source × Option Nat)
  | _, [] => []
  | b, .call c :: rest => (b.handle (.call c)).questions rest
  | b, .limitTime limit :: rest => (b.handle (.limitTime limit)).questions rest
  | b, .solve :: rest => (b.source, b.timeLimit) :: b.questions rest

/-- The text in a buffer is that of the instance. -/
theorem Holds.source_eq (h : b.Holds i) : b.source = .ofInstance i := by
  have hpreamble : b.source.preamble = i.preamble := by
    unfold source Instance.preamble
    rw [h.nVars_eq, h.nClauses_eq]
  exact congrArg₂ Source.mk hpreamble h.text_eq

/-- A program is given the same whether a buffer is kept or the text is made when it is asked
for. -/
theorem Holds.questions_eq (h : b.Holds i) (requests : List Request) :
    b.questions requests = HorizonPlanner.Sat.questions i requests := by
  induction requests generalizing b i with
  | nil => rfl
  | cons r rest ih =>
    have hrest := ih (h.handle r)
    cases r with
    | call c => exact hrest
    | limitTime limit => exact hrest
    | solve => exact congrArg₂ List.cons (by rw [h.source_eq, h.timeLimit_eq]) hrest

/-- After clauses were written a buffer holds them. -/
theorem Holds.addClauses (h : b.Holds i) (cs : List Clause) :
    (cs.foldl Buffer.addClause b).Holds (i.addClauses cs) := by
  induction cs generalizing b i with
  | nil => exact h
  | cons c rest ih => exact ih (h.addClause c)

/-- A buffer that was given an instance holds it. -/
theorem holds_ofInstance (i : Instance) : (ofInstance i).Holds i := by
  have h := (holds_empty.reserve i.reserved).addClauses i.clauses.toList
  have hcollected : (Instance.empty.reserve i.reserved).addClauses i.clauses.toList =
      { i with timeLimit := none } := by
    simp [Instance.addClauses_eq, Instance.empty, Instance.reserve]
  rw [hcollected] at h
  exact ⟨h.text_eq, h.nClauses_eq, h.nVars_eq, rfl⟩

/-- The text that a program reads is that of the instance. -/
theorem text_ofInstance (i : Instance) : (ofInstance i).source.text = i.dimacs := by
  rw [(holds_ofInstance i).source_eq]
  rfl

end Buffer

end HorizonPlanner.Sat
