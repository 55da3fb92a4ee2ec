import HorizonPlanner.ProblemText
import HorizonPlanner.Proofs.Builds
import HorizonPlanner.Proofs.Fluents

/-!
# Accesses while a text is read

Reading a text looks up fluents by their numbers, changes the initial state at such numbers, inserts
goal conditions at positions, and takes the keyword of a line from its word. Here each of these
accesses may break down. None does, whatever the text is: numbers come from labels that were found,
the initial state has a place for every fluent, and the positions are those that the search gives.
-/

namespace HorizonPlanner

/-- The ways an access may break down. -/
inductive Breakdown
  /-- A position is out of bounds. -/
  | index (violation : Violation)
  /-- A word is not a keyword. -/
  | keyword (word : String)
  deriving DecidableEq, Repr

/-! ### Fluents -/

namespace FluentSet

/-- The fluent with this number, if the number is within bounds. -/
def fetch (s : FluentSet) (id : Nat) : Except Breakdown Fluent :=
  match s.byId id with
  | .ok f => .ok f
  | .error violation => .error (.index violation)

/-- The fluent whose number is found for this label. -/
def fetchLabel? (s : FluentSet) (label : String) : Except Breakdown (Option Fluent) :=
  match s.idOf? label with
  | none => .ok none
  | some id => (s.fetch id).map some

variable {s : FluentSet} {id : Nat} {label : String}

private theorem fetch_eq (h : s.labels[id]? = some label) : s.fetch id = .ok ⟨id, label⟩ := by
  have hfound : s.byId id = .ok ⟨id, label⟩ := byId_eq_ok.mpr ⟨h, rfl⟩
  rw [fetch, hfound]

/-- The number that is found for a label is within bounds. -/
theorem fetchLabel?_eq (s : FluentSet) (label : String) :
    s.fetchLabel? label = .ok (s.get? label) := by
  rw [fetchLabel?, get?_eq]
  cases h : s.idOf? label with
  | none => rfl
  | some id =>
    simp only [fetch_eq (getElem?_of_idOf? h)]
    rfl

end FluentSet

/-! ### Edits -/

namespace Problem

/-- Replaces labels by numbers. -/
def numberByAccess (p : Problem) :
    List LabelledCondition → Except Breakdown (Except ConditionFault (List Condition))
  | [] => .ok (.ok [])
  | (label, polarity) :: rest => do
    match ← p.fluents.fetchLabel? label with
    | none => return .error (.unknownFluent label)
    | some f => return (← p.numberByAccess rest).map (⟨f.id, polarity⟩ :: ·)

/-- The ordered conditions of an operator. -/
def resolveByAccess (p : Problem) (conditions : List LabelledCondition) :
    Except Breakdown (Except ConditionFault (List Condition)) := do
  match ← p.numberByAccess conditions with
  | .error fault => return .error fault
  | .ok numbered =>
    let ordered := Condition.normalize numbered
    match Condition.contradiction? ordered with
    | none => return .ok ordered
    | some id => return .error (.contradictory (← p.fluents.fetch id).label)

/-- Carries out an edit, or refuses it. -/
def editByAccess (p : Problem) : Edit → Except Breakdown (Except Refusal Problem)
  | .operator label preconditions effects => do
    if p.hasOperator label then return .error (.operatorExists label)
    match ← p.resolveByAccess preconditions with
    | .error fault => return .error (.preconditions label fault)
    | .ok pre =>
      match ← p.resolveByAccess effects with
      | .error fault => return .error (.effects label fault)
      | .ok eff =>
        return .ok { p with
          operatorIds := p.operatorIds.insert label p.operators.length
          operators := p.operators ++ [⟨p.operators.length, label, pre, eff⟩] }
  | .initiallyTrue label => do
    match ← p.fluents.fetchLabel? label with
    | none => return .error (.initialFluent label)
    | some f =>
      if h : f.id < p.initial.size then return .ok { p with initial := p.initial.set f.id true h }
      else throw (.index (.indexOutOfBounds p.initial.size f.id))
  | .goal label polarity => do
    match ← p.fluents.fetchLabel? label with
    | none => return .error (.goalFluent label)
    | some f =>
      let c : Condition := ⟨f.id, polarity⟩
      if p.goal.contains c.negate then return .error (.goalContradiction label)
      match c.search p.goal.toArray with
      | .found _ => return .ok p
      | .missing position =>
        if position ≤ p.goal.length then return .ok { p with goal := p.goal.insertIdx position c }
        else throw (.index (.indexOutOfBounds p.goal.length position))

/-- Carries out a series of edits up to the first that is refused. -/
def editsByAccess : Problem → List Edit → Except Breakdown (Except Refusal Problem)
  | p, [] => .ok (.ok p)
  | p, e :: rest => do
    match ← p.editByAccess e with
    | .error reason => return .error reason
    | .ok q => q.editsByAccess rest

variable {p : Problem}

private theorem numberByAccess_eq (p : Problem) (conditions : List LabelledCondition) :
    p.numberByAccess conditions = .ok (p.number conditions) := by
  induction conditions with
  | nil => rfl
  | cons c rest ih =>
    obtain ⟨label, polarity⟩ := c
    rw [numberByAccess, number, FluentSet.fetchLabel?_eq, ih]
    cases p.fluents.get? label <;> rfl

/-- The fluent of a contradiction is one of those that were numbered. -/
theorem resolveByAccess_eq (p : Problem) (conditions : List LabelledCondition) :
    p.resolveByAccess conditions = .ok (p.resolve conditions) := by
  rw [resolveByAccess, resolve, numberByAccess_eq]
  cases hnumber : p.number conditions with
  | error fault => rfl
  | ok numbered =>
    show (match Condition.contradiction? (Condition.normalize numbered) with
      | none => _
      | some id => _) = _
    simp only
    cases hcontradiction : Condition.contradiction? (Condition.normalize numbered) with
    | none => rfl
    | some id =>
      have hmem := (Condition.ordered_normalize numbered).mem_of_contradiction?_eq_some
        hcontradiction
      have hlt : id < p.fluents.labels.length := by
        rw [FluentSet.length_labels]
        exact fluent_lt_of_number hnumber _ (Condition.mem_normalize.mp hmem.1)
      have hlabel := List.getElem?_eq_getElem hlt
      simp only [FluentSet.fetch_eq hlabel, fluentLabel, List.getD_eq_getElem?_getD,
        hlabel, Option.getD_some]
      rfl

/-- Edits of a well-formed problem do not break down. -/
theorem WellFormed.editByAccess_eq (hp : p.WellFormed) (e : Edit) :
    p.editByAccess e = .ok (p.edit e) := by
  cases e with
  | operator label preconditions effects =>
    rw [editByAccess, edit, respond_operator, resolveByAccess_eq, resolveByAccess_eq]
    cases p.hasOperator label with
    | true => rfl
    | false => cases p.resolve preconditions <;> cases p.resolve effects <;> rfl
  | initiallyTrue label =>
    rw [editByAccess, edit, respond_initiallyTrue, FluentSet.fetchLabel?_eq]
    cases hf : p.fluents.get? label with
    | none => rfl
    | some f =>
      have hlt : f.id < p.initial.size := hp.initial_size ▸ idOf?_lt
        (FluentSet.get?_eq_some.mp hf).1
      have hset : p.initial.set f.id true hlt = p.initial.setIfInBounds f.id true := by
        rw [Array.setIfInBounds, dif_pos hlt]
      show (if h : f.id < p.initial.size then _ else _) = _
      rw [dif_pos hlt, hset]
      rfl
  | goal label polarity =>
    rw [editByAccess, edit, respond_goal, FluentSet.fetchLabel?_eq]
    cases p.fluents.get? label with
    | none => rfl
    | some f =>
      show (if p.goal.contains (Condition.negate ⟨f.id, polarity⟩) then _ else _) = _
      simp only
      split
      · rfl
      · simp only [Condition.placeInto]
        cases hsearch : Condition.search ⟨f.id, polarity⟩ p.goal.toArray with
        | found position => rfl
        | missing position =>
          have hseparates := Condition.Ordered.separates_of_search
            (by simpa using hp.goal.ordered) hsearch
          have hle : position ≤ p.goal.length := hseparates.le_size
          simp only [if_pos hle]
          rfl

/-- Well-formedness is kept, so that no edit of a series breaks down. -/
theorem WellFormed.editsByAccess_eq (hp : p.WellFormed) (es : List Edit) :
    p.editsByAccess es = .ok (es.foldlM edit p) := by
  induction es generalizing p with
  | nil => rfl
  | cons e rest ih =>
    rw [editsByAccess, hp.editByAccess_eq, List.foldlM_cons]
    cases hedit : p.edit e with
    | error reason => rfl
    | ok q => exact ih (hp.change (hp.change_of_edit hedit))

end Problem

/-! ### Lines -/

namespace Declaration

/-- Reads the arguments behind a word. -/
def argumentsByWord (args : List Char) (word : String) : Except Breakdown (Option Declaration) :=
  if word = "fluent" then .ok (readArguments args .fluent)
  else if word = "operator" then .ok (readArguments args .operator)
  else if word = "pre" then .ok (readArguments args .pre)
  else if word = "eff" then .ok (readArguments args .eff)
  else if word = "init" then .ok (readArguments args .init)
  else if word = "goal" then .ok (readArguments args .goal)
  else .error (.keyword word)

/-- Reads a line. -/
def readByAccess (line : List Char) : Except Breakdown Reading :=
  match shape? line with
  | none => return .shapeless
  | some (keyword, args) => do
    match ← argumentsByWord args keyword.text with
    | some d => return .declaration d
    | none => return .badArguments keyword

/-- The word of a line with the shape of a declaration is a keyword. -/
theorem argumentsByWord_text (args : List Char) (keyword : Keyword) :
    argumentsByWord args keyword.text = .ok (readArguments args keyword) := by
  cases keyword <;> simp [argumentsByWord, Keyword.text]

/-- All accesses of the reader of a line succeed, and it reads what the line says. -/
theorem readByAccess_eq (line : List Char) : readByAccess line = .ok (read line) := by
  rw [readByAccess, read]
  cases shape? line with
  | none => rfl
  | some s =>
    obtain ⟨keyword, args⟩ := s
    simp only [argumentsByWord_text]
    cases readArguments args keyword <;> rfl

end Declaration

namespace ProblemText

open Text

/-- Reads the line with this number. -/
def readLineByAccess (number : Nat) : Line → Except Breakdown (Except Failure (Option Located))
  | .error why => return .error (.line number (.unreadable why))
  | .ok chars => do
    let trimmed := trim chars
    if isSkipped trimmed then return .ok none
    match ← Declaration.readByAccess chars with
    | .declaration d => return .ok (some ⟨number, d⟩)
    | .badArguments keyword =>
      return .error (.line number (.badArguments keyword (String.ofList trimmed)))
    | .shapeless => return .error (.line number (.shapeless (String.ofList trimmed)))

/-- Reads lines, numbered from this number on, up to the first that is at fault. -/
def readLinesByAccess :
    Nat → List Line → Except Breakdown (List Warning × Except Failure (List Located))
  | _, [] => return ([], .ok [])
  | number, l :: rest => do
    match ← readLineByAccess number l with
    | .error f => return ([], .error f)
    | .ok none => readLinesByAccess (number + 1) rest
    | .ok (some d) =>
      let r ← readLinesByAccess (number + 1) rest
      return (d.warnings ++ r.1, r.2.map (d :: ·))

/-- Adds the goal conditions stated, line by line. -/
def addGoalsByAccess : Problem → List Located → Except Breakdown (Except Failure Problem)
  | p, [] => return .ok p
  | p, d :: rest =>
    match d.declaration with
    | .goal f polarity => do
      match ← p.editByAccess (.goal f polarity) with
      | .ok q => addGoalsByAccess q rest
      | .error reason => return .error (.line d.line (.refused reason))
    | _ => addGoalsByAccess p rest

/-- The problem stated by declarations. -/
def assembleByAccess (ds : List Located) : Except Breakdown (Except Failure Problem) := do
  let fluents := FluentSet.ofList (fluentNames ds)
  match ds.findSome? (undeclared? fluents.labels (operatorNames ds)) with
  | some f => return .error f
  | none =>
    match ← (Problem.ofFluents fluents).editsByAccess (edits ds) with
    | .error reason => return .error (.refused reason)
    | .ok p => addGoalsByAccess p ds

/-- Reads a problem from lines. -/
def readByAccess (ls : List Line) : Except Breakdown Result := do
  match ← readLinesByAccess 1 ls with
  | (ws, .error f) => return ⟨ws, .error f⟩
  | (ws, .ok ds) => return ⟨ws ++ repetitions [] [] ds, ← assembleByAccess ds⟩

private theorem readLineByAccess_eq (number : Nat) (l : Line) :
    readLineByAccess number l = .ok (readLine number l) := by
  cases l with
  | error why => rfl
  | ok chars =>
    rw [readLineByAccess, readLine, Declaration.readByAccess_eq]
    cases isSkipped (trim chars) with
    | true => rfl
    | false => cases Declaration.read chars <;> rfl

private theorem readLinesByAccess_eq (number : Nat) (ls : List Line) :
    readLinesByAccess number ls = .ok (readLines number ls) := by
  induction ls generalizing number with
  | nil => rfl
  | cons l rest ih =>
    rw [readLinesByAccess, readLines, readLineByAccess_eq, ih]
    cases readLine number l with
    | error f => rfl
    | ok read? => cases read? <;> rfl

private theorem addGoalsByAccess_eq {p : Problem} (hp : p.WellFormed) (ds : List Located) :
    addGoalsByAccess p ds = .ok (addGoals p ds) := by
  induction ds generalizing p with
  | nil => rfl
  | cons d rest ih =>
    rw [addGoalsByAccess, addGoals]
    cases d.declaration with
    | goal f polarity =>
      simp only [hp.editByAccess_eq]
      cases hadd : p.edit (.goal f polarity) with
      | error reason => rfl
      | ok q => exact ih (hp.change (hp.change_of_edit hadd))
    | _ => exact ih hp

private theorem assembleByAccess_eq (ds : List Located) :
    assembleByAccess ds = .ok (assemble ds) := by
  have hedits : (Problem.ofFluents (FluentSet.ofList (fluentNames ds))).editsByAccess (edits ds) =
      .ok (Problem.build (FluentSet.ofList (fluentNames ds)) (edits ds)) :=
    (Problem.wellFormed_ofFluents _).editsByAccess_eq _
  rw [assembleByAccess, assemble]
  simp only [hedits]
  cases ds.findSome? (undeclared? (FluentSet.ofList (fluentNames ds)).labels
    (operatorNames ds)) with
  | some f => rfl
  | none =>
    cases hbuild : Problem.build (FluentSet.ofList (fluentNames ds)) (edits ds) with
    | error reason => rfl
    | ok p => exact addGoalsByAccess_eq (Problem.build_eq_ok_iff.mp hbuild).wellFormed ds

/-- No access breaks down while a text is read. -/
theorem readByAccess_eq (ls : List Line) : readByAccess ls = .ok (read ls) := by
  rw [readByAccess, read, readLinesByAccess_eq]
  cases readLines 1 ls with
  | mk ws result =>
    cases result with
    | error f => rfl
    | ok ds =>
      simp only [assembleByAccess_eq]
      rfl

end ProblemText

end HorizonPlanner
