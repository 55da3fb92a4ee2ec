import HorizonPlanner.Fluent
import HorizonPlanner.Operator
import HorizonPlanner.Text.Quoted

/-!
# Planning problems

A problem consists of fluents, operators, an initial state and a goal. It starts from its fluents
and is changed in place by edits, each of which is either carried out or refused with a reason.
-/

namespace HorizonPlanner

open Text

/-- A planning problem. -/
structure Problem where
  /-- The fluents. -/
  fluents : FluentSet
  /-- The operators, in numbering order. -/
  operators : List Operator
  /-- The numbers of the operators, by their labels. -/
  operatorIds : Index
  /-- The state every plan starts from. -/
  initial : State
  /-- What must hold at the end of a plan, ordered and without repetition. -/
  goal : List Condition
  deriving DecidableEq, Repr

/-- A condition on a fluent given by its label. -/
abbrev LabelledCondition := String × Bool

/-- The reasons to refuse a list of conditions. -/
inductive ConditionFault
  /-- No fluent has this label. -/
  | unknownFluent (label : String)
  /-- The conditions ask this fluent for both truth values. -/
  | contradictory (label : String)
  deriving DecidableEq, Repr

/-- The explanation of a refused list of conditions. -/
def ConditionFault.message : ConditionFault → String
  | .unknownFluent label => FluentSet.unknownMessage label
  | .contradictory label => "fluent " ++ label ++ " is required to be both true and false"

/-- The reasons to refuse an edit of a problem. -/
inductive Refusal
  /-- The label of a new operator is taken. -/
  | operatorExists (label : String)
  /-- The preconditions of a new operator are at fault. -/
  | preconditions (operator : String) (fault : ConditionFault)
  /-- The effects of a new operator are at fault. -/
  | effects (operator : String) (fault : ConditionFault)
  /-- A fluent to be made initially true does not exist. -/
  | initialFluent (label : String)
  /-- A fluent of the goal does not exist. -/
  | goalFluent (label : String)
  /-- The goal already asks this fluent for the other truth value. -/
  | goalContradiction (label : String)
  deriving DecidableEq, Repr

/-- What was being done when an operator was refused. -/
def Refusal.addingOperator (label : String) : String :=
  "cannot add operator " ++ Quoted.text label

/-- The explanation of a refusal, from what was being done to the root cause. -/
def Refusal.chain : Refusal → List String
  | .operatorExists label => [addingOperator label, "operator " ++ label ++ " is already defined"]
  | .preconditions operator fault =>
      [addingOperator operator, "while reading preconditions", fault.message]
  | .effects operator fault => [addingOperator operator, "while reading effects", fault.message]
  | .initialFluent label => ["while setting the initial state", FluentSet.unknownMessage label]
  | .goalFluent label => ["while setting the goal", FluentSet.unknownMessage label]
  | .goalContradiction label =>
    ["while setting the goal", "the goal requires fluent " ++ label ++ " to be both true and false"]

/-- A change of a problem. -/
inductive Edit
  /-- Adds an operator. -/
  | operator (label : String) (preconditions effects : List LabelledCondition)
  /-- Makes a fluent true in the initial state. -/
  | initiallyTrue (label : String)
  /-- Adds a condition to the goal. -/
  | goal (label : String) (polarity : Bool)
  deriving DecidableEq, Repr

namespace Problem

/-- The problem with these fluents, all initially false, without operators and with nothing to
reach. -/
def ofFluents (fluents : FluentSet) : Problem :=
  ⟨fluents, [], .empty, Array.replicate fluents.size false, []⟩

/-- The number of fluents. -/
def nFluents (p : Problem) : Nat :=
  p.fluents.size

/-- The number of operators. -/
def nOperators (p : Problem) : Nat :=
  p.operators.length

/-- Replaces the labels of conditions by numbers; the first unknown label is reported. -/
def number (p : Problem) : List LabelledCondition → Except ConditionFault (List Condition)
  | [] => .ok []
  | (label, polarity) :: rest =>
    match p.fluents.get? label with
    | none => .error (.unknownFluent label)
    | some f => (p.number rest).map (⟨f.id, polarity⟩ :: ·)

/-- The label of a fluent. -/
def fluentLabel (p : Problem) (id : Nat) : String :=
  p.fluents.labels.getD id ""

/-- The ordered conditions of an operator. The fluents must exist, and none may be required to have
both truth values. -/
def resolve (p : Problem) (conditions : List LabelledCondition) :
    Except ConditionFault (List Condition) :=
  match p.number conditions with
  | .error fault => .error fault
  | .ok numbered =>
    let ordered := Condition.normalize numbered
    match Condition.contradiction? ordered with
    | none => .ok ordered
    | some f => .error (.contradictory (p.fluentLabel f))

/-- Whether an operator has this label. -/
def hasOperator (p : Problem) (label : String) : Bool :=
  p.operatorIds.contains label

end Problem

/-! ### Changing a problem in place -/

/-- A call that changes a problem in place, step by step. A call that is refused leaves the problem
as the steps before have made it. -/
abbrev Call := ExceptT Refusal (StateM Problem) Unit

namespace Call

/-- Adds an operator under the next number. The index gets the number before the operator is
there. -/
def addOperator (label : String) (preconditions effects : List LabelledCondition) : Call := do
  if (← get).hasOperator label then throw (.operatorExists label)
  let pre ← ((← get).resolve preconditions).mapError (Refusal.preconditions label)
  let eff ← ((← get).resolve effects).mapError (Refusal.effects label)
  let id := (← get).operators.length
  modify fun p => { p with operatorIds := p.operatorIds.insert label id }
  modify fun p => { p with operators := p.operators ++ [⟨id, label, pre, eff⟩] }

/-- Makes a fluent true in the initial state. -/
def markInitiallyTrue (label : String) : Call := do
  match (← get).fluents.get? label with
  | none => throw (.initialFluent label)
  | some f => modify fun p => { p with initial := p.initial.setIfInBounds f.id true }

/-- Adds a condition to the goal, which must not ask for the opposite already. -/
def addGoal (label : String) (polarity : Bool) : Call := do
  match (← get).fluents.get? label with
  | none => throw (.goalFluent label)
  | some f =>
    let c : Condition := ⟨f.id, polarity⟩
    if (← get).goal.contains c.negate then throw (.goalContradiction label)
    modify fun p => { p with goal := c.placeInto p.goal }

end Call

/-- The call that carries out an edit, or refuses it. -/
def Edit.call : Edit → Call
  | .operator label preconditions effects => .addOperator label preconditions effects
  | .initiallyTrue label => .markInitiallyTrue label
  | .goal label polarity => .addGoal label polarity

namespace Problem

/-- What the call for an edit answers, and the problem it leaves behind. -/
def respond (p : Problem) (e : Edit) : Except Refusal Unit × Problem :=
  e.call.run.run p

/-- The problem that is left behind by an edit, whether or not it was carried out. -/
def attempt (p : Problem) (e : Edit) : Problem :=
  (p.respond e).2

/-- The problem that is left behind by an edit that must be carried out. -/
def edit (p : Problem) (e : Edit) : Except Refusal Problem :=
  (p.respond e).1.map fun _ => (p.respond e).2

/-- The problem with these fluents after a history of edits, whether or not they were carried
out. -/
def afterEdits (fluents : FluentSet) (history : List Edit) : Problem :=
  history.foldl attempt (ofFluents fluents)

/-- The problem with these fluents after a series of edits, none of which may be refused. -/
def build (fluents : FluentSet) (edits : List Edit) : Except Refusal Problem :=
  edits.foldlM edit (ofFluents fluents)

/-- The operator with this label. It stands at the position that the index gives. -/
def operator? (p : Problem) (label : String) : Option Operator :=
  (p.operatorIds.get? label).bind fun id => p.operators[id]?

/-- The refusal of a label that no operator has. -/
def unknownOperatorMessage (label : String) : String :=
  "no such operator: " ++ label

/-- The operator with this number, which must exist. -/
def operatorById (p : Problem) (id : Nat) : Except Violation Operator :=
  lookup p.operators id

/-- Whether the goal holds in a state. -/
def goalHolds (p : Problem) (s : State) : Bool :=
  p.goal.all (·.holds s)

/-- Whether a condition is an effect of some operator. -/
def produces (p : Problem) (c : Condition) : Bool :=
  p.operators.any (·.effects.contains c)

/-- The goal conditions that neither hold initially nor are an effect of any operator. -/
def unreachableGoals (p : Problem) : List Condition :=
  p.goal.filter fun c => !c.holds p.initial && !p.produces c

end Problem

end HorizonPlanner
