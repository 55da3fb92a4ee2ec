import HorizonPlanner.Declaration
import HorizonPlanner.Problem
import HorizonPlanner.Text.Line

/-!
# Problems as text

A problem is read from lines that each hold one declaration; blank lines and lines beginning with a
percent sign are skipped. The order of the lines is free, and fluents and operators are numbered in
the order in which they are introduced. Oddities that do no harm are reported as warnings; the first
fault found ends the reading. Faults are looked for in four rounds: lines that cannot be understood,
names that are introduced nowhere, operators that are refused, and goals that contradict each other.
-/

namespace HorizonPlanner.ProblemText

open Text

/-- The faults that belong to a line. -/
inductive LineFault
  /-- The line could not be read. -/
  | unreadable (why : StreamFault)
  /-- The line is no declaration. -/
  | shapeless (text : String)
  /-- The arguments do not fit the keyword. -/
  | badArguments (keyword : Keyword) (text : String)
  /-- No declaration introduces this fluent. -/
  | undeclaredFluent (name : String)
  /-- No declaration introduces this operator. -/
  | undeclaredOperator (name : String)
  /-- The goal condition of the line was refused. -/
  | refused (reason : Refusal)
  deriving DecidableEq, Repr

/-- The explanation of a fault, from what was being done to the root cause. -/
def LineFault.chain : LineFault → List String
  | .unreadable why => [why.message]
  | .shapeless text => ["syntax error in line \"" ++ text ++ "\""]
  | .badArguments keyword text => ["invalid arguments for " ++ keyword.text ++ " in " ++ text]
  | .undeclaredFluent name => ["undeclared fluent " ++ name]
  | .undeclaredOperator name => ["undeclared operator " ++ name]
  | .refused reason => reason.chain

/-- The reasons why a text is not read as a problem. -/
inductive Failure
  /-- A line is at fault. -/
  | line (number : Nat) (fault : LineFault)
  /-- The declarations of the whole text lead to a refusal. -/
  | refused (reason : Refusal)
  deriving DecidableEq, Repr

/-- What was being done when a line was found at fault. -/
def readingLine (number : Nat) : String :=
  "while reading line " ++ Numeral.text number

/-- The explanation of a failure, from what was being done to the root cause. -/
def Failure.chain : Failure → List String
  | .line number fault => readingLine number :: fault.chain
  | .refused reason => reason.chain

/-- The oddities that are reported. -/
inductive Oddity
  /-- A fluent is declared to be initially false, as all fluents are. -/
  | negativeInitial
  /-- A fluent is introduced again. -/
  | fluentAgain (name : String)
  /-- An operator is introduced again. -/
  | operatorAgain (name : String)
  deriving DecidableEq, Repr

/-- The text of a warning. -/
def Oddity.message : Oddity → String
  | .negativeInitial => "negative initial fluents are ignored since fluents are false by default"
  | .fluentAgain name => "fluent " ++ name ++ " is already declared"
  | .operatorAgain name => "operator " ++ name ++ " is already declared"

/-- A warning: an oddity and the number of its line. -/
structure Warning where
  /-- The line, counted from one. -/
  line : Nat
  /-- The oddity. -/
  oddity : Oddity
  deriving DecidableEq, Repr

/-- Warnings as they reach a number of handlers: each goes to all handlers in turn before the next
one does. -/
def deliveries (handlers : Nat) (ws : List Warning) : List (Nat × Warning) :=
  ws.flatMap fun w => (List.range handlers).map (·, w)

/-- A declaration and the number of its line. -/
structure Located where
  /-- The line, counted from one. -/
  line : Nat
  /-- The declaration. -/
  declaration : Declaration
  deriving DecidableEq, Repr

/-! ### Understanding lines -/

/-- Whether a trimmed line holds no declaration. -/
def isSkipped : List Char → Bool
  | [] => true
  | c :: _ => c == '%'

/-- Reads the line with this number. A line that is skipped holds nothing. -/
def readLine (number : Nat) : Line → Except Failure (Option Located)
  | .error why => .error (.line number (.unreadable why))
  | .ok chars =>
    let trimmed := trim chars
    if isSkipped trimmed then .ok none
    else
      match Declaration.read chars with
      | .declaration d => .ok (some ⟨number, d⟩)
      | .badArguments keyword =>
        .error (.line number (.badArguments keyword (String.ofList trimmed)))
      | .shapeless => .error (.line number (.shapeless (String.ofList trimmed)))

/-- The warnings a declaration gives rise to on its own. -/
def Located.warnings (d : Located) : List Warning :=
  match d.declaration with
  | .initially _ false => [⟨d.line, .negativeInitial⟩]
  | _ => []

/-- Reads lines, numbered from this number on, up to the first that is at fault. -/
def readLines : Nat → List Line → List Warning × Except Failure (List Located)
  | _, [] => ([], .ok [])
  | number, l :: rest =>
    match readLine number l with
    | .error f => ([], .error f)
    | .ok none => readLines (number + 1) rest
    | .ok (some d) =>
      let r := readLines (number + 1) rest
      (d.warnings ++ r.1, r.2.map (d :: ·))

/-! ### Names that are introduced -/

/-- The fluents introduced, in order of their first declaration. -/
def fluentNames (ds : List Located) : List String :=
  ds.filterMap fun d =>
    match d.declaration with
    | .fluent name => some name
    | _ => none

/-- The operators introduced, repetitions included. -/
def operatorNames (ds : List Located) : List String :=
  ds.filterMap fun d =>
    match d.declaration with
    | .operator name => some name
    | _ => none

/-- The warnings about names that are introduced again, given the names introduced before. -/
def repetitions : List String → List String → List Located → List Warning
  | _, _, [] => []
  | fluents, operators, d :: rest =>
    match d.declaration with
    | .fluent name =>
      if name ∈ fluents then ⟨d.line, .fluentAgain name⟩ :: repetitions fluents operators rest
      else repetitions (name :: fluents) operators rest
    | .operator name =>
      if name ∈ operators then ⟨d.line, .operatorAgain name⟩ :: repetitions fluents operators rest
      else repetitions fluents (name :: operators) rest
    | _ => repetitions fluents operators rest

/-- The fault of a declaration that uses names introduced nowhere. The fluent is looked at before
the operator. -/
def undeclared? (fluents operators : List String) (d : Located) : Option Failure :=
  let fluent? (f : String) : Option Failure :=
    if f ∈ fluents then none else some (.line d.line (.undeclaredFluent f))
  let operator? (o : String) : Option Failure :=
    if o ∈ operators then none else some (.line d.line (.undeclaredOperator o))
  match d.declaration with
  | .fluent _ | .operator _ => none
  | .precondition o f _ | .effect o f _ => (fluent? f).or (operator? o)
  | .initially f _ | .goal f _ => fluent? f

/-! ### Putting the problem together -/

/-- The preconditions stated for an operator. -/
def preconditionsOf (ds : List Located) (operator : String) : List LabelledCondition :=
  ds.filterMap fun d =>
    match d.declaration with
    | .precondition o f p => if o = operator then some (f, p) else none
    | _ => none

/-- The effects stated for an operator. -/
def effectsOf (ds : List Located) (operator : String) : List LabelledCondition :=
  ds.filterMap fun d =>
    match d.declaration with
    | .effect o f p => if o = operator then some (f, p) else none
    | _ => none

/-- The fluents stated to be initially true. -/
def initiallyTrue (ds : List Located) : List String :=
  ds.filterMap fun d =>
    match d.declaration with
    | .initially f true => some f
    | _ => none

/-- The edits that add the operators, each with all conditions stated for it, and set the initial
state. -/
def edits (ds : List Located) : List Edit :=
  (operatorNames ds).eraseDups.map (fun o => .operator o (preconditionsOf ds o) (effectsOf ds o))
    ++ (initiallyTrue ds).map .initiallyTrue

/-- Adds the goal conditions stated, line by line. -/
def addGoals : Problem → List Located → Except Failure Problem
  | p, [] => .ok p
  | p, d :: rest =>
    match d.declaration with
    | .goal f polarity =>
      match p.edit (.goal f polarity) with
      | .ok q => addGoals q rest
      | .error reason => .error (.line d.line (.refused reason))
    | _ => addGoals p rest

/-- The problem stated by declarations. -/
def assemble (ds : List Located) : Except Failure Problem :=
  let fluents := FluentSet.ofList (fluentNames ds)
  match ds.findSome? (undeclared? fluents.labels (operatorNames ds)) with
  | some f => .error f
  | none =>
    match Problem.build fluents (edits ds) with
    | .error reason => .error (.refused reason)
    | .ok p => addGoals p ds

/-- The warnings about a text and the problem it states. -/
structure Result where
  /-- The warnings, in the order in which they are raised. -/
  warnings : List Warning
  /-- The problem, or the reason why there is none. -/
  problem : Except Failure Problem

/-- Reads a problem from lines. -/
def read (ls : List Line) : Result :=
  match readLines 1 ls with
  | (ws, .error f) => ⟨ws, .error f⟩
  | (ws, .ok ds) => ⟨ws ++ repetitions [] [] ds, assemble ds⟩

end HorizonPlanner.ProblemText
