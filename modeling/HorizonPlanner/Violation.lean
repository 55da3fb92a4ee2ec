import HorizonPlanner.Text.Numeral

/-!
# Broken calling conventions

Most operations of the planner either succeed or fail with a reason for the user. A few also have
conditions that only the caller can keep, such as passing an identifier that exists. `Violation`
lists the ways of breaking them, each with the text that reports it.
-/

namespace HorizonPlanner

open Text

/-- The ways the answer of a SAT solver may be malformed. -/
inductive MalformedAnswer
  /-- The bytes of a line are not a text. -/
  | undecodable
  /-- There is more than one status line. -/
  | severalStatuses
  /-- A word of a value line is not an integer. -/
  | notALiteral (word : String)
  /-- More than one zero ends the values. -/
  | severalZeroes
  /-- A value is about a variable the instance does not have. -/
  | unknownVariable
  /-- A line is neither a status, nor values, nor a comment. -/
  | unexpectedLine (line : String)
  deriving DecidableEq, Repr

/-- The description of a malformed answer. -/
def MalformedAnswer.message : MalformedAnswer → String
  | .undecodable => "stream did not contain valid UTF-8"
  | .severalStatuses => "multiple status lines"
  | .notALiteral word => "\"" ++ word ++ "\" is not a literal"
  | .severalZeroes => "multiple zeroes on value line"
  | .unknownVariable => "a variable in value line is out of bounds"
  | .unexpectedLine line => "unexpected line \"" ++ line ++ "\""

/-- The operations on words whose result may be no word. -/
inductive WordOperation
  /-- The sum of two words. -/
  | addition
  /-- The product of two words. -/
  | multiplication
  /-- The opposite of a signed word. -/
  | negation
  deriving DecidableEq, Repr

/-- The verb for an operation on words. -/
def WordOperation.verb : WordOperation → String
  | .addition => "add"
  | .multiplication => "multiply"
  | .negation => "negate"

/-- The ways of breaking the conditions of an operation. -/
inductive Violation
  /-- An identifier, or a position, is beyond the end of the sequence it refers to. -/
  | indexOutOfBounds (size index : Nat)
  /-- Zero was given for a variable. -/
  | zeroVariable
  /-- A negative integer was given for a variable. -/
  | negativeVariable
  /-- The variable of a fluent was asked for outside the layout. -/
  | noStateVariable (fluent step horizon : Nat)
  /-- The variable of an operator was asked for outside the layout. -/
  | noActionVariable (operator step horizon : Nat)
  /-- The steps of a plan are not in strictly increasing order of time. -/
  | unorderedSteps
  /-- A model was expected from an answer that leaves the question open. -/
  | noModelOfUnknown
  /-- A search was asked to go on after its end. -/
  | terminalState
  /-- The result of an operation on words is no word. -/
  | overflow (operation : WordOperation)
  /-- A word was to be divided by zero. -/
  | divisionByZero
  /-- The remainder of a word was asked for that zero leaves. -/
  | remainderByZero
  /-- Room was asked for more bytes than can be addressed. -/
  | noRoom
  /-- A deadline is beyond the last point of time. -/
  | unreachableDeadline
  /-- A SAT solver wrote an answer that cannot be understood. -/
  | malformedAnswer (fault : MalformedAnswer)
  deriving DecidableEq, Repr

/-- The text that reports a violation. -/
def Violation.message : Violation → String
  | .indexOutOfBounds size index =>
    "index out of bounds: the len is " ++ Numeral.text size ++ " but the index is " ++
      Numeral.text index
  | .zeroVariable => "called `Result::unwrap()` on an `Err` value: TryFromIntError(Zero)"
  | .negativeVariable => "cannot build a variable from a negative integer"
  | .noStateVariable fluent step horizon =>
    "no state variable for fluent " ++ Numeral.text fluent ++ " at step " ++ Numeral.text step
      ++ " (horizon is " ++ Numeral.text horizon ++ ")"
  | .noActionVariable operator step horizon =>
    "no action variable for operator " ++ Numeral.text operator ++ " at step " ++ Numeral.text step
      ++ " (horizon is " ++ Numeral.text horizon ++ ")"
  | .unorderedSteps => "plan steps must be sorted by strictly increasing time steps"
  | .noModelOfUnknown => "cannot unwrap solving result when the solver returned \"Unknown\""
  | .terminalState => "no transition from a terminal state"
  | .overflow operation => "attempt to " ++ operation.verb ++ " with overflow"
  | .divisionByZero => "attempt to divide by zero"
  | .remainderByZero => "attempt to calculate the remainder with a divisor of zero"
  | .noRoom => "capacity overflow"
  | .unreachableDeadline => "overflow when adding duration to instant"
  | .malformedAnswer fault =>
    "error while reading solving function output in BufferedSatSolver: " ++ fault.message

/-- The two ways an operation may stop short: with a reason for the user, or with a broken
condition. -/
inductive Fault (ε : Type)
  /-- The operation failed for this reason. -/
  | failed (reason : ε)
  /-- The caller broke this condition. -/
  | violated (violation : Violation)
  deriving DecidableEq, Repr

/-- The same fault, with its reason told in another way. -/
def Fault.map {ε δ : Type} (f : ε → δ) : Fault ε → Fault δ
  | .failed reason => .failed (f reason)
  | .violated violation => .violated violation

/-- The element at a position, if the position is within bounds. -/
def lookup {α : Type} (xs : List α) (i : Nat) : Except Violation α :=
  match xs[i]? with
  | some x => .ok x
  | none => .error (.indexOutOfBounds xs.length i)

end HorizonPlanner
