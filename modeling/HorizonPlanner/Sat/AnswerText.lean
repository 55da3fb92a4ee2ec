import HorizonPlanner.Sat.Instance
import HorizonPlanner.Sat.Dimacs
import HorizonPlanner.Text.Blank
import HorizonPlanner.Text.Line

/-!
# Reading the answer of a SAT solver

A solver answers in lines: at most one status line, value lines with the literals of a model,
comments and empty lines. The values are closed by at most one zero. The order of the lines does not
matter, except that the last value given to a variable counts.
-/

namespace HorizonPlanner.Sat.AnswerText

open Text

/-- What a status line says. -/
inductive Status
  /-- The instance has a model. -/
  | satisfiable
  /-- The instance has no model. -/
  | unsatisfiable
  /-- The solver does not know. -/
  | unknown
  deriving DecidableEq, Repr

/-- What has been understood of an answer so far. -/
structure Reading where
  /-- The status, once it was given. -/
  status : Option Status
  /-- Whether there was a value line. -/
  hasValues : Bool
  /-- Whether a zero has closed the values. -/
  closed : Bool
  /-- The values given, the last one first. -/
  values : List Literal
  deriving DecidableEq, Repr

/-- Nothing has been read. -/
def Reading.start : Reading := ⟨none, false, false, []⟩

/-- Notes the status. -/
def Reading.setStatus (r : Reading) (s : Status) : Except MalformedAnswer Reading :=
  if r.status.isSome then .error .severalStatuses else .ok { r with status := some s }

/-- Notes a word of a value line, for an instance with `nVars` variables. -/
def Reading.word (nVars : Nat) (r : Reading) (w : List Char) : Except MalformedAnswer Reading :=
  match Numeral.toInt? w with
  | .error _ => .error (.notALiteral (String.ofList w))
  | .ok i =>
    if h : i = 0 then
      if r.closed then .error .severalZeroes else .ok { r with closed := true }
    else if nVars < i.natAbs then .error .unknownVariable
    else .ok { r with values := Literal.ofNonzero i h :: r.values }

/-- The status a line gives. -/
def statusOf? (line : List Char) : Option Status :=
  if line = "s SATISFIABLE".toList then some .satisfiable
  else if line = "s UNSATISFIABLE".toList then some .unsatisfiable
  else if line = "s UNKNOWN".toList then some .unknown
  else none

/-- Whether a line is to be skipped: a comment, an empty value line or an empty line. -/
def isSilent (line : List Char) : Bool :=
  line = [] || line = ['c'] || line = ['v'] || ['c', ' '].isPrefixOf line

/-- Notes a line. -/
def Reading.line (nVars : Nat) (r : Reading) (line : List Char) : Except MalformedAnswer Reading :=
  match statusOf? line with
  | some s => r.setStatus s
  | none =>
    if ['v', ' '].isPrefixOf line then
      ((words isSeparator line).drop 1).foldlM (Reading.word nVars) { r with hasValues := true }
    else if isSilent line then .ok r
    else .error (.unexpectedLine (String.ofList line))

/-- Notes lines up to the first that is at fault. -/
def Reading.lines (nVars : Nat) : Reading → List Line → Except MalformedAnswer Reading
  | r, [] => .ok r
  | _, .error _ :: _ => .error .undecodable
  | r, .ok l :: rest =>
    match r.line nVars l with
    | .ok r => r.lines nVars rest
    | .error fault => .error fault

/-- The values of `nVars` variables that are given by literals; those in front override those
behind. -/
def valuesOf (nVars : Nat) (literals : List Literal) : Array (Option Bool) :=
  literals.foldr (fun l values => values.setIfInBounds (l.var.number - 1) (some l.positive))
    (Array.replicate nVars none)

/-- There is a value, or none, for each of the variables. -/
theorem size_valuesOf (nVars : Nat) (literals : List Literal) :
    (valuesOf nVars literals).size = nVars := by
  induction literals with
  | nil => exact Array.size_replicate
  | cons l literals ih => exact Array.size_setIfInBounds.trans ih

/-- The assignment of `nVars` variables that is given by literals. -/
def assignmentOf {nVars : Nat} (room : nVars < Word.half) (literals : List Literal) : Assignment :=
  ⟨valuesOf nVars literals, by rw [size_valuesOf]; exact room⟩

/-- What a whole answer means. A model needs both the status and a value line. -/
def Reading.answer {nVars : Nat} (room : nVars < Word.half) (r : Reading) : Answer :=
  match r.status with
  | some .satisfiable => if r.hasValues then .satisfiable (assignmentOf room r.values) else .unknown
  | some .unsatisfiable => .unsatisfiable
  | _ => .unknown

/-- Reads the answer a solver wrote about an instance with `nVars` variables. Room for their values
is set aside before anything is read. -/
def read (nVars : Nat) (bytes : List UInt8) : Except Violation Answer :=
  if room : nVars < Word.half then
    match Reading.start.lines nVars (Text.lines bytes none) with
    | .ok r => .ok (r.answer room)
    | .error fault => .error (.malformedAnswer fault)
  else .error .noRoom

end HorizonPlanner.Sat.AnswerText

namespace HorizonPlanner.Sat

/-- The answer of a solver that has written this output about an instance. -/
def Instance.answerOf (i : Instance) (output : List UInt8) : Except Violation Answer :=
  AnswerText.read i.nVars output

end HorizonPlanner.Sat
