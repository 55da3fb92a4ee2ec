import HorizonPlanner.Search.Horizon

/-!
# Written reports

The outcome of a search is reported as text: a plan as one line for each of its steps, the absence
of a plan and an open question as one line. Writing may fail when the medium is full or cannot be
flushed; what was written before stays.
-/

namespace HorizonPlanner.Report

open Text

/-- What a report says. -/
inductive Content
  /-- There is a plan. -/
  | plan
  /-- There is no plan. -/
  | absence
  /-- The question is open. -/
  | unknown
  deriving DecidableEq, Repr

/-- What is being done when a report is written. -/
def Content.activity : Content → String
  | .plan => "while writing a plan"
  | .absence => "while writing the absence of plan"
  | .unknown => "while writing an unknown status"

/-- The text of a report. It breaks off where an operator of the plan does not exist. -/
structure Draft where
  /-- What the report says. -/
  content : Content
  /-- The text up to its end, or to where it breaks off. -/
  text : List Char
  /-- Why the text breaks off. -/
  brokenOff : Option Violation
  deriving DecidableEq, Repr

/-- The line of a step: its time, a colon, and the labels of its operators. -/
def stepLine (time : Nat) (labels : List String) : List Char :=
  Numeral.ofNat time ++ [':'] ++ labels.flatMap (fun l => ' ' :: l.toList) ++ ['\n']

/-- The lines of steps, broken off in the line of a step that has an operator that does not
exist. -/
def stepLines (p : Problem) : List PlanStep → List Char × Option Violation
  | [] => ([], none)
  | s :: rest =>
    match s.resolve p with
    | .error v => (Numeral.ofNat s.time ++ [':'], some v)
    | .ok operators =>
      let r := stepLines p rest
      (stepLine s.time (operators.map (·.label)) ++ r.1, r.2)

/-- The report of a plan. -/
def ofPlan (p : Problem) (plan : Plan) : Draft :=
  let r := stepLines p plan.steps
  ⟨.plan, "PLAN\n".toList ++ r.1, r.2⟩

/-- The report of an outcome. -/
def ofOutcome (p : Problem) : Search.Outcome → Draft
  | .planFound _ plan => ofPlan p plan
  | .horizonExhausted _ _ => ⟨.absence, "NO PLAN\n".toList, none⟩
  | .timedOut _ => ⟨.unknown, "UNKNOWN\n".toList, none⟩

/-- What reports are written to. -/
structure Medium where
  /-- The number of bytes it takes, if there is a bound. -/
  capacity : Option Nat
  /-- Whether it fails when it is flushed. -/
  flushFails : Bool
  deriving DecidableEq, Repr

/-- The ways a medium fails. -/
inductive MediumFault
  /-- It takes no more bytes. -/
  | full
  /-- It cannot be flushed. -/
  | flush
  deriving DecidableEq, Repr

/-- The explanation of a failing medium. -/
def MediumFault.message : MediumFault → String
  | .full => "writer full"
  | .flush => "flush failed"

/-- The reason why a report could not be written. -/
structure Failure where
  /-- What the report says. -/
  content : Content
  /-- How the medium failed. -/
  fault : MediumFault
  deriving DecidableEq, Repr

/-- The explanation of a failure, from what was being done to the root cause. -/
def Failure.chain (f : Failure) : List String :=
  [f.content.activity, f.fault.message]

/-- The bytes of a text. -/
def bytes (text : List Char) : List UInt8 :=
  (String.ofList text).toUTF8.toList

/-- The bytes a medium has taken when the writing of a report ends. -/
def Medium.taken (m : Medium) (d : Draft) : List UInt8 :=
  match m.capacity with
  | some n => (bytes d.text).take n
  | none => bytes d.text

/-- Writes a report: all bytes, and then a flush. A medium that is full fails before a report breaks
off. -/
def Medium.write (m : Medium) (d : Draft) : Except (Fault Failure) Unit :=
  if (m.taken d).length < (bytes d.text).length then .error (.failed ⟨d.content, .full⟩)
  else
    match d.brokenOff with
    | some v => .error (.violated v)
    | none => if m.flushFails then .error (.failed ⟨d.content, .flush⟩) else .ok ()

end HorizonPlanner.Report
