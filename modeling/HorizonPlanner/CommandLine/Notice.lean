import HorizonPlanner.CommandLine.Help
import HorizonPlanner.Duration
import HorizonPlanner.ProblemText
import HorizonPlanner.Search.Horizon
import HorizonPlanner.Text.Quoted

/-!
# Notices

While the planner works it tells what it does. Notices are lines of the log, which is interleaved
with the results; an exclamation mark and the level in front of a line tell them apart.
-/

namespace HorizonPlanner.CommandLine

open Text

/-- How times are shown. -/
structure TimeStyle where
  /-- A time with its unit. -/
  span : Nat → String
  /-- A number of seconds, without a unit. -/
  seconds : Nat → String

/-- Times are shown exactly in the largest unit that fits, and in seconds up to a thousandth. -/
def TimeStyle.exact : TimeStyle :=
  ⟨Duration.text, Duration.thousandths⟩

/-- What the planner tells about its work. -/
inductive Notice
  /-- It has started. -/
  | started
  /-- A line of help. -/
  | help (line : String)
  /-- It has done its work within this time. -/
  | finished (elapsed : Nat)
  /-- It has failed. -/
  | failed (reason : String)
  /-- This was the reason for the failure just told. -/
  | causedBy (reason : String)
  /-- A file is being read. -/
  | reading (path : String)
  /-- A line of the file looks wrong. -/
  | odd (warning : ProblemText.Warning)
  /-- A problem was read. -/
  | problemRead (nFluents nOperators nGoals : Nat)
  /-- So many fluents are true in the initial state. -/
  | initiallyTrue (count : Nat)
  /-- No goal condition is out of reach at first sight. -/
  | goalsInReach
  /-- The goal condition on a fluent is out of reach. -/
  | goalOutOfReach (fluent : String)
  /-- The goal condition on a fluent is out of reach, and so is the goal. -/
  | goalHopeless (fluent : String)
  /-- The size of an encoding. -/
  | encoded (horizon nVars nClauses : Nat)
  /-- A program is given but will not be used. -/
  | programIgnored
  /-- The embedded solver will be used. -/
  | embeddedEngine
  /-- A program will be used as a solver. -/
  | externalEngine (path : String)
  /-- A search begins. -/
  | searching (minHorizon maxHorizon timeout : Nat)
  /-- A horizon is about to be tried. -/
  | trying (horizon limit : Nat)
  /-- A solver is called. -/
  | launching (nVars nClauses : Nat)
  /-- A program could not be started. -/
  | notLaunched (path why : String)
  /-- A program was stopped at its time limit. -/
  | killed
  /-- A solver has answered. -/
  | answered (answer : Sat.Answer)
  /-- A horizon was tried. -/
  | tried (attempt : Search.Attempt)
  /-- A search has ended. -/
  | ended (outcome : Search.Outcome)
  /-- A search has shown that there is no plan at all. -/
  | noPlanAtAll (maxHorizon : Nat)
  /-- All attempts together took this time. -/
  | attempts (count time : Nat)
  deriving Repr

namespace Notice

/-- The level of a notice. -/
def level : Notice → Level
  | .trying _ _ | .killed => .debug
  | .odd _ | .goalOutOfReach _ | .goalHopeless _ | .programIgnored | .notLaunched _ _ => .warn
  | .failed _ | .causedBy _ => .error
  | _ => .info

/-- How the end of a search is told. -/
def outcomeText : Search.Outcome → String
  | .planFound horizon plan =>
    "found a plan with " ++ Numeral.text plan.nActions ++ " action(s) in " ++
      Numeral.text plan.length ++ " step(s) for horizon " ++ Numeral.text horizon
  | .horizonExhausted maxHorizon _ => "no plan up to horizon " ++ Numeral.text maxHorizon
  | .timedOut horizon => "time budget exhausted while trying horizon " ++ Numeral.text horizon

/-- The text of a notice. -/
def text (style : TimeStyle) : Notice → String
  | .started => version
  | .help line => line
  | .finished elapsed => "exiting successfully after " ++ style.span elapsed
  | .failed reason => "an error occurred: " ++ reason
  | .causedBy reason => "caused by: " ++ reason
  | .reading path => "reading input file " ++ Quoted.text path
  | .odd warning => "at line " ++ Numeral.text warning.line ++ ": " ++ warning.oddity.message
  | .problemRead nFluents nOperators nGoals =>
    "the problem has " ++ Numeral.text nFluents ++ " fluent(s), " ++ Numeral.text nOperators
      ++ " operator(s) and " ++ Numeral.text nGoals ++ " goal condition(s)"
  | .initiallyTrue count => Numeral.text count ++ " fluent(s) are initially true"
  | .goalsInReach => "every goal condition is either initially satisfied or produced by an operator"
  | .goalOutOfReach fluent => "the goal condition on fluent " ++ fluent ++ " can never be satisfied"
  | .goalHopeless fluent =>
    "the goal condition on fluent " ++ fluent ++ " can never be satisfied: the problem has no plan"
  | .encoded horizon nVars nClauses =>
    "the encoding for horizon " ++ Numeral.text horizon ++ " has " ++ Numeral.text nVars ++
      " variables and " ++ Numeral.text nClauses ++ " clauses"
  | .programIgnored =>
    "the external SAT solver is ignored since the selected engine is the embedded one"
  | .embeddedEngine => "using the embedded SAT solver"
  | .externalEngine path => "using " ++ Quoted.text path ++ " as the SAT solver"
  | .searching minHorizon maxHorizon timeout =>
    "looking for a plan with horizon in [" ++ Numeral.text minHorizon ++ ", " ++
      Numeral.text maxHorizon ++ "] within " ++ Duration.text timeout
  | .trying horizon limit =>
    "trying horizon " ++ Numeral.text horizon ++ " (time limit is " ++ style.span limit ++ ")"
  | .launching nVars nClauses =>
    "launching SAT solver on an instance with " ++ Numeral.text nVars ++ " variables and "
      ++ Numeral.text nClauses ++ " clauses"
  | .notLaunched path why =>
    "failed to launch external SAT solver " ++ Quoted.text path ++ ": " ++ why
  | .killed => "external SAT solver reached its time limit; killing it"
  | .answered answer => "SAT solver ended with result " ++ answer.name
  | .tried a =>
    "horizon " ++ Numeral.text a.horizon ++ ": " ++ Numeral.text a.nVars ++ " variables, "
      ++ Numeral.text a.nClauses ++ " clauses, encoded in " ++ style.seconds a.encodingTime
      ++ "s, solved in " ++ style.seconds a.solvingTime ++ "s: " ++ a.verdict.name
  | .ended outcome => outcomeText outcome
  | .noPlanAtAll maxHorizon =>
    "horizon " ++ Numeral.text maxHorizon ++
      " exceeds the number of states: the problem has no plan"
  | .attempts count time => Numeral.text count ++ " attempt(s) in " ++ style.seconds time ++ "s"

end Notice

/-- A level as it is shown: five characters in a colour. -/
def Level.tag : Level → String
  | .debug => Colour.white.paint "DEBUG"
  | .info => Colour.cyan.paint "INFO "
  | .warn => Colour.yellow.paint "WARN "
  | .error => Colour.red.paint "ERROR"

/-- What the planner writes. -/
inductive Output
  /-- A notice, as a line of the log. -/
  | notice (n : Notice)
  /-- A result, as it is. -/
  | result (text : List Char)
  deriving Repr

/-- The text that is written. -/
def Output.text (style : TimeStyle) : Output → String
  | .notice n => "![" ++ n.level.tag ++ "] " ++ n.text style ++ "\n"
  | .result text => String.ofList text

end HorizonPlanner.CommandLine
