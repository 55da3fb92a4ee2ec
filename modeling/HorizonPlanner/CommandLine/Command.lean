import HorizonPlanner.Sat.EngineKind

/-!
# Commands and their parameters

The planner is told by its first word what to do, and by parameters how to do it. A parameter is
named by a letter after one dash or by a word after two, and is followed by its value.
-/

namespace HorizonPlanner.CommandLine

open HorizonPlanner.Sat

/-- The importance of what is logged. -/
inductive Level
  /-- Details for the search of errors. -/
  | debug
  /-- What is being done. -/
  | info
  /-- Something that looks wrong. -/
  | warn
  /-- What makes the planner stop. -/
  | error
  deriving DecidableEq, Repr

/-- The rank of a level. -/
def Level.rank : Level → Nat
  | .debug => 1
  | .info => 2
  | .warn => 3
  | .error => 4

/-- The words for the least level that is logged, each with the rank of that level. -/
def thresholds : List (String × Nat) :=
  [("trace", 0), ("debug", 1), ("info", 2), ("warn", 3), ("error", 4), ("off", 5)]

/-- The word for the threshold used unless the user chooses. -/
def defaultThreshold : String := "info"

/-- The rank from which on is logged, by its word. -/
def thresholdOf (word : String) : Nat :=
  ((thresholds.find? (·.1 == word)).map (·.2)).getD Level.info.rank

/-- The parameters of the commands. -/
inductive Parameter
  /-- The file that holds the problem. -/
  | input
  /-- The horizon to encode. -/
  | horizon
  /-- The file to write to. -/
  | output
  /-- The first horizon of a search. -/
  | minHorizon
  /-- The last horizon of a search. -/
  | maxHorizon
  /-- The time budget of a search. -/
  | timeout
  /-- The time limit of a call of the solver. -/
  | attemptTimeout
  /-- The kind of solver. -/
  | engine
  /-- The program used as a solver. -/
  | program
  /-- An argument for that program. -/
  | programOption
  /-- The least level that is logged. -/
  | threshold
  deriving DecidableEq, Repr

namespace Parameter

/-- The letter that names a parameter. -/
def letter? : Parameter → Option Char
  | .input => some 'f'
  | .output => some 'o'
  | _ => none

/-- The word that names a parameter. -/
def word? : Parameter → Option String
  | .input => none
  | .horizon => some "horizon"
  | .output => some "output"
  | .minHorizon => some "min-horizon"
  | .maxHorizon => some "max-horizon"
  | .timeout => some "timeout"
  | .attemptTimeout => some "attempt-timeout"
  | .engine => some "sat-solver"
  | .program => some "external-sat-solver"
  | .programOption => some "external-sat-solver-opt"
  | .threshold => some "logging-level"

/-- The name of the value in messages. -/
def valueName : Parameter → String
  | .input => "INPUT"
  | .horizon => "ARG_HORIZON"
  | .output => "ARG_OUT"
  | .minHorizon => "MIN_HORIZON"
  | .maxHorizon => "MAX_HORIZON"
  | .timeout => "TIMEOUT"
  | .attemptTimeout => "ATTEMPT_TIMEOUT"
  | .engine => "SAT_SOLVER"
  | .program => "EXTERNAL_SAT_SOLVER"
  | .programOption => "EXTERNAL_SAT_SOLVER_OPTIONS"
  | .threshold => "APP_HELPER_LOGGING_LEVEL_ARG"

/-- Whether a parameter may be given more than once. -/
def isRepeatable (p : Parameter) : Bool :=
  p == .programOption

/-- Whether the value may be an empty text. -/
def allowsEmpty (p : Parameter) : Bool :=
  p == .threshold

/-- The words a value is chosen from, if it is not free. -/
def choices? : Parameter → Option (List String)
  | .engine => some (EngineKind.all.map EngineKind.word)
  | .threshold => some (thresholds.map (·.1))
  | _ => none

/-- How a parameter is shown in messages. -/
def display (p : Parameter) : String :=
  let name :=
    match p.word?, p.letter? with
    | some w, _ => "--" ++ w
    | none, some c => String.ofList ['-', c]
    | none, none => ""
  name ++ " <" ++ p.valueName ++ ">" ++ if p.isRepeatable then "..." else ""

end Parameter

/-- What the planner may be told to do. -/
inductive Command
  /-- Show who made the planner. -/
  | authors
  /-- Check a problem for errors. -/
  | check
  /-- Write the encoding of a problem. -/
  | encode
  /-- Look for a plan. -/
  | solve
  deriving DecidableEq, Repr

namespace Command

/-- All commands. -/
def all : List Command :=
  [.authors, .check, .encode, .solve]

/-- The word for a command. -/
def word : Command → String
  | .authors => "authors"
  | .check => "check"
  | .encode => "encode-to-sat"
  | .solve => "solve"

/-- The command a word stands for. -/
def ofWord? (w : String) : Option Command :=
  all.find? (·.word == w)

/-- The parameters of a command, in the order in which they are looked at. -/
def parameters : Command → List Parameter
  | .authors => [.threshold]
  | .check => [.input, .threshold]
  | .encode => [.input, .threshold, .horizon, .output]
  | .solve =>
    [.input, .minHorizon, .maxHorizon, .timeout, .attemptTimeout, .engine,
      .program, .programOption, .threshold]

/-- The parameters a command cannot do without, in the order in which they are asked for. -/
def required : Command → List Parameter
  | .authors => []
  | .check | .solve => [.input]
  | .encode => [.horizon, .input]

/-- The parameter of a command with this letter. -/
def parameterOfLetter? (c : Command) (letter : Char) : Option Parameter :=
  c.parameters.find? (·.letter? == some letter)

/-- The parameter of a command with this word. -/
def parameterOfWord? (c : Command) (word : String) : Option Parameter :=
  c.parameters.find? (·.word? == some word)

end Command

end HorizonPlanner.CommandLine
