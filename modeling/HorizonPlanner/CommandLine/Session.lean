import HorizonPlanner.CommandLine.Notice
import HorizonPlanner.Plan.Validation
import HorizonPlanner.Report
import HorizonPlanner.Sat.AnswerText
import HorizonPlanner.Sat.Buffer
import HorizonPlanner.Sat.Embedded

/-!
# Sessions

A session executes one command. Files, programs, the clock and the terminal are in the hands of a
host, which is a parameter. A session ends well, with a failure that is explained, or with a
breakdown when a condition was broken that only its caller can keep.
-/

namespace HorizonPlanner.CommandLine

open HorizonPlanner.Sat Text

/-- What a file holds. -/
structure FileContent where
  /-- The bytes that can be read. -/
  bytes : List UInt8
  /-- Why reading stops after them, if not because the file ends. -/
  broken : Option String
  deriving DecidableEq, Repr

/-- How running a program ends. -/
inductive Launch
  /-- The program ended by itself, with this output. -/
  | finished (output : List UInt8)
  /-- The program was stopped at its time limit, having written this output. -/
  | killed (output : List UInt8)
  /-- The program could not be started. -/
  | refused (why : String)
  deriving DecidableEq, Repr

/-- What is read of the output of a program: all it has written, and nothing if it could not be
started. -/
def Launch.output : Launch → List UInt8
  | .finished output => output
  | .killed output => output
  | .refused _ => []

/-- The world a session runs in. What it refuses it explains. -/
structure Host (m : Type → Type) where
  /-- The full path of a file, which must exist. -/
  locate : String → m (Except String String)
  /-- The content of a file. -/
  load : String → m (Except String FileContent)
  /-- Stores a text in a file. -/
  store : String → List Char → m (Except String Unit)
  /-- Runs a program with arguments within a time limit on an input. -/
  launch : String → List String → Option Nat → List Char → m Launch
  /-- The library of the embedded solver, for a time limit. -/
  library : Option Nat → Embedded.Library
  /-- The current time. -/
  now : m Nat
  /-- Writes to the terminal. -/
  write : Output → m Unit

/-- The reasons for which a session fails. -/
inductive Failure
  /-- The planner is used wrongly. -/
  | usage (error : UsageError)
  /-- Something is needed that is not given. -/
  | lacking (what : String)
  /-- A value is not a natural number. -/
  | badNumber (value : String) (fault : Numeral.Fault)
  /-- A value is not a duration. -/
  | badDuration (value : String)
  /-- The parameters of the search make no sense. -/
  | config (fault : Search.ConfigFault)
  /-- A file cannot be opened. -/
  | opening (path why : String)
  /-- A file does not hold a problem. -/
  | reading (path : String) (failure : ProblemText.Failure)
  /-- A file cannot be written. -/
  | writing (path why : String)
  /-- A plan does not solve its problem. -/
  | flaw (flaw : Plan.Flaw)
  deriving Repr

/-- What is being done to a file. -/
def activity (doing path : String) : String :=
  "while " ++ doing ++ " file \"" ++ path ++ "\""

/-- The explanation of a failure, from what was being done to the root cause. -/
def Failure.chain : Failure → List String
  | .usage error => ["error: " ++ error.message]
  | .lacking what => ["missing " ++ what]
  | .badNumber value fault =>
    ["invalid value " ++ Quoted.text value ++ ": expected a non-negative integer", fault.message]
  | .badDuration value =>
    ["invalid value " ++ Quoted.text value ++ ": expected a number of seconds"]
  | .config fault => [fault.message]
  | .opening path why => [activity "opening" path, why]
  | .reading path failure => activity "reading" path :: failure.chain
  | .writing path why => [activity "writing" path, why]
  | .flaw f => [f.message]

/-! ### Values of parameters -/

namespace Given

/-- The natural number given for a parameter. -/
def number? (g : Given) (p : Parameter) : Except Failure (Option Nat) :=
  match g.value? p with
  | none => .ok none
  | some value =>
    match Numeral.toNat? value.toList with
    | .ok n => .ok (some n)
    | .error fault => .error (.badNumber value fault)

/-- The duration given for a parameter. -/
def duration? (g : Given) (p : Parameter) : Except Failure (Option Nat) :=
  match g.value? p with
  | none => .ok none
  | some value =>
    match Duration.ofSeconds? value.toList with
    | some n => .ok (some n)
    | none => .error (.badDuration value)

/-- The path of the file that holds the problem. -/
def inputPath (g : Given) : Except Failure String :=
  match g.value? .input with
  | some path => .ok path
  | none => .error (.lacking "input file")

/-- The horizon to encode. -/
def horizon (g : Given) : Except Failure Nat :=
  match g.number? .horizon with
  | .ok (some h) => .ok h
  | .ok none => .error (.lacking "horizon")
  | .error f => .error f

/-- The parameters of the search. -/
def config (g : Given) : Except Failure Search.Config := do
  let d := Search.Config.default
  let minHorizon ← g.number? .minHorizon
  let maxHorizon ← g.number? .maxHorizon
  let timeout ← g.duration? .timeout
  let attemptTimeout ← g.duration? .attemptTimeout
  let config : Search.Config :=
    ⟨minHorizon.getD d.minHorizon, maxHorizon.getD d.maxHorizon, timeout.getD d.timeout,
      attemptTimeout⟩
  match config.validate with
  | .ok _ => return config
  | .error fault => throw (.config fault)

/-- The kind of solver. A program that is given is used unless the user chooses otherwise. -/
def engineKind (g : Given) : EngineKind :=
  match (g.value? .engine).bind EngineKind.ofWord? with
  | some kind => kind
  | none => if g.has .program then .external else EngineKind.default

end Given

/-! ### Execution of commands -/

/-- The state of the terminal: where to write, and from which rank on to log. -/
structure Session (m : Type → Type) where
  /-- The host. -/
  host : Host m
  /-- The least rank that is logged. -/
  threshold : Nat

/-- A part of a session, which may stop short. -/
abbrev Act (m : Type → Type) (α : Type) :=
  ExceptT (Fault Failure) m α

variable {m : Type → Type} [Monad m]

/-- Goes on with a value, or stops with a failure. -/
def Act.ofExcept {α : Type} (x : Except Failure α) : Act m α :=
  match x with
  | .ok a => pure a
  | .error f => throw (.failed f)

namespace Session

/-- Writes a notice, if it is important enough. -/
def say (s : Session m) (n : Notice) : m Unit :=
  if s.threshold ≤ n.level.rank then s.host.write (.notice n) else pure ()

/-- Writes a result. -/
def print (s : Session m) (text : List Char) : m Unit :=
  s.host.write (.result text)

/-- The full path of a file. -/
def locate (s : Session m) (path : String) : Act m String := do
  match ← s.host.locate path with
  | .ok full => return full
  | .error why => throw (.failed (.opening path why))

/-- Reads the problem in a file. -/
def readProblem (s : Session m) (path : String) : Act m Problem := do
  let full ← s.locate path
  s.say (.reading full)
  match ← s.host.load full with
  | .error why => throw (.failed (.opening path why))
  | .ok content =>
    let result := ProblemText.read (lines content.bytes content.broken)
    result.warnings.forM fun w => s.say (.odd w)
    match result.problem with
    | .error failure => throw (.failed (.reading path failure))
    | .ok p =>
      s.say (.problemRead p.nFluents p.nOperators p.goal.length)
      return p

/-- The labels of fluents with a goal condition out of reach. -/
def labelsOutOfReach (p : Problem) : List String :=
  p.unreachableGoals.map fun c => p.fluentLabel c.fluent

/-- Checks a problem for errors. -/
def check (s : Session m) (g : Given) : Act m Unit := do
  let path ← Act.ofExcept g.inputPath
  let p ← s.readProblem path
  s.say (.initiallyTrue (p.initial.toList.count true))
  match labelsOutOfReach p with
  | [] => s.say .goalsInReach
  | labels => labels.forM fun l => s.say (.goalHopeless l)

/-- The text of clauses over at least `nVars` variables, taken down by a solver that does not
answer. -/
def takenDown (clauses : ClauseSet) (nVars : Nat) : Except Violation (List Char) := do
  let i := (Instance.empty.reserve nVars).addClauses clauses.toList
  let _ ← i.answerOf "s UNKNOWN".toUTF8.toList
  return (Buffer.ofInstance i).source.text

/-- Writes the encoding of a problem to a file, or to the terminal. -/
def encode (s : Session m) (g : Given) : Act m Unit := do
  let path ← Act.ofExcept g.inputPath
  let horizon ← Act.ofExcept g.horizon
  let p ← s.readProblem path
  let layout := p.layout horizon
  match do return (← layout.encode p, ← layout.varCount) with
  | .error v => throw (.violated v)
  | .ok (clauses, nVars) =>
    s.say (.encoded horizon nVars clauses.size)
    match takenDown clauses nVars with
    | .error v => throw (.violated v)
    | .ok text =>
      match g.value? .output with
      | none => s.print text
      | some output =>
        match ← s.host.store output text with
        | .ok _ => return ()
        | .error why => throw (.failed (.writing output why))

/-- A solver whose calls are logged. -/
def logged (s : Session m) (nVars : Instance → Nat) (engine : Engine m) : Engine m := fun i => do
  s.say (.launching (nVars i) i.nClauses)
  match ← engine i with
  | .ok answer =>
    s.say (.answered answer)
    return .ok answer
  | .error v => return .error v

/-- A program used as a solver. -/
def externalEngine (s : Session m) (path : String) (options : List String) : Engine m := fun i => do
  let launch ← s.host.launch path options i.timeLimit (Buffer.ofInstance i).source.text
  match launch with
  | .refused why => s.say (.notLaunched path why)
  | .killed _ => s.say .killed
  | .finished _ => pure ()
  return i.answerOf launch.output

/-- The solver to use. -/
def engine (s : Session m) (g : Given) : Act m (Engine m) := do
  match g.engineKind, g.value? .program with
  | .embedded, program? =>
    if program?.isSome then s.say .programIgnored
    s.say .embeddedEngine
    return s.logged Embedded.nVars fun i => pure ((s.host.library i.timeLimit).solve i)
  | .external, none => throw (.failed (.lacking "external SAT solver"))
  | .external, some program =>
    let path ← s.locate program
    s.say (.externalEngine path)
    return s.logged Instance.nVars (s.externalEngine path (g.valuesOf .programOption))

/-- What a search needs from a session: its events are logged. -/
def surroundings (s : Session m) (engine : Engine m) : Search.Surroundings m where
  engine := engine
  now := s.host.now
  tell
    | .trying horizon limit => s.say (.trying horizon limit)
    | .tried attempt => s.say (.tried attempt)

/-- Examines an outcome before it is reported: a plan must solve the problem. -/
def examine (s : Session m) (p : Problem) : Search.Outcome → Act m Unit
  | .planFound _ plan =>
    match plan.validate p with
    | .ok _ => pure ()
    | .error fault => throw (fault.map .flaw)
  | .horizonExhausted maxHorizon true => s.say (.noPlanAtAll maxHorizon)
  | _ => pure ()

/-- Writes the report of an outcome. -/
def report (s : Session m) (p : Problem) (outcome : Search.Outcome) : Act m Unit := do
  let draft := Report.ofOutcome p outcome
  s.print draft.text
  match draft.brokenOff with
  | some v => throw (.violated v)
  | none => return ()

/-- Looks for a plan. -/
def solve (s : Session m) (g : Given) : Act m Unit := do
  let path ← Act.ofExcept g.inputPath
  let config ← Act.ofExcept g.config
  let p ← s.readProblem path
  (labelsOutOfReach p).forM fun l => s.say (.goalOutOfReach l)
  let engine ← s.engine g
  s.say (.searching config.minHorizon config.maxHorizon config.timeout)
  let (result, attempts) ← ((Search.run (s.surroundings engine) p config).run [] : m _)
  match result with
  | .error v => throw (.violated v)
  | .ok outcome =>
    s.say (.ended outcome)
    s.examine p outcome
    let time := attempts.foldl (fun t a => t + a.encodingTime + a.solvingTime) 0
    s.say (.attempts attempts.length time)
    s.report p outcome

/-- Executes a command. -/
def execute (s : Session m) (g : Given) : Command → Act m Unit
  | .authors => s.print (version ++ "\n" ++ makers ++ "\n").toList
  | .check => s.check g
  | .encode => s.encode g
  | .solve => s.solve g

end Session

/-! ### The whole planner -/

/-- How a session ends. -/
inductive Ending
  /-- It has done its work. -/
  | success
  /-- It has failed and has told why. -/
  | failure
  /-- It has broken down. -/
  | breakdown (violation : Violation)
  deriving DecidableEq, Repr

/-- The exit status of the planner. -/
def Ending.status : Ending → Nat
  | .success => 0
  | .failure => 1
  | .breakdown _ => 101

/-- Tells a failure and its causes. -/
def Session.explain (s : Session m) : List String → m Unit
  | [] => pure ()
  | reason :: causes => do
    s.say (.failed reason)
    causes.forM fun c => s.say (.causedBy c)

/-- Ends a session that was started at some time. -/
def Session.conclude (s : Session m) (start : Nat) : Except (Fault Failure) Unit → m Ending
  | .ok _ => do
    let now ← s.host.now
    s.say (.finished (now - start))
    return .success
  | .error (.failed f) => do
    s.explain f.chain
    return .failure
  | .error (.violated v) => return .breakdown v

/-- Runs the planner on the words it is given. Until the words are understood, the log has its usual
threshold. -/
def run (h : Host m) (words : List String) : m Ending := do
  let start ← h.now
  let usual : Session m := ⟨h, thresholdOf defaultThreshold⟩
  match Request.read words with
  | .error e =>
    usual.say .started
    usual.conclude start (.error (.failed (.usage e)))
  | .ok .help =>
    (Help.lines (helpTopic? words) ++ [""]).forM fun l => usual.say (.help l)
    usual.conclude start (.ok ())
  | .ok (.run command g) =>
    let s : Session m := ⟨h, thresholdOf ((g.value? .threshold).getD defaultThreshold)⟩
    s.say .started
    s.conclude start (← (s.execute g command).run)

end HorizonPlanner.CommandLine
