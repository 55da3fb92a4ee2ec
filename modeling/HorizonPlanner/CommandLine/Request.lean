import HorizonPlanner.CommandLine.Usage

/-!
# Requests

The words given to the planner ask for help or for a command with values for its parameters. They
are read from left to right; the first word that makes no sense ends the reading. What was read is
then checked as a whole.
-/

namespace HorizonPlanner.CommandLine

open HorizonPlanner.Sat

/-- What the words say about parameters. -/
structure Given where
  /-- The parameters in the order in which they are mentioned. -/
  mentions : List Parameter
  /-- The values in the order in which they are given. -/
  values : List (Parameter × String)
  deriving DecidableEq, Repr

namespace Given

/-- Nothing has been said. -/
def nothing : Given := ⟨[], []⟩

/-- Mentions a parameter. -/
def mention (g : Given) (p : Parameter) : Given :=
  { g with mentions := g.mentions ++ [p] }

/-- Gives a value to a parameter. -/
def give (g : Given) (p : Parameter) (value : String) : Given :=
  { g with values := g.values ++ [(p, value)] }

/-- Whether a parameter is mentioned. -/
def has (g : Given) (p : Parameter) : Bool :=
  g.mentions.contains p

/-- The values of a parameter. The threshold of logging has a value even if none is given. -/
def valuesOf (g : Given) (p : Parameter) : List String :=
  let given := g.values.filterMap fun v => if v.1 = p then some v.2 else none
  if p = .threshold ∧ given = [] then [defaultThreshold] else given

/-- The first value of a parameter. -/
def value? (g : Given) (p : Parameter) : Option String :=
  (g.valuesOf p).head?

end Given

/-- What the words ask for. -/
inductive Request
  /-- To show help. -/
  | help
  /-- To execute a command. -/
  | run (command : Command) (given : Given)
  deriving DecidableEq, Repr

/-! ### Reading the words -/

/-- Whether a word has the form of a parameter: a dash, and something behind it. -/
def isDashed (word : String) : Bool :=
  match word.toList with
  | '-' :: _ :: _ => true
  | _ => false

/-- Whether a word is the value that a parameter is waiting for. The options of a program may begin
with dashes. -/
def isValueOf (awaiting : Option Parameter) (word : String) : Bool :=
  match awaiting with
  | some p => p == .programOption || !isDashed word
  | none => false

/-- A word behind two dashes: a name, and a value if there is an equals sign. -/
def splitLong (word : List Char) : List Char × Option (List Char) :=
  let body := word.dropWhile (· == '-')
  (body.takeWhile (· != '='), (body.dropWhile (· != '=')).tail?)

/-- What a parameter means at its place. -/
inductive Mention
  /-- Help is asked for. -/
  | help
  /-- The parameter waits for its value. -/
  | waiting (parameter : Parameter)
  /-- The parameter has this value. -/
  | valued (parameter : Parameter) (value : String)
  deriving DecidableEq, Repr

/-- A parameter with a value in the same word. Equals signs in front of the value do not belong to
it. -/
def valued (p : Parameter) (value : List Char) : Except UsageError Mention :=
  let value := value.dropWhile (· == '=')
  if value.isEmpty && !p.allowsEmpty then .error (.noValue p) else .ok
    (.valued p (String.ofList value))

/-- Reads a word with two dashes. -/
def Command.readLong (c : Command) (word : List Char) : Except UsageError Mention :=
  let (name, value?) := splitLong word
  let name := String.ofList name
  match c.parameterOfWord? name with
  | some p =>
    match value? with
    | some value => valued p value
    | none => .ok (.waiting p)
  | none =>
    if name = helpWord then .ok .help else .error (.unexpected ("--" ++ name) (c.proposal? name))

/-- Reads a word with one dash, given the letter behind the dash and the rest. -/
def Command.readShort (c : Command) (letter : Char) (rest : List Char) :
    Except UsageError Mention :=
  match c.parameterOfLetter? letter with
  | some p => if rest.isEmpty then .ok (.waiting p) else valued p rest
  | none =>
    if letter = 'h' then .ok .help else .error (.unexpected (String.ofList ['-', letter]) none)

/-- Reads a word that is not a value. -/
def Command.readMention (c : Command) (word : String) : Except UsageError Mention :=
  match word.toList with
  | '-' :: '-' :: _ => c.readLong word.toList
  | '-' :: letter :: rest => c.readShort letter rest
  | _ => .error (.unexpected word none)

/-- What the words behind a command say, when all of them have been read. -/
inductive Reading
  /-- Help is asked for. -/
  | help
  /-- These parameters are given; the last one may still wait for its value. -/
  | parameters (given : Given) (awaiting : Option Parameter)
  deriving DecidableEq, Repr

/-- Reads the words behind a command. Two dashes alone end the parameters, and nothing may follow
them. -/
def Command.readWords (c : Command) :
    Given → Option Parameter → List String → Except UsageError Reading
  | g, awaiting, [] => .ok (.parameters g awaiting)
  | g, awaiting, word :: rest =>
    if isValueOf awaiting word then
      match awaiting with
      | some p => c.readWords (g.give p word) none rest
      | none => .error (.unexpected word none)
    else if word = "--" then
      match rest with
      | [] => .ok (.parameters g awaiting)
      | stray :: _ => .error (.unexpected stray none)
    else
      match c.readMention word with
      | .error e => .error e
      | .ok .help => .ok .help
      | .ok (.waiting p) => c.readWords (g.mention p) (some p) rest
      | .ok (.valued p value) => c.readWords ((g.mention p).give p value) none rest

/-! ### Checking what was read -/

/-- The error about parameters that are missing: those always required, or the program of an
external solver. -/
def missing? (c : Command) (g : Given) : Option UsageError :=
  match c.required.filter fun p => !g.has p with
  | [] =>
    if (g.valuesOf .engine).contains EngineKind.external.word && !g.has .program then
      some (.missing [.program])
    else none
  | ps => some (.missing ps)

/-- The error about a value of a parameter. -/
def Parameter.valueError? (p : Parameter) (value : String) : Option UsageError :=
  match p.choices? with
  | some choices => if value ∈ choices then none else some (.badChoice p choices value)
  | none => if value.isEmpty && !p.allowsEmpty then some (.noValue p) else none

/-- The error about a parameter that is mentioned. -/
def Given.error? (g : Given) (p : Parameter) : Option UsageError :=
  if !g.has p then none
  else if g.valuesOf p = [] then some (.noValue p)
  else
    match (g.valuesOf p).findSome? p.valueError? with
    | some e => some e
    | none =>
      if p = .programOption ∧ !g.has .program then some (.missing [.program])
      else if 1 < g.mentions.count p ∧ !p.isRepeatable then some (.repeated p)
      else none

/-- The error about a parameter that still waits for its value when the words end. -/
def Given.waiting? (g : Given) : Option Parameter → Option UsageError
  | some p => if g.valuesOf p = [] then some (.noValue p) else none
  | none => none

/-- The first error in what was read. -/
def Command.error? (c : Command) (g : Given) (awaiting : Option Parameter) : Option UsageError :=
  (missing? c g).or ((g.waiting? awaiting).or (c.parameters.findSome? g.error?))

/-! ### Requests -/

/-- Reads the words behind a command, and checks them. -/
def Command.request (c : Command) (words : List String) : Except UsageError Request :=
  match c.readWords Given.nothing none words with
  | .error e => .error e
  | .ok .help => .ok .help
  | .ok (.parameters g awaiting) =>
    match c.error? g awaiting with
    | some e => .error e
    | none => .ok (.run c g)

/-- Reads the words behind the word for help, which may name a command, or help again. -/
def helpRequest : List String → Except UsageError Request
  | [] => .ok .help
  | word :: rest =>
    if word = helpWord ∨ (Command.ofWord? word).isSome then
      match rest with
      | [] => .ok .help
      | stray :: _ => .error (.unknownCommand stray none)
    else .error (.unknownCommand word none)

/-- Reads a first word with two dashes, given the words that follow. -/
def firstLong (word : List Char) (following : List String) : Except UsageError Request :=
  let name := String.ofList (splitLong word).1
  if name = helpWord then .ok .help
  else .error (.unexpected ("--" ++ name) (proposal? name following))

/-- Reads the words given to the planner. -/
def Request.read : List String → Except UsageError Request
  | [] => .error .noCommand
  | word :: rest =>
    match Command.ofWord? word with
    | some c => c.request rest
    | none =>
      if word = helpWord then helpRequest rest
      else if word = "--" then
        match rest with
        | [] => .error .noCommand
        | stray :: _ => .error (strayWord stray)
      else
        match word.toList with
        | '-' :: '-' :: _ => firstLong word.toList rest
        | '-' :: letter :: _ =>
          if letter = 'h' then .ok .help else .error
            (.unexpected (String.ofList ['-', letter]) none)
        | _ => .error (strayWord word)

/-- The command that help is shown for, if it is one: named by the second word where the first one
asks for help, and by the first word otherwise. -/
def helpTopic? (words : List String) : Option Command :=
  let first := words.head?.getD ""
  if first ∈ [helpWord, "-h", "--help"] then Command.ofWord? ((words.drop 1).head?.getD "")
  else Command.ofWord? first

end HorizonPlanner.CommandLine
