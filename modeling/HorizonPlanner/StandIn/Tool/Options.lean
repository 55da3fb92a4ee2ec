/-!
# Options of programs

Everyday programs read their arguments in the same way. An argument with one dash holds letters that
switch something, one with two dashes a word, of which the beginning is enough if it is clear; what
is left are operands. Some switches need a value, which stands behind them or in the next argument.
All programs tell about themselves when they are asked to.
-/

namespace HorizonPlanner.StandIn.Tool

/-- What a program tells about itself. -/
inductive Information
  /-- How it is used. -/
  | usage
  /-- Its version. -/
  | version
  deriving DecidableEq, Repr

/-- What a switch means. -/
inductive Meaning (α : Type)
  /-- The program is set in some ways. -/
  | settings (settings : List α)
  /-- The program is set according to a value, which may be wrong. -/
  | valued (read? : List Char → Option α)
  /-- The program is to tell about itself. -/
  | information (asked : Information)

/-- Something that can be chosen by arguments. -/
structure Switch (α : Type) where
  /-- The letters for it. -/
  letters : List Char
  /-- The words for it. -/
  words : List String
  /-- Its meaning. -/
  meaning : Meaning α

/-- How the reading of arguments ends. -/
inductive Reading
  /-- All has been read; these arguments are not switches. -/
  | operands (words : List String)
  /-- The arguments make no sense. -/
  | fault
  /-- The program is to tell about itself. -/
  | information (asked : Information)
  deriving DecidableEq, Repr

/-- Puts an operand in front, if all has been read. -/
def Reading.operand (word : String) : Reading → Reading
  | .operands words => .operands (word :: words)
  | r => r

/-- What arguments choose: settings in the order in which they are chosen, and how the reading
ends. -/
abbrev Choices (α : Type) := List α × Reading

/-- What is expected after a part of the arguments. -/
inductive Expectation (α : Type)
  /-- Any argument. -/
  | anything
  /-- A value. -/
  | value (read? : List Char → Option α)
  /-- No argument, since the reading has ended. -/
  | nothing (reading : Reading)

namespace Switch

variable {α : Type}

/-- The switches of all programs. -/
def common : List (Switch α) :=
  [⟨[], ["help"], .information .usage⟩, ⟨[], ["version"], .information .version⟩]

/-- The meaning of a letter. -/
def ofLetter? (switches : List (Switch α)) (letter : Char) : Option (Meaning α) :=
  (switches.find? (·.letters.contains letter)).map Switch.meaning

/-- The meaning of a word or, if there is none, of the only switch with a word that begins like
this. -/
def ofWord? (switches : List (Switch α)) (word : String) : Option (Meaning α) :=
  match switches.find? (·.words.contains word) with
  | some s => some s.meaning
  | none =>
    match switches.filter (·.words.any fun w => word.toList.isPrefixOf w.toList) with
    | [s] => some s.meaning
    | _ => none

/-- Reads the value of a switch. -/
def readValue (read? : List Char → Option α) (value : List Char) : List α × Expectation α :=
  match read? value with
  | some a => ([a], .anything)
  | none => ([], .nothing .fault)

/-- Reads the letters behind one dash. -/
def readLetters (switches : List (Switch α)) : List Char → List α × Expectation α
  | [] => ([], .anything)
  | letter :: rest =>
    match ofLetter? switches letter with
    | none => ([], .nothing .fault)
    | some (.settings chosen) =>
      let r := readLetters switches rest
      (chosen ++ r.1, r.2)
    | some (.valued read?) => if rest.isEmpty then ([], .value read?) else readValue read? rest
    | some (.information asked) => ([], .nothing (.information asked))

/-- Reads a word behind two dashes, which may have a value behind an equals sign. -/
def readWord (switches : List (Switch α)) (text : List Char) : List α × Expectation α :=
  let word := String.ofList (text.takeWhile (· != '='))
  match ofWord? switches word, (text.dropWhile (· != '=')).tail? with
  | some (.settings chosen), none => (chosen, .anything)
  | some (.valued read?), none => ([], .value read?)
  | some (.valued read?), some value => readValue read? value
  | some (.information asked), none => ([], .nothing (.information asked))
  | _, _ => ([], .nothing .fault)

/-- Reads arguments, given what is expected. Two dashes alone make operands of all that follow. -/
def readArguments (switches : List (Switch α)) : Expectation α → List String → Choices α
  | .nothing reading, _ => ([], reading)
  | .anything, [] => ([], .operands [])
  | .value _, [] => ([], .fault)
  | .value read?, argument :: rest =>
    match read? argument.toList with
    | some a =>
      let r := readArguments switches .anything rest
      (a :: r.1, r.2)
    | none => ([], .fault)
  | .anything, argument :: rest =>
    match argument.toList with
    | ['-', '-'] => ([], .operands rest)
    | '-' :: '-' :: text =>
      let s := readWord switches text
      let r := readArguments switches s.2 rest
      (s.1 ++ r.1, r.2)
    | '-' :: letter :: letters =>
      let s := readLetters switches (letter :: letters)
      let r := readArguments switches s.2 rest
      (s.1 ++ r.1, r.2)
    | _ =>
      let r := readArguments switches .anything rest
      (r.1, r.2.operand argument)

/-- What arguments choose from the switches of a program and those of all programs. -/
def choices (switches : List (Switch α)) (arguments : List String) : Choices α :=
  readArguments (switches ++ common) .anything arguments

end Switch

end HorizonPlanner.StandIn.Tool
