import HorizonPlanner.CommandLine.Session
import HorizonPlanner.StandIn.Tool.Cat
import HorizonPlanner.StandIn.Tool.Echo
import HorizonPlanner.StandIn.Tool.Head
import HorizonPlanner.StandIn.Tool.Sleep

/-!
# Simple programs in the place of a solver

The planner runs any program that reads an instance and writes an answer. A few everyday programs
stand in for a solver here, so that the treatment of their answers can be followed without running
anything: some repeat their arguments, their input or files, some write nothing, and one only lets
time pass. Nothing is proved of them, and nothing that is proved depends on them.
-/

namespace HorizonPlanner.StandIn.Tool

open CommandLine Text

/-- What a program finds under the name of a file. -/
inductive Source
  /-- Its own input. -/
  | input
  /-- A file with this content. -/
  | content (bytes : List UInt8)
  deriving DecidableEq, Repr

/-- The programs described here. -/
inductive Kind
  /-- Writes its arguments. -/
  | echo
  /-- Writes its input, or files. -/
  | cat
  /-- Writes the beginning of its input, or of files. -/
  | head
  /-- Waits. -/
  | sleep
  /-- Does nothing. -/
  | idle
  deriving DecidableEq, Repr

/-- The names of the programs. -/
def names : List (String × Kind) :=
  [("echo", .echo), ("cat", .cat), ("head", .head), ("sleep", .sleep), ("true", .idle),
    ("false", .idle)]

/-- The program with this name. -/
def named? (name : String) : Option Kind :=
  (names.find? (·.1 == name)).map (·.2)

/-- The arguments a program takes, as it shows them. -/
def Kind.synopsis : Kind → String
  | .echo => "[SHORT-OPTION]... [STRING]..."
  | .cat | .head => "[OPTION]... [FILE]..."
  | .sleep => "NUMBER[SUFFIX]..."
  | .idle => "[ignored command line arguments]"

/-- The first line of what a program tells about itself, given how it was called. -/
def Kind.tell (k : Kind) (path : String) : Information → List UInt8
  | .usage => Echo.bytes ("Usage: " ++ path ++ " " ++ k.synopsis ++ "\n").toList
  | .version => Echo.bytes (path ++ " 9.4\n").toList

/-- The request for information in arguments that consist of nothing else. -/
def soleRequest? : List String → Option Information
  | ["--help"] => some .usage
  | ["--version"] => some .version
  | _ => none

/-! ### Files -/

/-- The source with a name; a dash is the input. -/
def sourceOf? (find? : String → Option Source) (name : String) : Option Source :=
  if name = "-" then some .input else find? name

/-- The content of files one after the other. Files that do not exist are left out, and the input
can be read once. -/
def gather (find? : String → Option Source) : List UInt8 → List String → List UInt8
  | _, [] => []
  | input, name :: rest =>
    match sourceOf? find? name with
    | some .input => input ++ gather find? [] rest
    | some (.content bytes) => bytes ++ gather find? input rest
    | none => gather find? input rest

/-- The line above the beginning of a file, and an empty line before it unless it is the first
one. -/
def heading (name : String) (first : Bool) : List UInt8 :=
  let shown := if name = "-" then "standard input" else name
  Echo.bytes ((if first then "" else "\n") ++ "==> " ++ shown ++ " <==\n").toList

/-- The beginnings of files. Files that do not exist are left out, and what was read of the input is
gone. -/
def beginnings (find? : String → Option Source) (settings : List Head.Setting) (named : Bool) :
    Bool → List UInt8 → List String → List UInt8
  | _, _, [] => []
  | first, input, name :: rest =>
    let above := if named then heading name first else []
    match sourceOf? find? name with
    | some .input =>
      above ++ Head.beginning settings input
        ++ beginnings find? settings named false (input.drop (Head.taken settings input)) rest
    | some (.content bytes) =>
      above ++ Head.beginning settings bytes ++ beginnings find? settings named false input rest
    | none => beginnings find? settings named first input rest

/-- The files to read: the input if none are named. -/
def orInput (names : List String) : List String :=
  if names.isEmpty then ["-"] else names

/-! ### Running -/

/-- What a program that does not wait writes, given how it was called, the files it finds, and the
text of its input. -/
def Kind.output (k : Kind) (path : String) (find? : String → Option Source)
    (arguments : List String) (input : List Char) : List UInt8 :=
  match k with
  | .echo =>
    match soleRequest? arguments with
    | some asked => k.tell path asked
    | none => Echo.output arguments
  | .cat =>
    match Switch.choices Cat.switches arguments with
    | (settings, .operands names) =>
      Cat.output settings (gather find? (Echo.bytes input) (orInput names))
    | (_, .information asked) => k.tell path asked
    | (_, .fault) => []
  | .head =>
    match Head.choices arguments with
    | (settings, .operands names) =>
      beginnings find? settings (Head.showsNames settings (1 < names.length)) true
        (Echo.bytes input) (orInput names)
    | (_, .information asked) => k.tell path asked
    | (_, .fault) => []
  | .sleep =>
    match Sleep.choices arguments with
    | (_, .information asked) => k.tell path asked
    | _ => []
  | .idle =>
    match soleRequest? arguments with
    | some asked => k.tell path asked
    | none => []

/-- How long a program waits before it ends. It does not wait if its arguments make no sense. -/
def Kind.pause (k : Kind) (arguments : List String) : Sleep.Pause :=
  match k, Sleep.choices arguments with
  | .sleep, (_, .operands times) => (Sleep.total? times).getD (.ofNanoseconds 0)
  | _, _ => .ofNanoseconds 0

/-- The time in nanoseconds in which no program has written anything yet. -/
def startingTime : Nat := 500000

/-- Runs a program on an input, within a time limit in nanoseconds. What it writes comes at the end
of its wait. -/
def Kind.run (k : Kind) (path : String) (find? : String → Option Source) (arguments : List String)
    (limit : Option Nat) (input : List Char) : Launch :=
  match limit with
  | some l =>
    if l < startingTime ∨ (k.pause arguments).exceeds l then .killed []
    else .finished (k.output path find? arguments input)
  | none => .finished (k.output path find? arguments input)

end HorizonPlanner.StandIn.Tool
