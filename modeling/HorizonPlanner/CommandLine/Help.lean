import HorizonPlanner.CommandLine.Request

/-!
# Help

Help shows how the planner is called. The parameters of a command are listed in alphabetical order
of their values, each with its explanation in the lines below.
-/

namespace HorizonPlanner.CommandLine

/-- The name and version of the planner. -/
def version : String := "satplan 0.1.0"

/-- Those who made the planner. -/
def makers : String := "Satplan developers"

/-- The explanation of a command. -/
def Command.about : Command → String
  | .authors => "Displays the planner version and authors"
  | .check => "Checks input problem files for errors"
  | .encode => "Writes the DIMACS encoding of a planning problem for a given horizon"
  | .solve => "Looks for a plan of minimal horizon"

/-- The explanation of a parameter. -/
def Parameter.about : Parameter → String
  | .input => "the input file that contains the grounded problem"
  | .horizon => "the horizon to encode"
  | .output => "the output file for the encoding"
  | .minHorizon => "the first horizon to consider [default: 0]"
  | .maxHorizon => "the last horizon to consider [default: 256]"
  | .timeout => "the time budget of the whole search, in seconds [default: 600]"
  | .attemptTimeout => "the time limit of a single SAT solver call, in seconds"
  | .engine =>
    "the SAT solving engine (defaults to the external one when a path is given, cadical otherwise) "
      ++ "[possible values: cadical, external]"
  | .program => "a path to an external SAT solver (for the external engine)"
  | .programOption => "an option to give to the external SAT solver"
  | .threshold =>
    "set the minimal logging level [default: info]  "
      ++ "[possible values: trace, debug, info, warn, error, off]"

namespace Help

/-- The width of the page. -/
def width : Nat := 120

/-- The margin of explanations. -/
def margin : String := "            "

/-- Blank characters. -/
def blanks (n : Nat) : String :=
  String.ofList (List.replicate n ' ')

/-- Fills lines of at most `room` characters with words, given the line under way. -/
def fill (room : Nat) : String → List String → List String
  | line, [] => [line]
  | line, w :: rest =>
    if line.length + 1 + w.length ≤ room then fill room (line ++ " " ++ w) rest
    else line :: fill room w rest

/-- The lines of an explanation. One that reaches the edge of the page is broken up. -/
def explanation (about : String) : List String :=
  if margin.length + about.length < width then [margin ++ about]
  else
    match (about.splitOn " ") with
    | [] => []
    | w :: rest => (fill (width - margin.length) w rest).map (margin ++ ·)

/-- The heading of a parameter. If the explanation would fit beside the longest name of the list,
the heading is filled up with blanks to the column where it would begin. -/
def heading (longest : Nat) (p : Parameter) : String :=
  let letter :=
    match p.letter?, p.word? with
    | some c, some _ => String.ofList ['-', c, ',', ' ']
    | some _, none => ""
    | none, _ => "    "
  let name := "    " ++ letter ++ p.display
  let column := longest + margin.length
  name ++ if column + p.about.length ≤ width then blanks (column - name.length) else ""

/-- The lines about a parameter. An empty line follows an explanation of one line. -/
def entry (longest : Nat) (p : Parameter) : List String :=
  let lines := explanation p.about
  heading longest p :: lines ++ if lines.length = 1 then [""] else []

/-- Inserts a parameter into a list ordered by the names of values. -/
def insertParameter (p : Parameter) : List Parameter → List Parameter
  | [] => [p]
  | q :: rest => if p.valueName < q.valueName then p :: q :: rest else q :: insertParameter p rest

/-- The lines about the only parameter without a value. -/
def flags : List String :=
  ["FLAGS:", "    -h, --help    ", margin ++ "Prints help information", "", ""]

/-- The end of the line that shows how to call a command. -/
def requiredText (c : Command) : String :=
  String.join (c.required.map fun p => " " ++ p.display)

/-- The help about a command. -/
def ofCommand (c : Command) : List String :=
  let parameters := c.parameters.foldr insertParameter []
  let longest := (parameters.map fun p => p.display.length).foldl max 0
  [c.word ++ " ", c.about, "", "USAGE:", "    " ++ c.word ++ " [OPTIONS]" ++ requiredText c, ""]
    ++ flags ++ ["OPTIONS:"] ++ parameters.flatMap (entry longest)

/-- The words that may come first, with their explanations. -/
def firstWords : List (String × String) :=
  [(Command.authors.word, Command.authors.about), (Command.check.word, Command.check.about),
    (Command.encode.word, Command.encode.about),
    (helpWord, "Prints this message or the help of the given subcommand(s)"),
    (Command.solve.word, Command.solve.about)]

/-- The help about the planner as a whole. -/
def overview : List String :=
  let longest := (firstWords.map fun w => w.1.length).foldl max 0
  [version, makers, "Satplan, a SAT-based classical planner.", "", "USAGE:",
    "    satplan <SUBCOMMAND>", ""]
    ++ flags ++ ["SUBCOMMANDS:"]
    ++ firstWords.map fun w => "    " ++ w.1 ++ blanks (longest - w.1.length + 4) ++ w.2

/-- The help about a command, or about the planner. -/
def lines : Option Command → List String
  | some c => ofCommand c
  | none => overview

end Help

end HorizonPlanner.CommandLine
