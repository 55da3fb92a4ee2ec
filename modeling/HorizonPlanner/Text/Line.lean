import HorizonPlanner.Text.Utf8

/-!
# Lines of a byte stream

A line ends with a line feed, which is taken off together with one carriage return before it. Every
line is decoded on its own, so that an undecodable line spoils only itself.
-/

namespace HorizonPlanner.Text

/-- The reasons why a line cannot be read. -/
inductive StreamFault
  /-- The bytes of the line are not a text. -/
  | undecodable
  /-- The stream failed, with this explanation. -/
  | broken (why : String)
  deriving DecidableEq, Repr

/-- The explanation of an unreadable line. -/
def StreamFault.message : StreamFault → String
  | .undecodable => "stream did not contain valid UTF-8"
  | .broken why => why

/-- A line as it was read: its characters, or the fault. -/
abbrev Line := Except StreamFault (List Char)

/-- The line feed. -/
def lineFeed : UInt8 := 10

/-- The carriage return. -/
def carriageReturn : UInt8 := 13

/-- Splits bytes into those of complete lines, without their line feeds, and the bytes after the
last line feed. The first argument holds the bytes of the line under way, the last of them in
front. -/
def splitLines : List UInt8 → List UInt8 → List (List UInt8) × List UInt8
  | current, [] => ([], current.reverse)
  | current, b :: rest =>
    if b = lineFeed then
      let r := splitLines [] rest
      (current.reverse :: r.1, r.2)
    else splitLines (b :: current) rest

/-- Takes one carriage return off the end of a line. -/
def dropReturn (bytes : List UInt8) : List UInt8 :=
  if bytes.getLast? = some carriageReturn then bytes.dropLast else bytes

/-- Decodes the bytes of a line. -/
def decodeLine (bytes : List UInt8) : Line :=
  match Utf8.decode bytes with
  | some chars => .ok chars
  | none => .error .undecodable

/-- The lines of a stream. A stream that breaks after these bytes loses the line under way to the
fault. -/
def lines (bytes : List UInt8) (broken : Option String) : List Line :=
  let (complete, last) := splitLines [] bytes
  complete.map (fun l => decodeLine (dropReturn l)) ++
    match broken with
    | some why => [.error (.broken why)]
    | none => if last.isEmpty then [] else [decodeLine last]

end HorizonPlanner.Text
