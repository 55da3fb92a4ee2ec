import HorizonPlanner.StandIn.Tool.Options
import HorizonPlanner.Text.Blank
import HorizonPlanner.Text.Numeral
import HorizonPlanner.Text.Radix

/-!
# A program that shows the beginnings of files

Of each file a number of lines or bytes is written, or all but a number of the last ones. When there
are several files, each has its name in front.
-/

namespace HorizonPlanner.StandIn.Tool.Head

open Text

/-- What is counted. -/
inductive Piece
  /-- Lines. -/
  | line
  /-- Bytes. -/
  | byte
  deriving DecidableEq, Repr

/-- What can be chosen. -/
inductive Setting
  /-- How many pieces are written, or how many of the last ones are left out. -/
  | amount (piece : Piece) (exceptLast : Bool) (count : Nat)
  /-- Whether names are written. -/
  | names (shown : Bool)
  /-- Lines end with a zero byte. -/
  | zeroEnded
  deriving DecidableEq, Repr

/-! ### Amounts -/

/-- The letters for powers of a thousand, from the first power on; some letters have a second
case. -/
def powers : List (List Char) :=
  [['k', 'K'], ['m', 'M'], ['G'], ['T'], ['P'], ['E'], ['Z'], ['Y'], ['R'], ['Q']]

/-- The factor of a unit: 512 for a block, or a power of 1024, or of 1000 if there is a `B` behind
the letter. -/
def factor? (unit : List Char) : Option Nat :=
  match unit with
  | [] => some 1
  | ['b'] => some 512
  | letter :: rest =>
    match powers.findIdx? (·.contains letter), rest with
    | some k, [] | some k, ['i', 'B'] => some (Nat.pow 1024 (k + 1))
    | some k, ['B'] | some k, ['D'] => some (Nat.pow 1000 (k + 1))
    | _, _ => none

/-- Reads an amount: a number with a unit, which fits in a word. A unit alone stands for one of
it. -/
def amount? (text : List Char) : Option Nat :=
  let rest := skipSpace text
  let unsigned := if rest.head? = some '+' then rest.tail else rest
  let digits := Radix.leading 10 unsigned.length unsigned
  let value? :=
    if digits.isEmpty then if text.isEmpty then none else factor? text
    else (factor? (unsigned.drop digits.length)).map (Radix.ofDigits 10 digits * ·)
  value?.filter (· ≤ Numeral.wordBound)

/-- Reads the value of a switch for an amount. A dash in front leaves out the last pieces. -/
def setting? (piece : Piece) : List Char → Option Setting
  | '-' :: text => (amount? text).map (.amount piece true)
  | text => (amount? text).map (.amount piece false)

/-! ### Arguments -/

/-- The switches. -/
def switches : List (Switch Setting) :=
  [⟨['c'], ["bytes"], .valued (setting? .byte)⟩,
    ⟨['n'], ["lines"], .valued (setting? .line)⟩,
    ⟨['q'], ["quiet", "silent"], .settings [.names false]⟩,
    ⟨['v'], ["verbose"], .settings [.names true]⟩,
    ⟨['z'], ["zero-terminated"], .settings [.zeroEnded]⟩]

/-- The settings of a first argument that is a dash and a number, given the number, what it counts,
its unit and the letters that are left: they change what is counted and the unit, or switch
something. -/
def numbered? (number : List Char) : Piece → List Char → List Char → Option (List Setting)
  | piece, unit, [] => (amount? (number ++ unit)).map fun n => [.amount piece false n]
  | piece, unit, letter :: rest =>
    match letter with
    | 'c' => numbered? number .byte [] rest
    | 'b' | 'k' | 'm' => numbered? number .byte [letter] rest
    | 'l' => numbered? number .line unit rest
    | 'q' => (numbered? number piece unit rest).map (.names false :: ·)
    | 'v' => (numbered? number piece unit rest).map (.names true :: ·)
    | 'z' => (numbered? number piece unit rest).map (.zeroEnded :: ·)
    | _ => none

/-- The number in a first argument that is a dash and a number, and the letters behind it. -/
def number? (argument : String) : Option (List Char × List Char) :=
  match argument.toList with
  | '-' :: text =>
    let isDigit (c : Char) : Bool := (Numeral.digitValue? c).isSome
    if (text.takeWhile isDigit).isEmpty then none else some (text.takeWhile isDigit,
      text.dropWhile isDigit)
  | _ => none

/-- What arguments choose. -/
def choices (arguments : List String) : Choices Setting :=
  match arguments.head?.bind number? with
  | none => Switch.choices switches arguments
  | some (number, letters) =>
    match numbered? number .line [] letters with
    | none => ([], .fault)
    | some settings =>
      let r := Switch.choices switches arguments.tail
      (settings ++ r.1, r.2)

/-! ### Output -/

/-- The lines of bytes, each with its end. -/
def linesOf (ending : UInt8) : List UInt8 → List (List UInt8)
  | [] => []
  | b :: rest =>
    if b = ending then [b] :: linesOf ending rest
    else
      match linesOf ending rest with
      | [] => [[b]]
      | l :: ls => (b :: l) :: ls

/-- The pieces of bytes. -/
def pieces (ending : UInt8) (bytes : List UInt8) : Piece → List (List UInt8)
  | .line => linesOf ending bytes
  | .byte => bytes.map fun b => [b]

/-- The end of lines. -/
def ending (settings : List Setting) : UInt8 :=
  if settings.contains .zeroEnded then 0 else 10

/-- What was chosen last of the amount: ten lines unless there is a choice. -/
def amount (settings : List Setting) : Piece × Bool × Nat :=
  settings.foldl (fun r s => match s with
    | .amount piece exceptLast count => (piece, exceptLast, count)
    | _ => r) (.line, false, 10)

/-- The beginning of bytes that is written. -/
def beginning (settings : List Setting) (bytes : List UInt8) : List UInt8 :=
  let (piece, exceptLast, count) := amount settings
  let all := pieces (ending settings) bytes piece
  (all.take (if exceptLast then all.length - count else count)).flatten

/-- Whether names are written, given whether there are several files. -/
def showsNames (settings : List Setting) (several : Bool) : Bool :=
  settings.foldl (fun r s => match s with
    | .names shown => shown
    | _ => r) several

/-- The size of the blocks in which lines are read. -/
def blockSize : Nat := 8192

/-- How many bytes of a stream have been read when its beginning has been written. Lines are looked
for in whole blocks. -/
def taken (settings : List Setting) (bytes : List UInt8) : Nat :=
  let written := (beginning settings bytes).length
  match amount settings with
  | (.byte, false, _) => written
  | (.line, false, _) => (written + blockSize - 1) / blockSize * blockSize
  | (_, true, _) => bytes.length

end HorizonPlanner.StandIn.Tool.Head
