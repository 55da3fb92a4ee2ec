import HorizonPlanner.StandIn.Tool.Options
import HorizonPlanner.Text.Blank
import HorizonPlanner.Text.Decimal
import HorizonPlanner.Text.Radix

/-!
# A program that waits

The arguments are times, which are added up. A time is a number in base 10 or 16, or an endless one,
with a letter for seconds, minutes, hours or days.
-/

namespace HorizonPlanner.StandIn.Tool.Sleep

open Text

/-- A time to wait. -/
inductive Pause
  /-- A number of nanoseconds. -/
  | ofNanoseconds (n : Nat)
  /-- For ever. -/
  | endless
  deriving DecidableEq, Repr

/-- One time after the other. -/
def Pause.add : Pause → Pause → Pause
  | .ofNanoseconds m, .ofNanoseconds n => .ofNanoseconds (m + n)
  | _, _ => .endless

/-- Whether a time is longer than a number of nanoseconds. -/
def Pause.exceeds : Pause → Nat → Bool
  | .ofNanoseconds n, limit => limit < n
  | .endless, _ => true

/-- The units of time, in seconds. -/
def units : List (Char × Nat) :=
  [('s', 1), ('m', 60), ('h', 3600), ('d', 86400)]

/-- A number of nanoseconds, rounded. Numbers out of range count as endless. -/
def pauseOf (b : Option Binary) (unit : Nat) : Pause :=
  match b with
  | some b => .ofNanoseconds (b.times (unit * 1000000000))
  | none => .endless

/-- The power of two that ends a number in base 16. -/
def binaryExponent? : List Char → Option Int
  | [] => some 0
  | c :: rest =>
    if c = 'p' ∨ c = 'P' then
      let (negative, rest) := Decimal.takeSign rest
      match Decimal.takeDigits rest with
      | (d :: digits, []) =>
        let e := Decimal.ofDigits (d :: digits)
        some (if negative then -(e : Int) else e)
      | _ => none
    else none

/-- Reads a number in base 16, without what stands in front of its digits. Powers of two that are
out of range are not computed. -/
def hexadecimal? (text : List Char) : Option (Option Binary) :=
  let whole := Radix.leading 16 text.length text
  let rest := text.drop whole.length
  let decimals := if rest.head? = some '.' then Radix.leading 16 rest.length rest.tail else []
  let rest := if rest.head? = some '.' then rest.drop (decimals.length + 1) else rest
  if whole.isEmpty && decimals.isEmpty then none
  else
    (binaryExponent? rest).map fun (e : Int) =>
      let mantissa := Radix.ofDigits 16 (whole ++ decimals)
      let exponent : Int := e - 4 * (decimals.length : Int)
      let magnitude : Int := exponent + (mantissa.log2 : Int)
      if mantissa = 0 ∨ magnitude < -1200 then some ⟨0, 0⟩
      else if 1023 < magnitude then none
      else some ⟨mantissa, exponent⟩

/-- Reads a number without a sign, which may be out of range. -/
def number? (text : List Char) : Option (Option Binary) :=
  if text.map Char.toLower = "inf".toList ∨ text.map Char.toLower = "infinity".toList then some none
  else
    match text with
    | '0' :: 'x' :: rest | '0' :: 'X' :: rest => hexadecimal? rest
    | '-' :: _ | '+' :: _ => none
    | _ => (Decimal.read? text).map Decimal.nearest?

/-- Reads a number of units. Only zero may have a minus sign. -/
def numberOf? (text : List Char) (unit : Nat) : Option Pause :=
  let (negative, rest) := Decimal.takeSign (skipSpace text)
  match (number? rest).map fun b => pauseOf b unit with
  | some p => if negative && p ≠ .ofNanoseconds 0 then none else some p
  | none => none

/-- Reads a time. -/
def pause? (argument : String) : Option Pause :=
  let text := argument.toList
  match numberOf? text 1 with
  | some p => some p
  | none => do
    let letter ← text.getLast?
    let unit ← units.find? (·.1 == letter)
    numberOf? text.dropLast unit.2

/-- Reads times, of which there must be one, and adds them up. -/
def total? : List String → Option Pause
  | [] => none
  | arguments => (arguments.mapM pause?).map fun ps => ps.foldl Pause.add (.ofNanoseconds 0)

/-- What arguments choose. There are no settings. -/
def choices (arguments : List String) : Choices Empty :=
  Switch.choices [] arguments

end HorizonPlanner.StandIn.Tool.Sleep
