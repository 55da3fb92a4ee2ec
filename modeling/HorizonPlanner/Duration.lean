import HorizonPlanner.Search.Config
import HorizonPlanner.Text.Decimal

/-!
# Durations

Durations are counted in nanoseconds. The user gives them in seconds, as decimal fractions; they are
shown in the largest unit of which they contain a whole one.
-/

namespace HorizonPlanner.Duration

open Text

/-- Durations given by the user are shorter than this number of seconds. -/
def boundInSeconds : Nat := 1000000000000

/-- The duration given by a number of seconds, which must not be negative. -/
def ofSeconds? (text : List Char) : Option Nat := do
  let decimal ← Decimal.read? text
  let value ← decimal.nearest?
  if decimal.negative && value.mantissa != 0 then none
  else if value.isBelow boundInSeconds then some (value.times Search.second)
  else none

/-- The digits behind the point of a number of units that consist of `10 ^ places` nanoseconds each.
Zeros at the end are left out. -/
def fraction (n places : Nat) : List Char :=
  let digits := Numeral.ofNat (n % Nat.pow 10 places)
  let all := List.replicate (places - digits.length) '0' ++ digits
  (all.reverse.dropWhile (· == '0')).reverse

/-- A duration in units of `10 ^ places` nanoseconds. -/
def inUnit (n places : Nat) (unit : String) : List Char :=
  let digits := fraction n places
  let point := if digits.isEmpty then [] else ['.']
  Numeral.ofNat (n / Nat.pow 10 places) ++ point ++ digits ++ unit.toList

/-- A duration in the largest unit that fits. -/
def text (n : Nat) : String :=
  String.ofList <|
    if Nat.pow 10 9 ≤ n then inUnit n 9 "s"
    else if Nat.pow 10 6 ≤ n then inUnit n 6 "ms"
    else if Nat.pow 10 3 ≤ n then inUnit n 3 "µs"
    else inUnit n 0 "ns"

/-- A duration in seconds with three decimals. -/
def thousandths (n : Nat) : String :=
  let milliseconds := roundEven n (Nat.pow 10 6)
  let digits := Numeral.ofNat (milliseconds % 1000)
  String.ofList
    (Numeral.ofNat (milliseconds / 1000) ++ ['.'] ++ List.replicate (3 - digits.length) '0' ++
      digits)

end HorizonPlanner.Duration
