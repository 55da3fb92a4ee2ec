import HorizonPlanner.Rounding
import HorizonPlanner.Text.Numeral

/-!
# Decimal fractions

A decimal fraction has an optional sign, digits with an optional point among or around them, and an
optional power of ten. It stands for the nearest number with a 53-bit mantissa and a binary exponent
of at least `-1074`, and for none if that is `2 ^ 1024` or more.
-/

namespace HorizonPlanner.Text

open Numeral

/-- The number `coefficient * 10 ^ exponent`, with a minus sign in front if it is negative. -/
structure Decimal where
  /-- Whether there is a minus sign. -/
  negative : Bool
  /-- All digits, read as one number. -/
  coefficient : Nat
  /-- The power of ten. -/
  exponent : Int
  deriving DecidableEq, Repr

/-- The number `mantissa * 2 ^ exponent`. -/
structure Binary where
  /-- The factor in front of the power. -/
  mantissa : Nat
  /-- The power of two. -/
  exponent : Int
  deriving DecidableEq, Repr

namespace Decimal

/-- The digits in front of a text, and the text behind them. -/
def takeDigits : List Char → List Nat × List Char
  | [] => ([], [])
  | c :: rest =>
    match digitValue? c with
    | some d =>
      let r := takeDigits rest
      (d :: r.1, r.2)
    | none => ([], c :: rest)

/-- The number with these digits. -/
def ofDigits (digits : List Nat) : Nat :=
  digits.foldl (fun n d => n * 10 + d) 0

/-- Takes an optional sign off a text, and tells whether it is a minus sign. -/
def takeSign : List Char → Bool × List Char
  | '-' :: rest => (true, rest)
  | '+' :: rest => (false, rest)
  | text => (false, text)

/-- The digits behind a point, if a text goes on with one. -/
def takeFraction : List Char → List Nat × List Char
  | '.' :: rest => takeDigits rest
  | text => ([], text)

/-- The power of ten that ends a text. -/
def exponentOf? : List Char → Option Int
  | [] => some 0
  | c :: rest =>
    if c = 'e' ∨ c = 'E' then
      let (negative, rest) := takeSign rest
      match takeDigits rest with
      | (d :: digits, []) =>
        let e := ofDigits (d :: digits)
        some (if negative then -(e : Int) else e)
      | _ => none
    else none

/-- Reads a decimal fraction, which needs a digit before or after the point. -/
def read? (text : List Char) : Option Decimal :=
  let (negative, rest) := takeSign text
  let (whole, rest) := takeDigits rest
  let (fraction, rest) := takeFraction rest
  if whole.isEmpty && fraction.isEmpty then none
  else (exponentOf? rest).map fun e => ⟨negative, ofDigits (whole ++ fraction), e - fraction.length⟩

end Decimal

namespace Binary

/-- The quotient `n / d` times a power of two, as a quotient. -/
def scale (n d : Nat) : Int → Nat × Nat
  | .ofNat k => (n * Nat.pow 2 k, d)
  | .negSucc k => (n, d * Nat.pow 2 (k + 1))

/-- The exponent of the leading bit of a positive quotient. -/
def leadingExponent (n d : Nat) : Int :=
  let k : Int := (n.log2 : Int) - d.log2
  let (n, d) := scale n d (-k)
  if n < d then k - 1 else k

/-- The nearest number to a quotient, among those with a mantissa of 53 bits. -/
def nearest (n d : Nat) : Binary :=
  if n = 0 then ⟨0, 0⟩
  else
    let exponent := max (leadingExponent n d - 52) (-1074)
    let (n, d) := scale n d (-exponent)
    ⟨roundEven n d, exponent⟩

/-- A number as a quotient. -/
def quotient (b : Binary) : Nat × Nat :=
  scale b.mantissa 1 b.exponent

/-- Whether a number is less than a natural number. -/
def isBelow (b : Binary) (n : Nat) : Bool :=
  b.quotient.1 < n * b.quotient.2

/-- A multiple of a number, rounded to a natural number. -/
def times (b : Binary) (n : Nat) : Nat :=
  roundEven (b.quotient.1 * n) b.quotient.2

end Binary

namespace Decimal

/-- The absolute value as a quotient. -/
def quotient (d : Decimal) : Nat × Nat :=
  match d.exponent with
  | .ofNat k => (d.coefficient * Nat.pow 10 k, 1)
  | .negSucc k => (d.coefficient, Nat.pow 10 (k + 1))

/-- The number of digits in front of the point, negative when zeros follow the point at once. -/
def magnitude (d : Decimal) : Int :=
  d.exponent + (ofNat d.coefficient).length

/-- The number that the absolute value stands for. Powers of ten that are clearly out of range are
not computed: a magnitude above 310 is too large, and one below -330 is nearest to zero. -/
def nearest? (d : Decimal) : Option Binary :=
  if d.coefficient = 0 ∨ d.magnitude < -330 then some ⟨0, 0⟩
  else if 310 < d.magnitude then none
  else
    let b := Binary.nearest d.quotient.1 d.quotient.2
    if b.isBelow (Nat.pow 2 1024) then some b else none

end Decimal

end HorizonPlanner.Text
