/-!
# Decimal numerals

Numbers are written without leading zeros. They are read more liberally, with an optional sign and
any number of leading zeros, but only below a bound given by the reader's word size.
-/

namespace HorizonPlanner.Text.Numeral

/-- The character of a decimal digit. -/
def digitChar (d : Nat) : Char :=
  Char.ofNat ('0'.toNat + d)

/-- The value of an ASCII decimal digit. -/
def digitValue? (c : Char) : Option Nat :=
  if '0' ≤ c ∧ c ≤ '9' then some (c.toNat - '0'.toNat) else none

/-- The decimal digits of a natural number, most significant first and without leading zeros. -/
def ofNat (n : Nat) : List Char :=
  if n < 10 then [digitChar n] else ofNat (n / 10) ++ [digitChar (n % 10)]
termination_by n

/-- The decimal text of an integer: a dash in front of a negative number, nothing in front of
another. -/
def ofInt (i : Int) : List Char :=
  if i < 0 then '-' :: ofNat i.natAbs else ofNat i.natAbs

/-- The reasons why a text is not a number within the bound. -/
inductive Fault
  /-- There is no character at all. -/
  | empty
  /-- A character is not a digit where a digit is needed, or a sign stands alone. -/
  | badDigit
  /-- The number exceeds the bound. -/
  | tooLarge
  deriving DecidableEq, Repr

/-- The explanation shown to the user. -/
def Fault.message : Fault → String
  | .empty => "cannot parse integer from empty string"
  | .badDigit => "invalid digit found in string"
  | .tooLarge => "number too large to fit in target type"

/-- Appends digits to a number already read. Each digit is checked before the bound is, and the
first fault ends the reading. -/
def extend (bound : Nat) : Nat → List Char → Except Fault Nat
  | value, [] => .ok value
  | value, c :: rest =>
    match digitValue? c with
    | none => .error .badDigit
    | some d =>
      if value * 10 + d ≤ bound then extend bound (value * 10 + d) rest else .error .tooLarge

/-- Digits behind a sign, of which there must be one. -/
def unsigned (bound : Nat) : List Char → Except Fault Nat
  | [] => .error .badDigit
  | c :: rest => extend bound 0 (c :: rest)

/-- The largest number held by an unsigned word. -/
def wordBound : Nat := Nat.pow 2 64 - 1

/-- Reads a natural number of at most one word, with an optional plus sign. -/
def toNat? : List Char → Except Fault Nat
  | [] => .error .empty
  | '+' :: rest => unsigned wordBound rest
  | c :: rest => extend wordBound 0 (c :: rest)

/-- Reads a signed integer of at most one word, with an optional sign. -/
def toInt? : List Char → Except Fault Int
  | [] => .error .empty
  | '+' :: rest => (unsigned (Nat.pow 2 63 - 1) rest).map Int.ofNat
  | '-' :: rest => (unsigned (Nat.pow 2 63) rest).map fun n => -(n : Int)
  | c :: rest => (extend (Nat.pow 2 63 - 1) 0 (c :: rest)).map Int.ofNat

/-- The decimal text of a natural number, as a string. -/
def text (n : Nat) : String :=
  String.ofList (ofNat n)

end HorizonPlanner.Text.Numeral
