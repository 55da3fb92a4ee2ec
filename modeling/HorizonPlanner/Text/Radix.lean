/-!
# Digits in several bases

Numbers are also written in base 8 and 16. The letters `a` to `f` are the digits from ten on, in
either case.
-/

namespace HorizonPlanner.Text.Radix

/-- The value of a digit in base 16. -/
def hexValue? (c : Char) : Option Nat :=
  if '0' ≤ c ∧ c ≤ '9' then some (c.toNat - '0'.toNat)
  else if 'a' ≤ c ∧ c ≤ 'f' then some (c.toNat - 'a'.toNat + 10)
  else if 'A' ≤ c ∧ c ≤ 'F' then some (c.toNat - 'A'.toNat + 10)
  else none

/-- The value of a digit in a base of at most 16. -/
def digit? (base : Nat) (c : Char) : Option Nat :=
  (hexValue? c).filter (· < base)

/-- The values of the digits in front of a text, of which at most this many are taken. -/
def leading (base : Nat) : Nat → List Char → List Nat
  | n + 1, c :: rest =>
    match digit? base c with
    | some d => d :: leading base n rest
    | none => []
  | _, _ => []

/-- The number with these digits. -/
def ofDigits (base : Nat) (digits : List Nat) : Nat :=
  digits.foldl (fun n d => n * base + d) 0

end HorizonPlanner.Text.Radix
