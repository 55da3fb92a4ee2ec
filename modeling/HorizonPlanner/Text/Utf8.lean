/-!
# Decoding UTF-8

Text comes as bytes. A sequence of bytes is decoded only if every character is written in its
shortest form and is a Unicode scalar value.
-/

namespace HorizonPlanner.Text.Utf8

/-- The payload of a continuation byte. -/
def continuation? (b : UInt8) : Option Nat :=
  if 0x80 ≤ b.toNat ∧ b.toNat < 0xc0 then some (b.toNat - 0x80) else none

/-- The character with this code point, if it is a scalar value not below the bound of its
length. -/
def scalar? (least code : Nat) : Option Char :=
  if least ≤ code ∧ code.isValidChar then some (Char.ofNat code) else none

/-- A character of two bytes. -/
def two? (b c : UInt8) : Option Char := do
  scalar? 0x80 ((b.toNat - 0xc0) * 64 + (← continuation? c))

/-- A character of three bytes. -/
def three? (b c d : UInt8) : Option Char := do
  scalar? 0x800 (((b.toNat - 0xe0) * 64 + (← continuation? c)) * 64 + (← continuation? d))

/-- A character of four bytes. -/
def four? (b c d e : UInt8) : Option Char := do
  scalar? 0x10000
    ((((b.toNat - 0xf0) * 64 + (← continuation? c)) * 64 + (← continuation? d)) * 64 +
      (← continuation? e))

/-- The characters written by a sequence of bytes, if it is well formed. The first byte of a
character tells how many bytes it takes. -/
def decode : List UInt8 → Option (List Char)
  | [] => some []
  | b :: rest =>
    if b.toNat < 0x80 then (decode rest).map (Char.ofNat b.toNat :: ·)
    else if b.toNat < 0xc0 then none
    else if b.toNat < 0xe0 then
      match rest with
      | c :: rest =>
        match two? b c with
        | some x => (decode rest).map (x :: ·)
        | none => none
      | [] => none
    else if b.toNat < 0xf0 then
      match rest with
      | c :: d :: rest =>
        match three? b c d with
        | some x => (decode rest).map (x :: ·)
        | none => none
      | _ => none
    else if b.toNat < 0xf8 then
      match rest with
      | c :: d :: e :: rest =>
        match four? b c d e with
        | some x => (decode rest).map (x :: ·)
        | none => none
      | _ => none
    else none

end HorizonPlanner.Text.Utf8
