import HorizonPlanner.Text.Radix

/-!
# A program that writes its arguments

The arguments are written with spaces between them and a line feed behind them. Flags in front of
them leave out the line feed, or ask for escapes: a backslash then gives the letter or the digits
behind it a meaning as a byte.
-/

namespace HorizonPlanner.StandIn.Tool.Echo

open Text

/-- The bytes of a text. -/
def bytes (text : List Char) : List UInt8 :=
  (String.ofList text).toUTF8.toList

/-- The letters with a meaning behind a backslash, and the bytes they stand for. -/
def letters : List (Char × UInt8) :=
  [('a', 7), ('b', 8), ('e', 27), ('f', 12), ('n', 10), ('r', 13), ('t', 9), ('v', 11), ('\\', 92)]

/-- The byte that is left of a number. -/
def byteOf (base : Nat) (digits : List Nat) : UInt8 :=
  (Radix.ofDigits base digits).toUInt8

/-- The bytes of a text in which a backslash begins an escape, and whether the text goes on behind
it. At most two digits of base 16 follow an `x`; up to three digits of base 8 may have a zero in
front. -/
def unescape : List Char → List UInt8 × Bool
  | '\\' :: c :: rest =>
    let digits16 := if c = 'x' then Radix.leading 16 2 rest else []
    let digits8 := if c = '0' then Radix.leading 8 3 rest else Radix.leading 8 3 (c :: rest)
    if c = 'c' then ([], false)
    else if digits16 ≠ [] then
      let r := unescape (rest.drop digits16.length)
      (byteOf 16 digits16 :: r.1, r.2)
    else if c = '0' then
      let r := unescape (rest.drop digits8.length)
      (byteOf 8 digits8 :: r.1, r.2)
    else if digits8 ≠ [] then
      let r := unescape (rest.drop (digits8.length - 1))
      (byteOf 8 digits8 :: r.1, r.2)
    else
      let r := unescape rest
      match letters.find? (·.1 == c) with
      | some l => (l.2 :: r.1, r.2)
      | none => (bytes ['\\', c] ++ r.1, r.2)
  | c :: rest =>
    let r := unescape rest
    (bytes [c] ++ r.1, r.2)
  | [] => ([], true)
termination_by text => text.length
decreasing_by all_goals simp +arith

/-- Whether an argument holds flags. -/
def isFlags (argument : String) : Bool :=
  match argument.toList with
  | '-' :: c :: rest => (c :: rest).all fun c => c == 'n' || c == 'e' || c == 'E'
  | _ => false

/-- What is written. Of the flags about escapes the last one counts. -/
def output (arguments : List String) : List UInt8 :=
  let flags := (arguments.takeWhile isFlags).flatMap String.toList
  let text := (" ".intercalate (arguments.dropWhile isFlags)).toList
  let ending : List UInt8 := if flags.contains 'n' then [] else [10]
  if (flags.filter fun c => c == 'e' || c == 'E').getLast? = some 'e' then
    let r := unescape text
    r.1 ++ if r.2 then ending else []
  else bytes text ++ ending

end HorizonPlanner.StandIn.Tool.Echo
