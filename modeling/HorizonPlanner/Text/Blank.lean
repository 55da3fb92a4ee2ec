/-!
# Blank characters

Blank characters are those of the Unicode property `White_Space`. Declarations may be surrounded by
them, and lines are trimmed of them.
-/

namespace HorizonPlanner.Text

/-- The code points of the property `White_Space`, as closed ranges in increasing order. -/
def blankRanges : List (Nat × Nat) :=
  [(0x0009, 0x000d), (0x0020, 0x0020), (0x0085, 0x0085), (0x00a0, 0x00a0), (0x1680, 0x1680),
    (0x2000, 0x200a), (0x2028, 0x2029), (0x202f, 0x202f), (0x205f, 0x205f), (0x3000, 0x3000)]

/-- A character is blank when its code point lies in one of the ranges. -/
def isBlank (c : Char) : Bool :=
  blankRanges.any fun r => r.1 ≤ c.toNat && c.toNat ≤ r.2

/-- Drops the blank characters in front of a text. -/
def skipBlanks (s : List Char) : List Char :=
  s.dropWhile isBlank

/-- Drops the blank characters on both sides of a text. -/
def trim (s : List Char) : List Char :=
  (skipBlanks (skipBlanks s).reverse).reverse

/-- The characters that separate the words of a value line: space, tabulation, line feed, form feed
and carriage return. -/
def isSeparator (c : Char) : Bool :=
  c == ' ' || c == '\t' || c == '\n' || c == '\x0c' || c == '\r'

/-- Drops what may stand in front of a number: separators and vertical tabulations. -/
def skipSpace (s : List Char) : List Char :=
  s.dropWhile fun c => isSeparator c || c == '\x0b'

/-- Splits a text into its maximal words, given the characters of the word under way, the last of
them in front. -/
def wordsFrom (isSep : Char → Bool) : List Char → List Char → List (List Char)
  | current, [] => if current.isEmpty then [] else [current.reverse]
  | current, c :: rest =>
    if isSep c then
      if current.isEmpty then wordsFrom isSep [] rest else current.reverse :: wordsFrom isSep
        [] rest
    else wordsFrom isSep (c :: current) rest

/-- The maximal words of a text, the separators left out. -/
def words (isSep : Char → Bool) (s : List Char) : List (List Char) :=
  wordsFrom isSep [] s

end HorizonPlanner.Text
