/-!
# Similar words

A mistyped word is answered with the known word that looks most like it. Two words are compared by
the characters they share at about the same place; a common beginning counts extra. All computations
are in double precision.
-/

namespace HorizonPlanner.CommandLine

/-- The characters of a word found so far in another one. -/
structure Matching where
  /-- The places in the other word, the latest first. -/
  places : List Nat
  /-- How many of them precede the one found just before. -/
  transpositions : Nat

namespace Matching

/-- Looks for the character at place `i` in the other word, at most `reach` places away. -/
def extend (other : List Char) (reach : Nat) (m : Matching) (ic : Nat × Char) : Matching :=
  let isFree (jd : Nat × Char) : Bool :=
    ic.1 ≤ jd.1 + reach && jd.1 ≤ ic.1 + reach && jd.2 == ic.2 && !m.places.contains jd.1
  match ((List.range other.length).zip other).find? isFree with
  | some (j, _) => ⟨j :: m.places, m.transpositions + if j < m.places.headD 0 then 1 else 0⟩
  | none => m

/-- Looks for all characters of a word in another one, from left to right. -/
def ofWords (word other : List Char) : Matching :=
  ((List.range word.length).zip word).foldl
    (extend other (max word.length other.length / 2 - 1)) ⟨[], 0⟩

end Matching

/-- The length of the common beginning of two words. -/
def commonLength : List Char → List Char → Nat
  | c :: word, d :: other => if c = d then commonLength word other + 1 else 0
  | _, _ => 0

/-- The share of common characters: the average of their shares of the two words and of the share in
order. -/
def overlap (word other : List Char) : Float :=
  let m := Matching.ofWords word other
  let count := Float.ofNat m.places.length
  if m.places.isEmpty then 0
  else
    (1.0 / 3.0) * (count / Float.ofNat word.length + count / Float.ofNat other.length
      + (count - Float.ofNat m.transpositions) / count)

/-- The likeness of two words, between 0 and 1. -/
def likeness (word other : List Char) : Float :=
  let o := overlap word other
  let l := o + 0.1 * Float.ofNat (commonLength word other) * (1.0 - o)
  if l ≤ 1.0 then l else 1.0

/-- The better of a candidate and the best one before it. Only a likeness above 0.8 counts. -/
def better (word : String) (best : Option (Float × String)) (candidate : String) :
    Option (Float × String) :=
  let l := likeness word.toList candidate.toList
  let beats : Bool :=
    match best with
    | some (b, _) => b < l
    | none => true
  if 0.8 < l && beats then some (l, candidate) else best

/-- The candidate most like a word, if one is like it at all; the first of several. -/
def mostLike? (word : String) (candidates : List String) : Option String :=
  (candidates.foldl (better word) none).map (·.2)

end HorizonPlanner.CommandLine
