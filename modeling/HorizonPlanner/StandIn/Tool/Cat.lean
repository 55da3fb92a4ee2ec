import HorizonPlanner.StandIn.Tool.Options
import HorizonPlanner.Text.Numeral

/-!
# A program that shows files

Files are written one after the other. Lines may be numbered, repeated empty lines left out, and
ends of lines, tabulations and bytes without a shape of their own made visible.
-/

namespace HorizonPlanner.StandIn.Tool.Cat

open Text

/-- What can be chosen. -/
inductive Setting
  /-- Number all lines. -/
  | number
  /-- Number the lines that are not empty. -/
  | numberNonblank
  /-- Leave out empty lines behind empty lines. -/
  | squeeze
  /-- Show a dollar sign at the ends of lines. -/
  | showEnds
  /-- Show tabulations as `^I`. -/
  | showTabs
  /-- Show controls with a caret, and bytes from 128 on with `M-`. -/
  | showBytes
  deriving DecidableEq, Repr

/-- The switches. A letter may stand for several settings, or for none. -/
def switches : List (Switch Setting) :=
  [⟨['A'], ["show-all"], .settings [.showBytes, .showEnds, .showTabs]⟩,
    ⟨['b'], ["number-nonblank"], .settings [.numberNonblank]⟩,
    ⟨['e'], [], .settings [.showBytes, .showEnds]⟩,
    ⟨['E'], ["show-ends"], .settings [.showEnds]⟩,
    ⟨['n'], ["number"], .settings [.number]⟩,
    ⟨['s'], ["squeeze-blank"], .settings [.squeeze]⟩,
    ⟨['t'], [], .settings [.showBytes, .showTabs]⟩,
    ⟨['T'], ["show-tabs"], .settings [.showTabs]⟩,
    ⟨['u'], [], .settings []⟩,
    ⟨['v'], ["show-nonprinting"], .settings [.showBytes]⟩]

/-- Where a line is. -/
inductive Position
  /-- Inside a line. -/
  | inside
  /-- At the beginning of a line, behind this number of empty lines. -/
  | start (emptyLines : Nat)
  deriving DecidableEq, Repr

/-- How far the output has got. -/
structure State where
  /-- Where the next byte is. -/
  position : Position
  /-- The number of the last line that has one. -/
  line : Nat

/-- The number in front of a line: at least six characters, and a tabulation. -/
def numberText (n : Nat) : List UInt8 :=
  let digits := (Numeral.ofNat n).map fun c => c.toNat.toUInt8
  List.replicate (6 - digits.length) 32 ++ digits ++ [9]

/-- A byte made visible. -/
def visible (b : UInt8) : List UInt8 :=
  let low (c : UInt8) : List UInt8 :=
    if c < 32 then [94, c + 64] else if c = 127 then [94, 63] else [c]
  if b < 128 then low b else [77, 45] ++ low (b - 128)

/-- A byte inside a line, given the one behind it. -/
def inner (settings : List Setting) (b : UInt8) (next : Option UInt8) : List UInt8 :=
  if b = 9 then if settings.contains .showTabs then [94, 73] else [9]
  else if settings.contains .showBytes then visible b
  else if b = 13 ∧ next = some 10 ∧ settings.contains .showEnds then [94, 77]
  else [b]

/-- What is written for bytes in some state. -/
def render (settings : List Setting) : State → List UInt8 → List UInt8
  | _, [] => []
  | s, b :: rest =>
    let numbered := settings.contains .number || settings.contains .numberNonblank
    if b = 10 then
      let ending : List UInt8 := if settings.contains .showEnds then [36, 10] else [10]
      match s.position with
      | .inside => ending ++ render settings { s with position := .start 0 } rest
      | .start empty =>
        let s' : State := { s with position := .start (empty + 1) }
        if settings.contains .squeeze && 0 < empty then render settings s' rest
        else if numbered && !settings.contains .numberNonblank then
          numberText (s.line + 1) ++ ending ++ render settings { s' with line := s.line + 1 } rest
        else ending ++ render settings s' rest
    else
      let shown := inner settings b rest.head?
      match s.position with
      | .start _ =>
        if numbered then
          numberText (s.line + 1) ++ shown ++ render settings ⟨.inside, s.line + 1⟩ rest
        else shown ++ render settings { s with position := .inside } rest
      | .inside => shown ++ render settings s rest

/-- What is written of bytes. -/
def output (settings : List Setting) (bytes : List UInt8) : List UInt8 :=
  render settings ⟨.start 0, 0⟩ bytes

end HorizonPlanner.StandIn.Tool.Cat
