/-!
# Coloured text

Terminals colour the text between two control sequences.
-/

namespace HorizonPlanner.Text

/-- The colours in use. -/
inductive Colour
  /-- Red. -/
  | red
  /-- Green. -/
  | green
  /-- Yellow. -/
  | yellow
  /-- Cyan. -/
  | cyan
  /-- White. -/
  | white
  deriving DecidableEq, Repr

/-- The number of a colour in control sequences. -/
def Colour.code : Colour → String
  | .red => "31"
  | .green => "32"
  | .yellow => "33"
  | .cyan => "36"
  | .white => "37"

/-- A text in a colour. -/
def Colour.paint (c : Colour) (text : String) : String :=
  "\x1b[" ++ c.code ++ "m" ++ text ++ "\x1b[0m"

end HorizonPlanner.Text
