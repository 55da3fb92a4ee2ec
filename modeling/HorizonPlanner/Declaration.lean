import HorizonPlanner.Text.Blank

/-!
# Declarations

A grounded problem is written as declarations, one to a line. A declaration is a keyword with
arguments in parentheses and a full stop at the end; blank characters may stand between these parts.
Names are made of letters, digits, underscores and dashes, and a dash in front of a fluent stands
for its being false.
-/

namespace HorizonPlanner

open Text

/-- A declaration of a grounded problem. -/
inductive Declaration
  /-- Introduces a fluent. -/
  | fluent (name : String)
  /-- Introduces an operator. -/
  | operator (name : String)
  /-- States a precondition of an operator. -/
  | precondition (operator fluent : String) (polarity : Bool)
  /-- States an effect of an operator. -/
  | effect (operator fluent : String) (polarity : Bool)
  /-- States that a fluent is initially true, or that it is not. -/
  | initially (fluent : String) (polarity : Bool)
  /-- States a condition of the goal. -/
  | goal (fluent : String) (polarity : Bool)
  deriving DecidableEq, Repr

/-- The keywords of declarations. -/
inductive Keyword
  /-- Introduces a fluent. -/
  | fluent
  /-- Introduces an operator. -/
  | operator
  /-- States a precondition. -/
  | pre
  /-- States an effect. -/
  | eff
  /-- States an initial value. -/
  | init
  /-- States a goal condition. -/
  | goal
  deriving DecidableEq, Repr

namespace Keyword

/-- The word for a keyword. -/
def text : Keyword → String
  | .fluent => "fluent"
  | .operator => "operator"
  | .pre => "pre"
  | .eff => "eff"
  | .init => "init"
  | .goal => "goal"

/-- All keywords. None of their words begins with another one. -/
def all : List Keyword :=
  [.fluent, .operator, .pre, .eff, .init, .goal]

/-- The rest of a text behind a word it begins with. -/
def behind? : List Char → List Char → Option (List Char)
  | [], s => some s
  | w :: ws, c :: s => if w = c then behind? ws s else none
  | _ :: _, [] => none

/-- The keyword a text begins with, and what follows it. -/
def read? (s : List Char) : Option (Keyword × List Char) :=
  all.findSome? fun k => (behind? k.text.toList s).map fun rest => (k, rest)

end Keyword

namespace Declaration

/-- Whether a character is an ASCII letter. -/
def isLetter (c : Char) : Bool :=
  ('a' ≤ c && c ≤ 'z') || ('A' ≤ c && c ≤ 'Z')

/-- Whether a name may begin with this character. -/
def isNameStart (c : Char) : Bool :=
  isLetter c || c == '_'

/-- Whether this character may occur in a name after its beginning. -/
def isNameRest (c : Char) : Bool :=
  isNameStart c || ('0' ≤ c && c ≤ '9') || c == '-'

/-- Whether a text is a name. -/
def isName : List Char → Bool
  | [] => false
  | c :: rest => isNameStart c && rest.all isNameRest

/-- Reads a name, with blanks on both sides. -/
def readName (s : List Char) : Option String :=
  let t := trim s
  if isName t then some (String.ofList t) else none

/-- Reads a name and whether it stands without a dash, with blanks around both. -/
def readLiteral (s : List Char) : Option (String × Bool) :=
  match skipBlanks s with
  | '-' :: rest => (readName rest).map (·, false)
  | rest => (readName rest).map (·, true)

/-- Reads a name, a comma, and a second name that may have a dash. -/
def readCondition (s : List Char) : Option (String × String × Bool) :=
  match s.dropWhile (· != ',') with
  | ',' :: rest =>
    match readName (s.takeWhile (· != ',')), readLiteral rest with
    | some o, some (f, polarity) => some (o, f, polarity)
    | _, _ => none
  | _ => none

/-- Reads the arguments that go with a keyword. -/
def readArguments (args : List Char) : Keyword → Option Declaration
  | .fluent => (readName args).map .fluent
  | .operator => (readName args).map .operator
  | .pre => (readCondition args).map fun (o, f, p) => .precondition o f p
  | .eff => (readCondition args).map fun (o, f, p) => .effect o f p
  | .init => (readLiteral args).map fun (f, p) => .initially f p
  | .goal => (readLiteral args).map fun (f, p) => .goal f p

/-- Whether a character may occur between the parentheses. -/
def isArgument (c : Char) : Bool :=
  c != '(' && c != ')'

/-- The keyword and the text between the parentheses of a line that has the shape of a
declaration. -/
def shape? (line : List Char) : Option (Keyword × List Char) := do
  let (keyword, s) ← Keyword.read? (skipBlanks line)
  match skipBlanks s with
  | '(' :: body =>
    match body.dropWhile isArgument with
    | ')' :: s =>
      match skipBlanks s with
      | '.' :: s => if s.all isBlank then some (keyword, body.takeWhile isArgument) else none
      | _ => none
    | _ => none
  | _ => none

/-- What a line turns out to be. -/
inductive Reading
  /-- A declaration. -/
  | declaration (d : Declaration)
  /-- A line with the shape of a declaration, but with arguments that do not fit the keyword. -/
  | badArguments (keyword : Keyword)
  /-- A line without the shape of a declaration. -/
  | shapeless
  deriving DecidableEq, Repr

/-- Reads a line. -/
def read (line : List Char) : Reading :=
  match shape? line with
  | none => .shapeless
  | some (keyword, args) =>
    match readArguments args keyword with
    | some d => .declaration d
    | none => .badArguments keyword

end Declaration

end HorizonPlanner
