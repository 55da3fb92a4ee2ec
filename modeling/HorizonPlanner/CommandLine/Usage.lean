import HorizonPlanner.CommandLine.Command
import HorizonPlanner.CommandLine.Similarity
import HorizonPlanner.Text.Colour

/-!
# Wrong usage

The words given to the planner may fail to make sense in a few ways. Where a known word is close to
an unknown one, it is proposed.
-/

namespace HorizonPlanner.CommandLine

open Text

/-- The word for asking for help. -/
def helpWord : String := "help"

/-- A proposal made for an unknown parameter. -/
inductive Proposal
  /-- The parameter with this word. -/
  | parameter (word : String)
  /-- The parameter with this word, which belongs to a command. -/
  | parameterOf (command : Command) (word : String)
  deriving DecidableEq, Repr

/-- The ways of using the planner wrongly. -/
inductive UsageError
  /-- There is no command. -/
  | noCommand
  /-- A word is not a command; a command may be proposed. -/
  | unknownCommand (word : String) (proposal : Option String)
  /-- A word makes no sense at its place. -/
  | unexpected (word : String) (proposal : Option Proposal)
  /-- Parameters are missing. -/
  | missing (parameters : List Parameter)
  /-- A parameter has no value. -/
  | noValue (parameter : Parameter)
  /-- The value of a parameter is none of its choices. -/
  | badChoice (parameter : Parameter) (choices : List String) (value : String)
  /-- A parameter is given several times. -/
  | repeated (parameter : Parameter)
  deriving DecidableEq, Repr

/-- How a proposal is shown. -/
def Proposal.text : Proposal → String
  | .parameter word =>
    "\n\tDid you mean " ++ Colour.green.paint "--" ++ Colour.green.paint word ++ "?"
  | .parameterOf command word =>
    "\n\tDid you mean to put '" ++ Colour.green.paint "--" ++ Colour.green.paint word
      ++ "' after the subcommand '" ++ Colour.green.paint command.word ++ "'?"

/-- Inserts a word into an ordered list. -/
def insertWord (w : String) : List String → List String
  | [] => [w]
  | v :: rest => if w < v then w :: v :: rest else v :: insertWord w rest

/-- The choices of a parameter in alphabetical order, separated by commas. -/
def choiceList (choices : List String) : String :=
  ", ".intercalate (choices.foldr insertWord [])

/-- The explanation of wrong usage. -/
def UsageError.message : UsageError → String
  | .noCommand => "'satplan' requires a subcommand, but one was not provided"
  | .unknownCommand word proposal =>
    let help :=
      match proposal with
      | some p =>
        "\n\tDid you mean '" ++ p ++ "'?\n\nIf you believe you received this message in error, "
          ++ "try re-running with 'satplan -- " ++ word ++ "'"
      | none => ""
    "The subcommand '" ++ word ++ "' wasn't recognized" ++ help
  | .unexpected word proposal =>
    "Found argument '" ++ word ++ "' which wasn't expected, or isn't valid in this context"
      ++ (proposal.map Proposal.text).getD ""
  | .missing parameters =>
    "The following required arguments were not provided:"
      ++ String.join (parameters.map fun p => "\n    " ++ p.display)
  | .noValue parameter =>
    "The argument '" ++ parameter.display ++ "' requires a value but none was supplied"
  | .badChoice parameter choices value =>
    let help :=
      match mostLike? value choices with
      | some p => "\n\n\tDid you mean '" ++ Colour.green.paint p ++ "'?"
      | none => ""
    "'" ++ value ++ "' isn't a valid value for '" ++ parameter.display ++ "'\n\t[possible values: "
      ++ choiceList choices ++ "]" ++ help
  | .repeated parameter =>
    "The argument '" ++ parameter.display
      ++ "' was provided more than once, but cannot be used multiple times"

/-- What is proposed in the place of an unknown word after two dashes, when a command is known. -/
def Command.proposal? (c : Command) (word : String) : Option Proposal :=
  (mostLike? word (helpWord :: c.parameters.filterMap Parameter.word?)).map .parameter

/-- What is proposed in the place of an unknown word after two dashes, when no command is known yet.
A parameter of a command is proposed only if that command is named by one of the words that follow;
of several such commands, the one that is named first. -/
def proposal? (word : String) (following : List String) : Option Proposal :=
  match mostLike? word [helpWord] with
  | some w => some (.parameter w)
  | none =>
    (following.filterMap Command.ofWord?).findSome? fun c =>
      (mostLike? word (c.parameters.filterMap Parameter.word?)).map (.parameterOf c)

/-- The error about a word that is neither a command nor a parameter, when no command is known
yet. -/
def strayWord (word : String) : UsageError :=
  match mostLike? word (Command.all.map Command.word ++ [helpWord]) with
  | some p => .unknownCommand word (some p)
  | none => .unexpected word none

end HorizonPlanner.CommandLine
