import QLanguage.Text.Blank
import QLanguage.Text.Identifier

/-!
# Commands and source text

A line at the prompt is a command only if its first word is one and at most one identifier follows.
A question mark in front stands for the word `help`. While text is held back, no line is a command.
-/

namespace QLanguage

/-- The commands of the prompt. -/
inductive Command where
  /-- Leaves the prompt. -/
  | exit
  /-- Shows an introduction. -/
  | help
  /-- Leaves the prompt at the end of the input. -/
  | endOfFile
deriving Repr, DecidableEq

/-- The word of a command. -/
def Command.word : Command → String
  | .exit => "exit"
  | .help => "help"
  | .endOfFile => "EOF"

/-- The command of a word. -/
def Command.ofWord? (word : String) : Option Command :=
  match word with
  | "exit" => some .exit
  | "help" => some .help
  | "EOF" => some .endOfFile
  | _ => none

/-- What a line at the prompt is. -/
inductive Input where
  /-- Nothing but blanks. -/
  | blank
  /-- A command, with the identifier behind its word or an empty text, and the whole line. -/
  | command (command : Command) (topic line : String)
  /-- Source text. -/
  | source (line : String)
deriving Repr, DecidableEq

/-- Whether a character may stand in the first word of a line. -/
def isWordCharacter (c : Char) : Bool := c.isAlphanum || c == '_'

/-- Classifies a line that is not blank and has no blanks at its front. -/
def classifyWords (line : String) (holding : Bool) : Input :=
  let word := String.ofList (line.toList.takeWhile isWordCharacter)
  let topic := stripBlanks (String.ofList (line.toList.dropWhile isWordCharacter))
  match Command.ofWord? word with
  | some command =>
    if holding || !(topic.isEmpty || isIdentifier topic) then .source line
    else .command command topic line
  | none => .source line

/-- Classifies a line. `holding` says that text is held back. -/
def classifyLine (line : String) (holding : Bool) : Input :=
  let line := stripBlanks line
  match line.toList with
  | [] => .blank
  | '?' :: rest => classifyWords (Command.help.word ++ " " ++ String.ofList rest) holding
  | '!' :: _ => .source line
  | _ => classifyWords line holding

end QLanguage
