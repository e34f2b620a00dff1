import ScopeMachine.Shell.CommandLine
import ScopeMachine.Text.Line

/-! Help texts and the version text. -/
namespace ScopeMachine

namespace Help

/-- The width of a line of help, margin excluded. -/
def width : Nat := 78

/-- The widest first column of a list. -/
def columnLimit : Nat := 30

def spaces (n : Nat) : String := String.ofList (List.replicate n ' ')

/-- One entry of a list whose first column is `column` wide. A term that is too wide has its
description on a line of its own. -/
def entry (column : Nat) (term description : String) : String :=
  "  " ++ term ++
    (if term.length ≤ column then spaces (column - term.length) else "\n" ++ spaces (column + 2)) ++
    "  " ++ description ++ "\n"

/-- A list of terms and their descriptions in two columns. -/
def definitions (heading : String) (rows : List (String × String)) : String :=
  let widest := rows.foldl (fun n row => max n row.1.length) 0
  let column := min widest columnLimit
  "\n" ++ heading ++ ":\n" ++ String.join (rows.map fun row => entry column row.1 row.2)

/-- As many words from the front as fit into `room` characters, where `used` are taken. -/
def fittingWords (room used : Nat) : List (List Char) → List (List Char)
  | [] => []
  | word :: rest =>
    if used + word.length ≤ room then word :: fittingWords room (used + word.length + 1) rest
    else []

/-- The text cut at a space, with three dots, unless it fits into `limit` characters. -/
def shorten (limit : Nat) (text : String) : String :=
  if text.length ≤ limit then text
  else
    Text.join " " ((fittingWords (limit - 3) 0 (Text.splitBy (· = ' ') text.toList)).map
      String.ofList) ++ "..."

def programName : String := "main.py"

/-- How the level is set. -/
def levelTerm : String := "--log-level [debug|info|warning|error]"

def overview : String :=
  let widest := Action.all.foldl (fun n a => max n a.name.length) 0
  "Usage: " ++ programName ++ " [OPTIONS] COMMAND [ARGS]...\n\n" ++
    "  Semantic tutor - step through name binding and scoping, forwards and\n  backwards\n" ++
    definitions "Options" [
      ("--version", "Show the version and exit."),
      (levelTerm, "Logging verbosity  [default: WARNING]"),
      (Switch.help.name, Switch.help.description)] ++
    definitions "Commands" (Action.all.map fun a =>
      (a.name, shorten (width - 6 - widest) a.description))

def ofAction (a : Action) : String :=
  "Usage: " ++ programName ++ " " ++ a.name ++ " [OPTIONS] FILE\n\n  " ++ a.description ++ "\n" ++
    definitions "Options" (a.switches.map fun s => (s.name, s.description))

def text : Option Action → String
  | none => overview
  | some a => ofAction a

def version : String := "semtutor, version 0.1.0\n"

end Help

end ScopeMachine
