import ScopeMachine.Shell.View

/-! Views as lines of plain text. -/
namespace ScopeMachine

namespace Markup

/-- Whether a bracket that is followed by this character opens a tag. -/
def opensTag (c : Char) : Bool := c.isLower || c = '/' || c = '#' || c = '@'

/-- The text without its tags. Characters are skipped while `inTag`; a bracket that is never closed
hides what follows it. -/
def stripFrom (inTag : Bool) : List Char → List Char
  | [] => []
  | [c] => if inTag then [] else [c]
  | c :: d :: rest =>
    if inTag then stripFrom (c != ']') (d :: rest)
    else if c = '[' && opensTag d then stripFrom true (d :: rest)
    else c :: stripFrom false (d :: rest)

def strip (text : String) : String := String.ofList (stripFrom false text.toList)

end Markup

namespace View

def rowLine (cells : List String) : String := Text.join " | " (cells.map Markup.strip)

def tableLines (t : Table) : List String :=
  (match t.title with
    | .null => []
    | title => [Markup.strip (title.plain?.getD "")]) ++
  t.headers.toList.map rowLine ++ t.rows.map fun row => rowLine row.cells

mutual

/-- The lines of a view; the body of a panel is indented under its title. -/
def lines : View → List String
  | .text s => [Markup.strip s]
  | .table t => tableLines t
  | .panel title body => Markup.strip title :: body.lines.map ("  " ++ ·)
  | .group views => linesOf views

def linesOf : List View → List String
  | [] => []
  | view :: rest => view.lines ++ linesOf rest

end

end View

end ScopeMachine
