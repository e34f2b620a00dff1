import ScopeMachine.Config
import ScopeMachine.Source.Program
import ScopeMachine.Stepper
import ScopeMachine.Text.Utf8

/-! What is shown on a console: texts with markup in brackets, tables, panels and groups. -/
namespace ScopeMachine

structure Row where
  cells : List String
  style : Option String := none
  deriving DecidableEq, Repr

/-- A table; its title is any value. Without headers none are shown. -/
structure Table where
  title : Value
  headers : Option (List String)
  rows : List Row

inductive View
  | text (s : String)
  | table (t : Table)
  | panel (title : String) (body : View)
  | group (views : List View)

inductive Event
  | print (view : View)
  | prompt (text : String)

/-- What ends the program without an answer to the user. -/
inductive Crash
  | fault (f : Fault)
  | numeralTooLong (digits : Nat)
  | tooDeep (bracket : Json.Bracket)
  | encoding (e : Text.Utf8Error)
  /-- A cell of a table must be a text. -/
  | unrenderable (kind : Kind)

namespace Crash

def message : Crash → String
  | .fault f => f.message
  | .numeralTooLong digits => numeralTooLongMessage digits
  | .tooDeep bracket => (FlagError.tooDeep bracket).message
  | .encoding e => e.message
  | .unrenderable kind =>
    "unable to render " ++ kind.name ++ "; a string or other renderable object is required"

def ofFlagError : FlagError → Crash
  | .numeralTooLong digits => .numeralTooLong digits
  | .digitLimit => .fault .digitLimit
  | .tooDeep bracket => .tooDeep bracket

/-- A text that is to be shown at once. -/
def written (text : Option String) : Except Crash String :=
  match text with
  | some text => .ok text
  | none => .error (.fault .digitLimit)

end Crash

/-- A value with the colour of its kind. -/
def Value.markup? : Value → Option String
  | .null => some "[dim]null[/dim]"
  | .str s => some ("[green]" ++ Text.quoted s ++ "[/green]")
  | .bool true => some "[magenta]true[/magenta]"
  | .bool false => some "[magenta]false[/magenta]"
  | .int i => (Numeral.ofInt? i).map fun text => "[cyan]" ++ text ++ "[/cyan]"
  | .float x => some ("[cyan]" ++ Numeral.ofBinary64 x ++ "[/cyan]")
  | .atom (.codes points) => some ("[green]" ++ Text.quotedCodes points ++ "[/green]")
  | v => v.plain?

/-- The library that lays out tables. It may refuse the cells of a row that is added to a table, and
nothing else: titles of every kind and texts with any markup are taken to be laid out, and a view
that has been made to be printed. -/
class CellRenderer where
  /-- The text that stands in a cell, unless what is to stand there cannot be rendered. -/
  cell? : Atom → Option String

/-- Texts are rendered as they are, null as an empty cell, and numbers not at all. -/
instance : CellRenderer where
  cell?
    | .str s => some s
    | .codes points => some (Text.ofCodes points)
    | .null => some ""
    | .bool _ | .int _ | .float _ => none

namespace View

/-- What is to stand in a cell of a table, rendered. -/
def rendered [CellRenderer] (a : Atom) : Except Crash String :=
  match CellRenderer.cell? a with
  | some cell => .ok cell
  | none => .error (.unrenderable a.kind)

/-- A row of a table; its cells are rendered one after another. -/
def row [CellRenderer] (cells : List Atom) (style : Option String := none) : Except Crash Row := do
  let cells ← cells.mapM rendered
  pure { cells, style }

def bindingRow [CellRenderer] (entry : Atom × Value) : Except Crash Row := do
  let value ← Crash.written entry.2.markup?
  row [entry.1, .str value]

def noteRow [CellRenderer] (note : Value) : Except Crash Row := do
  let note ← Crash.written note.plain?
  row [.str "[dim]note[/dim]", .str ("[italic]" ++ note ++ "[/italic]")]

def ofFrame [CellRenderer] (f : Frame) : Except Crash View := do
  let bindings ← f.binds.entries.mapM bindingRow
  let notes ← f.notes.mapM noteRow
  pure (.table ⟨f.shownTitle, none, bindings ++ notes⟩)

/-- The mark behind the key of the selected container. -/
def selectionMark (key : Atom) (selected : Value) : String :=
  if selected.same (.atom key) then " *" else ""

def ofScope [CellRenderer] (selected : Value) (entry : Atom × Scope) : Except Crash View := do
  let tables ← entry.2.frames.mapM ofFrame
  let key ← Crash.written entry.1.plain?
  let title := "[bold blue]scope " ++ key ++ selectionMark entry.1 selected ++ "[/bold blue]"
  pure (.panel title (if tables.isEmpty then .text "[dim](no frames)[/dim]" else .group tables))

def ofStack (selected : Value) (entry : Atom × Stack Value) : Except Crash View := do
  let items ← entry.2.toList.mapM fun v => Crash.written v.markup?
  let key ← Crash.written entry.1.plain?
  let title := "[bold yellow]stack " ++ key ++ selectionMark entry.1 selected ++ "[/bold yellow]"
  pure (.panel title
    (.text (if items.isEmpty then "[dim](empty)[/dim]" else Text.join "\n" items)))

/-- A panel for every scope and stack, and one for the properties if there are any. -/
def ofMachine [CellRenderer] (m : Machine) : Except Crash View := do
  let scopePanels ← m.scopeMap.entries.mapM (ofScope m.scopeKey)
  let stackPanels ← m.stackMap.entries.mapM (ofStack m.stackKey)
  let props ← m.props.entries.mapM bindingRow
  let propsPanel :=
    if props.isEmpty then [] else [panel "[bold]props[/bold]" (.table ⟨.null, none, props⟩)]
  pure (.group (scopePanels ++ stackPanels ++ propsPanel))

def instrRow [CellRenderer] (pc : Option Nat) (index : Nat) (i : Instr) : Except Crash Row := do
  let text ← Crash.written i.text?
  let here := pc == some index
  row [.str ((if here then "➜ " else "  ") ++ Numeral.ofNat index), .str text]
    (if here then some "bold reverse" else none)

def instrRows [CellRenderer] (pc : Option Nat) :
    (index : Nat) → List Instr → Except Crash (List Row)
  | _, [] => .ok []
  | index, i :: rest => do
    let row ← instrRow pc index i
    let rows ← instrRows pc (index + 1) rest
    pure (row :: rows)

/-- The instructions of a program, with a mark at `pc` if it is given. -/
def ofProgram [CellRenderer] (program : List Instr) (pc : Option Nat) : Except Crash View := do
  let rows ← instrRows pc 0 program
  pure (.table ⟨.str "Program", some ["#", "Instruction"], rows⟩)

def tokenRow [CellRenderer] (token : Token) : Except Crash Row :=
  row [.str token.lexeme.className, .str token.lexeme.literal,
    .str (Numeral.ofNat token.position.line), .str (Numeral.ofNat token.position.column)]

def ofTokens [CellRenderer] (tokens : List Token) : Except Crash View := do
  let rows ← tokens.mapM tokenRow
  pure (.table ⟨.str "Tokens", some ["Type", "Literal", "Line", "Column"], rows⟩)

end View

end ScopeMachine
