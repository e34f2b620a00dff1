import ScopeMachine.Number.Numeral
import ScopeMachine.Text.Line
import ScopeMachine.Text.Quoted
import ScopeMachine.Value.Basic

/-! The text of values. The *literal* form shows a text in quotes; the *plain* form shows it bare
when it stands alone. Neither exists for an integer longer than `Numeral.digitLimit`. -/
namespace ScopeMachine

def Atom.literal? : Atom → Option String
  | .null => some "None"
  | .bool true => some "True"
  | .bool false => some "False"
  | .int i => Numeral.ofInt? i
  | .float x => some (Numeral.ofBinary64 x)
  | .str s => some (Text.quoted s)
  | .codes points => some (Text.quotedCodes points)

def Atom.plain? : Atom → Option String
  | .str s => some s
  | .codes points => some (Text.ofCodes points)
  | a => a.literal?

/-- Items separated by commas between brackets. -/
def bracketed (left : String) (items : List String) (right : String) : String :=
  left ++ Text.join ", " items ++ right

/-- A fixed sequence in parentheses; a single item keeps a comma after it. -/
def tupleText (items : List String) : String :=
  match items with
  | [item] => "(" ++ item ++ ",)"
  | _ => bracketed "(" items ")"

mutual

def Value.literal? : Value → Option String
  | .atom a => a.literal?
  | .list items => (Value.itemLiterals? items).map (bracketed "[" · "]")
  | .dict entries => (Value.entryLiterals? entries).map (bracketed "\x7b" · "\x7d")

def Value.itemLiterals? : List Value → Option (List String)
  | [] => some []
  | v :: rest => do
    let text ← v.literal?
    let more ← Value.itemLiterals? rest
    pure (text :: more)

def Value.entryLiterals? : List (Atom × Value) → Option (List String)
  | [] => some []
  | (k, v) :: rest => do
    let key ← k.literal?
    let text ← v.literal?
    let more ← Value.entryLiterals? rest
    pure ((key ++ ": " ++ text) :: more)

end

def Value.plain? : Value → Option String
  | .atom a => a.plain?
  | v => v.literal?

/-- The plain form of a value as an atom, without stand-ins for code points. -/
def Value.asText? : Value → Option Atom
  | .atom (.codes points) => some (.codes points)
  | v => v.plain?.map .str

end ScopeMachine
