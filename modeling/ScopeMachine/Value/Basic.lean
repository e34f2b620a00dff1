import ScopeMachine.Number.Binary64

/-! The values a program computes with. Atoms may name things: they are the keys of maps. -/
namespace ScopeMachine

/-- A value without parts. -/
inductive Atom
  | null
  | bool (b : Bool)
  | int (i : Int)
  | float (x : Binary64)
  | str (s : String)
  /-- A text given by code points, at least one of which is no character. -/
  | codes (points : List Nat)
  deriving DecidableEq, Repr

/-- An atom, a sequence of values, or a table in the order its keys were entered. -/
inductive Value
  | atom (a : Atom)
  | list (items : List Value)
  | dict (entries : List (Atom × Value))

namespace Value

@[match_pattern] abbrev null : Value := .atom .null

@[match_pattern] abbrev bool (b : Bool) : Value := .atom (.bool b)

@[match_pattern] abbrev int (i : Int) : Value := .atom (.int i)

@[match_pattern] abbrev float (x : Binary64) : Value := .atom (.float x)

@[match_pattern] abbrev str (s : String) : Value := .atom (.str s)

end Value

instance : Inhabited Value := ⟨.null⟩

/-- The kinds that values come in. -/
inductive Kind
  | null
  | bool
  | int
  | float
  | str
  | list
  | dict
  deriving DecidableEq, Repr

/-- The name of a kind in messages. -/
def Kind.name : Kind → String
  | .null => "NoneType"
  | .bool => "bool"
  | .int => "int"
  | .float => "float"
  | .str => "str"
  | .list => "list"
  | .dict => "dict"

def Atom.kind : Atom → Kind
  | .null => .null
  | .bool _ => .bool
  | .int _ => .int
  | .float _ => .float
  | .str _ => .str
  | .codes _ => .str

/-- The text of code points. -/
def Atom.ofCodes (points : List Nat) : Atom :=
  if points.all (fun n => n.isValidChar) then .str (String.ofList (points.map Char.ofNat))
  else .codes points

def Value.kind : Value → Kind
  | .atom a => a.kind
  | .list _ => .list
  | .dict _ => .dict

/-- Puts a seal on a value that is not a number and bears none. -/
def Value.sealed (mark : Nat) : Value → Value
  | .atom (.float x) => .float (x.sealed mark)
  | v => v

/-- Whether a value counts as true: all do but null, false, zeros and what is empty. -/
def Value.truthy : Value → Bool
  | .atom .null => false
  | .atom (.bool b) => b
  | .atom (.int i) => i != 0
  | .atom (.float x) => !x.isZero
  | .atom (.str s) => !s.isEmpty
  | .atom (.codes points) => !points.isEmpty
  | .list items => !items.isEmpty
  | .dict entries => !entries.isEmpty

end ScopeMachine
