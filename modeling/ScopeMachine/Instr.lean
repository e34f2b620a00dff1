import ScopeMachine.Operator
import ScopeMachine.Value.Text

/-! Instructions: an operation code and its operands. -/
namespace ScopeMachine

inductive Opcode
  | nop
  | push
  | pop
  | findAt
  | find
  | enterAt
  | enter
  | leaveAt
  | leave
  | bindAt
  | bind
  | rebindAt
  | rebind
  | binary (op : BinaryOp)
  | unary (op : UnaryOp)
  | setFrameTitle
  | addFrameNote
  | setProp
  | setCurrentScope
  | setCurrentStack
  deriving DecidableEq, Repr

namespace Opcode

/-- All operation codes by increasing number. -/
def all : List Opcode :=
  [.nop, .push, .pop, .findAt, .find, .enterAt, .enter, .leaveAt, .leave, .bindAt, .bind,
    .rebindAt, .rebind, .binary .add, .binary .sub, .binary .mul, .binary .div, .binary .eq,
    .binary .notEq, .binary .gt, .binary .ge, .binary .lt, .binary .le, .binary .and, .binary .or,
    .unary .not, .unary .neg, .setFrameTitle, .addFrameNote, .setProp, .setCurrentScope,
    .setCurrentStack]

def number : Opcode → Nat
  | .nop => 0
  | .push => 1
  | .pop => 2
  | .findAt => 10
  | .find => 11
  | .enterAt => 12
  | .enter => 13
  | .leaveAt => 14
  | .leave => 15
  | .bindAt => 16
  | .bind => 17
  | .rebindAt => 18
  | .rebind => 19
  | .binary .add => 20
  | .binary .sub => 21
  | .binary .mul => 22
  | .binary .div => 23
  | .binary .eq => 30
  | .binary .notEq => 31
  | .binary .gt => 32
  | .binary .ge => 33
  | .binary .lt => 34
  | .binary .le => 35
  | .binary .and => 40
  | .binary .or => 41
  | .unary .not => 50
  | .unary .neg => 51
  | .setFrameTitle => 60
  | .addFrameNote => 61
  | .setProp => 70
  | .setCurrentScope => 71
  | .setCurrentStack => 72

/-- The name under which an instruction is shown. -/
def name : Opcode → String
  | .nop => "Nop"
  | .push => "Push"
  | .pop => "Pop"
  | .findAt => "FindAt"
  | .find => "Find"
  | .enterAt => "EnterAt"
  | .enter => "Enter"
  | .leaveAt => "LeaveAt"
  | .leave => "Leave"
  | .bindAt => "BindAt"
  | .bind => "Bind"
  | .rebindAt => "RebindAt"
  | .rebind => "Rebind"
  | .binary .add => "Add"
  | .binary .sub => "Sub"
  | .binary .mul => "Mul"
  | .binary .div => "Div"
  | .binary .eq => "Eq"
  | .binary .notEq => "NotEq"
  | .binary .gt => "Gt"
  | .binary .ge => "Ge"
  | .binary .lt => "Lt"
  | .binary .le => "Le"
  | .binary .and => "And"
  | .binary .or => "Or"
  | .unary .not => "Not"
  | .unary .neg => "Neg"
  | .setFrameTitle => "SetFrameTitle"
  | .addFrameNote => "AddFrameNote"
  | .setProp => "SetProp"
  | .setCurrentScope => "SetCurrentScope"
  | .setCurrentStack => "SetCurrentStack"

/-- The name in capitals, its words set apart by underscores. -/
def label (op : Opcode) : String :=
  match op.name.toList with
  | [] => ""
  | c :: rest =>
    String.ofList (c :: rest.flatMap fun c => if c.isUpper then ['_', c] else [c.toUpper])

end Opcode

/-- An instruction. The number of its operands is checked only when it is executed. -/
structure Instr where
  opcode : Opcode
  operands : List Value := []

namespace Instr

instance : Inhabited Instr := ⟨⟨.nop, []⟩⟩

def name (i : Instr) : String := i.opcode.name

/-- The instruction as shown to users: its name, and its operands if it has any. -/
def text? (i : Instr) : Option String :=
  match i.operands with
  | [] => some i.name
  | operands => (operands.mapM Value.plain?).map (bracketed (i.name ++ "(") · ")")

/-- The instruction with its operation code and operands spelled out. -/
def literal? (i : Instr) : Option String :=
  (Value.itemLiterals? i.operands).map fun operands =>
    "Instr(op=<Opcode." ++ i.opcode.label ++ ": " ++ Numeral.ofNat i.opcode.number ++ ">, args=" ++
      tupleText operands ++ ")"

def nop : Instr := ⟨.nop, []⟩

def push (value : Value) : Instr := ⟨.push, [value]⟩

def pop : Instr := ⟨.pop, []⟩

def findAt (key name : Value) : Instr := ⟨.findAt, [key, name]⟩

def find (name : Value) : Instr := ⟨.find, [name]⟩

def enterAt (key name : Value) : Instr := ⟨.enterAt, [key, name]⟩

def enter (name : Value) : Instr := ⟨.enter, [name]⟩

def leaveAt (key : Value) : Instr := ⟨.leaveAt, [key]⟩

def leave : Instr := ⟨.leave, []⟩

def bindAt (key name : Value) : Instr := ⟨.bindAt, [key, name]⟩

def bind (name : Value) : Instr := ⟨.bind, [name]⟩

def rebindAt (key name : Value) : Instr := ⟨.rebindAt, [key, name]⟩

def rebind (name : Value) : Instr := ⟨.rebind, [name]⟩

def binary (op : BinaryOp) : Instr := ⟨.binary op, []⟩

def unary (op : UnaryOp) : Instr := ⟨.unary op, []⟩

def setFrameTitle : Instr := ⟨.setFrameTitle, []⟩

def addFrameNote : Instr := ⟨.addFrameNote, []⟩

def setProp (key value : Value) : Instr := ⟨.setProp, [key, value]⟩

def setCurrentScope (key : Value) : Instr := ⟨.setCurrentScope, [key]⟩

def setCurrentStack (key : Value) : Instr := ⟨.setCurrentStack, [key]⟩

end Instr

/-- A program spelled out. -/
def programLiteral? (program : List Instr) : Option String :=
  (program.mapM Instr.literal?).map tupleText

end ScopeMachine
