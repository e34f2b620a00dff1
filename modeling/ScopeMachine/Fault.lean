import ScopeMachine.Instr

/-! What can go wrong while a machine works. -/
namespace ScopeMachine

/-- The two sorts of named containers of a machine. -/
inductive Container
  | scope
  | stack
  deriving DecidableEq, Repr

def Container.name : Container → String
  | .scope => "scope"
  | .stack => "stack"

inductive Fault
  /-- No frame of scope `key` binds `name`. -/
  | nameNotFound (key name : Value)
  /-- An operator refused its operands. -/
  | operator (instr : Instr) (operands : List Value) (cause : OperandError)
  | unknownContainer (kind : Container) (key : Value)
  /-- An integer is too long to be written. -/
  | digitLimit
  /-- A list or a table was used as a key. -/
  | unhashable (kind : Kind)
  /-- An instruction lacks its operand. -/
  | missingOperand
  /-- An instruction needs two operands and has `got`. -/
  | operandPair (got : Nat)
  | stackIndex (index : Value)
  /-- A value was used as a number and is none of the kind that is needed. -/
  | operand (cause : OperandError)
  | outOfMemory
  /-- A value that was to list entries has no parts. -/
  | notIterable (kind : Kind)
  /-- The part at `index` that was to be an entry has no parts. -/
  | notSequence (index : Nat)
  /-- The part at `index` that was to be an entry has not two parts. -/
  | notEntry (index length : Nat)

namespace Fault

/-- The faults that belong to running a program. A run that keeps going survives them. -/
def isRecoverable : Fault → Bool
  | .nameNotFound .. => true
  | .operator .. => true
  | .unknownContainer .. => true
  | _ => false

def message? : Fault → Option String
  | .nameNotFound key name => do
    let name ← name.plain?
    let key ← key.plain?
    pure ("Name '" ++ name ++ "' not found at '" ++ key ++ "'")
  | .operator instr operands cause => do
    let operands ← Value.itemLiterals? operands
    let instr ← instr.text?
    pure (instr ++ bracketed " failed on (" operands "): " ++ cause.message)
  | .unknownContainer kind key => do
    let key ← key.plain?
    pure ("No " ++ kind.name ++ " named '" ++ key ++ "'")
  | .digitLimit =>
    some ("Exceeds the limit (4300 digits) for integer string conversion; " ++
      "use sys.set_int_max_str_digits() to increase the limit")
  | .unhashable kind => some ("unhashable type: '" ++ kind.name ++ "'")
  | .missingOperand => some "tuple index out of range"
  | .operandPair got =>
    some (if got < 2 then
        "not enough values to unpack (expected 2, got " ++ Numeral.ofNat got ++ ")"
      else "too many values to unpack (expected 2)")
  | .stackIndex index => do
    let index ← index.plain?
    pure ("stack index " ++ index ++ " out of range")
  | .operand cause => some cause.message
  | .outOfMemory => some ""
  | .notIterable kind => some ("'" ++ kind.name ++ "' object is not iterable")
  | .notSequence index =>
    some ("cannot convert dictionary update sequence element #" ++ Numeral.ofNat index ++
      " to a sequence")
  | .notEntry index length =>
    some ("dictionary update sequence element #" ++ Numeral.ofNat index ++ " has length " ++
      Numeral.ofNat length ++ "; 2 is required")

/-- The fault that is raised in place of one: a fault whose message cannot be written because an
integer in it is too long gives way to that difficulty. -/
def raised (f : Fault) : Fault := if f.message?.isSome then f else .digitLimit

/-- The message of a raised fault. -/
def message (f : Fault) : String := f.message?.getD ""

theorem raised_of_message? {f : Fault} (h : f.message?.isSome = true) : f.raised = f := if_pos h

theorem raised_of_not_message? {f : Fault} (h : ¬ f.message?.isSome = true) :
    f.raised = .digitLimit := if_neg h

end Fault

/-- The text of a value, for a message that is written at once. -/
def Value.plain (v : Value) : Except Fault String :=
  match v.plain? with
  | some text => .ok text
  | none => .error .digitLimit

/-- The literal text of a value, for a message that is written at once. -/
def Value.literal (v : Value) : Except Fault String :=
  match v.literal? with
  | some text => .ok text
  | none => .error .digitLimit

/-- The atom under which a value may serve as a key. -/
def Value.asKey : Value → Except Fault Atom
  | .atom a => .ok a
  | v => .error (.unhashable v.kind)

@[simp] theorem Value.asKey_atom (a : Atom) : (Value.atom a).asKey = .ok a := rfl

end ScopeMachine
