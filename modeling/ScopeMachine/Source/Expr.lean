import ScopeMachine.Source.Error
import ScopeMachine.Source.Mnemonic

/-! Expressions of the instruction language, each of which stands for one instruction. -/
namespace ScopeMachine

/-- An argument: a constant, or a name that stands for itself. -/
inductive Argument
  | constant (c : Constant)
  | word (s : String)
  deriving DecidableEq, Repr

namespace Argument

def lexeme : Argument → Lexeme
  | .constant c => .constant c
  | .word s => .identifier s

def value : Argument → Value
  | .constant c => .atom c.value
  | .word s => .str s

end Argument

inductive Expr
  | operator (op : BinaryOp)
  | constant (c : Constant)
  | lookup (name : String)
  /-- A mnemonic, with or without a list of arguments. -/
  | call (name : String) (arguments : Option (List Argument))
  deriving DecidableEq, Repr

namespace Expr

/-- Arguments with commas between them. -/
def argumentLexemes : List Argument → List Lexeme
  | [] => []
  | [a] => [a.lexeme]
  | a :: rest => a.lexeme :: .punctuation .comma :: argumentLexemes rest

/-- How an expression is written. -/
def lexemes : Expr → List Lexeme
  | .operator op => [.operator op]
  | .constant c => [.constant c]
  | .lookup name => [.punctuation .dollar, .identifier name]
  | .call name none => [.identifier name]
  | .call name (some arguments) =>
    .identifier name :: .punctuation .leftParen ::
      (argumentLexemes arguments ++ [.punctuation .rightParen])

/-- The instruction that an expression stands for. An unknown name is an error, or else does
nothing when names are not strict. -/
def instr (strict : Bool) : Expr → Except Complaint Instr
  | .operator op => .ok (.binary op)
  | .constant c => .ok (.push (.atom c.value))
  | .lookup name => .ok (.find (.str name))
  | .call name arguments =>
    let values := (arguments.getD []).map Argument.value
    match Mnemonic.ofName? name with
    | none => if strict then .error (.unknownInstruction name) else .ok .nop
    | some mnemonic =>
      match mnemonic.instr? values with
      | some instr => .ok instr
      | none => .error (.wrongArity name mnemonic.arities values.length)

/-- The name that heads the expression, if no mnemonic has it. -/
def unknownName? : Expr → Option String
  | .call name _ => if (Mnemonic.ofName? name).isNone then some name else none
  | _ => none

end Expr

end ScopeMachine
