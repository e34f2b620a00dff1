import ScopeMachine.Number.Numeral
import ScopeMachine.Operator
import ScopeMachine.Source.Position
import ScopeMachine.Text.Digit
import ScopeMachine.Text.Quoted

/-! Tokens of the instruction language. -/
namespace ScopeMachine

inductive Punctuation
  | leftParen
  | rightParen
  | comma
  | dollar
  deriving DecidableEq, Repr

def Punctuation.char : Punctuation → Char
  | .leftParen => '('
  | .rightParen => ')'
  | .comma => ','
  | .dollar => '$'

/-- The two characters that enclose texts. -/
inductive Quote
  | single
  | double
  deriving DecidableEq, Repr

def Quote.char : Quote → Char
  | .single => '\''
  | .double => '"'

def BinaryOp.spelling : BinaryOp → String
  | .add => "+"
  | .sub => "-"
  | .mul => "*"
  | .div => "/"
  | .eq => "=="
  | .notEq => "!="
  | .gt => ">"
  | .ge => ">="
  | .lt => "<"
  | .le => "<="
  | .and => "&&"
  | .or => "||"

/-- A literal value in a source text: a number, or a text in quotes. -/
inductive Constant
  | number (whole : String) (fraction : Option String)
  | text (quote : Quote) (body : String)
  deriving DecidableEq, Repr

namespace Constant

def literal : Constant → String
  | .number whole none => whole
  | .number whole (some fraction) => whole ++ "." ++ fraction
  | .text quote body => String.ofList (quote.char :: body.toList ++ [quote.char])

/-- The value of a constant. A number without a fraction is whole; a text is what stands between
its quotes. -/
def value : Constant → Atom
  | .number whole none => .int (Numeral.valueOf (whole.toList.map Text.asciiDigitValue))
  | .number whole (some fraction) =>
    let digits := (whole.toList ++ fraction.toList).map Text.asciiDigitValue
    .float (.ofDecimal false (Numeral.valueOf digits) (-(fraction.length : Int)))
  | .text _ body => .str body

end Constant

/-- What a token is, without its place. -/
inductive Lexeme
  | identifier (name : String)
  | constant (c : Constant)
  | operator (op : BinaryOp)
  | punctuation (mark : Punctuation)
  deriving DecidableEq, Repr

namespace Lexeme

/-- The characters that the token stands for. -/
def literal : Lexeme → String
  | .identifier name => name
  | .constant c => c.literal
  | .operator op => op.spelling
  | .punctuation mark => String.ofList [mark.char]

/-- The value of a token; a token that is no constant has its own spelling for a value. -/
def value : Lexeme → Atom
  | .constant c => c.value
  | lexeme => .str lexeme.literal

/-- The name of the token's class. -/
def className : Lexeme → String
  | .identifier _ => "IDENT"
  | .constant (.number ..) => "NUMBER"
  | .constant (.text ..) => "STRING"
  | .operator _ => "OPERATOR"
  | .punctuation mark => String.ofList [mark.char]

end Lexeme

/-- A lexeme and the place of its first character. -/
structure Token where
  lexeme : Lexeme
  position : Position
  deriving DecidableEq, Repr

/-- The class name that stands for the end of the text. -/
def endClassName : String := "EOF"

/-- A token, or the end of the text, spelled out. -/
def tokenText (className literal : String) (position : Position) : String :=
  "Token(" ++ className ++ ", " ++ Text.quoted literal ++ ", " ++ Numeral.ofNat position.line ++
    ":" ++ Numeral.ofNat position.column ++ ")"

end ScopeMachine
