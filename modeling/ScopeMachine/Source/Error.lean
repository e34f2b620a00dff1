import ScopeMachine.Source.Token
import ScopeMachine.Text.Line

/-! What can be wrong with a source text. -/
namespace ScopeMachine

/-- A fault found at a place in the source. `found` is the token that stands there, or none at the
end of the text. -/
inductive Complaint
  | unexpectedCharacter (c : Char)
  | unterminated (quote : Quote)
  | noExpression
  | unexpected (found : Option Lexeme)
  | expectedName (found : Option Lexeme)
  | expectedArgument (found : Option Lexeme)
  | expectedListEnd (found : Option Lexeme)
  | wrongArity (name : String) (accepted : List Nat) (got : Nat)
  | unknownInstruction (name : String)
  deriving DecidableEq, Repr

namespace Complaint

/-- The operator that a lone character was probably meant to begin. -/
def hint? : Char → Option BinaryOp
  | '&' => some .and
  | '|' => some .or
  | '=' => some .eq
  | '!' => some .notEq
  | _ => none

def describe : Option Lexeme → String
  | none => "end of input"
  | some lexeme => "'" ++ lexeme.literal ++ "'"

def detail : Complaint → String
  | .unexpectedCharacter c =>
    "Unexpected character '" ++ String.ofList [c] ++ "'" ++
      match hint? c with
      | some op => " (did you mean '" ++ op.spelling ++ "'?)"
      | none => ""
  | .unterminated quote =>
    "Unterminated string literal (missing closing " ++ String.ofList [quote.char] ++ ")"
  | .noExpression => "Expected at least one expression"
  | .unexpected found => "Unexpected " ++ describe found
  | .expectedName found => "Expected a name after '$', got " ++ describe found
  | .expectedArgument found =>
    "Expected a number, string or name argument, got " ++ describe found
  | .expectedListEnd found => "Expected ',' or ')', got " ++ describe found
  | .wrongArity name accepted got =>
    "'" ++ name ++ "' takes " ++ Text.join " or " (accepted.map Numeral.ofNat) ++
      " argument(s), got " ++ Numeral.ofNat got
  | .unknownInstruction name => "Unknown instruction '" ++ name ++ "'"

end Complaint

inductive SourceError
  | complaint (what : Complaint) (position : Position)
  /-- A whole number is written with more digits than can be read. -/
  | numeralTooLong (digits : Nat)
  deriving DecidableEq, Repr

/-- A message with the place it is about, if there is a line to name. -/
def placedMessage (detail : String) (line column : Option Int) : String :=
  match line with
  | none => detail
  | some line =>
    detail ++ " at line " ++ Numeral.ofInt line ++ ", column " ++
      match column with
      | some column => Numeral.ofInt column
      | none => "None"

/-- The message about a numeral with too many digits. -/
def numeralTooLongMessage (digits : Nat) : String :=
  "Exceeds the limit (4300 digits) for integer string conversion: value has " ++
    Numeral.ofNat digits ++ " digits; use sys.set_int_max_str_digits() to increase the limit"

def SourceError.message : SourceError → String
  | .complaint what position =>
    placedMessage what.detail (some position.line) (some position.column)
  | .numeralTooLong digits => numeralTooLongMessage digits

end ScopeMachine
