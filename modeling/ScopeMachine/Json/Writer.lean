import ScopeMachine.Number.Numeral
import ScopeMachine.Text.Line
import ScopeMachine.Text.Quoted
import ScopeMachine.Value.Basic

/-! JSON text of values, in ASCII, one item to a line and indented by two blanks a level. Keys that
are no texts are written as texts. There is no text for a value with an integer longer than
`Numeral.digitLimit`. -/
namespace ScopeMachine.Json

/-- A character code past 16 bits is written as two surrogates. -/
def escapeCode (n : Nat) : List Char :=
  if n < 0x10000 then '\\' :: 'u' :: Text.hex 4 n
  else
    '\\' :: 'u' :: Text.hex 4 (0xd800 + (n - 0x10000) / 0x400) ++
      '\\' :: 'u' :: Text.hex 4 (0xdc00 + (n - 0x10000) % 0x400)

def escape (c : Char) : List Char :=
  if c = '"' then ['\\', '"']
  else if c = '\\' then ['\\', '\\']
  else if c = '\n' then ['\\', 'n']
  else if c = '\r' then ['\\', 'r']
  else if c = '\t' then ['\\', 't']
  else if c = '\x08' then ['\\', 'b']
  else if c = '\x0c' then ['\\', 'f']
  else if 0x20 ≤ c.toNat && c.toNat ≤ 0x7e then [c]
  else escapeCode c.toNat

def quoted (s : String) : String := String.ofList ('"' :: s.toList.flatMap escape ++ ['"'])

/-- The text of code points; one that is no character is written by its code. -/
def quotedCodes (points : List Nat) : String :=
  String.ofList ('"' :: points.flatMap (fun n =>
    if n.isValidChar then escape (Char.ofNat n) else escapeCode n) ++ ['"'])

def ofBinary64 (x : Binary64) : String :=
  if x.isNaN then "NaN"
  else if x.isInfinite then if x.negative then "-Infinity" else "Infinity"
  else Numeral.ofBinary64 x

/-- An atom; a text is not yet in quotes. -/
def bareAtom? : Atom → Option String
  | .null => some "null"
  | .bool true => some "true"
  | .bool false => some "false"
  | .int i => Numeral.ofInt? i
  | .float x => some (ofBinary64 x)
  | .str s => some s
  | .codes points => some (Text.ofCodes points)

def atom? : Atom → Option String
  | .str s => some (quoted s)
  | .codes points => some (quotedCodes points)
  | a => bareAtom? a

/-- An atom as a key, always in quotes. -/
def key? : Atom → Option String
  | .codes points => some (quotedCodes points)
  | a => (bareAtom? a).map quoted

/-- The start of a new line at a level of nesting. -/
def newline (level : Nat) : String := String.ofList ('\n' :: List.replicate (2 * level) ' ')

/-- Items between brackets, each on a line of its own. -/
def block (left : String) (level : Nat) (items : List String) (right : String) : String :=
  match items with
  | [] => left ++ right
  | items =>
    left ++ newline (level + 1) ++ Text.join ("," ++ newline (level + 1)) items ++ newline level ++
      right

mutual

/-- The text of a value that stands at a level of nesting. -/
def write? (level : Nat) : Value → Option String
  | .atom a => atom? a
  | .list items => (writeItems? (level + 1) items).map (block "[" level · "]")
  | .dict entries => (writeEntries? (level + 1) entries).map (block "\x7b" level · "\x7d")

def writeItems? (level : Nat) : List Value → Option (List String)
  | [] => some []
  | v :: rest => do
    let text ← write? level v
    let more ← writeItems? level rest
    pure (text :: more)

def writeEntries? (level : Nat) : List (Atom × Value) → Option (List String)
  | [] => some []
  | (k, v) :: rest => do
    let key ← key? k
    let text ← write? level v
    let more ← writeEntries? level rest
    pure ((key ++ ": " ++ text) :: more)

end

end ScopeMachine.Json
