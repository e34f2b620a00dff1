import ScopeMachine.Text.Printable

/-! Quoted text with backslash escapes. Single quotes are preferred; double quotes are used when
the text holds a single quote and no double one. -/
namespace ScopeMachine.Text

def hexDigit (n : Nat) : Char := Nat.digitChar (n % 16)

/-- The lowest `width` hexadecimal digits of `n`, in lower case. -/
def hex : (width n : Nat) → List Char
  | 0, _ => []
  | width + 1, n => hex width (n / 16) ++ [hexDigit n]

/-- One character inside quotes `q`. A character without visible form is written by its code in
two, four or eight hexadecimal digits. -/
def escape (q c : Char) : List Char :=
  let n := c.toNat
  if c = q || c = '\\' then ['\\', c]
  else if c = '\n' then ['\\', 'n']
  else if c = '\r' then ['\\', 'r']
  else if c = '\t' then ['\\', 't']
  else if isPrintable c then [c]
  else if n < 0x100 then '\\' :: 'x' :: hex 2 n
  else if n < 0x10000 then '\\' :: 'u' :: hex 4 n
  else '\\' :: 'U' :: hex 8 n

def quoteOf (cs : List Char) : Char := if cs.contains '\'' && !cs.contains '"' then '"' else '\''

def quoted (s : String) : String :=
  let cs := s.toList
  let q := quoteOf cs
  String.ofList (q :: cs.flatMap (escape q) ++ [q])

/-- The character that shows a code point. A surrogate by itself is no character, and the character
at the same place of the last plane, which is for private use, stands in for it. -/
def charOfCode (n : Nat) : Char :=
  if n.isValidChar then Char.ofNat n else Char.ofNat (0x100000 + n)

/-- The text that shows code points. -/
def ofCodes (points : List Nat) : String := String.ofList (points.map charOfCode)

/-- One code point inside quotes; one that is no character is written by its code. -/
def escapeCode (q : Char) (n : Nat) : List Char :=
  if n.isValidChar then escape q (Char.ofNat n) else '\\' :: 'u' :: hex 4 n

def quotedCodes (points : List Nat) : String :=
  let q := quoteOf (points.map charOfCode)
  String.ofList (q :: points.flatMap (escapeCode q) ++ [q])

end ScopeMachine.Text
