import ScopeMachine.Number.Numeral
import ScopeMachine.OrderedMap
import ScopeMachine.Source.Position
import ScopeMachine.Text.Digit

/-! Reading JSON. Numbers with a fraction or an exponent are floats, and `NaN`, `Infinity` and
`-Infinity` are read as well. Of equal keys the last value counts. -/
namespace ScopeMachine.Json

inductive Complaint
  | propertyName
  | colon
  | comma
  | value
  | unterminated
  | control
  | escape
  | codeEscape
  | extraData
  deriving DecidableEq, Repr

def Complaint.text : Complaint → String
  | .propertyName => "Expecting property name enclosed in double quotes"
  | .colon => "Expecting ':' delimiter"
  | .comma => "Expecting ',' delimiter"
  | .value => "Expecting value"
  | .unterminated => "Unterminated string starting at"
  | .control => "Invalid control character at"
  | .escape => "Invalid \\escape"
  | .codeEscape => "Invalid \\uXXXX escape"
  | .extraData => "Extra data"

/-- The two sorts of values with parts. -/
inductive Bracket
  | array
  | object
  deriving DecidableEq, Repr

def Bracket.name : Bracket → String
  | .array => "array"
  | .object => "object"

inductive Error
  /-- The text is malformed where `remaining` characters are left. -/
  | malformed (what : Complaint) (remaining : Nat)
  /-- A whole number has more digits than can be read. -/
  | numeralTooLong (digits : Nat)
  /-- A bracket opens below the deepest level. -/
  | tooDeep (bracket : Bracket)
  deriving DecidableEq, Repr

/-- How deep calls may nest where a text is read. -/
class DepthLimit where
  /-- The number of levels of brackets that there may be. -/
  brackets : Nat

/-- The depth unless another one is given. -/
instance : DepthLimit := ⟨990⟩

/-- The wording of a complaint about `text`. -/
def describe (text : List Char) (what : Complaint) (remaining : Nat) : String :=
  let offset := text.length - remaining
  let place := Position.start.after (text.take offset)
  what.text ++ ": line " ++ Numeral.ofNat place.line ++ " column " ++ Numeral.ofNat place.column ++
    " (char " ++ Numeral.ofNat offset ++ ")"

def isSpace (c : Char) : Bool := c = ' ' || c = '\t' || c = '\n' || c = '\r'

def skipSpace (cs : List Char) : List Char := cs.dropWhile isSpace

/-! ### Texts -/

def hexValue? (c : Char) : Option Nat :=
  if '0' ≤ c && c ≤ '9' then some (c.toNat - '0'.toNat)
  else if 'a' ≤ c && c ≤ 'f' then some (c.toNat - 'a'.toNat + 10)
  else if 'A' ≤ c && c ≤ 'F' then some (c.toNat - 'A'.toNat + 10)
  else none

/-- The number that four hexadecimal digits at the front spell; more text must follow them. -/
def hexCode? : List Char → Option Nat
  | a :: b :: c :: d :: _ :: _ => do
    let a ← hexValue? a
    let b ← hexValue? b
    let c ← hexValue? c
    let d ← hexValue? d
    pure (((a * 16 + b) * 16 + c) * 16 + d)
  | _ => none

/-- The code point that an escape stands for and the number of characters behind the backslash that
it takes. A high surrogate with a low one behind it are one character; by itself either is none. -/
def readEscape (opening : Nat) : List Char → Except Error (Nat × Nat)
  | [] => .error (.malformed .unterminated opening)
  | 'u' :: rest =>
    match hexCode? rest with
    | none => .error (.malformed .codeEscape (rest.length + 1))
    | some high =>
      match 0xd800 ≤ high && high < 0xdc00, rest.drop 4 with
      | true, '\\' :: 'u' :: tail =>
        if tail.length ≤ 4 then .ok (high, 5)
        else
          match hexCode? tail with
          | none => .error (.malformed .codeEscape (tail.length + 1))
          | some low =>
            if 0xdc00 ≤ low && low < 0xe000 then
              .ok (0x10000 + (high - 0xd800) * 0x400 + (low - 0xdc00), 11)
            else .ok (high, 5)
      | _, _ => .ok (high, 5)
  | '"' :: _ => .ok ('"'.toNat, 1)
  | '\\' :: _ => .ok ('\\'.toNat, 1)
  | '/' :: _ => .ok ('/'.toNat, 1)
  | 'b' :: _ => .ok (0x08, 1)
  | 'f' :: _ => .ok (0x0c, 1)
  | 'n' :: _ => .ok (0x0a, 1)
  | 'r' :: _ => .ok (0x0d, 1)
  | 't' :: _ => .ok (0x09, 1)
  | c :: rest => .error (.malformed .escape ((c :: rest).length + 1))

/-- The code points of a text whose opening quote has been read, and what is behind it, with
`opening` characters left from that quote on. The next `skip` characters belong to an escape that
has been read. -/
def readText (opening skip : Nat) : List Char → Except Error (List Nat × List Char)
  | [] => .error (.malformed .unterminated opening)
  | c :: rest =>
    match skip with
    | n + 1 => readText opening n rest
    | 0 =>
      if c = '"' then .ok ([], rest)
      else if c = '\\' then do
        let (point, used) ← readEscape opening rest
        let (points, after) ← readText opening used rest
        pure (point :: points, after)
      else if c.toNat < 0x20 then .error (.malformed .control (rest.length + 1))
      else do
        let (points, after) ← readText opening 0 rest
        pure (c.toNat :: points, after)

/-! ### Numbers -/

/-- The digits of a whole part: a zero stands alone. -/
def splitWhole : List Char → List Char × List Char
  | '0' :: rest => (['0'], rest)
  | cs => (cs.takeWhile Text.isAsciiDigit, cs.dropWhile Text.isAsciiDigit)

/-- The digits behind a point, if a point and a digit are next. -/
def splitFraction : List Char → Option (List Char) × List Char
  | '.' :: rest =>
    match rest.takeWhile Text.isAsciiDigit with
    | [] => (none, '.' :: rest)
    | digits => (some digits, rest.dropWhile Text.isAsciiDigit)
  | cs => (none, cs)

/-- The sign and the digits of an exponent, if one with a digit is next. -/
def splitExponent (cs : List Char) : Option (Bool × List Char) × List Char :=
  match cs with
  | mark :: rest =>
    if mark = 'e' || mark = 'E' then
      let (negative, digits) :=
        match rest with
        | '-' :: rest => (true, rest)
        | '+' :: rest => (false, rest)
        | rest => (false, rest)
      match digits.takeWhile Text.isAsciiDigit with
      | [] => (none, cs)
      | power => (some (negative, power), digits.dropWhile Text.isAsciiDigit)
    else (none, cs)
  | [] => (none, [])

def valueOf (digits : List Char) : Nat := Numeral.valueOf (digits.map Text.asciiDigitValue)

/-- The number at the front of a text. -/
def readNumber (cs : List Char) : Except Error (Value × List Char) :=
  let (negative, unsigned) :=
    match cs with
    | '-' :: rest => (true, rest)
    | cs => (false, cs)
  match splitWhole unsigned with
  | ([], _) => .error (.malformed .value cs.length)
  | (whole, rest) =>
    let (fraction, rest) := splitFraction rest
    let (exponent, rest) := splitExponent rest
    match fraction, exponent with
    | none, none =>
      if Numeral.digitLimit < whole.length then .error (.numeralTooLong whole.length)
      else
        let n : Int := valueOf whole
        .ok (.int (if negative then -n else n), rest)
    | fraction, exponent =>
      let fraction := fraction.getD []
      let power : Int :=
        match exponent with
        | some (true, digits) => -(valueOf digits : Int)
        | some (false, digits) => valueOf digits
        | none => 0
      .ok (.float (.ofDecimal negative (valueOf (whole ++ fraction)) (power - fraction.length)),
        rest)

/-! ### Values -/

/-- The words that stand for values. -/
def words : List (List Char × Value) :=
  [("null".toList, .null), ("true".toList, .bool true), ("false".toList, .bool false),
    ("NaN".toList, .float .nan), ("Infinity".toList, .float (.infinity false)),
    ("-Infinity".toList, .float (.infinity true))]

def readWord? (cs : List Char) : Option (Value × List Char) :=
  (words.find? fun (word, _) => word.isPrefixOf cs).map fun (word, value) =>
    (value, cs.drop word.length)

mutual

/-- The value at the front of a text. The first argument bounds the steps; twice the length of
the text, and two more, are always enough. The second is the number of levels of brackets that may
still be opened. -/
def readValue : (steps levels : Nat) → List Char → Except Error (Value × List Char)
  | 0, _, cs => .error (.malformed .value cs.length)
  | _ + 1, _, [] => .error (.malformed .value 0)
  | steps + 1, levels, c :: rest =>
    if c = '"' then do
      let (points, after) ← readText (rest.length + 1) 0 rest
      pure (.atom (.ofCodes points), after)
    else if c = '\x7b' then
      match levels, skipSpace rest with
      | 0, _ => .error (.tooDeep .object)
      | _ + 1, '\x7d' :: after => .ok (.dict [], after)
      | levels + 1, members => do
        let (entries, after) ← readMembers steps levels members
        pure (.dict (OrderedMap.ofList entries).entries, after)
    else if c = '[' then
      match levels, skipSpace rest with
      | 0, _ => .error (.tooDeep .array)
      | _ + 1, ']' :: after => .ok (.list [], after)
      | levels + 1, items => do
        let (items, after) ← readItems steps levels items
        pure (.list items, after)
    else
      match readWord? (c :: rest) with
      | some reading => .ok reading
      | none => readNumber (c :: rest)

/-- The items of a list up to its closing bracket, at least one. -/
def readItems : (steps levels : Nat) → List Char → Except Error (List Value × List Char)
  | 0, _, cs => .error (.malformed .value cs.length)
  | steps + 1, levels, cs => do
    let (value, rest) ← readValue steps levels cs
    match skipSpace rest with
    | ']' :: after => pure ([value], after)
    | ',' :: after => do
      let (values, after) ← readItems steps levels (skipSpace after)
      pure (value :: values, after)
    | rest => .error (.malformed .comma rest.length)

/-- The members of an object up to its closing brace, at least one. -/
def readMembers : (steps levels : Nat) → List Char → Except Error (List (Atom × Value) × List Char)
  | 0, _, cs => .error (.malformed .value cs.length)
  | steps + 1, levels, '"' :: rest => do
    let (key, rest) ← readText (rest.length + 1) 0 rest
    match skipSpace rest with
    | ':' :: rest =>
      let (value, rest) ← readValue steps levels (skipSpace rest)
      let entry := (Atom.ofCodes key, value)
      match skipSpace rest with
      | '\x7d' :: after => pure ([entry], after)
      | ',' :: after => do
        let (entries, after) ← readMembers steps levels (skipSpace after)
        pure (entry :: entries, after)
      | rest => .error (.malformed .comma rest.length)
    | rest => .error (.malformed .colon rest.length)
  | _ + 1, _, cs => .error (.malformed .propertyName cs.length)

end

/-- The value of a whole text. -/
def read [DepthLimit] (cs : List Char) : Except Error Value := do
  let (value, rest) ← readValue (2 * cs.length + 2) DepthLimit.brackets (skipSpace cs)
  match skipSpace rest with
  | [] => pure value
  | rest => .error (.malformed .extraData rest.length)

end ScopeMachine.Json
