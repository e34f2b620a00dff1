import ScopeMachine.Value.Equality

/-! The operators of the machine. Whole numbers are unbounded; arithmetic with a float converts the
other operand to a float first, while comparison is exact. -/
namespace ScopeMachine

/-- The operators that take two operands. -/
inductive BinaryOp
  | add
  | sub
  | mul
  | div
  | eq
  | notEq
  | gt
  | ge
  | lt
  | le
  | and
  | or
  deriving DecidableEq, Repr

/-- The operators that take one operand. -/
inductive UnaryOp
  | not
  | neg
  deriving DecidableEq, Repr

/-- The four ways to ask for the order of two operands. -/
inductive Order
  | gt
  | ge
  | lt
  | le
  deriving DecidableEq, Repr

/-- Why an operator cannot be applied to its operands. -/
inductive OperandError
  | unsupported (sign : String) (left right : Kind)
  | concatenation (sequence other : Kind)
  | repetition (count : Kind)
  | unordered (sign : String) (left right : Kind)
  | unsigned (operand : Kind)
  | zeroDivisor (wording : String)
  | intTooLarge
  | quotientTooLarge
  | countTooLarge
  | repeatTooLong
  | notWhole (operand : Kind)
  /-- The result is larger than the memory. -/
  | outOfMemory
  deriving DecidableEq, Repr

def OperandError.message : OperandError → String
  | .unsupported sign left right =>
    "unsupported operand type(s) for " ++ sign ++ ": '" ++ left.name ++ "' and '" ++ right.name ++
      "'"
  | .concatenation sequence other =>
    "can only concatenate " ++ sequence.name ++ " (not \"" ++ other.name ++ "\") to " ++
      sequence.name
  | .repetition count => "can't multiply sequence by non-int of type '" ++ count.name ++ "'"
  | .unordered sign left right =>
    "'" ++ sign ++ "' not supported between instances of '" ++ left.name ++ "' and '" ++
      right.name ++ "'"
  | .unsigned operand => "bad operand type for unary -: '" ++ operand.name ++ "'"
  | .zeroDivisor wording => wording
  | .intTooLarge => "int too large to convert to float"
  | .quotientTooLarge => "integer division result too large for a float"
  | .countTooLarge => "cannot fit 'int' into an index-sized integer"
  | .repeatTooLong => "repeated string is too long"
  | .notWhole operand => "'" ++ operand.name ++ "' object cannot be interpreted as an integer"
  | .outOfMemory => ""

/-- An operand of arithmetic. -/
inductive Number
  | int (i : Int)
  | float (x : Binary64)
  deriving DecidableEq, Repr

namespace Number

def place? : Number → Option Place
  | .int i => some (.ofInt i)
  | .float x => Place.ofBinary64? x

/-- The whole number that a number is, if it is one. -/
def whole? : Number → Option Int
  | .int i => some i
  | .float x =>
    match Place.ofBinary64? x with
    | some (.finite units) =>
      if units % Binary64.scale = 0 then some (units / Binary64.scale) else none
    | _ => none

/-- The float nearest to a number; a whole number beyond the largest float has none. -/
def toBinary64 : Number → Except OperandError Binary64
  | .float x => .ok x
  | .int i =>
    let x := Binary64.ofInt i
    if x.isInfinite then .error .intTooLarge else .ok x

/-- Applies the exact rule to whole numbers and the rounded one as soon as a float takes part. -/
def combine (exact : Int → Int → Int) (rounded : Binary64 → Binary64 → Binary64) :
    Number → Number → Except OperandError Value
  | .int i, .int j => .ok (.int (exact i j))
  | x, y => do
    let a ← x.toBinary64
    let b ← y.toBinary64
    pure (.float (rounded a b))

/-- True division: a quotient of whole numbers is rounded once. -/
def divide : Number → Number → Except OperandError Value
  | .int i, .int j =>
    if j = 0 then .error (.zeroDivisor "division by zero")
    else
      let x := Binary64.ofRatio (decide (i < 0) != decide (j < 0)) i.natAbs j.natAbs
      if x.isInfinite then .error .quotientTooLarge else .ok (.float x)
  | x, y => do
    let a ← x.toBinary64
    let b ← y.toBinary64
    if b.isZero then .error (.zeroDivisor "float division by zero") else pure (.float (a.div b))

end Number

/-- The memory of the computer that a program runs on. -/
class MemoryLimit where
  /-- The number of bytes that the items of one value may take up. -/
  bytes : Nat

/-- The memory unless another one is given. -/
instance : MemoryLimit := ⟨Nat.pow 2 34⟩

namespace Value

/-- The number that a value stands for in arithmetic; truth values count as one and zero. -/
def number? : Value → Option Number
  | .atom (.bool b) => some (.int (if b then 1 else 0))
  | .atom (.int i) => some (.int i)
  | .atom (.float x) => some (.float x)
  | _ => none

/-- The whole number that a value stands for. -/
def whole? : Value → Option Int
  | .atom (.bool b) => some (if b then 1 else 0)
  | .atom (.int i) => some i
  | _ => none

theorem number?_of_whole? {v : Value} {i : Int} (h : v.whole? = some i) :
    v.number? = some (.int i) := by
  cases v with
  | atom a =>
    cases a with
    | bool b | int n =>
      cases h
      rfl
    | null | float x | str s | codes points => cases h
  | list items | dict entries => cases h

/-- The largest count and length of a sequence. -/
def sizeLimit : Nat := Nat.pow 2 63 - 1

/-- How often a sequence of `length` items of `width` bytes is to be repeated: negative counts count
as none, and an empty sequence stays empty however often it is repeated. -/
def repeats [MemoryLimit] (count : Int) (length width : Nat) (tooLong : OperandError) :
    Except OperandError Nat :=
  if count < -(sizeLimit : Int) - 1 || (sizeLimit : Int) < count then .error .countTooLarge
  else if sizeLimit < length * count.toNat then .error tooLong
  else if MemoryLimit.bytes < length * count.toNat * width then .error .outOfMemory
  else .ok (if length = 0 then 0 else count.toNat)

/-- The number of bytes for each character of a text, which its largest code point settles. -/
def textWidth (points : List Nat) : Nat :=
  if points.all (· < 0x100) then 1 else if points.all (· < 0x10000) then 2 else 4

/-- A text or list repeated as often as `count` says. -/
def repeated [MemoryLimit] (sequence count : Value) : Except OperandError Value :=
  match count.whole? with
  | none => .error (.repetition count.kind)
  | some n =>
    match sequence with
    | .atom (.str s) => do
      let k ← repeats n s.length (textWidth (s.toList.map Char.toNat)) .repeatTooLong
      pure (.str (String.ofList (List.replicate k s.toList).flatten))
    | .atom (.codes points) => do
      let k ← repeats n points.length (textWidth points) .repeatTooLong
      pure (.atom (.ofCodes (List.replicate k points).flatten))
    | .list items => do
      let k ← repeats n items.length 8 .outOfMemory
      pure (.list (List.replicate k items).flatten)
    | _ => .error (.repetition count.kind)

def isSequence (v : Value) : Bool := v.kind == .str || v.kind == .list

/-- The code points of a text. -/
def codePoints? : Value → Option (List Nat)
  | .atom (.str s) => some (s.toList.map Char.toNat)
  | .atom (.codes points) => some points
  | _ => none

def add (a b : Value) : Except OperandError Value :=
  match a, b with
  | .atom (.str s), .atom (.str t) => .ok (.str (s ++ t))
  | .list xs, .list ys => .ok (.list (xs ++ ys))
  | _, _ =>
    match a.codePoints?, b.codePoints? with
    | some p, some q => .ok (.atom (.ofCodes (p ++ q)))
    | _, _ =>
      match a.number?, b.number? with
      | some x, some y => x.combine (· + ·) Binary64.add y
      | _, _ =>
        if a.isSequence then .error (.concatenation a.kind b.kind)
        else .error (.unsupported "+" a.kind b.kind)

def sub (a b : Value) : Except OperandError Value :=
  match a.number?, b.number? with
  | some x, some y => x.combine (· - ·) Binary64.sub y
  | _, _ => .error (.unsupported "-" a.kind b.kind)

def mul [MemoryLimit] (a b : Value) : Except OperandError Value :=
  match a.number?, b.number? with
  | some x, some y => x.combine (· * ·) Binary64.mul y
  | _, _ =>
    if a.isSequence then a.repeated b
    else if b.isSequence then b.repeated a
    else .error (.unsupported "*" a.kind b.kind)

def div (a b : Value) : Except OperandError Value :=
  match a.number?, b.number? with
  | some x, some y => x.divide y
  | _, _ => .error (.unsupported "/" a.kind b.kind)

def neg (a : Value) : Except OperandError Value :=
  match a.number? with
  | some (.int i) => .ok (.int (-i))
  | some (.float x) => .ok (.float x.neg)
  | none => .error (.unsigned a.kind)

end Value

namespace Order

def sign : Order → String
  | .gt => ">"
  | .ge => ">="
  | .lt => "<"
  | .le => "<="

/-- The answer when `x < y` is known as `less`, `x = y` as `equal` and `y < x` as `more`. -/
def decide (less equal more : Bool) : Order → Bool
  | .gt => more
  | .ge => more || equal
  | .lt => less
  | .le => less || equal

/-- The order of two numbers by place. A float that is not a number has none. -/
def numbers (o : Order) (x y : Number) : Bool :=
  match x.place?, y.place? with
  | some p, some q => o.decide (p.lt q) (p == q) (q.lt p)
  | _, _ => false

/-- The order of two texts by code point. -/
def texts (o : Order) (p q : List Nat) : Bool := o.decide (p < q) (p == q) (q < p)

mutual

/-- The order of numbers by place, of texts by code point and of lists by their first difference. -/
def compare (o : Order) : Value → Value → Except OperandError Bool
  | .list xs, .list ys => o.compareItems xs ys
  | a, b =>
    match a.number?, b.number? with
    | some x, some y => .ok (o.numbers x y)
    | _, _ =>
      match a.codePoints?, b.codePoints? with
      | some p, some q => .ok (o.texts p q)
      | _, _ => .error (.unordered o.sign a.kind b.kind)

def compareItems (o : Order) : List Value → List Value → Except OperandError Bool
  | [], [] => .ok (o.decide false true false)
  | [], _ :: _ => .ok (o.decide true false false)
  | _ :: _, [] => .ok (o.decide false false true)
  | x :: xs, y :: ys => if x.same y then o.compareItems xs ys else o.compare x y

end

theorem compare_of_numbers {i j : Int} (o : Order) {x y : Value} (hx : x.number? = some (.int i))
    (hy : y.number? = some (.int j)) :
    o.compare x y = .ok (o.decide (i < j) (i == j) (j < i)) := by
  have hplaces : (Place.ofInt i == Place.ofInt j) = (i == j) := by
    rw [Bool.eq_iff_iff, beq_iff_eq, beq_iff_eq, Place.ofInt_inj]
  cases x with
  | list items | dict entries => cases hx
  | atom a =>
    rw [compare, hx, hy]
    · simp only [numbers, Number.place?, Place.ofInt_lt, hplaces]
    · intro xs ys hlist
      cases hlist

end Order

/-- The value of an operator; the operands are in the order in which the operator reads them. -/
def BinaryOp.apply [MemoryLimit] : BinaryOp → Value → Value → Except OperandError Value
  | .add, a, b => a.add b
  | .sub, a, b => a.sub b
  | .mul, a, b => a.mul b
  | .div, a, b => a.div b
  | .eq, a, b => .ok (.bool (a.alike b))
  | .notEq, a, b => .ok (.bool (!a.alike b))
  | .gt, a, b => (Order.gt.compare a b).map .bool
  | .ge, a, b => (Order.ge.compare a b).map .bool
  | .lt, a, b => (Order.lt.compare a b).map .bool
  | .le, a, b => (Order.le.compare a b).map .bool
  | .and, a, b => .ok (if a.truthy then b else a)
  | .or, a, b => .ok (if a.truthy then a else b)

def UnaryOp.apply : UnaryOp → Value → Except OperandError Value
  | .not, a => .ok (.bool !a.truthy)
  | .neg, a => a.neg

end ScopeMachine
