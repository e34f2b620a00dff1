import ScopeMachine.Fault

/-! Stacks whose cells keep the number of items from there down, so that the size of a stack is read
off its top cell. The view `toList` lists the items top first.

A stack shares the cells of the stack it was made from. A keeper of several stacks may *seal* them:
new cells get a number, which they keep. Stacks of the same sealed cells are one and the same, and
therefore equal even if they hold an item that equals nothing. -/
namespace ScopeMachine

/-- An item in its place on a stack, the number of items from there down, and the seal of the
place. -/
structure Cell (α : Type) where
  item : α
  size : Nat
  mark? : Option Nat := none

namespace Cell

variable {α : Type}

/-- Puts a seal on a cell that bears none. -/
def sealed (mark : Nat) (c : Cell α) : Cell α := { c with mark? := some (c.mark?.getD mark) }

/-- Whether two cells are one and the same. -/
def same (a b : Cell Value) : Bool :=
  a.mark?.isSome && a.mark? == b.mark? && a.item.same b.item

/-- What the top cell keeps for the size. -/
def keptSize : List (Cell α) → Nat
  | [] => 0
  | cell :: _ => cell.size

/-- A new cell on top of those below it, with the size that they call for. -/
def stacked (item : α) (below : List (Cell α)) : List (Cell α) :=
  { item, size := keptSize below + 1 } :: below

/-- Every cell keeps the number of cells from it down. -/
def Sized : List (Cell α) → Prop
  | [] => True
  | cell :: below => cell.size = below.length + 1 ∧ Sized below

theorem Sized.keptSize_eq {cells : List (Cell α)} (h : Sized cells) :
    keptSize cells = cells.length := by
  cases cells with
  | nil => rfl
  | cons cell below => exact h.1

theorem Sized.stacked {below : List (Cell α)} (h : Sized below) (item : α) :
    Sized (Cell.stacked item below) :=
  ⟨congrArg (· + 1) h.keptSize_eq, h⟩

theorem Sized.tail {cells : List (Cell α)} (h : Sized cells) : Sized cells.tail := by
  cases cells with
  | nil => exact h
  | cons cell below => exact h.2

theorem Sized.map_sealed {cells : List (Cell α)} (h : Sized cells) (mark : Nat) :
    Sized (cells.map (sealed mark)) := by
  induction cells with
  | nil => exact h
  | cons cell below ih => exact ⟨by simpa [sealed] using h.1, ih h.2⟩

theorem Sized.size_of_append {above below : List (Cell α)} {cell : Cell α}
    (h : Sized (above ++ cell :: below)) : cell.size = (cell :: below).length := by
  induction above with
  | nil => exact h.1
  | cons top rest ih => exact ih h.2

end Cell

/-- Cells, top first. -/
structure Stack (α : Type) where
  cells : List (Cell α)
  sized : Cell.Sized cells

namespace Stack

variable {α : Type}

@[ext] theorem ext {s t : Stack α} (h : s.cells = t.cells) : s = t := by
  obtain ⟨xs, hx⟩ := s
  obtain ⟨ys, hy⟩ := t
  subst h
  rfl

def toList (s : Stack α) : List α := s.cells.map Cell.item

def size (s : Stack α) : Nat := Cell.keptSize s.cells

theorem size_eq (s : Stack α) : s.size = s.cells.length := s.sized.keptSize_eq

def empty : Stack α := ⟨[], trivial⟩

instance : Inhabited (Stack α) := ⟨empty⟩

def push (s : Stack α) (item : α) : Stack α := ⟨Cell.stacked item s.cells, s.sized.stacked item⟩

/-- Drops the top item; an empty stack stays as it is. -/
def pop (s : Stack α) : Stack α := ⟨s.cells.tail, s.sized.tail⟩

/-- The stack of `items`, which are listed bottom first. -/
def ofItems (items : List α) : Stack α := items.foldl push empty

def isEmpty (s : Stack α) : Bool := s.cells.isEmpty

def peek (s : Stack α) (default : α) : α :=
  match s.cells with
  | [] => default
  | cell :: _ => cell.item

/-- Walks down `index` items. -/
def itemBelow (default : α) : (index : Nat) → List (Cell α) → α
  | _, [] => default
  | 0, cell :: _ => cell.item
  | index + 1, _ :: rest => itemBelow default index rest

/-- The item `index` places below the top, or the default where there is none. -/
def get (s : Stack α) (index : Int) (default : α) : α :=
  if index < 0 then default else itemBelow default index.toNat s.cells

/-- Takes `count` items off, if there are as many, and puts them in front of those in `taken`, the
last one first. What is left comes with them. -/
def takeOff? : (count : Nat) → (taken : List α) → Stack α → Option (List α × Stack α)
  | 0, taken, s => some (taken, s)
  | count + 1, taken, s =>
    match s.cells with
    | [] => none
    | cell :: _ => takeOff? count (cell.item :: taken) s.pop

/-- Replaces the item `index` places below the top, if there is one. The items above it are taken
off and pushed again; what lies below it is kept. -/
def replace? (s : Stack α) (index : Int) (item : α) : Option (Stack α) :=
  if 0 ≤ index ∧ index < s.size then
    (s.takeOff? index.toNat []).map fun (above, rest) => above.foldl push (rest.pop.push item)
  else none

/-- The number of items above the first one that satisfies `p`. -/
def itemsAbove (p : α → Bool) : List α → Option Nat
  | [] => none
  | item :: rest => if p item then some 0 else (itemsAbove p rest).map (· + 1)

/-- The least index of an item that satisfies `p`, or -1. -/
def findIndex (s : Stack α) (p : α → Bool) : Int :=
  match itemsAbove p s.toList with
  | some n => n
  | none => -1

/-- Seals the cells that bear no seal. -/
def sealed (mark : Nat) (s : Stack α) : Stack α :=
  ⟨s.cells.map (Cell.sealed mark), s.sized.map_sealed mark⟩

/-- Stacks of the same size are equal if they are one and the same or have equal items. -/
def same (s t : Stack Value) : Bool :=
  s.size == t.size &&
    ((s.cells.zip t.cells).all (fun (a, b) => a.same b) ||
      (s.toList.zip t.toList).all fun (a, b) => a.equal b)

@[simp] theorem toList_empty : (empty : Stack α).toList = [] := rfl

@[simp] theorem toList_push (s : Stack α) (item : α) : (s.push item).toList = item :: s.toList :=
  rfl

@[simp] theorem toList_pop (s : Stack α) : s.pop.toList = s.toList.tail := List.map_tail

@[simp] theorem toList_sealed (mark : Nat) (s : Stack α) : (s.sealed mark).toList = s.toList := by
  simp [toList, sealed, Cell.sealed, Function.comp_def]

@[simp] theorem length_toList (s : Stack α) : s.toList.length = s.size := by
  simp [toList, s.size_eq]

theorem size_pop (s : Stack α) : s.pop.size = s.size - 1 := by
  rw [size_eq, size_eq, pop, List.length_tail]

@[simp] theorem pop_push (s : Stack α) (item : α) : (s.push item).pop = s := ext rfl

theorem peek_eq_headD (s : Stack α) (default : α) : s.peek default = s.toList.headD default := by
  unfold peek toList
  cases s.cells <;> rfl

theorem toList_foldl_push (items : List α) (s : Stack α) :
    (items.foldl push s).toList = items.reverse ++ s.toList := by
  induction items generalizing s with
  | nil => rfl
  | cons item rest ih => simp [ih]

@[simp] theorem toList_ofItems (items : List α) : (ofItems items).toList = items.reverse := by
  simp [ofItems, toList_foldl_push]

/-! ### Indices given as values -/

/-- The item at an index, which must be a number. There is none at a number that is not whole. -/
def getAt (s : Stack α) (index : Value) (default : α) : Except Fault α := do
  let _ ← (Order.lt.compare index (.int 0)).mapError Fault.operand
  pure ((index.number?.bind Number.whole?).elim default (s.get · default))

/-- Whether a number lies between zero and the size. -/
def inRange (s : Stack α) (index : Value) : Except Fault Bool := do
  if ← (Order.le.compare (.int 0) index).mapError Fault.operand then
    (Order.lt.compare index (.int s.size)).mapError Fault.operand
  else pure false

/-- Replaces the item at an index. The range is looked at first, and then whether the index is of a
kind that counts. -/
def replaceAt (s : Stack α) (index : Value) (item : α) : Except Fault (Stack α) := do
  if ← s.inRange index then
    match index.whole? with
    | none => throw (.operand (.notWhole index.kind))
    | some n =>
      match s.replace? n item with
      | some s => pure s
      | none => throw (Fault.stackIndex index).raised
  else throw (Fault.stackIndex index).raised

end Stack

end ScopeMachine
