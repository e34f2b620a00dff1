import ScopeMachine.Frame
import ScopeMachine.Notice
import ScopeMachine.Table

/-! Scopes: named stacks of frames. A name is looked up from the innermost frame outwards. -/
namespace ScopeMachine

/-- A stack of frames, innermost first. -/
structure Scope where
  name : Value
  frames : List Frame := []

namespace Scope

def top? (s : Scope) : Option Frame := s.frames.head?

def depth (s : Scope) : Nat := s.frames.length

def enter (s : Scope) (name : Value) (binds : OrderedMap Value) : Scope :=
  { s with frames := .create name binds :: s.frames }

/-- Enters a frame whose bindings are given as a value. -/
def enterWith (s : Scope) (name binds : Value) : Except Fault Scope := do
  let binds ← binds.toMap
  pure (s.enter name binds)

@[simp] theorem enterWith_null (s : Scope) (name : Value) :
    s.enterWith name .null = .ok (s.enter name .empty) := rfl

/-- Drops the innermost frame; a scope without frames stays as it is. -/
def leave (s : Scope) : Scope := { s with frames := s.frames.tail }

/-- Changes the innermost frame. Without frames there is nothing to change and `f` is not asked. -/
def updateTop (s : Scope) (f : Frame → Except Fault Frame) : Except Fault Scope :=
  match s.frames with
  | [] => .ok s
  | frame :: outer => do
    let frame ← f frame
    pure { s with frames := frame :: outer }

/-- Binds a name in the innermost frame. The name is written out in any case, because a binding
that is dropped is reported by name. -/
def bind (s : Scope) (name value : Value) : Except Fault Scope := do
  let _ ← name.plain
  s.updateTop fun frame => do
    let name ← name.asKey
    pure (frame.bind name value)

def setTitle (s : Scope) (title : Value) : Except Fault Scope :=
  s.updateTop fun frame => .ok (frame.setTitle title)

def addNote (s : Scope) (note : Value) : Except Fault Scope :=
  s.updateTop fun frame => .ok (frame.addNote note)

def bindMeta (s : Scope) (key value : Value) : Except Fault Scope :=
  s.updateTop fun frame => do
    let key ← key.asKey
    pure (frame.bindMeta key value)

/-- The binding of `name` in the first frame that has one; `depth` counts the frames passed. -/
def lookupIn (name : Atom) (depth : Nat) : List Frame → Option Binding
  | [] => none
  | frame :: outer =>
    match frame.lookup name with
    | some binding => some { binding with depth }
    | none => lookupIn name (depth + 1) outer

def lookup (s : Scope) (name : Value) : Except Fault (Option Binding) :=
  match s.frames with
  | [] => .ok none
  | frames => do
    let name ← name.asKey
    pure (lookupIn name 0 frames)

def find (s : Scope) (name default : Value) : Except Fault Value := do
  match ← s.lookup name with
  | some binding => pure binding.value
  | none => pure default

/-- Binds `name` anew in the first frame that has it, and says how many frames were passed. -/
def rebindIn (name : Atom) (value : Value) : List Frame → Option (Nat × List Frame)
  | [] => none
  | frame :: outer =>
    if frame.hasName name then some (0, frame.bind name value :: outer)
    else (rebindIn name value outer).map fun (index, outer) => (index + 1, frame :: outer)

/-- Binds `name` anew in the innermost frame that already has it, whose index is given, or answers
that no frame has it. -/
def rebind (s : Scope) (name value : Value) : Except Fault (Option (Nat × Scope)) :=
  match s.frames with
  | [] => .ok none
  | frames => do
    let name ← name.asKey
    pure ((rebindIn name value frames).map fun (index, frames) => (index, { s with frames }))

/-- Equality of scopes, whatever the order of bindings. -/
def same (s t : Scope) : Bool :=
  s.name.same t.name && s.frames.length == t.frames.length &&
    (s.frames.zip t.frames).all fun (f, g) => f.same g

/-- The notice that a change was dropped because there is no frame. -/
def dropNotices (s : Scope) (what : String) : List Notice :=
  match s.frames with
  | [] =>
    Notice.ofText? .warning .names (s.name.literal?.map fun name =>
      what ++ " on empty scope " ++ name ++ " dropped")
  | _ => []

def bindNotices (s : Scope) (name : Value) : List Notice :=
  match name.plain? with
  | some name => s.dropNotices ("bind of '" ++ name ++ "'")
  | none => []

def leaveNotices (s : Scope) : List Notice :=
  match s.frames with
  | [] =>
    Notice.ofText? .debug .names (s.name.literal?.map fun name =>
      "leave on empty scope " ++ name ++ " ignored")
  | _ => []

end Scope

end ScopeMachine
