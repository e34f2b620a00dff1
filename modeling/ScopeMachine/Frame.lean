import ScopeMachine.Fault
import ScopeMachine.OrderedMap

/-! Frames: one level of name bindings, with a title, notes and further labels for display. -/
namespace ScopeMachine

/-- The outcome of a successful look-up; depth 0 is the innermost frame. -/
structure Binding where
  name : Atom
  value : Value
  depth : Nat := 0

/-- One level of bindings. A null title means that none was given. -/
structure Frame where
  name : Value
  binds : OrderedMap Value := .empty
  title : Value := .null
  notes : List Value := []
  metaBinds : OrderedMap Value := .empty

namespace Frame

/-- The name of a frame that was entered without one. -/
def unnamed : Value := .str "<frame>"

def create (name : Value) (binds : OrderedMap Value) : Frame :=
  match name with
  | .null => ⟨unnamed, binds, .null, [], .empty⟩
  | name => ⟨name, binds, .null, [], .empty⟩

/-- The title to display: the name stands in for a title that was not given. -/
def shownTitle (f : Frame) : Value :=
  match f.title with
  | .null => f.name
  | title => title

def bind (f : Frame) (name : Atom) (value : Value) : Frame :=
  { f with binds := f.binds.set name value }

def hasName (f : Frame) (name : Atom) : Bool := f.binds.contains name

def lookup (f : Frame) (name : Atom) : Option Binding :=
  (f.binds.get? name).map fun value => ⟨name, value, 0⟩

def find (f : Frame) (name : Atom) (default : Value) : Value := f.binds.getD name default

def setTitle (f : Frame) (title : Value) : Frame := { f with title }

def addNote (f : Frame) (note : Value) : Frame := { f with notes := f.notes ++ [note] }

def bindMeta (f : Frame) (key : Atom) (value : Value) : Frame :=
  { f with metaBinds := f.metaBinds.set key value }

/-- Equality of frames, whatever the order of their bindings. -/
def same (f g : Frame) : Bool :=
  f.name.same g.name && f.binds.same Value.same g.binds && f.title.same g.title &&
    Value.sameItems f.notes g.notes && f.metaBinds.same Value.same g.metaBinds

end Frame

end ScopeMachine
