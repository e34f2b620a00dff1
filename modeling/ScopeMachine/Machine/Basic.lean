import ScopeMachine.Scope
import ScopeMachine.Stack

/-! The machine: named scopes and stacks, one of each selected, and properties. Operations come in
two forms: those ending in `At` name the scope or stack they act on, the others act on the
selected one. -/
namespace ScopeMachine

structure Machine where
  scopeKey : Value := .str "local"
  stackKey : Value := .str "data"
  scopeMap : OrderedMap Scope := .empty
  stackMap : OrderedMap (Stack Value) := .empty
  props : OrderedMap Value := .empty

namespace Machine

/-- The scope that instructions address when they name none. -/
def localKey : Value := .str "local"

/-- The stack that is selected at first. -/
def dataKey : Value := .str "data"

/-- A machine without any container. -/
def empty : Machine := {}

/-! ### Scopes -/

/-- Adds a scope under its own key, or replaces the one that is there. -/
def addScope (m : Machine) (key : Value) (f : Scope → Except Fault Scope) :
    Except Fault Machine := do
  let scope ← f { name := key }
  let key ← key.asKey
  pure { m with scopeMap := m.scopeMap.set key scope }

def selectScope (m : Machine) (key : Value) : Machine := { m with scopeKey := key }

def scope (m : Machine) (key : Value) : Except Fault Scope := do
  let k ← key.asKey
  match m.scopeMap.get? k with
  | some scope => pure scope
  | none => throw (Fault.unknownContainer .scope key).raised

/-- Replaces the scope under `key` by what `f` makes of it. -/
def updateScope (m : Machine) (key : Value) (f : Scope → Except Fault Scope) :
    Except Fault Machine := do
  let scope ← m.scope key
  let scope ← f scope
  let key ← key.asKey
  pure { m with scopeMap := m.scopeMap.set key scope }

def enterAt (m : Machine) (key name : Value) (binds : Value := .null) : Except Fault Machine :=
  m.updateScope key fun scope => scope.enterWith name binds

def leaveAt (m : Machine) (key : Value) : Except Fault Machine :=
  m.updateScope key fun scope => .ok scope.leave

def bindAt (m : Machine) (key name value : Value) : Except Fault Machine :=
  m.updateScope key fun scope => scope.bind name value

def setTitleAt (m : Machine) (key title : Value) : Except Fault Machine :=
  m.updateScope key fun scope => scope.setTitle title

def addNoteAt (m : Machine) (key note : Value) : Except Fault Machine :=
  m.updateScope key fun scope => scope.addNote note

def bindMetaAt (m : Machine) (key metaKey value : Value) : Except Fault Machine :=
  m.updateScope key fun scope => scope.bindMeta metaKey value

/-- Binds a name anew. The index of the frame is missing if no frame has the name; the machine is
then unchanged. -/
def rebindAt (m : Machine) (key name value : Value) : Except Fault (Option Nat × Machine) := do
  let scope ← m.scope key
  match ← scope.rebind name value with
  | none => pure (none, m)
  | some (index, scope) =>
    let key ← key.asKey
    pure (some index, { m with scopeMap := m.scopeMap.set key scope })

def lookupAt (m : Machine) (key name : Value) : Except Fault (Option Binding) := do
  let scope ← m.scope key
  scope.lookup name

/-- The value of a name, or the default if no frame binds it. -/
def valueAt (m : Machine) (key name default : Value) : Except Fault Value := do
  let scope ← m.scope key
  scope.find name default

def currentScope (m : Machine) : Except Fault Scope := m.scope m.scopeKey

def setTitle (m : Machine) (title : Value) : Except Fault Machine := m.setTitleAt m.scopeKey title

def addNote (m : Machine) (note : Value) : Except Fault Machine := m.addNoteAt m.scopeKey note

/-! ### Stacks -/

/-- Adds a stack, or replaces the one that is there. -/
def addStack (m : Machine) (key : Value) (f : Stack Value → Except Fault (Stack Value)) :
    Except Fault Machine := do
  let stack ← f .empty
  let key ← key.asKey
  pure { m with stackMap := m.stackMap.set key stack }

def selectStack (m : Machine) (key : Value) : Machine := { m with stackKey := key }

def stack (m : Machine) (key : Value) : Except Fault (Stack Value) := do
  let k ← key.asKey
  match m.stackMap.get? k with
  | some stack => pure stack
  | none => throw (Fault.unknownContainer .stack key).raised

def updateStack (m : Machine) (key : Value) (f : Stack Value → Stack Value) :
    Except Fault Machine := do
  let stack ← m.stack key
  let key ← key.asKey
  pure { m with stackMap := m.stackMap.set key (f stack) }

def pushAt (m : Machine) (key value : Value) : Except Fault Machine :=
  m.updateStack key (·.push value)

def popAt (m : Machine) (key : Value) : Except Fault Machine := m.updateStack key Stack.pop

def peekAt (m : Machine) (key default : Value) : Except Fault Value := do
  let stack ← m.stack key
  pure (stack.peek default)

def currentStack (m : Machine) : Except Fault (Stack Value) := m.stack m.stackKey

def push (m : Machine) (value : Value) : Except Fault Machine := m.pushAt m.stackKey value

def pop (m : Machine) : Except Fault Machine := m.popAt m.stackKey

def peek (m : Machine) (default : Value) : Except Fault Value := m.peekAt m.stackKey default

/-- The top of the selected stack, null if it is empty, and the machine without it. -/
def take (m : Machine) : Except Fault (Value × Machine) := do
  let value ← m.peek .null
  let m ← m.pop
  pure (value, m)

/-- Pushes the value of a name, which must be bound. -/
def findAt (m : Machine) (key name : Value) : Except Fault Machine := do
  match ← m.lookupAt key name with
  | some binding => m.push binding.value
  | none => throw (Fault.nameNotFound key name).raised

/-! ### Properties -/

def setProp (m : Machine) (key value : Value) : Except Fault Machine := do
  let key ← key.asKey
  pure { m with props := m.props.set key value }

def getProp (m : Machine) (key default : Value) : Except Fault Value := do
  let key ← key.asKey
  pure (m.props.getD key default)

/-! ### Machines to start from -/

/-- A machine with the scope `local`, which has no frames, and the stack `data`. -/
def bare : Machine :=
  { scopeMap := OrderedMap.empty.set (.str "local") { name := localKey }
    stackMap := OrderedMap.empty.set (.str "data") .empty }

/-- A machine whose scope `local` has one frame named `global`. -/
def initial : Machine :=
  { bare with
    scopeMap := OrderedMap.empty.set (.str "local")
      { name := localKey, frames := [.create (.str "global") .empty] } }

/-- Seals the stacks. -/
def sealed (mark : Nat) (m : Machine) : Machine :=
  { m with stackMap := m.stackMap.mapValues (Stack.sealed mark) }

/-- Equality of machines, whatever the order of their containers, bindings and properties. -/
def same (m n : Machine) : Bool :=
  m.scopeKey.same n.scopeKey && m.stackKey.same n.stackKey &&
    m.scopeMap.same Scope.same n.scopeMap && m.stackMap.same Stack.same n.stackMap &&
    m.props.same Value.same n.props

end Machine

end ScopeMachine
