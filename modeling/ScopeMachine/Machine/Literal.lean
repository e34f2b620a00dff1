import ScopeMachine.Machine.Basic

/-! Machines and their parts spelled out in full. Sequences of frames and stacks are listed from
the bottom, and nothing can be spelled out that holds an integer too long to be written. -/
namespace ScopeMachine

def OrderedMap.literal? {α : Type} (item : α → Option String) (m : OrderedMap α) :
    Option String := do
  let entries ← m.entries.mapM fun (k, v) => do
    let key ← k.literal?
    let value ← item v
    pure (key ++ ": " ++ value)
  pure (bracketed "PMap(\x7b" entries "\x7d)")

/-- A stack whose items are given top first. -/
def stackLiteral? {α : Type} (item : α → Option String) (items : List α) : Option String :=
  (items.reverse.mapM item).map (bracketed "PStack([" · "])")

def Stack.literal? (s : Stack Value) : Option String := stackLiteral? Value.literal? s.toList

def Frame.literal? (f : Frame) : Option String := do
  let name ← f.name.literal?
  let binds ← f.binds.literal? Value.literal?
  let title ← f.title.literal?
  let notes ← Value.itemLiterals? f.notes
  let metaBinds ← f.metaBinds.literal? Value.literal?
  pure ("Frame(name=" ++ name ++ ", binds=" ++ binds ++ ", meta=FrameMeta(title=" ++ title ++
    ", notes=" ++ tupleText notes ++ ", binds=" ++ metaBinds ++ "))")

def Scope.literal? (s : Scope) : Option String := do
  let name ← s.name.literal?
  let frames ← stackLiteral? Frame.literal? s.frames
  pure ("Scope(name=" ++ name ++ ", frames=" ++ frames ++ ")")

/-- The environment of a machine. -/
def Machine.environmentLiteral? (m : Machine) : Option String := do
  let scopeKey ← m.scopeKey.literal?
  let stackKey ← m.stackKey.literal?
  let scopeMap ← m.scopeMap.literal? Scope.literal?
  let stackMap ← m.stackMap.literal? Stack.literal?
  let props ← m.props.literal? Value.literal?
  pure ("Env(cur_scope_key=" ++ scopeKey ++ ", cur_stack_key=" ++ stackKey ++ ", scopes=" ++
    scopeMap ++ ", stacks=" ++ stackMap ++ ", props=" ++ props ++ ")")

def Machine.literal? (m : Machine) : Option String :=
  m.environmentLiteral?.map fun environment => "VM(env=" ++ environment ++ ")"

end ScopeMachine
