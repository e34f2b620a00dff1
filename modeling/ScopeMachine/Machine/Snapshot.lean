import ScopeMachine.Machine.Basic

/-! Snapshots: the state of a machine as one value, for display. -/
namespace ScopeMachine

def Frame.snapshot (f : Frame) : Value :=
  .dict [
    (.str "name", f.name),
    (.str "title", f.shownTitle),
    (.str "binds", .dict f.binds.entries),
    (.str "notes", .list f.notes),
    (.str "meta", .dict f.metaBinds.entries)]

/-- Frames are listed innermost first, the order in which names are looked up. -/
def Scope.snapshot (s : Scope) : Value :=
  .dict [(.str "name", s.name), (.str "frames", .list (s.frames.map Frame.snapshot))]

/-- Stacks are listed top first. -/
def Machine.snapshot (m : Machine) : Value :=
  .dict [
    (.str "current_scope", m.scopeKey),
    (.str "current_stack", m.stackKey),
    (.str "scopes", .dict (m.scopeMap.entries.map fun (key, scope) => (key, scope.snapshot))),
    (.str "stacks", .dict (m.stackMap.entries.map fun (key, stack) => (key, .list stack.toList))),
    (.str "props", .dict m.props.entries)]

end ScopeMachine
