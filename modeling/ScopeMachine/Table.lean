import ScopeMachine.Fault
import ScopeMachine.OrderedMap

/-! Maps given as values: a table, or a sequence of entries, each a sequence of a key and a value.
What is empty or counts as false gives the empty map. -/
namespace ScopeMachine

namespace Value

/-- The parts of a value: the items of a list, the characters of a text, the keys of a table. -/
def parts? : Value → Option (List Value)
  | .list items => some items
  | .atom (.str s) => some (s.toList.map fun c => .str (String.singleton c))
  | .atom (.codes points) => some (points.map fun n => .atom (.ofCodes [n]))
  | .dict entries => some (entries.map fun (key, _) => .atom key)
  | _ => none

/-- Sets the entries that the parts of a value make; `index` counts the parts before them. -/
def setParts (index : Nat) (m : OrderedMap Value) : List Value → Except Fault (OrderedMap Value)
  | [] => .ok m
  | part :: rest =>
    match part.parts? with
    | none => .error (.notSequence index)
    | some [key, value] => do
      let key ← key.asKey
      setParts (index + 1) (m.set key value) rest
    | some parts => .error (.notEntry index parts.length)

/-- The map that a value stands for. -/
def toMap (v : Value) : Except Fault (OrderedMap Value) :=
  if !v.truthy then .ok .empty
  else
    match v with
    | .dict entries => .ok (.ofList entries)
    | v =>
      match v.parts? with
      | none => .error (.notIterable v.kind)
      | some parts => setParts 0 .empty parts

end Value

end ScopeMachine
