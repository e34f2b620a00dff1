import ScopeMachine.Frame

/-! The names by which a source text asks for instructions. -/
namespace ScopeMachine

inductive Mnemonic
  | nop
  | pop
  | push
  | line
  | setFrameTitle
  | addFrameNote
  | bind
  | rebind
  | enter
  | leave
  | find
  | leaveAt
  | not
  | neg
  deriving DecidableEq, Repr

namespace Mnemonic

def all : List Mnemonic :=
  [.nop, .pop, .push, .line, .setFrameTitle, .addFrameNote, .bind, .rebind, .enter, .leave, .find,
    .leaveAt, .not, .neg]

def name : Mnemonic → String
  | .nop => "nop"
  | .pop => "pop"
  | .push => "push"
  | .line => "line"
  | .setFrameTitle => "setFrameTitle"
  | .addFrameNote => "addFrameNote"
  | .bind => "bind"
  | .rebind => "rebind"
  | .enter => "enter"
  | .leave => "leave"
  | .find => "find"
  | .leaveAt => "leaveAt"
  | .not => "not"
  | .neg => "neg"

def ofName? (name : String) : Option Mnemonic := all.find? fun m => m.name == name

/-- The property that holds the source line being executed. -/
def lineProp : Value := .str "l"

/-- The numbers of arguments that a mnemonic accepts. -/
def arities : Mnemonic → List Nat
  | .push | .line | .bind | .rebind | .find | .leaveAt => [1]
  | .enter => [0, 1]
  | _ => [0]

/-- The instruction for an accepted number of arguments. -/
def instr? : Mnemonic → List Value → Option Instr
  | .nop, [] => some .nop
  | .pop, [] => some .pop
  | .push, [value] => some (.push value)
  | .line, [place] => some (.setProp lineProp place)
  | .setFrameTitle, [] => some .setFrameTitle
  | .addFrameNote, [] => some .addFrameNote
  | .bind, [name] => some (.bind name)
  | .rebind, [name] => some (.rebind name)
  | .enter, [] => some (.enter Frame.unnamed)
  | .enter, [name] => some (.enter name)
  | .leave, [] => some .leave
  | .find, [name] => some (.find name)
  | .leaveAt, [key] => some (.leaveAt key)
  | .not, [] => some (.unary .not)
  | .neg, [] => some (.unary .neg)
  | _, _ => none

theorem isSome_instr?_iff (m : Mnemonic) (arguments : List Value) :
    (m.instr? arguments).isSome = true ↔ arguments.length ∈ m.arities := by
  rcases arguments with _ | ⟨first, _ | ⟨second, rest⟩⟩ <;> cases m <;> simp [instr?, arities]

end Mnemonic

end ScopeMachine
