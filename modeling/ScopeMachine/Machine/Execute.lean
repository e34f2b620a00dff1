import ScopeMachine.Machine.Basic

/-! Execution of instructions and programs. An operator takes its left operand from the top of the
selected stack and its right operand from below it; a stack that runs out yields null. -/
namespace ScopeMachine

namespace Instr

/-- The first operand. -/
def operand (i : Instr) : Except Fault Value :=
  match i.operands with
  | [] => .error .missingOperand
  | value :: _ => .ok value

/-- The operands of an instruction that has exactly two. -/
def operandPair (i : Instr) : Except Fault (Value × Value) :=
  match i.operands with
  | [first, second] => .ok (first, second)
  | operands => .error (.operandPair operands.length)

/-- Reports that the operator of this instruction refused its operands. A lack of memory is no
fault of the operands. -/
def refuse (i : Instr) (operands : List Value) (result : Except OperandError Value) :
    Except Fault Value :=
  match result with
  | .ok value => .ok value
  | .error .outOfMemory => .error .outOfMemory
  | .error cause => .error (Fault.operator i operands cause).raised

/-- The machine after an instruction. Instructions without a scope key act on the scope `local`,
whichever scope is selected. -/
def execute [MemoryLimit] (i : Instr) (m : Machine) : Except Fault Machine :=
  match i.opcode with
  | .nop => .ok m
  | .push => do
    let value ← i.operand
    m.push value
  | .pop => m.pop
  | .findAt => do
    let (key, name) ← i.operandPair
    m.findAt key name
  | .find => do
    let name ← i.operand
    m.findAt Machine.localKey name
  | .enterAt => do
    let (key, name) ← i.operandPair
    m.enterAt key name
  | .enter => do
    let name ← i.operand
    m.enterAt Machine.localKey name
  | .leaveAt => do
    let key ← i.operand
    m.leaveAt key
  | .leave => m.leaveAt Machine.localKey
  | .bindAt => do
    let (key, name) ← i.operandPair
    let (value, m) ← m.take
    m.bindAt key name value
  | .bind => do
    let (value, m) ← m.take
    let name ← i.operand
    m.bindAt Machine.localKey name value
  | .rebindAt => do
    let (key, name) ← i.operandPair
    let (value, m) ← m.take
    let (_, m) ← m.rebindAt key name value
    pure m
  | .rebind => do
    let (value, m) ← m.take
    let name ← i.operand
    let (_, m) ← m.rebindAt Machine.localKey name value
    pure m
  | .binary op => do
    let (a, m) ← m.take
    let (b, m) ← m.take
    let result ← i.refuse [a, b] (op.apply a b)
    m.push result
  | .unary op => do
    let (a, m) ← m.take
    let result ← i.refuse [a] (op.apply a)
    m.push result
  | .setFrameTitle => do
    let (value, m) ← m.take
    m.setTitle value
  | .addFrameNote => do
    let (value, m) ← m.take
    m.addNote value
  | .setProp => do
    let (key, value) ← i.operandPair
    m.setProp key value
  | .setCurrentScope => do
    let key ← i.operand
    pure (m.selectScope key)
  | .setCurrentStack => do
    let key ← i.operand
    pure (m.selectStack key)

end Instr

namespace Machine

/-- Executes a program from the left; the first fault ends the run. -/
def run [MemoryLimit] (m : Machine) : List Instr → Except Fault Machine
  | [] => .ok m
  | i :: rest =>
    match i.execute m with
    | .ok next => next.run rest
    | .error fault => .error fault

@[simp] theorem run_nil [MemoryLimit] (m : Machine) : m.run [] = .ok m := rfl

theorem run_cons [MemoryLimit] (m : Machine) (i : Instr) (rest : List Instr) :
    m.run (i :: rest) = i.execute m >>= fun next => next.run rest := by
  rw [run]
  cases i.execute m <;> rfl

/-- A program runs part by part. -/
theorem run_append [MemoryLimit] (m : Machine) (first second : List Instr) :
    m.run (first ++ second) = m.run first >>= fun next => next.run second := by
  induction first generalizing m with
  | nil => rfl
  | cons i rest ih =>
    rw [List.cons_append, run_cons, run_cons]
    cases i.execute m with
    | error fault => rfl
    | ok next => exact ih next

/-! ### Notices -/

/-- The notices of a change to the scope under `key`, if there is one. -/
def noticesAt (m : Machine) (key : Value) (notices : Scope → List Notice) : List Notice :=
  match m.scope key with
  | .ok scope => notices scope
  | .error _ => []

def leaveNotices (m : Machine) (key : Value) : List Notice := m.noticesAt key Scope.leaveNotices

def bindNotices (m : Machine) (key name : Value) : List Notice :=
  m.noticesAt key fun scope => scope.bindNotices name

def dropNotices (m : Machine) (key : Value) (what : String) : List Notice :=
  m.noticesAt key fun scope => scope.dropNotices what

/-- The notice that no frame had the name to bind anew. -/
def rebindNotices (m : Machine) (key name : Value) : List Notice :=
  match m.rebindAt key name .null with
  | .ok (none, _) =>
    Notice.ofText? .debug .machine do
      let name ← name.plain?
      let key ← key.plain?
      pure ("rebind of '" ++ name ++ "' at '" ++ key ++ "' found nothing")
  | _ => []

end Machine

namespace Instr

/-- The notices of an operand's use, which come only after the operand was there to take. -/
def afterTake (m : Machine) (notices : Machine → List Notice) : List Notice :=
  match m.take with
  | .ok (_, m) => notices m
  | .error _ => []

/-- What is reported while the instruction is executed, whether or not it succeeds. -/
def notices (i : Instr) (m : Machine) : List Notice :=
  Notice.ofText? .debug .machine (i.text?.map ("exec " ++ ·)) ++
    match i.opcode, i.operands with
    | .leaveAt, key :: _ => m.leaveNotices key
    | .leave, _ => m.leaveNotices Machine.localKey
    | .bindAt, [key, name] => afterTake m (·.bindNotices key name)
    | .bind, name :: _ => afterTake m (·.bindNotices Machine.localKey name)
    | .rebindAt, [key, name] => afterTake m (·.rebindNotices key name)
    | .rebind, name :: _ => afterTake m (·.rebindNotices Machine.localKey name)
    | .setFrameTitle, _ => afterTake m fun m => m.dropNotices m.scopeKey "set_title"
    | .addFrameNote, _ => afterTake m fun m => m.dropNotices m.scopeKey "add_note"
    | _, _ => []

end Instr

/-- What is reported while a program runs up to its end or its first fault. -/
def Machine.runNotices [MemoryLimit] (m : Machine) : List Instr → List Notice
  | [] => []
  | i :: rest =>
    i.notices m ++
      match i.execute m with
      | .ok next => next.runNotices rest
      | .error _ => []

end ScopeMachine
