import ScopeMachine.Machine.Execute
import ScopeMachine.Source.Mnemonic

/-! Stepping through a program forwards and backwards. Every forward step keeps the machine it
leaves, so a backward step restores it and computes nothing again. -/
namespace ScopeMachine

/-- The source line that a machine has reached, or null. -/
def Machine.line (m : Machine) : Value := m.props.getD (.str "l") .null

/-- The source line went from `before` to `after`. -/
structure LineMove where
  before : Value
  after : Value

def Machine.lineDiffers (m n : Machine) : Bool := !m.line.equal n.line

def Machine.lineMoves (m n : Machine) : List LineMove :=
  if m.lineDiffers n then [⟨m.line, n.line⟩] else []

/-- A program, the number of its instructions that are behind, the machine, the machines left by
the steps so far with the latest first, and whether the last step changed the line. -/
structure Stepper where
  program : List Instr
  machine : Machine
  pc : Nat := 0
  history : List Machine := []
  lineChanged : Bool := false

/-- What a command did: the stepper after it, whether it moved, the fault that stopped it, and the
line moves it announced. -/
structure Outcome where
  stepper : Stepper
  moved : Bool := true
  fault : Option Fault := none
  lineMoves : List LineMove := []

inductive Command
  | next
  | prev
  | skip
  | run (stopOnError : Bool)
  | reset
  deriving DecidableEq, Repr

namespace Stepper

def start (program : List Instr) (m : Machine) : Stepper := { program, machine := m }

def atStart (s : Stepper) : Bool := s.pc == 0

def atEnd (s : Stepper) : Bool := s.program.length ≤ s.pc

/-- The instruction that the next forward step executes. -/
def current? (s : Stepper) : Option Instr := s.program[s.pc]?

/-- The stepper after a forward step to machine `next`. -/
def advance (s : Stepper) (next : Machine) : Stepper :=
  { s with
    machine := next
    pc := s.pc + 1
    history := s.machine :: s.history
    lineChanged := s.machine.lineDiffers next }

/-- The stepper behind an instruction that was not executed. -/
def passOver (s : Stepper) : Stepper :=
  { s with pc := s.pc + 1, history := s.machine :: s.history, lineChanged := false }

/-- The stepper after a backward step to machine `last`, with `older` machines before it. -/
def retreat (s : Stepper) (last : Machine) (older : List Machine) : Stepper :=
  { s with
    machine := last
    pc := s.pc - 1
    history := older
    lineChanged := s.machine.lineDiffers last }

/-- Executes the current instruction. A fault changes nothing. -/
def next [MemoryLimit] (s : Stepper) : Outcome :=
  match s.current? with
  | none => { stepper := s, moved := false }
  | some i =>
    match i.execute s.machine with
    | .ok m => { stepper := s.advance m, lineMoves := s.machine.lineMoves m }
    | .error fault => { stepper := s, moved := false, fault := some fault }

/-- Restores the machine from before the last step. -/
def prev (s : Stepper) : Outcome :=
  match s.history with
  | [] => { stepper := s, moved := false }
  | last :: older =>
    { stepper := s.retreat last older, lineMoves := s.machine.lineMoves last }

/-- Passes over the current instruction. -/
def skip (s : Stepper) : Outcome :=
  match s.current? with
  | none => { stepper := s, moved := false }
  | some _ => { stepper := s.passOver }

/-- Executes `ahead`, the instructions from the current one on. A fault stops the run, unless
failing steps are to be passed over and the fault is one of running a program. -/
def runThrough [MemoryLimit] (stopOnError : Bool) : List Instr → Stepper → Outcome
  | [], s => { stepper := s }
  | i :: ahead, s =>
    match i.execute s.machine with
    | .ok m =>
      let rest := runThrough stopOnError ahead (s.advance m)
      { rest with lineMoves := s.machine.lineMoves m ++ rest.lineMoves }
    | .error fault =>
      if stopOnError || !fault.isRecoverable then { stepper := s, fault := some fault }
      else runThrough stopOnError ahead s.passOver

def run [MemoryLimit] (s : Stepper) (stopOnError : Bool) : Outcome :=
  runThrough stopOnError (s.program.drop s.pc) s

/-- Steps back once for every machine listed. -/
def backOver : List Machine → Stepper → Outcome
  | [], s => { stepper := s }
  | _ :: older, s =>
    let rest := backOver older s.prev.stepper
    { rest with lineMoves := s.prev.lineMoves ++ rest.lineMoves }

/-- Steps back to the very first machine. -/
def reset (s : Stepper) : Outcome := backOver s.history s

def perform [MemoryLimit] (s : Stepper) : Command → Outcome
  | .next => s.next
  | .prev => s.prev
  | .skip => s.skip
  | .run stopOnError => s.run stopOnError
  | .reset => s.reset

/-! ### Notices -/

def skipNotices (i : Instr) (s : Stepper) : List Notice :=
  Notice.ofText? .info .stepper (i.text?.map fun text =>
    "skipping " ++ text ++ " at pc=" ++ Numeral.ofNat s.pc)

/-- The notice that a failing step is passed over. -/
def failureNotices (i : Instr) (fault : Fault) (s : Stepper) : List Notice :=
  Notice.ofText? .warning .stepper (i.text?.map fun text =>
    "step " ++ Numeral.ofNat s.pc ++ " (" ++ text ++ ") failed: " ++ fault.message)

def runNotices [MemoryLimit] (stopOnError : Bool) : List Instr → Stepper → List Notice
  | [], _ => []
  | i :: ahead, s =>
    i.notices s.machine ++
      match i.execute s.machine with
      | .ok m => runNotices stopOnError ahead (s.advance m)
      | .error fault =>
        if stopOnError || !fault.isRecoverable then []
        else
          failureNotices i fault s ++ skipNotices i s ++ runNotices stopOnError ahead s.passOver

/-- What is reported while a command is performed. -/
def notices [MemoryLimit] (s : Stepper) : Command → List Notice
  | .next =>
    match s.current? with
    | some i => i.notices s.machine
    | none => []
  | .skip =>
    match s.current? with
    | some i => s.skipNotices i
    | none => []
  | .run stopOnError => runNotices stopOnError (s.program.drop s.pc) s
  | .prev | .reset => []

end Stepper

end ScopeMachine
