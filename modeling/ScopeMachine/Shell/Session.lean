import ScopeMachine.Shell.View

/-! An interactive session that steps through a program. -/
namespace ScopeMachine

/-- What was shown, and the crash that ended it, if any. -/
structure Transcript where
  events : List Event
  crash : Option Crash := none

namespace Transcript

def empty : Transcript := { events := [] }

def say (text : String) : Transcript := { events := [.print (.text text)] }

def ofView (view : Except Crash View) : Transcript :=
  match view with
  | .ok view => { events := [.print view] }
  | .error crash => { events := [], crash := some crash }

/-- One transcript after the other; nothing follows a crash. -/
def followedBy (t more : Transcript) : Transcript :=
  match t.crash with
  | some _ => t
  | none => { events := t.events ++ more.events, crash := more.crash }

end Transcript

/-- What the user asks for in a line. -/
inductive StepRequest
  | perform (command : Command)
  | quit
  | unknown (text : String)

def StepRequest.ofLine (line : String) : StepRequest :=
  match String.ofList (Text.lower (Text.trim line.toList)) with
  | "q" | "quit" | "exit" => .quit
  | "n" | "next" | "" => .perform .next
  | "p" | "prev" => .perform .prev
  | "s" | "skip" => .perform .skip
  | "r" | "reset" => .perform .reset
  | text => .unknown text

/-- The answer to one line of the user: what is shown and reported, and the stepper to go on with
unless the session is over. -/
structure Reply where
  shown : Transcript
  notices : List Notice := []
  next : Option Stepper := none

namespace Session

def prompt : Transcript := { events := [.prompt "[bold blue]step> [/bold blue]"] }

/-- The program with the current instruction marked, the machine, and the line if it changed. -/
def display [CellRenderer] (s : Stepper) : Transcript :=
  let shown := (Transcript.ofView (View.ofProgram s.program (some s.pc))).followedBy
    (.ofView (View.ofMachine s.machine))
  if s.lineChanged then
    shown.followedBy (.ofView do
      let line ← Crash.written s.machine.line.plain?
      pure (.text ("[bold]line " ++ line ++ "[/bold]")))
  else shown

def opening [CellRenderer] (s : Stepper) : Transcript :=
  (Transcript.say "[bold green]semtutor stepper[/bold green]").followedBy
    ((Transcript.say "n = next, p = prev, s = skip, r = reset, q = quit\n").followedBy (display s))

def farewell : Transcript := .say "\n👋 Goodbye!"

/-- What a command shows. A reset shows the machine even if there was nothing to step back over. -/
def answer [MemoryLimit] [CellRenderer] (s : Stepper) (command : Command) : Transcript :=
  let outcome := s.perform command
  match outcome.fault with
  | some fault =>
    if fault.isRecoverable then .say ("[red]Step failed: " ++ fault.message ++ "[/red]")
    else { events := [], crash := some (.fault fault) }
  | none =>
    if outcome.moved then display outcome.stepper else .say "[dim]Nothing to do here[/dim]"

/-- The answer to a line, or to an interrupt, which is none. -/
def respond [MemoryLimit] [CellRenderer] (s : Stepper) : Option String → Reply
  | none => { shown := farewell }
  | some line =>
    match StepRequest.ofLine line with
    | .quit => { shown := .empty }
    | .unknown text => { shown := .say ("[red]Unknown command: " ++ text ++ "[/red]"), next := s }
    | .perform command =>
      let shown := answer s command
      { shown
        notices := s.notices command
        next := if shown.crash.isSome then none else some (s.perform command).stepper }

/-- What a session shows and reports on the user's lines, from the next prompt on. The end of the
lines ends the session. -/
def proceed [MemoryLimit] [CellRenderer] (s : Stepper) :
    List (Option String) → Transcript × List Notice
  | [] => (prompt.followedBy farewell, [])
  | input :: rest =>
    let reply := respond s input
    match reply.next with
    | none => (prompt.followedBy reply.shown, reply.notices)
    | some s =>
      let (more, notices) := proceed s rest
      (prompt.followedBy (reply.shown.followedBy more), reply.notices ++ notices)

/-- A whole session. -/
def hold [MemoryLimit] [CellRenderer] (s : Stepper) (inputs : List (Option String)) :
    Transcript × List Notice :=
  let start := opening s
  match start.crash with
  | some _ => (start, [])
  | none =>
    let (more, notices) := proceed s inputs
    (start.followedBy more, notices)

end Session

end ScopeMachine
