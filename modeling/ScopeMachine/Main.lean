import ScopeMachine.Shell.Console
import ScopeMachine.Shell.Report

/-! The program on the command line. -/
namespace ScopeMachine

def printEvent : Event → IO Unit
  | .print view => view.lines.forM IO.println
  | .prompt text => IO.print (Markup.strip text)

def printNotices (level : Level) (notices : List Notice) : IO Unit :=
  (Notice.atLeast level notices).forM fun notice =>
    IO.eprintln (notice.level.name ++ " " ++ notice.text)

def printCrash (crash : Option Crash) : IO UInt32 :=
  match crash with
  | some crash => do
    IO.eprintln crash.message
    pure 1
  | none => pure 0

def printReport (level : Level) (report : Report) : IO UInt32 := do
  printNotices level report.notices
  report.events.forM printEvent
  IO.print report.output
  if report.exit == 2 then
    IO.eprintln ("Usage: " ++ Help.programName ++ " [OPTIONS] COMMAND [ARGS]...")
  discard (printCrash report.crash)
  pure (UInt32.ofNat report.exit)

/-- What a file name stands for; a file that cannot be read is taken for missing. -/
def readContent (file : String) : IO FileContent := do
  try
    let content ← IO.FS.readBinFile file
    pure (.bytes content.toList)
  catch _ => pure .missing

/-- Asks for a line and answers it, until the session is over. -/
partial def converse (level : Level) (stepper : Stepper) : IO UInt32 := do
  Session.prompt.events.forM printEvent
  let line ← (← IO.getStdin).getLine
  let reply := Session.respond stepper (if line.isEmpty then none else some line)
  printNotices level reply.notices
  reply.shown.events.forM printEvent
  match reply.next with
  | some stepper => converse level stepper
  | none => printCrash reply.shown.crash

def performRequest (request : Request) : IO UInt32 := do
  match request with
  | .perform level action lenient keepGoing file =>
    match Shell.performFile action lenient keepGoing file (← readContent file) with
    | .finished report => printReport level report
    | .session stepper notices =>
      printNotices level notices
      let opening := Session.opening stepper
      opening.events.forM printEvent
      match opening.crash with
      | some crash => printCrash (some crash)
      | none => converse level stepper
  | request => printReport .warning (Shell.perform (fun _ => .missing) [] request)

end ScopeMachine

def main (arguments : List String) : IO UInt32 :=
  ScopeMachine.performRequest (.ofArguments arguments)
