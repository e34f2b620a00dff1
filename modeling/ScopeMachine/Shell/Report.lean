import ScopeMachine.Json.Writer
import ScopeMachine.Machine.Snapshot
import ScopeMachine.Shell.Help
import ScopeMachine.Shell.Session

/-! What the program does with a request. -/
namespace ScopeMachine

/-- What stands under a file name. -/
inductive FileContent
  | missing
  | directory
  | bytes (content : List UInt8)

/-- Everything that a request leads to. -/
structure Report where
  exit : Nat
  events : List Event := []
  output : String := ""
  notices : List Notice := []
  crash : Option Crash := none

/-- What a request comes to: a finished report, or a session for the user to lead. -/
inductive Progress
  | finished (report : Report)
  | session (stepper : Stepper) (notices : List Notice)

namespace Report

def write (output : String) : Report := { exit := 0, output }

def misused : Report := { exit := 2 }

/-- The report of what was shown; a crash is an exit of its own. -/
def ofTranscript (t : Transcript) : Report :=
  { exit := if t.crash.isSome then 1 else 0, events := t.events, crash := t.crash }

def crashed (crash : Crash) : Report := { exit := 1, crash := some crash }

def ofSourceError : SourceError → Report
  | .numeralTooLong digits => crashed (.numeralTooLong digits)
  | error =>
    { exit := 1
      events := [.print (.text ("[bold red]❌ Compile error:[/bold red] " ++ error.message))] }

def ofFault (fault : Fault) : Report :=
  if fault.isRecoverable then
    { exit := 1, events := [.print (.text ("[bold red]Error:[/bold red] " ++ fault.message))] }
  else crashed (.fault fault)

def withNotices (notices : List Notice) (r : Report) : Report :=
  { r with notices := notices ++ r.notices }

/-- Puts an event in front. -/
def after (event : Event) (r : Report) : Report := { r with events := event :: r.events }

/-- Keeps the notices at or above a level. -/
def atLeast (level : Level) (r : Report) : Report :=
  { r with notices := Notice.atLeast level r.notices }

end Report

/-- The text of a file, its line ends written as line feeds. -/
def readSource (bytes : List UInt8) : Except Text.Utf8Error String :=
  (Text.decodeUtf8 bytes).map fun cs => String.ofList (Text.unifyNewlines cs)

namespace Shell

/-- The settings that options put over those of the source. -/
def overrides (lenient keepGoing : Bool) : List (Atom × Value) :=
  [(.str Config.Field.strictNames.name, if lenient then .bool false else .null),
    (.str Config.Field.stopOnError.name, if keepGoing then .bool false else .null)]

/-- What is shown of a program that ran. -/
def showRun [CellRenderer] (file : String) (outcome : Outcome) : Report :=
  .after (.print (.text ("🚀 [bold green]Running[/bold green] " ++ file ++ "\n")))
    (match outcome.fault with
    | some fault => .ofFault fault
    | none => .ofTranscript (.ofView (View.ofMachine outcome.stepper.machine)))

/-- The final state of a program that ran, as JSON. -/
def writeSnapshot (outcome : Outcome) : Report :=
  match outcome.fault with
  | some fault => .ofFault fault
  | none =>
    match Json.write? 0 outcome.stepper.machine.snapshot with
    | some text => .write (text ++ "\n")
    | none => .crashed (.fault .digitLimit)

def showCount (program : List Instr) : Report :=
  .ofTranscript (.say ("[bold green]✅ " ++ Numeral.ofNat program.length ++
    " instructions, syntax is valid![/bold green]"))

def showTokens [CellRenderer] (source : String) : Report :=
  match (Scan.ofChars source.toList).result with
  | .ok (tokens, _) => .ofTranscript (.ofView (View.ofTokens tokens))
  | .error e => .ofSourceError e

/-- What an action does with a compiled program. Tokens are shown without compiling, so `tokens`
does not come here; a program that does is only counted. -/
def performOn [MemoryLimit] [CellRenderer] (action : Action) (file : String) (config : Config)
    (program : List Instr) :
    Progress :=
  let stepper := Stepper.start program config.machine
  let command := Command.run config.stopOnError
  match action with
  | .run =>
    .finished ((showRun file (stepper.perform command)).withNotices (stepper.notices command))
  | .snapshot =>
    .finished ((writeSnapshot (stepper.perform command)).withNotices (stepper.notices command))
  | .compile => .finished (.ofTranscript (.ofView (View.ofProgram program none)))
  | .step => .session stepper []
  | .check | .tokens => .finished (showCount program)

/-- Adds notices that were given before. -/
def afterNotices (notices : List Notice) : Progress → Progress
  | .finished report => .finished (report.withNotices notices)
  | .session stepper more => .session stepper (notices ++ more)

/-- Configures, compiles and performs. -/
def performSource [MemoryLimit] [Json.DepthLimit] [CellRenderer] (action : Action)
    (lenient keepGoing : Bool) (file source : String) : Progress :=
  let flags := overrides lenient keepGoing
  afterNotices (Config.loadNotices source flags)
    (match Config.load source flags with
    | .error e => .finished (.crashed (.ofFlagError e))
    | .ok config =>
      let listing := Listing.ofSource config.strictNames source
      afterNotices (listing.notices file)
        (match listing.result with
        | .error e => .finished (.ofSourceError e)
        | .ok program => performOn action file config program))

/-- Performs an action on a file. -/
def performFile [MemoryLimit] [Json.DepthLimit] [CellRenderer] (action : Action)
    (lenient keepGoing : Bool) (file : String) :
    FileContent → Progress
  | .missing | .directory => .finished .misused
  | .bytes content =>
    match readSource content with
    | .error e => .finished (.crashed (.encoding e))
    | .ok source =>
      match action with
      | .tokens => .finished (showTokens source)
      | _ => performSource action lenient keepGoing file source

/-- The report of a session that the user leads by the given lines. -/
def hold [MemoryLimit] [CellRenderer] (stepper : Stepper) (notices : List Notice)
    (inputs : List (Option String)) : Report :=
  let (transcript, more) := Session.hold stepper inputs
  (Report.ofTranscript transcript).withNotices (notices ++ more)

/-- The report of a request. -/
def perform [MemoryLimit] [Json.DepthLimit] [CellRenderer] (content : String → FileContent)
    (inputs : List (Option String)) : Request → Report
  | .help action => .write (Help.text action)
  | .version => .write Help.version
  | .misuse => .misused
  | .perform level action lenient keepGoing file =>
    match performFile action lenient keepGoing file (content file) with
    | .finished report => report.atLeast level
    | .session stepper notices => (hold stepper notices inputs).atLeast level

end Shell

end ScopeMachine
