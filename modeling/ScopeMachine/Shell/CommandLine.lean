import ScopeMachine.Notice

/-! The command line: options for all commands, a command, and its own options and file. -/
namespace ScopeMachine

/-- The commands. -/
inductive Action
  | check
  | compile
  | run
  | snapshot
  | step
  | tokens
  deriving DecidableEq, Repr

/-- The options that some commands take. -/
inductive Switch
  | lenient
  | keepGoing
  | help
  deriving DecidableEq, Repr

/-- The options that stand in front of a command. -/
inductive GlobalOption
  | version
  | logLevel (text : String)
  | help
  deriving DecidableEq, Repr

/-- What the command line asks for. -/
inductive Request
  | help (action : Option Action)
  | version
  | perform (level : Level) (action : Action) (lenient keepGoing : Bool) (file : String)
  /-- The command line is not understood. -/
  | misuse
  deriving DecidableEq, Repr

/-- How an option is written: alone, or with a value. -/
inductive OptionForm (α : Type)
  | flag (option : α)
  | setting (option : String → α)

namespace Action

/-- All commands by name. -/
def all : List Action := [.check, .compile, .run, .snapshot, .step, .tokens]

def name : Action → String
  | .check => "check"
  | .compile => "compile"
  | .run => "run"
  | .snapshot => "snapshot"
  | .step => "step"
  | .tokens => "tokens"

def ofName? (name : String) : Option Action := all.find? fun a => a.name == name

def description : Action → String
  | .check => "Check that a program compiles"
  | .compile => "Show the instructions a program compiles to"
  | .run => "Run a program and show the final machine state"
  | .snapshot => "Run a program and print the final state as JSON"
  | .step => "Step through a program interactively (n)ext, (p)rev, (s)kip, (r)eset, (q)uit"
  | .tokens => "Show tokens of a program"

def switches : Action → List Switch
  | .run | .snapshot => [.lenient, .keepGoing, .help]
  | .check | .compile | .step => [.lenient, .help]
  | .tokens => [.help]

end Action

namespace Switch

def name : Switch → String
  | .lenient => "--lenient"
  | .keepGoing => "--keep-going"
  | .help => "--help"

def description : Switch → String
  | .lenient => "Compile unknown instructions as Nop"
  | .keepGoing => "Skip failing steps instead of stopping"
  | .help => "Show this message and exit."

def form? (switches : List Switch) (name : String) : Option (OptionForm Switch) :=
  (switches.find? fun s => s.name == name).map .flag

end Switch

namespace GlobalOption

def form? : String → Option (OptionForm GlobalOption)
  | "--version" => some (.flag .version)
  | "--log-level" => some (.setting .logLevel)
  | "--help" => some (.flag .help)
  | _ => none

/-- The request that an option makes by itself, whatever else is asked for. -/
def request? : GlobalOption → Option Request
  | .version => some .version
  | .help => some (.help none)
  | .logLevel _ => none

def level? : GlobalOption → Option String
  | .logLevel text => some text
  | _ => none

end GlobalOption

/-- The level of a name in any case. -/
def Level.ofName? (name : String) : Option Level :=
  all.find? fun level => level.name.toList == name.toList.map Char.toUpper

namespace CommandLine

def isOption (argument : String) : Bool :=
  match argument.toList with
  | '-' :: _ :: _ => true
  | _ => false

/-- An option's name and the value joined to it by an equals sign. -/
def splitValue (argument : String) : String × Option String :=
  let cs := argument.toList
  let name := String.ofList (cs.takeWhile (· != '='))
  match cs.dropWhile (· != '=') with
  | [] => (name, none)
  | _ :: value => (name, some (String.ofList value))

/-- Sorts arguments into options and others. A double dash ends the options, and so does the first
other argument unless options may be mixed with them. There is no result if an option is unknown,
lacks its value or has one too many. -/
def sortArguments {α : Type} (form? : String → Option (OptionForm α)) (mixed : Bool) :
    List String → Option (List α × List String)
  | [] => some ([], [])
  | argument :: rest =>
    if argument == "--" then some ([], rest)
    else if isOption argument then
      match form? (splitValue argument).1, (splitValue argument).2, rest with
      | some (.flag option), none, rest => do
        let (options, others) ← sortArguments form? mixed rest
        pure (option :: options, others)
      | some (.setting option), some value, rest => do
        let (options, others) ← sortArguments form? mixed rest
        pure (option value :: options, others)
      | some (.setting option), none, value :: rest => do
        let (options, others) ← sortArguments form? mixed rest
        pure (option value :: options, others)
      | _, _, _ => none
    else if mixed then do
      let (options, others) ← sortArguments form? mixed rest
      pure (options, argument :: others)
    else some ([], argument :: rest)

/-- The level that the options set; the last one counts. -/
def level? (options : List GlobalOption) : Option Level :=
  match (options.filterMap GlobalOption.level?).getLast? with
  | none => some .warning
  | some text => Level.ofName? text

/-- The request of a command with its own arguments. -/
def readAction (level : Level) (action : Action) (arguments : List String) : Request :=
  match sortArguments (Switch.form? action.switches) true arguments with
  | none => .misuse
  | some (switches, files) =>
    if switches.contains .help then .help (some action)
    else
      match files with
      | [file] =>
        .perform level action (switches.contains .lenient) (switches.contains .keepGoing) file
      | _ => .misuse

/-- The request that the first of the options makes by itself, if one does. -/
def readOptions? (arguments : List String) : Option Request := do
  let (options, _) ← sortArguments GlobalOption.form? false arguments
  options.findSome? GlobalOption.request?

/-- The request of the arguments. What stands in the place of a command and is none may still be an
option that makes a request by itself. -/
def read (arguments : List String) : Request :=
  match sortArguments GlobalOption.form? false arguments with
  | none => .misuse
  | some (options, others) =>
    match options.findSome? GlobalOption.request? with
    | some request => request
    | none =>
      match level? options, others with
      | some level, name :: rest =>
        match Action.ofName? name with
        | some action => readAction level action rest
        | none => (readOptions? others).getD .misuse
      | _, _ => .misuse

/-- Completes the arguments: none ask for help, and a single program file is to be run. -/
def complete : List String → List String
  | [] => [Switch.help.name]
  | [argument] =>
    if ".st".toList.isSuffixOf argument.toList then [Action.run.name, argument] else [argument]
  | arguments => arguments

end CommandLine

/-- The request of a command line. -/
def Request.ofArguments (arguments : List String) : Request :=
  CommandLine.read (CommandLine.complete arguments)

end ScopeMachine
