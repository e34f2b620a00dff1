import ScopeMachine.Value.Text

/-! Notices: what the parts of the program report beside their results. -/
namespace ScopeMachine

inductive Level
  | debug
  | info
  | warning
  | error
  deriving DecidableEq, Repr

namespace Level

def name : Level → String
  | .debug => "DEBUG"
  | .info => "INFO"
  | .warning => "WARNING"
  | .error => "ERROR"

def all : List Level := [.debug, .info, .warning, .error]

def rank : Level → Nat
  | .debug => 10
  | .info => 20
  | .warning => 30
  | .error => 40

end Level

/-- The part of the program that reports. -/
inductive Reporter
  | names
  | machine
  | compiler
  | stepper
  | config
  deriving DecidableEq, Repr

def Reporter.name : Reporter → String
  | .names => "semtutor.names"
  | .machine => "semtutor.machine"
  | .compiler => "semtutor.compiler"
  | .stepper => "semtutor.stepper"
  | .config => "semtutor.config"

structure Notice where
  level : Level
  reporter : Reporter
  text : String
  deriving DecidableEq, Repr

namespace Notice

/-- The notice with the given text, or none if the text cannot be written. -/
def ofText? (level : Level) (reporter : Reporter) (text : Option String) : List Notice :=
  match text with
  | some text => [⟨level, reporter, text⟩]
  | none => []

/-- The notices at or above a level. -/
def atLeast (level : Level) (notices : List Notice) : List Notice :=
  notices.filter fun notice => level.rank ≤ notice.level.rank

end Notice

end ScopeMachine
