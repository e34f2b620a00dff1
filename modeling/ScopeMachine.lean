import ScopeMachine.Config
import ScopeMachine.Fault
import ScopeMachine.Frame
import ScopeMachine.Instr
import ScopeMachine.Json.Reader
import ScopeMachine.Json.Writer
import ScopeMachine.Machine.Basic
import ScopeMachine.Machine.Execute
import ScopeMachine.Machine.Literal
import ScopeMachine.Machine.Snapshot
import ScopeMachine.Main
import ScopeMachine.Notice
import ScopeMachine.Number.Binary64
import ScopeMachine.Number.Numeral
import ScopeMachine.Number.Shortest
import ScopeMachine.Operator
import ScopeMachine.OrderedMap
import ScopeMachine.Proofs.Basic
import ScopeMachine.Proofs.Config.ContainerKeys
import ScopeMachine.Proofs.Config.FurtherContainers
import ScopeMachine.Proofs.Config.MarkedLines
import ScopeMachine.Proofs.Config.Precedence
import ScopeMachine.Proofs.Config.SingleDirective
import ScopeMachine.Proofs.Config.ValueText
import ScopeMachine.Proofs.FrontEnd
import ScopeMachine.Proofs.Json.Number
import ScopeMachine.Proofs.Json.Reason
import ScopeMachine.Proofs.Json.RoundTrip
import ScopeMachine.Proofs.Json.TextList
import ScopeMachine.Proofs.Machine.Appearance
import ScopeMachine.Proofs.Machine.BlockIsolation
import ScopeMachine.Proofs.Machine.BoundNames
import ScopeMachine.Proofs.Machine.Comparison
import ScopeMachine.Proofs.Machine.Confinement
import ScopeMachine.Proofs.Machine.FrameGrowth
import ScopeMachine.Proofs.Machine.Independence
import ScopeMachine.Proofs.Machine.Likeness
import ScopeMachine.Proofs.Machine.Locality
import ScopeMachine.Proofs.Machine.Lockstep
import ScopeMachine.Proofs.Machine.Plain
import ScopeMachine.Proofs.Machine.Pointers
import ScopeMachine.Proofs.Machine.Postfix
import ScopeMachine.Proofs.Machine.Refusal
import ScopeMachine.Proofs.Machine.Reordering
import ScopeMachine.Proofs.Machine.ScopeEdit
import ScopeMachine.Proofs.Machine.ScopePointer
import ScopeMachine.Proofs.Machine.Simple
import ScopeMachine.Proofs.Machine.StackBase
import ScopeMachine.Proofs.Number.Shortest
import ScopeMachine.Proofs.OrderedMap
import ScopeMachine.Proofs.OrderedMap.History
import ScopeMachine.Proofs.Scope.Shadowing
import ScopeMachine.Proofs.Shell.Agreement
import ScopeMachine.Proofs.Shell.Showable
import ScopeMachine.Proofs.Shell.Snapshot
import ScopeMachine.Proofs.Source.Compiled
import ScopeMachine.Proofs.Source.Cutting
import ScopeMachine.Proofs.Source.Grammar
import ScopeMachine.Proofs.Source.Joining
import ScopeMachine.Proofs.Source.Layout
import ScopeMachine.Proofs.Source.Leniency
import ScopeMachine.Proofs.Source.LongestMatch
import ScopeMachine.Proofs.Source.Placement
import ScopeMachine.Proofs.Source.Rejection
import ScopeMachine.Proofs.Stack
import ScopeMachine.Proofs.Stack.Edits
import ScopeMachine.Proofs.Stepper.KeepGoing
import ScopeMachine.Proofs.Stepper.LineStory
import ScopeMachine.Proofs.Stepper.Resume
import ScopeMachine.Proofs.Stepper.Sifting
import ScopeMachine.Proofs.Stepper.Steps
import ScopeMachine.Proofs.Stepper.TimeTravel
import ScopeMachine.Proofs.Stepper.Trail
import ScopeMachine.Proofs.Text.LetterCase
import ScopeMachine.Proofs.Text.Parts
import ScopeMachine.Proofs.Text.Pieces
import ScopeMachine.Proofs.Text.Trim
import ScopeMachine.Proofs.Value.Writable
import ScopeMachine.Scope
import ScopeMachine.Shell.CommandLine
import ScopeMachine.Shell.Console
import ScopeMachine.Shell.Help
import ScopeMachine.Shell.Report
import ScopeMachine.Shell.Session
import ScopeMachine.Shell.View
import ScopeMachine.Source.Error
import ScopeMachine.Source.Expr
import ScopeMachine.Source.Lexer
import ScopeMachine.Source.Mnemonic
import ScopeMachine.Source.Position
import ScopeMachine.Source.Program
import ScopeMachine.Source.Token
import ScopeMachine.Stack
import ScopeMachine.Stepper
import ScopeMachine.Table
import ScopeMachine.Text.Cased
import ScopeMachine.Text.Digit
import ScopeMachine.Text.LetterCase
import ScopeMachine.Text.Line
import ScopeMachine.Text.Printable
import ScopeMachine.Text.Quoted
import ScopeMachine.Text.Utf8
import ScopeMachine.Value.Basic
import ScopeMachine.Value.Equality
import ScopeMachine.Value.Text
