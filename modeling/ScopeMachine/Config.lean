import ScopeMachine.Json.Reader
import ScopeMachine.Machine.Basic
import ScopeMachine.Source.Error
import ScopeMachine.Text.LetterCase

/-! Configuration: how names and failing steps are treated, and which scopes and stacks a machine
has beside `local` and `data`. A source text may set flags in directives among its first lines,
either as a JSON object or as assignments `name=value` separated by semicolons or commas. -/
namespace ScopeMachine

structure Config where
  /-- Whether an unknown instruction name is an error. -/
  strictNames : Bool := true
  /-- Whether a run stops at the first failing step. -/
  stopOnError : Bool := true
  /-- The keys of further scopes, which are texts. -/
  scopeKeys : List Atom := []
  /-- The keys of further stacks, which are texts. -/
  stackKeys : List Atom := []
  deriving DecidableEq, Repr

abbrev Flags := OrderedMap Value

/-- Why flags cannot be taken over: an integer among them is too long to be read or written, or the
brackets of an object go too deep. -/
inductive FlagError
  | numeralTooLong (digits : Nat)
  | digitLimit
  | tooDeep (bracket : Json.Bracket)
  deriving DecidableEq, Repr

def FlagError.message : FlagError → String
  | .numeralTooLong digits => numeralTooLongMessage digits
  | .digitLimit => Fault.message .digitLimit
  | .tooDeep bracket =>
    "maximum recursion depth exceeded while decoding a JSON " ++ bracket.name ++
      " from a unicode string"

namespace Directive

/-- How many lines of a source may hold directives. -/
def lineLimit : Nat := 25

def marker : List Char := "@semtutor".toList

/-- The lower case of the letters `A` to `Z`; no other letter has one of them for a lower case that
a marker or a truth value could hold. -/
def lowerAscii (cs : List Char) : List Char := cs.map Char.toLower

/-- What a line says behind the marker, if it holds the marker at all. The marker is looked for as
it is spelled, but at the start of the directive it is dropped in any case. -/
def body? (line : List Char) : Option (List Char) :=
  let line := Text.trim line
  if !Text.hasPart marker line then none
  else
    let directive := Text.trim (line.dropWhile (· = '#'))
    let directive :=
      if marker.isPrefixOf (lowerAscii directive) then
        Text.trim (directive.drop marker.length)
      else directive
    match directive with
    | ':' :: rest => some (Text.trim rest)
    | _ => some directive

/-- The decimal digits of a whole number, of any script, behind an optional minus sign. -/
def wholeNumber? (cs : List Char) : Option (Bool × List Nat) :=
  let (negative, digits) :=
    match cs with
    | '-' :: rest => (true, rest)
    | cs => (false, cs)
  match digits with
  | [] => none
  | _ => (digits.mapM Text.digitValue?).map fun digits => (negative, digits)

/-- The text between a quote at the start and the same quote at the end. -/
def unquote? : List Char → Option (List Char)
  | q :: rest =>
    if (q = '"' || q = '\'') && rest.getLast? == some q then some rest.dropLast else none
  | [] => none

/-- The value of an assignment: a truth value, a whole number, a text in quotes or bare text. -/
def readValue (cs : List Char) : Except FlagError Value :=
  if lowerAscii cs = "true".toList then .ok (.bool true)
  else if lowerAscii cs = "false".toList then .ok (.bool false)
  else
    match wholeNumber? cs with
    | some (negative, digits) =>
      if Numeral.digitLimit < digits.length then .error (.numeralTooLong digits.length)
      else
        let n : Int := Numeral.valueOf digits
        .ok (.int (if negative then -n else n))
    | none => .ok (.str (String.ofList ((unquote? cs).getD cs)))

/-- The assignment that one part of a directive makes, if it is one. -/
def readAssignment? (part : List Char) : Except FlagError (Option (Atom × Value)) :=
  let part := Text.trim part
  match part.dropWhile (· != '=') with
  | [] => .ok none
  | _ :: raw => do
    let value ← readValue (Text.trim raw)
    pure (some (.str (String.ofList (Text.trim (part.takeWhile (· != '=')))), value))

/-- The assignments among the parts of a directive, in order. -/
def readAssignments : List (List Char) → Except FlagError (List (Atom × Value))
  | [] => .ok []
  | part :: parts => do
    let assignment ← readAssignment? part
    let more ← readAssignments parts
    pure (assignment.toList ++ more)

/-- What a line contributes: the assignments it makes, and the notice that it is malformed. -/
def readLine [Json.DepthLimit] (line : List Char) :
    Except FlagError (List (Atom × Value) × List Notice) :=
  match body? line with
  | none => .ok ([], [])
  | some directive =>
    match directive.dropWhile (· != '\x7b') with
    | [] => do
      let assignments ← readAssignments (Text.splitBy (fun c => c = ';' || c = ',') directive)
      pure (assignments, [])
    | object =>
      let object := Text.trim object
      match Json.read object with
      | .ok (.dict entries) => .ok (entries, [])
      | .ok _ => .ok ([], [])
      | .error (.numeralTooLong digits) => .error (.numeralTooLong digits)
      | .error (.tooDeep bracket) => .error (.tooDeep bracket)
      | .error (.malformed what remaining) =>
        .ok ([], [⟨.warning, .config, "malformed flag line " ++
          Text.quoted (String.ofList line) ++ ": " ++ Json.describe object what remaining⟩])

/-- The assignments and notices of the lines, up to the first that cannot be read. -/
def readLines [Json.DepthLimit] :
    List (List Char) → List (Atom × Value) × List Notice × Option FlagError
  | [] => ([], [], none)
  | line :: rest =>
    match readLine line with
    | .error e => ([], [], some e)
    | .ok (assignments, notices) =>
      let (moreAssignments, moreNotices, error) := readLines rest
      (assignments ++ moreAssignments, notices ++ moreNotices, error)

/-- The lines of a source that may hold directives. -/
def candidates (source : String) : List (List Char) := (Text.lines source.toList).take lineLimit

end Directive

/-- The flags set by the directives of a source, in the order in which they were first set. -/
def Flags.ofSource [Json.DepthLimit] (source : String) : Except FlagError Flags :=
  match Directive.readLines (Directive.candidates source) with
  | (_, _, some e) => .error e
  | (assignments, _, none) => .ok (.ofList assignments)

def Flags.sourceNotices [Json.DepthLimit] (source : String) : List Notice :=
  (Directive.readLines (Directive.candidates source)).2.1

namespace Config

/-- The fields of a configuration that a flag can set. -/
inductive Field
  | strictNames
  | stopOnError
  | scopeKeys
  | stackKeys
  deriving DecidableEq, Repr

def Field.name : Field → String
  | .strictNames => "strict_names"
  | .stopOnError => "stop_on_error"
  | .scopeKeys => "scopes"
  | .stackKeys => "stacks"

def Field.ofKey? (key : Atom) : Option Field :=
  [Field.strictNames, .stopOnError, .scopeKeys, .stackKeys].find? fun field =>
    key.same (.str field.name)

/-- The parts of a text between vertical bars, trimmed and without the empty ones. -/
def cutKeys {α : Type} (isBar isBlank : α → Bool) (text : List α) : List (List α) :=
  ((Text.splitBy isBar text).map (Text.trimBy isBlank)).filter (!·.isEmpty)

/-- The container keys that a value names: a text is cut at vertical bars, a list names a key by
each of its items, and any other value names one key. -/
def keys? : Value → Option (List Atom)
  | .str s =>
    some ((cutKeys (· = '|') Text.isBlank s.toList).map fun key => .str (String.ofList key))
  | .atom (.codes points) =>
    some ((cutKeys (· = '|'.toNat) Text.isBlankCode points).map .ofCodes)
  | .list items => items.mapM Value.asText?
  | v => v.asText?.map ([·])

/-- The truth value that a flag gives. -/
def truth? : Value → Option Bool
  | .bool b => some b
  | .str s =>
    if Directive.lowerAscii s.toList = "true".toList then some true
    else if Directive.lowerAscii s.toList = "false".toList then some false
    else none
  | _ => none

/-- What one flag makes of a configuration. A flag of unknown name or with a value that is no truth
value where one is needed has no effect and is reported. -/
def assign (c : Config) (key : Atom) (value : Value) : Except FlagError Config :=
  match Field.ofKey? key with
  | none => .ok c
  | some .strictNames => .ok { c with strictNames := (truth? value).getD c.strictNames }
  | some .stopOnError => .ok { c with stopOnError := (truth? value).getD c.stopOnError }
  | some .scopeKeys =>
    match keys? value with
    | some scopeKeys => .ok { c with scopeKeys }
    | none => .error .digitLimit
  | some .stackKeys =>
    match keys? value with
    | some stackKeys => .ok { c with stackKeys }
    | none => .error .digitLimit

def assignNotices (key : Atom) (value : Value) : List Notice :=
  match Field.ofKey? key with
  | none =>
    Notice.ofText? .warning .config (key.plain?.map fun key =>
      "ignoring unknown flag '" ++ key ++ "'")
  | some .strictNames | some .stopOnError =>
    match truth? value with
    | some _ => []
    | none =>
      Notice.ofText? .warning .config do
        let key ← key.plain?
        let value ← value.literal?
        pure ("ignoring flag '" ++ key ++ "': expected true or false, got " ++ value)
  | some .scopeKeys | some .stackKeys => []

def assignAll (c : Config) : List (Atom × Value) → Except FlagError Config
  | [] => .ok c
  | (key, value) :: rest => do
    let c ← c.assign key value
    c.assignAll rest

/-- The notices of assignments, up to the first that cannot be made. -/
def assignAllNotices (c : Config) : List (Atom × Value) → List Notice
  | [] => []
  | (key, value) :: rest =>
    assignNotices key value ++
      match c.assign key value with
      | .ok c => c.assignAllNotices rest
      | .error _ => []

/-- A configuration changed by flags. -/
def withFlags (c : Config) (flags : Flags) : Except FlagError Config := c.assignAll flags.entries

/-- The overrides that are set at all. -/
def setOverrides (overrides : List (Atom × Value)) : List (Atom × Value) :=
  overrides.filter fun (_, value) => value.kind != .null

/-- The configuration of a source: the defaults, then its flags, then the overrides. -/
def load [Json.DepthLimit] (source : String) (overrides : List (Atom × Value)) :
    Except FlagError Config := do
  let flags ← Flags.ofSource source
  let c ← ({} : Config).withFlags flags
  c.assignAll (setOverrides overrides)

def loadNotices [Json.DepthLimit] (source : String) (overrides : List (Atom × Value)) :
    List Notice :=
  Flags.sourceNotices source ++
    match Flags.ofSource source with
    | .error _ => []
    | .ok flags =>
      ({} : Config).assignAllNotices flags.entries ++
        match ({} : Config).withFlags flags with
        | .error _ => []
        | .ok c => c.assignAllNotices (setOverrides overrides)

/-- The machine that a configuration asks for. Naming a scope or stack that is already there
replaces it by an empty one. -/
def machine (c : Config) : Machine :=
  { Machine.initial with
    scopeMap := c.scopeKeys.foldl (fun scopes key => scopes.set key { name := .atom key })
      Machine.initial.scopeMap
    stackMap := c.stackKeys.foldl (fun stackMap key => stackMap.set key .empty)
      Machine.initial.stackMap }

end Config

end ScopeMachine
