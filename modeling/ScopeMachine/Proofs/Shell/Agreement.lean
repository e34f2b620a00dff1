import ScopeMachine.Proofs.Shell.Showable
import ScopeMachine.Proofs.Shell.Snapshot
import ScopeMachine.Proofs.Stepper.KeepGoing

/-! Checking a file and running it in spite of failing steps. Both come through the same front end,
so a file that does not compile is refused alike. A run has more to do with a file that compiles: it
has to come to the end and to show the machine that it leaves. -/
namespace ScopeMachine

/-! ### The configuration -/

namespace Config

open Shell (overrides)

/-- The configuration but that failing steps do not stop a run. -/
def keepGoing (c : Config) : Config := { c with stopOnError := false }

/-- To keep going changes nothing else. -/
theorem load_keepGoing [Json.DepthLimit] (source : String) (lenient : Bool) :
    load source (overrides lenient true) =
      keepGoing <$> load source (overrides lenient false) := by
  have hassign (c : Config) : c.assignAll (setOverrides (overrides lenient true)) =
      keepGoing <$> c.assignAll (setOverrides (overrides lenient false)) := by
    cases lenient <;> rfl
  unfold load
  refine bind_eq_map fun flags _ => ?_
  exact bind_eq_map fun c _ => hassign c

/-- Overrides are truth values, which give rise to no notice. -/
theorem loadNotices_keepGoing [Json.DepthLimit] (source : String) (lenient : Bool) :
    loadNotices source (overrides lenient true) = loadNotices source (overrides lenient false) := by
  have hnotices (c : Config) : c.assignAllNotices (setOverrides (overrides lenient true)) =
      c.assignAllNotices (setOverrides (overrides lenient false)) := by
    cases lenient <;> rfl
  unfold loadNotices
  simp only [hnotices]

end Config

namespace Shell

variable {content : String → FileContent} {file source : String} {bytes : List UInt8}
  {action : Action} {lenient keepGoing : Bool} {config : Config} {program : List Instr}
  {outcome : Outcome}

/-! ### The front end -/

theorem performSource_of_flagError [MemoryLimit] [Json.DepthLimit] [CellRenderer] {e : FlagError}
    (h : Config.load source (overrides lenient keepGoing) = .error e) :
    performSource action lenient keepGoing file source =
      .finished ((Report.crashed (.ofFlagError e)).withNotices
        (Config.loadNotices source (overrides lenient keepGoing))) := by
  simp only [performSource, h, afterNotices]

theorem performSource_of_sourceError [MemoryLimit] [Json.DepthLimit] [CellRenderer]
    {e : SourceError} (hconfig : Config.load source (overrides lenient keepGoing) = .ok config)
    (hcompile : compile config.strictNames source = .error e) :
    performSource action lenient keepGoing file source =
      .finished (((Report.ofSourceError e).withNotices
        ((Listing.ofSource config.strictNames source).notices file)).withNotices
          (Config.loadNotices source (overrides lenient keepGoing))) := by
  have hresult : (Listing.ofSource config.strictNames source).result = .error e := hcompile
  simp only [performSource, hconfig, hresult, afterNotices]

theorem performSource_of_compile [MemoryLimit] [Json.DepthLimit] [CellRenderer]
    (hconfig : Config.load source (overrides lenient keepGoing) = .ok config)
    (hcompile : compile config.strictNames source = .ok program) :
    performSource action lenient keepGoing file source =
      afterNotices (Config.loadNotices source (overrides lenient keepGoing))
        (afterNotices ((Listing.ofSource config.strictNames source).notices file)
          (performOn action file config program)) := by
  have hresult : (Listing.ofSource config.strictNames source).result = .ok program := hcompile
  simp only [performSource, hconfig, hresult]

theorem perform_of_performSource [MemoryLimit] [Json.DepthLimit] [CellRenderer]
    (hfile : content file = .bytes bytes) (hsource : readSource bytes = .ok source)
    (haction : action ≠ .tokens) {report : Report}
    (h : performSource action lenient keepGoing file source = .finished report)
    (level : Level) (inputs : List (Option String)) :
    perform content inputs (.perform level action lenient keepGoing file) =
      report.atLeast level := by
  have hperform : performFile action lenient keepGoing file (.bytes bytes) = .finished report := by
    cases action <;> first | exact absurd rfl haction | simpa only [performFile, hsource] using h
  simp only [perform, hfile, hperform]

/-! ### The machine that is shown -/

theorem exit_ofFault (fault : Fault) : (Report.ofFault fault).exit = 1 := by
  unfold Report.ofFault
  split <;> rfl

/-- A run ends well if nothing stopped it and the machine can be shown. -/
theorem exit_showRun_iff [CellRenderer] (hcells : CellRenderer.Selective) {outcome : Outcome} :
    (showRun file outcome).exit = 0 ↔
      outcome.fault = none ∧ outcome.stepper.machine.Showable := by
  rw [← View.exists_ofMachine_iff hcells]
  cases hfault : outcome.fault with
  | some fault => simp [showRun, Report.after, hfault, exit_ofFault]
  | none =>
    cases hview : View.ofMachine outcome.stepper.machine <;>
      simp [showRun, Report.after, hfault, hview, Transcript.ofView, Report.ofTranscript]

/-- What does not end well is a crash, unless it is an error that running a program can have. -/
theorem crash_showRun [CellRenderer] {outcome : Outcome} (hexit : (showRun file outcome).exit ≠ 0)
    (hfault : ∀ fault, outcome.fault = some fault → fault.isRecoverable = false) :
    (showRun file outcome).exit = 1 ∧ (showRun file outcome).crash.isSome = true := by
  cases hcause : outcome.fault with
  | some fault =>
    simp [showRun, Report.after, hcause, Report.ofFault, hfault fault hcause, Report.crashed]
  | none =>
    cases hview : View.ofMachine outcome.stepper.machine with
    | error crash =>
      simp [showRun, Report.after, hcause, hview, Transcript.ofView, Report.ofTranscript]
    | ok view =>
      simp [showRun, Report.after, hcause, hview, Transcript.ofView, Report.ofTranscript] at hexit

/-! ### Agreement -/

/-- What a source must have for the front end to give up on it without naming a place in it. -/
def Baffles [Json.DepthLimit] (cs : List Char) : Prop :=
  (∃ n, LongRun Text.isDecimal cs n) ∨ Json.DepthLimit.brackets < cs.countP Json.isOpening

theorem baffles_of_flagError [Json.DepthLimit] {e : FlagError} (h : e.Reason source.toList) :
    Baffles source.toList := by
  cases e with
  | numeralTooLong n => exact .inl ⟨n, h⟩
  | digitLimit => cases h
  | tooDeep bracket => exact .inr h

/-- The source compiles, and the run of its program that keeps going has the given outcome. -/
def Yields [MemoryLimit] [Json.DepthLimit] (lenient : Bool) (source : String) (program : List Instr)
    (outcome : Outcome) : Prop :=
  ∃ config, Config.load source (overrides lenient false) = .ok config ∧
    compile config.strictNames source = .ok program ∧
    (Stepper.start program config.machine).run false = outcome

namespace Yields

/-- A run that keeps going comes to the end, or it stops for one of two reasons. -/
theorem stops [MemoryLimit] [Json.DepthLimit] (h : Yields lenient source program outcome) :
    outcome.fault = none ∨ ∃ i, outcome.stepper.current? = some i ∧
      (outcome.fault = some .outOfMemory ∧ i.ExceedsMemory outcome.stepper.machine ∨
        outcome.fault = some .digitLimit ∧ i.RefusesOverlong outcome.stepper.machine) := by
  obtain ⟨config, -, hcompile, rfl⟩ := h
  have hstops := Stepper.run_of_plain (s := Stepper.start program config.machine) rfl
    config.plain_machine (compiled_of_compile hcompile).2
  exact hstops.imp_left And.left

theorem not_recoverable [MemoryLimit] [Json.DepthLimit] (h : Yields lenient source program outcome)
    {fault : Fault} (hfault : outcome.fault = some fault) : fault.isRecoverable = false := by
  obtain hnone | ⟨i, -, ⟨hcause, -⟩ | ⟨hcause, -⟩⟩ := h.stops
  · cases hnone.symm.trans hfault
  · cases hcause.symm.trans hfault
    rfl
  · cases hcause.symm.trans hfault
    rfl

/-- A program that binds no names but texts leaves a machine that can be shown, unless an integer
in it is too long. -/
theorem showable [MemoryLimit] [Json.DepthLimit] (h : Yields lenient source program outcome)
    (hnames : ∀ name, .bind (.atom name) ∈ program → name.kind = .str)
    (hwritable : outcome.stepper.machine.snapshot.Every Atom.Writable) :
    outcome.stepper.machine.Showable := by
  obtain ⟨config, hload, hcompile, rfl⟩ := h
  have hkeep := Config.load_keepGoing source lenient
  rw [hload] at hkeep
  have hsimple := simple_of_run hkeep hcompile rfl
  refine hsimple.showable ?_ hwritable
  refine Stepper.bindsOnly_after ?_ config.bindsOnly_machine [.run false]
  intro i hi selected operand key name value hedit
  have hcompiled := (compiled_of_compile hcompile).2 i hi
  exact hnames name (hcompiled.bindsOnly selected operand key name value hedit ▸ hi)

end Yields

/-- A program that binds names and does nothing else runs to its end. -/
theorem Yields.ends_of_bindingProgram [MemoryLimit] [Json.DepthLimit]
    {entries : List (Atom × Value)} (hload : Config.load source (overrides lenient false) = .ok {})
    (hcompile : compile true source = .ok (Machine.bindingProgram entries))
    (hnames : ∀ e ∈ entries, e.1.Writable) (h : Yields lenient source program outcome) :
    outcome.fault = none ∧ outcome.stepper.machine = Machine.binding (.ofList entries) := by
  obtain ⟨config, hload', hcompile', rfl⟩ := h
  cases hload.symm.trans hload'
  cases hcompile.symm.trans hcompile'
  have hrun : (Config.machine {}).run (Machine.bindingProgram entries) =
      .ok (Machine.binding (.ofList entries)) := Machine.run_bindingProgram hnames .empty
  obtain ⟨hfault, hmachine, -⟩ := Stepper.run_of_run_ok false
    (s := .start (Machine.bindingProgram entries) (Config.machine {})) rfl hrun
  exact ⟨hfault, hmachine⟩

theorem showable_binding {binds : OrderedMap Value}
    (h : binds.Holds Atom.IsCell Value.Writable) : (Machine.binding binds).Showable := by
  refine ⟨?_, ?_, nofun⟩
  · intro e he
    rw [List.mem_singleton.mp he]
    refine ⟨Atom.writable_str _, fun f hf => ?_⟩
    rw [List.mem_singleton.mp hf]
    exact ⟨h, nofun⟩
  · intro e he
    rw [List.mem_singleton.mp he]
    exact ⟨Atom.writable_str _, nofun⟩

/-- The front end answers with an error: it complains about a place, or it is baffled. -/
def Refuses [Json.DepthLimit] (lenient : Bool) (source : String) (report : Report) : Prop :=
  (∃ config what position, Config.load source (overrides lenient false) = .ok config ∧
    compile config.strictNames source = .error (.complaint what position) ∧
    report.crash = none ∧
    report.events = [.print (.text ("[bold red]❌ Compile error:[/bold red] " ++
      (SourceError.complaint what position).message))]) ∨
  report.crash.isSome = true ∧ Baffles source.toList

/-- Where a source compiles a check succeeds, and a run shows the outcome. -/
theorem perform_of_yields [MemoryLimit] [Json.DepthLimit] [CellRenderer]
    (hfile : content file = .bytes bytes) (hsource : readSource bytes = .ok source)
    (h : Yields lenient source program outcome)
    (level : Level) (inputs : List (Option String)) :
    let check := perform content inputs (.perform level .check lenient false file)
    let run := perform content inputs (.perform level .run lenient true file)
    check.exit = 0 ∧ run.exit = (showRun file outcome).exit ∧
      run.crash = (showRun file outcome).crash := by
  intro check run
  obtain ⟨config, hload, hcompile, houtcome⟩ := h
  have hkeep := Config.load_keepGoing source lenient
  rw [hload] at hkeep
  have hcheckable : Action.check ≠ .tokens := by decide
  have hrunnable : Action.run ≠ .tokens := by decide
  have hcheck := perform_of_performSource hfile hsource hcheckable
    (performSource_of_compile hload hcompile) level inputs
  have hrun := perform_of_performSource hfile hsource hrunnable
    (performSource_of_compile hkeep hcompile) level inputs
  have hexit : run.exit = _ := congrArg Report.exit hrun
  have hcrash : run.crash = _ := congrArg Report.crash hrun
  rw [← houtcome]
  exact ⟨congrArg Report.exit hcheck, hexit, hcrash⟩

/-- A source that does not yield an outcome is refused alike. -/
theorem refused_or_yields [MemoryLimit] [Json.DepthLimit] [CellRenderer]
    (hfile : content file = .bytes bytes) (hsource : readSource bytes = .ok source) (lenient : Bool)
    (level : Level)
    (inputs : List (Option String)) :
    let check := perform content inputs (.perform level .check lenient false file)
    let run := perform content inputs (.perform level .run lenient true file)
    (check.exit = 1 ∧ run = check ∧ Refuses lenient source check) ∨
      ∃ program outcome, Yields lenient source program outcome := by
  intro check run
  have hperform {action : Action} (haction : action ≠ .tokens) {keepGoing : Bool} {report : Report}
      (h : performSource action lenient keepGoing file source = .finished report) :=
    perform_of_performSource hfile hsource haction h level inputs
  have hcheckable : Action.check ≠ .tokens := by decide
  have hrunnable : Action.run ≠ .tokens := by decide
  have hkeep := Config.load_keepGoing source lenient
  cases hload : Config.load source (overrides lenient false) with
  | error e =>
    rw [hload] at hkeep
    have hcheck := hperform hcheckable (performSource_of_flagError hload)
    have hrun := hperform hrunnable (performSource_of_flagError hkeep)
    rw [Config.loadNotices_keepGoing, ← hcheck] at hrun
    have hreason := Config.load_meets_overrides (soundValues_overrides lenient false) source
    rw [hload] at hreason
    refine .inl ⟨congrArg Report.exit hcheck, hrun, .inr ⟨?_, baffles_of_flagError hreason⟩⟩
    exact congrArg (fun r => r.crash.isSome) hcheck
  | ok config =>
    rw [hload] at hkeep
    cases hcompile : compile config.strictNames source with
    | error e =>
      have hcheck := hperform hcheckable (performSource_of_sourceError hload hcompile)
      have hrun := hperform hrunnable (performSource_of_sourceError hkeep hcompile)
      rw [Config.loadNotices_keepGoing] at hrun
      refine .inl ⟨?_, hrun.trans hcheck.symm, ?_⟩
      · cases e <;> exact congrArg Report.exit hcheck
      · cases e with
        | complaint what position =>
          exact .inl ⟨config, what, position, hload, hcompile, congrArg Report.crash hcheck,
            congrArg Report.events hcheck⟩
        | numeralTooLong n =>
          have hlong : LongRun Lexer.isDigit source.toList n := reason_of_compile hcompile
          have hdecimal := hlong.imp fun _ => Text.isSome_digitValue?_of_isAsciiDigit
          exact .inr ⟨congrArg (fun r => r.crash.isSome) hcheck, .inl ⟨n, hdecimal⟩⟩
    | ok program => exact .inr ⟨program, _, config, hload, hcompile, rfl⟩

/-- A run that keeps going ends well where a check does, and only there, if the compiled program
runs to its end and leaves a machine that can be shown, and not otherwise; it crashes then. Where a
check fails the run gives the very same report: a compile error, unless a numeral or the brackets in
a flag are too much for the front end. Only a lack of memory or an overlong integer stops a run, and
a program that binds no names but texts leaves a machine that can be shown unless it has overlong
integers. -/
theorem run_agrees_with_check [MemoryLimit] [Json.DepthLimit] [CellRenderer]
    (hcells : CellRenderer.Selective) (hfile : content file = .bytes bytes)
    (hsource : readSource bytes = .ok source) (lenient : Bool) (level : Level)
    (inputs : List (Option String)) :
    let check := perform content inputs (.perform level .check lenient false file)
    let run := perform content inputs (.perform level .run lenient true file)
    ((run.exit = 0 ↔ check.exit = 0) ↔
      ∀ program outcome, Yields lenient source program outcome →
        outcome.fault = none ∧ outcome.stepper.machine.Showable) ∧
    (check.exit ≠ 0 → check.exit = 1 ∧ run = check ∧ Refuses lenient source check) ∧
    (check.exit = 0 → run.exit ≠ 0 → run.exit = 1 ∧ run.crash.isSome = true) ∧
    ∀ program outcome, Yields lenient source program outcome →
      let m := outcome.stepper.machine
      (outcome.fault = none ∨ ∃ i, outcome.stepper.current? = some i ∧
        (outcome.fault = some .outOfMemory ∧ i.ExceedsMemory m ∨
          outcome.fault = some .digitLimit ∧ i.RefusesOverlong m)) ∧
      ((∀ name, .bind (.atom name) ∈ program → name.kind = .str) →
        m.snapshot.Every Atom.Writable → m.Showable) := by
  intro check run
  have hyields {program : List Instr} {outcome : Outcome}
      (h : Yields lenient source program outcome) :=
    perform_of_yields hfile hsource h level inputs
  have hcases := refused_or_yields hfile hsource lenient level inputs
  refine ⟨⟨fun hagree program outcome h => ?_, fun hshown => ?_⟩, fun hfails => ?_,
    fun hpasses hexit => ?_, fun program outcome h => ⟨h.stops, h.showable⟩⟩
  · obtain ⟨hcheck, hrun, -⟩ := hyields h
    exact (exit_showRun_iff hcells).mp (hrun.symm.trans (hagree.mpr hcheck))
  · obtain ⟨-, heq, -⟩ | ⟨program, outcome, h⟩ := hcases
    · exact iff_of_eq (congrArg (fun r => r.exit = 0) heq)
    · obtain ⟨hcheck, hrun, -⟩ := hyields h
      have hexit : (showRun file outcome).exit = 0 :=
        (exit_showRun_iff hcells).mpr (hshown program outcome h)
      exact iff_of_true (hrun.trans hexit) hcheck
  · obtain hrefused | ⟨program, outcome, h⟩ := hcases
    · exact hrefused
    · exact absurd (hyields h).1 hfails
  · obtain ⟨hcheck, -⟩ | ⟨program, outcome, h⟩ := hcases
    · exact absurd (hpasses.symm.trans hcheck) (by decide)
    · obtain ⟨-, hrun, hcrash⟩ := hyields h
      rw [hrun] at hexit
      rw [hrun, hcrash]
      exact crash_showRun hexit fun fault => h.not_recoverable

/-- A value is bound to a word. -/
theorem run_agrees_with_check_word :
    let content : String → FileContent := fun _ => .bytes "1 bind(x)".toUTF8.toList
    let check := perform content [] (.perform .warning .check false false "p")
    let run := perform content [] (.perform .warning .run false true "p")
    readSource "1 bind(x)".toUTF8.toList = .ok "1 bind(x)" ∧ check.exit = 0 ∧ run.exit = 0 := by
  intro content check run
  have hfile : content "p" = .bytes "1 bind(x)".toUTF8.toList := rfl
  have hsource : readSource "1 bind(x)".toUTF8.toList = .ok "1 bind(x)" := by cbv
  have hload : Config.load "1 bind(x)" (overrides false false) = .ok {} := by cbv
  have hcompile : compile true "1 bind(x)" = .ok (Machine.bindingProgram [(.str "x", .int 1)]) := by
    cbv
  have hone : (Atom.int 1).Writable := (Atom.ordinary_int (by decide)).1
  have hyields : Yields false "1 bind(x)" _ _ := ⟨_, hload, hcompile, rfl⟩
  have hcheck := (perform_of_yields hfile hsource hyields .warning []).1
  obtain ⟨hagree, -⟩ :=
    run_agrees_with_check CellRenderer.selective_default hfile hsource false .warning []
  refine ⟨hsource, hcheck, (hagree.mpr fun program outcome h => ?_).mpr hcheck⟩
  obtain ⟨hfault, hmachine⟩ :=
    Yields.ends_of_bindingProgram hload hcompile (by simp [Atom.writable_str]) h
  have hbinds : ∀ e ∈ [(Atom.str "x", Value.int 1)], e.1.IsCell ∧ e.2.Writable := by
    simpa [Atom.IsCell, Atom.kind] using hone
  exact ⟨hfault, hmachine ▸ showable_binding (OrderedMap.Holds.ofList hbinds)⟩

/-- A value is bound to a number, which cannot be shown as a name. -/
theorem number_disagrees :
    let content : String → FileContent := fun _ => .bytes "1 bind(1)".toUTF8.toList
    let check := perform content [] (.perform .warning .check false false "p")
    let run := perform content [] (.perform .warning .run false true "p")
    check.exit = 0 ∧ run.exit = 1 ∧ run.crash = some (.unrenderable .int) := by
  intro content check run
  have hfile : content "p" = .bytes "1 bind(1)".toUTF8.toList := rfl
  have hsource : readSource "1 bind(1)".toUTF8.toList = .ok "1 bind(1)" := by cbv
  have hload : Config.load "1 bind(1)" (overrides false false) = .ok {} := by cbv
  have hcompile : compile true "1 bind(1)" = .ok (Machine.bindingProgram [(.int 1, .int 1)]) := by
    cbv
  have hone : (Atom.int 1).Writable := (Atom.ordinary_int (by decide)).1
  have hrow : View.bindingRow (.int 1, .int 1) = .error (.unrenderable .int) :=
    View.bindingRow_of_not_isCell CellRenderer.selective_default (by simp [Atom.IsCell, Atom.kind])
      (Value.writable_atom.mpr hone)
  have hview : View.ofMachine (Machine.binding (.ofList [(.int 1, .int 1)])) =
      .error (.unrenderable .int) := by
    simp [View.ofMachine, View.ofScope, View.ofFrame, Machine.binding, OrderedMap.ofList,
      OrderedMap.set, OrderedMap.setEntry, OrderedMap.empty, hrow, bind, Except.bind]
  have hyields : Yields false "1 bind(1)" _ _ := ⟨_, hload, hcompile, rfl⟩
  obtain ⟨hcheck, hexit, hcrash⟩ := perform_of_yields hfile hsource hyields .warning []
  obtain ⟨hfault, hmachine⟩ :=
    Yields.ends_of_bindingProgram hload hcompile (by simpa using hone) hyields
  rw [← hmachine] at hview
  refine ⟨hcheck, hexit.trans ?_, hcrash.trans ?_⟩
  · simp only [showRun, Report.after, hfault, hview, Transcript.ofView, Report.ofTranscript]
    rfl
  · simp only [showRun, Report.after, hfault, hview, Transcript.ofView, Report.ofTranscript]

end Shell

end ScopeMachine
