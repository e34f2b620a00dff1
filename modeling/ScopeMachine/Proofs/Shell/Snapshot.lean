import Mathlib
import ScopeMachine.Proofs.Json.RoundTrip
import ScopeMachine.Proofs.Machine.Simple
import ScopeMachine.Proofs.Stepper.Resume
import ScopeMachine.Shell.Report

/-! Snapshots read back. The text of a snapshot holds every scope, every stack and every property
of the machine. Only the names that frames bind may be other than texts, and a name that is no text
comes back as one: two names of a frame that are written alike become one. -/
namespace ScopeMachine

/-- A frame with texts for names. Of names with the same text the last one counts. -/
def Frame.textNamed (f : Frame) : Frame :=
  { f with binds := .ofList (f.binds.entries.map fun e => (Json.keyText e.1, e.2)) }

def Scope.textNamed (s : Scope) : Scope := { s with frames := s.frames.map Frame.textNamed }

def Machine.textNamed (m : Machine) : Machine :=
  { m with scopeMap := m.scopeMap.mapValues Scope.textNamed }

namespace Value

variable {v : Value}

theorem WellCoded.within (h : v.WellCoded) (levels : Nat) : v.Within Atom.WellCoded levels := by
  obtain ⟨a, rfl, ha⟩ := h
  exact .atom ha

theorem WellCoded.textKeyed (h : v.WellCoded) : v.TextKeyed := by
  obtain ⟨a, rfl, -⟩ := h
  exact .atom a

theorem Simple.within (h : v.Simple) (levels : Nat) : v.Within Atom.WellCoded levels :=
  h.wellCoded.within levels

theorem Simple.textKeyed (h : v.Simple) : v.TextKeyed := h.wellCoded.textKeyed

theorem Simple.withTextKeys_eq (h : v.Simple) : v.withTextKeys = v := h.textKeyed.withTextKeys_eq

theorem within_simples {items : List Value} (h : ∀ v ∈ items, v.Simple) (levels : Nat) :
    (Value.list items).Within Atom.WellCoded (levels + 1) :=
  .list fun v hv => (h v hv).within levels

theorem textKeyed_simples {items : List Value} (h : ∀ v ∈ items, v.Simple) :
    (Value.list items).TextKeyed :=
  .list fun v hv => (h v hv).textKeyed

end Value

/-! ### Levels of a snapshot -/

namespace Frame.Simple

variable {f : Frame}

theorem shownTitle (h : f.Simple) : f.shownTitle.Simple := by
  unfold Frame.shownTitle
  split
  · exact h.name
  · exact h.title

theorem within_snapshot (h : f.Simple) : f.snapshot.Within Atom.WellCoded 2 := by
  refine .dict (by simp [Atom.wellCoded_str]) ?_
  simp only [List.forall_mem_cons, List.not_mem_nil, false_implies, implies_true, and_true]
  refine ⟨h.name.within 1, h.shownTitle.within 1, ?_, Value.within_simples h.notes 0, ?_⟩
  · exact .dict (fun e he => (h.binds e he).1) fun e he => (h.binds e he).2.within 0
  · rw [h.metaBinds_eq]
    exact .dict nofun nofun

end Frame.Simple

theorem Scope.Simple.within_snapshot {s : Scope} (h : s.Simple) :
    s.snapshot.Within Atom.WellCoded 4 := by
  refine .dict (by simp [Atom.wellCoded_str]) ?_
  simp only [List.forall_mem_cons, List.not_mem_nil, false_implies, implies_true, and_true]
  refine ⟨h.name.within 3, .list fun v hv => ?_⟩
  obtain ⟨f, hf, rfl⟩ := List.mem_map.mp hv
  exact (h.frames f hf).within_snapshot

theorem Machine.Simple.within_snapshot {m : Machine} (h : m.Simple) :
    m.snapshot.Within Atom.WellCoded 6 := by
  refine .dict (by simp [Atom.wellCoded_str]) ?_
  simp only [List.forall_mem_cons, List.not_mem_nil, false_implies, implies_true, and_true]
  refine ⟨h.scopeKey.within 5, h.stackKey.within 5, ?_, ?_, ?_⟩
  · refine .dict ?_ ?_
    all_goals
      intro e he
      obtain ⟨⟨key, s⟩, hmem, rfl⟩ := List.mem_map.mp he
    · exact (h.scopeMap.holds _ hmem).1.2
    · exact (h.scopeMap.holds _ hmem).2.within_snapshot
  · refine .dict ?_ ?_
    all_goals
      intro e he
      obtain ⟨⟨key, t⟩, hmem, rfl⟩ := List.mem_map.mp he
    · exact (h.stackMap.holds _ hmem).1.2
    · exact Value.within_simples (h.stackMap.holds _ hmem).2 3
  · exact .dict (fun e he => (h.props.holds e he).1.2) fun e he => (h.props.holds e he).2.within 4

/-! ### Names of bindings -/

namespace Frame.Simple

variable {f : Frame}

theorem withTextKeys_snapshot (h : f.Simple) : f.snapshot.withTextKeys = f.textNamed.snapshot := by
  have hbinds : (Value.dict f.binds.entries).withTextKeys = .dict f.textNamed.binds.entries := by
    rw [Value.withTextKeys, Value.entriesWithTextKeys_eq, Frame.textNamed]
    congr 3
    refine List.map_congr_left fun e he => ?_
    rw [(h.binds e he).2.withTextKeys_eq]
  have hmeta : (Value.dict f.metaBinds.entries).withTextKeys = .dict f.metaBinds.entries := by
    rw [h.metaBinds_eq]
    rfl
  rw [Frame.snapshot, Value.withTextKeys_dict (by simp [Atom.kind])
    (by simp [OrderedMap.Distinct, OrderedMap.keys])]
  simp only [List.map_cons, List.map_nil, h.name.withTextKeys_eq, h.shownTitle.withTextKeys_eq,
    (Value.textKeyed_simples h.notes).withTextKeys_eq, hbinds, hmeta]
  rfl

theorem textKeyed_snapshot_iff (h : f.Simple) :
    f.snapshot.TextKeyed ↔ ∀ k ∈ f.binds.keys, k.kind = .str := by
  constructor
  · intro hkeyed
    cases hkeyed with
    | dict _ _ hvalues =>
      have hbinds := hvalues (.str "binds", .dict f.binds.entries) (by simp)
      cases hbinds with
      | dict hkeys _ _ => simpa [OrderedMap.keys] using hkeys
  · intro hnames
    refine .dict (by simp [Atom.kind]) (by simp [OrderedMap.Distinct, OrderedMap.keys]) ?_
    simp only [List.forall_mem_cons, List.not_mem_nil, false_implies, implies_true, and_true]
    refine ⟨h.name.textKeyed, h.shownTitle.textKeyed, ?_, Value.textKeyed_simples h.notes, ?_⟩
    · exact .dict (fun e he => hnames e.1 (List.mem_map_of_mem he)) h.distinct
        fun e he => (h.binds e he).2.textKeyed
    · rw [h.metaBinds_eq]
      exact .dict (fun e he => absurd he List.not_mem_nil) OrderedMap.distinct_empty
        fun e he => absurd he List.not_mem_nil

end Frame.Simple

namespace Scope.Simple

variable {s : Scope}

theorem withTextKeys_snapshot (h : s.Simple) : s.snapshot.withTextKeys = s.textNamed.snapshot := by
  have hframes : (Value.list (s.frames.map Frame.snapshot)).withTextKeys =
      .list (s.textNamed.frames.map Frame.snapshot) := by
    rw [Value.withTextKeys, Value.itemsWithTextKeys_eq, Scope.textNamed, List.map_map,
      List.map_map]
    congr 1
    exact List.map_congr_left fun f hf => (h.frames f hf).withTextKeys_snapshot
  rw [Scope.snapshot, Value.withTextKeys_dict (by simp [Atom.kind])
    (by simp [OrderedMap.Distinct, OrderedMap.keys])]
  simp only [List.map_cons, List.map_nil, h.name.textKeyed.withTextKeys_eq, hframes]
  rfl

theorem textKeyed_snapshot_iff (h : s.Simple) :
    s.snapshot.TextKeyed ↔ ∀ f ∈ s.frames, ∀ k ∈ f.binds.keys, k.kind = .str := by
  constructor
  · intro hkeyed f hf
    cases hkeyed with
    | dict _ _ hvalues =>
      have hframes := hvalues (.str "frames", .list (s.frames.map Frame.snapshot)) (by simp)
      cases hframes with
      | list hitems =>
        exact (h.frames f hf).textKeyed_snapshot_iff.mp (hitems _ (List.mem_map_of_mem hf))
  · intro hnames
    refine .dict (by simp [Atom.kind]) (by simp [OrderedMap.Distinct, OrderedMap.keys]) ?_
    simp only [List.forall_mem_cons, List.not_mem_nil, false_implies, implies_true, and_true]
    refine ⟨h.name.textKeyed, .list fun v hv => ?_⟩
    obtain ⟨f, hf, rfl⟩ := List.mem_map.mp hv
    exact (h.frames f hf).textKeyed_snapshot_iff.mpr (hnames f hf)

end Scope.Simple

namespace OrderedMap.ByText

variable {α : Type} {q : α → Prop} {m : OrderedMap α}

theorem distinct_shown (h : m.ByText q) (shown : α → Value) :
    (OrderedMap.mk (m.entries.map fun (key, v) => (key, shown v))).Distinct := by
  simpa [OrderedMap.Distinct, OrderedMap.keys, Function.comp_def] using h.distinct

/-- A table with texts for keys keeps them, whatever its values are shown as. -/
theorem withTextKeys_shown (h : m.ByText q) {shown respelled : α → Value}
    (hshown : ∀ v, q v → (shown v).withTextKeys = respelled v) :
    (Value.dict (m.entries.map fun (key, v) => (key, shown v))).withTextKeys =
      .dict (m.entries.map fun (key, v) => (key, respelled v)) := by
  have hkeys : ∀ e ∈ m.entries.map (fun (key, v) => (key, shown v)), e.1.kind = .str := by
    intro e he
    obtain ⟨⟨key, v⟩, hmem, rfl⟩ := List.mem_map.mp he
    exact (h.holds _ hmem).1.1
  rw [Value.withTextKeys_dict hkeys (h.distinct_shown shown), List.map_map]
  congr 1
  refine List.map_congr_left fun e he => ?_
  simp [hshown e.2 (h.holds e he).2]

theorem textKeyed_shown_iff (h : m.ByText q) (shown : α → Value) :
    (Value.dict (m.entries.map fun (key, v) => (key, shown v))).TextKeyed ↔
      ∀ v ∈ m.values, (shown v).TextKeyed := by
  constructor
  · intro hkeyed v hv
    obtain ⟨e, he, rfl⟩ := List.mem_map.mp hv
    cases hkeyed with
    | dict _ _ hvalues => exact hvalues (e.1, shown e.2) (List.mem_map.mpr ⟨e, he, rfl⟩)
  · intro hvalues
    refine .dict ?_ (h.distinct_shown shown) ?_
    all_goals
      intro e he
      obtain ⟨⟨key, v⟩, hmem, rfl⟩ := List.mem_map.mp he
    · exact (h.holds _ hmem).1.1
    · exact hvalues v (List.mem_map.mpr ⟨_, hmem, rfl⟩)

end OrderedMap.ByText

namespace Machine.Simple

variable {m : Machine}

theorem textKeyed_props (h : m.Simple) : (Value.dict m.props.entries).TextKeyed :=
  .dict (fun e he => (h.props.holds e he).1.1) h.props.distinct
    fun e he => (h.props.holds e he).2.textKeyed

/-- What a snapshot is read back as is the snapshot of the machine with texts for names. -/
theorem withTextKeys_snapshot (h : m.Simple) : m.snapshot.withTextKeys = m.textNamed.snapshot := by
  have hscopes := h.scopeMap.withTextKeys_shown fun s hs => hs.withTextKeys_snapshot
  have hstacks := h.stackMap.withTextKeys_shown fun t ht =>
    (Value.textKeyed_simples ht).withTextKeys_eq
  rw [Machine.snapshot, Value.withTextKeys_dict (by simp [Atom.kind])
    (by simp [OrderedMap.Distinct, OrderedMap.keys])]
  simp only [List.map_cons, List.map_nil, h.scopeKey.withTextKeys_eq, h.stackKey.withTextKeys_eq,
    hscopes, hstacks, h.textKeyed_props.withTextKeys_eq, Machine.snapshot, Machine.textNamed,
    OrderedMap.mapValues, List.map_map]
  rfl

theorem textKeyed_snapshot_iff (h : m.Simple) :
    m.snapshot.TextKeyed ↔
      ∀ s ∈ m.scopeMap.values, ∀ f ∈ s.frames, ∀ k ∈ f.binds.keys, k.kind = .str := by
  have hscopes := h.scopeMap.textKeyed_shown_iff Scope.snapshot
  have hscope : ∀ s ∈ m.scopeMap.values, s.Simple := by
    intro s hs
    obtain ⟨e, he, rfl⟩ := List.mem_map.mp hs
    exact (h.scopeMap.holds e he).2
  constructor
  · intro hkeyed s hs
    cases hkeyed with
    | dict _ _ hvalues =>
      obtain ⟨-, -, hshown, -⟩ := by simpa only [List.forall_mem_cons] using hvalues
      exact (hscope s hs).textKeyed_snapshot_iff.mp (hscopes.mp hshown s hs)
  · intro hnames
    refine .dict (by simp [Atom.kind]) (by simp [OrderedMap.Distinct, OrderedMap.keys]) ?_
    simp only [List.forall_mem_cons, List.not_mem_nil, false_implies, implies_true, and_true]
    refine ⟨h.scopeKey.textKeyed, h.stackKey.textKeyed, ?_, ?_, h.textKeyed_props⟩
    · exact hscopes.mpr fun s hs => (hscope s hs).textKeyed_snapshot_iff.mpr (hnames s hs)
    · refine (h.stackMap.textKeyed_shown_iff fun t => .list t.toList).mpr fun t ht => ?_
      obtain ⟨e, he, rfl⟩ := List.mem_map.mp ht
      exact Value.textKeyed_simples (h.stackMap.holds e he).2

/-- The text of a snapshot without overlong integers and what is not a number is read back. -/
theorem exists_snapshot_text [Json.DepthLimit] (hdepth : 6 ≤ Json.DepthLimit.brackets)
    (h : m.Simple) (hordinary : m.snapshot.Every Atom.Ordinary) :
    ∃ text, Json.write? 0 m.snapshot = some text ∧
      Json.read (text ++ "\n").toList = .ok m.textNamed.snapshot := by
  obtain ⟨text, htext⟩ := Json.exists_write? (hordinary.imp fun a ha => ha.1) 0
  have hreadable : m.snapshot.Within Atom.Readable Json.DepthLimit.brackets := by
    refine ((h.within_snapshot.and_every hordinary).imp ?_).mono hdepth
    rintro a ⟨hcoded, hwritable, hnumber⟩
    exact ⟨⟨hwritable, hcoded⟩, hnumber⟩
  refine ⟨text, htext, ?_⟩
  rw [Json.read_write? hreadable htext, h.withTextKeys_snapshot]

end Machine.Simple

/-- No binding of a frame is lost where no two names have the same text, and only there. -/
theorem Frame.entries_textNamed_iff (f : Frame) :
    f.textNamed.binds.entries = f.binds.entries.map (fun e => (Json.keyText e.1, e.2)) ↔
      (f.binds.keys.map Json.keyText).Nodup := by
  have hkeys : (OrderedMap.mk (f.binds.entries.map fun e => (Json.keyText e.1, e.2))).keys =
      f.binds.keys.map Json.keyText := by
    simp [OrderedMap.keys, Function.comp_def]
  rw [Frame.textNamed, OrderedMap.entries_ofList_eq_iff, OrderedMap.Distinct, hkeys, List.Nodup,
    List.pairwise_map, List.pairwise_map]
  refine List.Pairwise.iff ?_
  intro k k'
  rw [← Bool.not_eq_true, Atom.same_iff_eq_of_kind (Json.kind_keyText k) (Json.kind_keyText k')]

/-! ### The report -/

namespace Shell

theorem soundValues_overrides (lenient keepGoing : Bool) :
    Directive.SoundValues (overrides lenient keepGoing) := by
  have hnull : Value.null.Every Atom.Sound := .atom ⟨rfl, nofun⟩
  have hfalse : (Value.bool false).Every Atom.Sound := .atom ⟨rfl, nofun⟩
  cases lenient <;> cases keepGoing <;>
    simp [Directive.SoundValues, overrides, hnull, hfalse]

variable {content : String → FileContent} {lenient keepGoing : Bool} {file source : String}
  {bytes : List UInt8} {config : Config} {program : List Instr} {outcome : Outcome}

/-- A snapshot that has a text is printed, and nothing else is. -/
theorem perform_snapshot [MemoryLimit] [Json.DepthLimit] [CellRenderer]
    (hfile : content file = .bytes bytes) (hsource : readSource bytes = .ok source)
    (hconfig : Config.load source (overrides lenient keepGoing) = .ok config)
    (hprogram : compile config.strictNames source = .ok program)
    (hrun : (Stepper.start program config.machine).perform (.run config.stopOnError) = outcome)
    (hfault : outcome.fault = none) {text : String}
    (htext : Json.write? 0 outcome.stepper.machine.snapshot = some text)
    (level : Level) (inputs : List (Option String)) :
    ∃ notices, perform content inputs (.perform level .snapshot lenient keepGoing file) =
      { exit := 0, output := text ++ "\n", notices } := by
  have hresult : (Listing.ofSource config.strictNames source).result = .ok program := hprogram
  simp only [perform, hfile, performFile, hsource, performSource, hconfig, hresult, performOn, hrun,
    writeSnapshot, hfault, htext, afterNotices]
  exact ⟨_, rfl⟩

theorem simple_of_run [MemoryLimit] [Json.DepthLimit]
    (hconfig : Config.load source (overrides lenient keepGoing) = .ok config)
    (hprogram : compile config.strictNames source = .ok program)
    (hrun : (Stepper.start program config.machine).perform (.run config.stopOnError) = outcome) :
    outcome.stepper.machine.Simple := by
  have hnames := Config.namesTexts_of_load (soundValues_overrides lenient keepGoing) hconfig
  have hafter := Stepper.simple_after (simple_of_compile hprogram) hnames.simple_machine
    [.run config.stopOnError]
  have houtcome : (Stepper.start program config.machine).after [.run config.stopOnError] =
      outcome.stepper := congrArg Outcome.stepper hrun
  rwa [houtcome] at hafter

/-- The text that is printed is read back as the snapshot with texts for names. -/
theorem read_perform_snapshot [MemoryLimit] [Json.DepthLimit] [CellRenderer]
    (hdepth : 6 ≤ Json.DepthLimit.brackets) (hfile : content file = .bytes bytes)
    (hsource : readSource bytes = .ok source)
    (hconfig : Config.load source (overrides lenient keepGoing) = .ok config)
    (hprogram : compile config.strictNames source = .ok program)
    (hrun : (Stepper.start program config.machine).perform (.run config.stopOnError) = outcome)
    (hfault : outcome.fault = none)
    (hordinary : outcome.stepper.machine.snapshot.Every Atom.Ordinary)
    (level : Level) (inputs : List (Option String)) :
    let report := perform content inputs (.perform level .snapshot lenient keepGoing file)
    report.exit = 0 ∧ report.crash = none ∧ report.events = [] ∧
      Json.read report.output.toList = .ok outcome.stepper.machine.textNamed.snapshot := by
  obtain ⟨text, htext, hread⟩ :=
    (simple_of_run hconfig hprogram hrun).exists_snapshot_text hdepth hordinary
  obtain ⟨notices, hreport⟩ :=
    perform_snapshot hfile hsource hconfig hprogram hrun hfault htext level inputs
  rw [hreport]
  exact ⟨rfl, rfl, rfl, hread⟩

end Shell

/-! ### Programs that bind names and do nothing else -/

namespace Machine

/-- The machine that has bound names in its first frame and done nothing else. -/
def binding (binds : OrderedMap Value) : Machine :=
  { initial with
    scopeMap := ⟨[(.str "local", ⟨localKey, [⟨.str "global", binds, .null, [], .empty⟩]⟩)]⟩ }

/-- Binds the names of a table one after another. -/
def bindingProgram (entries : List (Atom × Value)) : List Instr :=
  entries.flatMap fun e => [.push e.2, .bind (.atom e.1)]

theorem run_binding [MemoryLimit] (binds : OrderedMap Value) {name : Atom} (hname : name.Writable)
    (value : Value) :
    (binding binds).run [.push value, .bind (.atom name)] =
      .ok (binding (binds.set name value)) := by
  obtain ⟨text, htext⟩ := Option.isSome_iff_exists.mp hname.plain?
  have hplain : (Value.atom name).plain = .ok text := by simp [Value.plain, Value.plain?, htext]
  let pushed : Machine :=
    { binding binds with stackMap := ⟨[(.str "data", Stack.empty.push value)]⟩ }
  have hpush : (Instr.push value).execute (binding binds) = .ok pushed := rfl
  have htake : pushed.take = .ok (value, binding binds) := rfl
  have hbind : (binding binds).bindAt localKey (.atom name) value =
      .ok (binding (binds.set name value)) :=
    updateScope_of_get? rfl (bind_of_ok hplain)
  have hexecute : (Instr.bind (.atom name)).execute pushed =
      .ok (binding (binds.set name value)) := (bind_of_ok htake).trans hbind
  rw [run_cons, bind_of_ok hpush, run_cons, bind_of_ok hexecute, run_nil]

theorem run_bindingProgram [MemoryLimit] {entries : List (Atom × Value)}
    (h : ∀ e ∈ entries, e.1.Writable) (binds : OrderedMap Value) :
    (binding binds).run (bindingProgram entries) =
      .ok (binding (entries.foldl (fun m e => m.set e.1 e.2) binds)) := by
  induction entries generalizing binds with
  | nil => rfl
  | cons e rest ih =>
    obtain ⟨hfirst, hrest⟩ := List.forall_mem_cons.mp h
    rw [bindingProgram, List.flatMap_cons, run_append, bind_of_ok (run_binding binds hfirst e.2),
      ← bindingProgram, ih hrest, List.foldl_cons]

theorem every_snapshot_binding {p : Atom → Prop} (hstr : ∀ s, p (.str s))
    {binds : OrderedMap Value} (h : (Value.dict binds.entries).Every p) :
    (binding binds).snapshot.Every p := by
  simpa [snapshot, binding, Scope.snapshot, Frame.snapshot, Frame.shownTitle, hstr, initial, bare,
    localKey, OrderedMap.set, OrderedMap.setEntry, OrderedMap.empty] using h

/-- Where such a program ends, and that nothing stands in the way of a snapshot there. -/
theorem exists_outcome_of_bindingProgram [MemoryLimit] {entries : List (Atom × Value)}
    (h : ∀ e ∈ entries, e.1.Ordinary ∧ e.2.Every Atom.Ordinary) :
    ∃ outcome, (Stepper.start (bindingProgram entries) (Config.machine {})).perform (.run true) =
        outcome ∧ outcome.fault = none ∧
      outcome.stepper.machine = binding (.ofList entries) ∧
      outcome.stepper.machine.snapshot.Every Atom.Ordinary := by
  have hrun : (Config.machine {}).run (bindingProgram entries) = .ok (binding (.ofList entries)) :=
    run_bindingProgram (fun e he => (h e he).1.1) .empty
  have hbinds : (OrderedMap.ofList entries).Holds Atom.Ordinary (Value.Every Atom.Ordinary) :=
    OrderedMap.Holds.ofList h
  obtain ⟨hfault, hmachine, -⟩ :=
    Stepper.run_of_run_ok true (s := .start (bindingProgram entries) (Config.machine {})) rfl hrun
  refine ⟨_, rfl, hfault, hmachine, ?_⟩
  have hsnapshot := every_snapshot_binding Atom.ordinary_str (Value.every_dict.mpr hbinds)
  rwa [← hmachine] at hsnapshot

theorem textNamed_binding (binds : OrderedMap Value) :
    (binding binds).textNamed =
      binding (.ofList (binds.entries.map fun e => (Json.keyText e.1, e.2))) :=
  rfl

end Machine

theorem Atom.ordinary_int {i : Int} (h : i.natAbs < 10) : (Atom.int i).Ordinary := by
  have hten : 10 ≤ Numeral.tooLong := by decide +kernel
  refine ⟨writable_iff.mpr ?_, rfl⟩
  rintro _ ⟨⟩
  omega

/-- A number is no text, even if both are written alike. -/
theorem OrderedMap.ofList_number_text (i : Int) (s : String) (v w : Value) :
    ofList [(.int i, v), (.str s, w)] = ⟨[(.int i, v), (.str s, w)]⟩ := by
  have hentries : (ofList [(.int i, v), (.str s, w)]).entries = [(.int i, v), (.str s, w)] := by
    rw [entries_ofList_eq_iff]
    simp [Distinct, keys, Atom.same, Atom.sense?, Atom.place?]
  exact congrArg OrderedMap.mk hentries

/-! ### Snapshots that are read back -/

namespace Shell

variable {content : String → FileContent} {lenient keepGoing : Bool} {file source : String}
  {bytes : List UInt8} {config : Config} {program : List Instr} {outcome : Outcome}

/-- The text that is printed for a snapshot is read back as the snapshot of the same machine, with
texts for the names that frames bind. That is the snapshot itself if all these names are texts and
not otherwise; each binding is there under the text of its name unless two names of a frame have
the same text. -/
theorem snapshot_read_back [MemoryLimit] [Json.DepthLimit] [CellRenderer]
    (hdepth : 6 ≤ Json.DepthLimit.brackets) (hfile : content file = .bytes bytes)
    (hsource : readSource bytes = .ok source)
    (hconfig : Config.load source (overrides lenient keepGoing) = .ok config)
    (hprogram : compile config.strictNames source = .ok program)
    (hrun : (Stepper.start program config.machine).perform (.run config.stopOnError) = outcome)
    (hfault : outcome.fault = none)
    (hordinary : outcome.stepper.machine.snapshot.Every Atom.Ordinary)
    (level : Level) (inputs : List (Option String)) :
    let report := perform content inputs (.perform level .snapshot lenient keepGoing file)
    let m := outcome.stepper.machine
    (report.exit = 0 ∧ report.crash = none ∧ report.events = [] ∧
      Json.read report.output.toList = .ok m.textNamed.snapshot) ∧
    (m.textNamed.snapshot = m.snapshot ↔
      ∀ s ∈ m.scopeMap.values, ∀ f ∈ s.frames, ∀ name ∈ f.binds.keys, name.kind = .str) ∧
    ∀ s ∈ m.scopeMap.values, ∀ f ∈ s.frames,
      f.textNamed.binds.entries = f.binds.entries.map (fun e => (Json.keyText e.1, e.2)) ↔
        (f.binds.keys.map Json.keyText).Nodup := by
  intro report m
  have hsimple : m.Simple := simple_of_run hconfig hprogram hrun
  refine ⟨?_, ?_, fun s _ f _ => f.entries_textNamed_iff⟩
  · exact read_perform_snapshot hdepth hfile hsource hconfig hprogram hrun hfault hordinary level
      inputs
  · rw [← hsimple.withTextKeys_snapshot, hsimple.within_snapshot.withTextKeys_eq_iff]
    exact hsimple.textKeyed_snapshot_iff

/-- A number and a word as names. -/
theorem snapshot_read_back_numbered :
    let source := "4 bind(2) 'b' bind(x)"
    let entries : List (Atom × Value) := [(.int 2, .int 4), (.str "x", .str "b")]
    let m := Machine.binding ⟨entries⟩
    let content : String → FileContent := fun _ => .bytes source.toUTF8.toList
    let report := perform content [] (.perform .warning .snapshot false false "p")
    compile true source = .ok (Machine.bindingProgram entries) ∧
      m.snapshot.Every Atom.Ordinary ∧ report.exit = 0 ∧
      Json.read report.output.toList =
        .ok (Machine.binding ⟨[(.str "2", .int 4), (.str "x", .str "b")]⟩).snapshot ∧
      m.textNamed.snapshot ≠ m.snapshot := by
  intro source entries m content report
  have hfile : content "p" = .bytes source.toUTF8.toList := rfl
  have hprogram : compile true source = .ok (Machine.bindingProgram entries) := by cbv
  have hsource : readSource source.toUTF8.toList = .ok source := by cbv
  have hconfig : Config.load source (overrides false false) = .ok {} := by cbv
  have hkey : Json.keyText (.int 2) = .str "2" := by decide +kernel
  have hnumbers : (Atom.int 2).Ordinary ∧ (Atom.int 4).Ordinary :=
    ⟨Atom.ordinary_int (by decide), Atom.ordinary_int (by decide)⟩
  have hall : ∀ e ∈ entries, e.1.Ordinary ∧ e.2.Every Atom.Ordinary := by
    simp [entries, Atom.ordinary_str, hnumbers]
  obtain ⟨outcome, hrun, hfault, hmachine, hordinary⟩ :=
    Machine.exists_outcome_of_bindingProgram hall
  obtain ⟨⟨hexit, -, -, hread⟩, hnames, -⟩ :=
    snapshot_read_back (by decide) hfile hsource hconfig hprogram hrun hfault hordinary .warning []
  rw [hmachine, OrderedMap.ofList_number_text] at hordinary hread hnames
  refine ⟨hprogram, hordinary, hexit, ?_, ?_⟩
  · rw [hread, Machine.textNamed_binding, List.map_cons, hkey]
    rfl
  · intro heq
    have hname := hnames.mp heq _ List.mem_cons_self _ List.mem_cons_self (.int 2)
      List.mem_cons_self
    cases hname

/-- The number `1` and the text `1` are two names, but one key: the first binding is lost. -/
theorem snapshot_merges_names :
    let source := "1 bind(1) 2 bind('1')"
    let entries : List (Atom × Value) := [(.int 1, .int 1), (.str "1", .int 2)]
    let m := Machine.binding ⟨entries⟩
    let content : String → FileContent := fun _ => .bytes source.toUTF8.toList
    let report := perform content [] (.perform .warning .snapshot false false "p")
    compile true source = .ok (Machine.bindingProgram entries) ∧
      (Config.machine {}).run (Machine.bindingProgram entries) = .ok m ∧
      m.snapshot.Every Atom.Ordinary ∧ report.exit = 0 ∧
      Json.read report.output.toList =
        .ok (Machine.binding ⟨[(.str "1", .int 2)]⟩).snapshot ∧
      (Machine.binding ⟨[(.str "1", .int 2)]⟩).snapshot ≠ m.snapshot := by
  intro source entries m content report
  have hfile : content "p" = .bytes source.toUTF8.toList := rfl
  have hprogram : compile true source = .ok (Machine.bindingProgram entries) := by cbv
  have hsource : readSource source.toUTF8.toList = .ok source := by cbv
  have hconfig : Config.load source (overrides false false) = .ok {} := by cbv
  have hkey : Json.keyText (.int 1) = .str "1" := by decide +kernel
  have hnumbers : (Atom.int 1).Ordinary ∧ (Atom.int 2).Ordinary :=
    ⟨Atom.ordinary_int (by decide), Atom.ordinary_int (by decide)⟩
  have hall : ∀ e ∈ entries, e.1.Ordinary ∧ e.2.Every Atom.Ordinary := by
    simp [entries, Atom.ordinary_str, hnumbers]
  have hplain : (Config.machine {}).run (Machine.bindingProgram entries) =
      .ok (Machine.binding (.ofList entries)) :=
    Machine.run_bindingProgram (fun e he => (hall e he).1.1) .empty
  obtain ⟨outcome, hrun, hfault, hmachine, hordinary⟩ :=
    Machine.exists_outcome_of_bindingProgram hall
  obtain ⟨hexit, -, -, hread⟩ :=
    read_perform_snapshot (by decide) hfile hsource hconfig hprogram hrun hfault hordinary .warning
      []
  rw [hmachine, OrderedMap.ofList_number_text] at hordinary hread
  rw [OrderedMap.ofList_number_text] at hplain
  refine ⟨hprogram, hplain, hordinary, hexit, ?_, ?_⟩
  · rw [hread, Machine.textNamed_binding, List.map_cons, hkey]
    rfl
  · simp [m, entries, Machine.snapshot, Machine.binding, Scope.snapshot, Frame.snapshot]

end Shell

end ScopeMachine
