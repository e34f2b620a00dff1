import ScopeMachine.Proofs.Machine.Pointers
import ScopeMachine.Proofs.Stepper.KeepGoing

/-! How far compiled programs reach. None of their instructions selects a container, and the only
one that names a scope leaves a frame there, of which no scope but `local` ever has one. So the
scopes beside `local` and the stacks beside `data` stay as the configuration made them, the only
property is the source line, and a container is missing only where a program leaves a scope that
is not there. -/
namespace ScopeMachine

/-- A look-up in a map to which keys were added finds what was added under the key, or what was
there before. -/
theorem OrderedMap.get?_foldl_set {α : Type} {m : OrderedMap α} {f : Atom → α} {keys : List Atom}
    {key : Atom} {value : α}
    (h : (keys.foldl (fun m k => m.set k (f k)) m).get? key = some value) :
    (∃ k ∈ keys, value = f k) ∨ m.get? key = some value := by
  induction keys generalizing m with
  | nil => exact .inr h
  | cons k rest ih =>
    rcases ih h with ⟨k', hk', hvalue⟩ | hget
    · exact .inl ⟨k', List.mem_cons_of_mem k hk', hvalue⟩
    · cases hsame : k.same key with
      | true =>
        rw [get?_set_of_same m (f k) hsame] at hget
        exact .inl ⟨k, List.mem_cons_self, (Option.some.inj hget).symm⟩
      | false =>
        rw [get?_set_of_not_same m (f k) hsame] at hget
        exact .inr hget

namespace Machine

/-- The machine `m` has the containers of `first`, with `local` and `data` selected. The other
scopes are those of `first` and have no frames, the other stacks are those of `first` and have no
items, and there is no property but the source line. -/
structure Confined (first m : Machine) : Prop where
  scopeKey_eq : m.scopeKey = localKey
  stackKey_eq : m.stackKey = dataKey
  scopeKeys_eq : m.scopeMap.keys = first.scopeMap.keys
  stackKeys_eq : m.stackMap.keys = first.stackMap.keys
  scope_vacant : ∀ key s, m.scope key = .ok s → key.same localKey = false →
    first.scope key = .ok s ∧ s.frames = []
  stack_vacant : ∀ key t, m.stack key = .ok t → key.same dataKey = false →
    first.stack key = .ok t ∧ t.toList = []
  props_line : ∀ k ∈ m.props.keys, k = .str "l"

end Machine

theorem Config.confined_machine (c : Config) : c.machine.Confined c.machine where
  scopeKey_eq := rfl
  stackKey_eq := rfl
  scopeKeys_eq := rfl
  stackKeys_eq := rfl
  scope_vacant key s hs hkey := by
    refine ⟨hs, ?_⟩
    obtain ⟨k, rfl, hget⟩ := Machine.scope_eq_ok_iff.mp hs
    rw [Machine.localKey, Value.same_atom, Atom.same_comm] at hkey
    rcases OrderedMap.get?_foldl_set hget with ⟨k', -, rfl⟩ | hinitial
    · rfl
    · simp [Machine.initial, OrderedMap.set, OrderedMap.setEntry, OrderedMap.empty,
        OrderedMap.get?, Atom.entry?, hkey] at hinitial
  stack_vacant key t ht hkey := by
    refine ⟨ht, ?_⟩
    obtain ⟨k, rfl, hget⟩ := Machine.stack_eq_ok_iff.mp ht
    rw [Machine.dataKey, Value.same_atom, Atom.same_comm] at hkey
    rcases OrderedMap.get?_foldl_set hget with ⟨k', -, rfl⟩ | hinitial
    · rfl
    · simp [Machine.initial, Machine.bare, OrderedMap.set, OrderedMap.setEntry, OrderedMap.empty,
        OrderedMap.get?, Atom.entry?, hkey] at hinitial
  props_line k hk := nomatch hk

namespace Instr

variable {i : Instr} {first m m' : Machine}

/-- Outside `local` a compiled instruction makes no edit but to leave a frame. -/
theorem Compiled.editAt?_eq (hi : i.Compiled) {k : Atom} (hk : k.same (.str "local") = false)
    (operand : Value) :
    i.editAt? Machine.localKey operand (.atom k) = none ∨
      i.editAt? Machine.localKey operand (.atom k) = some .leave := by
  have haway : Machine.localKey.same (.atom k) = false := by
    rw [Machine.localKey, Value.same_atom, Atom.same_comm]
    exact hk
  cases hi with
  | @leaveAt key _ =>
    cases hsame : key.same k with
    | true => exact .inr (by simp [editAt?, scopeEdit?, Instr.leaveAt, hsame])
    | false => exact .inl (by simp [editAt?, scopeEdit?, Instr.leaveAt, hsame])
  | setFrameTitle | addFrameNote | bind _ | rebind _ | enter _ | leave =>
    left
    simp only [editAt?, scopeEdit?, Instr.setFrameTitle, Instr.addFrameNote, Instr.bind,
      Instr.rebind, Instr.enter, Instr.leave, haway, Bool.false_eq_true, ↓reduceIte]
  | nop | pop | push _ | line _ | find _ | binary _ | unary _ => exact .inl rfl

/-- A compiled instruction that sets a property sets the source line. -/
theorem Compiled.operands_of_setProp (hi : i.Compiled) (hop : i.opcode = .setProp) :
    ∃ a : Atom, i.operands = [Mnemonic.lineProp, .atom a] := by
  cases hi with
  | line a => exact ⟨a, rfl⟩
  | _ => cases hop

theorem Compiled.props_line [MemoryLimit] (hi : i.Compiled) (h : i.execute m = .ok m')
    (hm : ∀ k ∈ m.props.keys, k = .str "l") : ∀ k ∈ m'.props.keys, k = .str "l" := by
  by_cases hop : i.opcode = .setProp
  · obtain ⟨key, value, hoperands, hprops⟩ := props_of_setProp h hop
    obtain ⟨a, hline⟩ := hi.operands_of_setProp hop
    rw [hline] at hoperands
    cases hoperands
    intro k hk
    rw [hprops, OrderedMap.keys_set] at hk
    split at hk
    · exact hm k hk
    · rcases List.mem_append.mp hk with hk | hk
      · exact hm k hk
      · exact List.mem_singleton.mp hk
  · rw [(staysLocal_of_execute h).props_eq hop]
    exact hm

theorem Compiled.opcode_ne (hi : i.Compiled) :
    i.opcode ≠ .setCurrentScope ∧ i.opcode ≠ .setCurrentStack := by
  cases hi <;> exact ⟨nofun, nofun⟩

/-- Leaving a scope without frames changes nothing, so the other scopes stay as they are. -/
theorem Compiled.scope_vacant [MemoryLimit] (hi : i.Compiled) (hm : first.Confined m)
    (h : i.execute m = .ok m')
    {key : Value} {s : Scope} (hs : m'.scope key = .ok s)
    (hkey : key.same Machine.localKey = false) :
    first.scope key = .ok s ∧ s.frames = [] := by
  obtain ⟨k, rfl, -⟩ := Machine.scope_eq_ok_iff.mp hs
  have hthere : m.Has .scope (.atom k) := by
    rw [← (staysLocal_of_execute h).has_iff, Machine.has_scope_iff]
    exact ⟨s, hs⟩
  obtain ⟨before, hbefore⟩ := Machine.has_scope_iff.mp hthere
  obtain ⟨hfirst, hframes⟩ := hm.scope_vacant _ _ hbefore hkey
  obtain ⟨operand, after, hafter, hedit⟩ := execute_scope h hbefore
  cases hs.symm.trans hafter
  have hsame : s = before := by
    rw [Machine.localKey, Value.same_atom] at hkey
    rw [hm.scopeKey_eq] at hedit
    rcases hi.editAt?_eq hkey operand with hnone | hleave
    · rw [hnone] at hedit
      exact (Except.ok.inj hedit).symm
    · rw [hleave] at hedit
      have hleft : before.leave = s := Except.ok.inj hedit
      rw [← hleft, Scope.leave, hframes, List.tail_nil, ← hframes]
  rw [hsame]
  exact ⟨hfirst, hframes⟩

theorem Compiled.stack_vacant [MemoryLimit] (hm : first.Confined m) (h : i.execute m = .ok m')
    {key : Value} {t : Stack Value} (ht : m'.stack key = .ok t)
    (hkey : key.same Machine.dataKey = false) : first.stack key = .ok t ∧ t.toList = [] := by
  obtain ⟨k, rfl, hget⟩ := Machine.stack_eq_ok_iff.mp ht
  have hselects : ¬ m.Selects k := by
    rw [Machine.Selects, hm.stackKey_eq, Machine.dataKey, Value.same_atom, Atom.same_comm,
      Bool.not_eq_true]
    rwa [Machine.dataKey, Value.same_atom] at hkey
  rw [(staysLocal_of_execute h).stack_eq k fun huses => hselects huses.2] at hget
  exact hm.stack_vacant _ _ (Machine.stack_eq_ok_iff.mpr ⟨k, rfl, hget⟩) hkey

theorem Compiled.confined [MemoryLimit] (hi : i.Compiled) (hm : first.Confined m)
    (h : i.execute m = .ok m') :
    first.Confined m' :=
  have hlocal := staysLocal_of_execute h
  { scopeKey_eq := (hlocal.scopeKey_eq hi.opcode_ne.1).trans hm.scopeKey_eq
    stackKey_eq := (hlocal.stackKey_eq hi.opcode_ne.2).trans hm.stackKey_eq
    scopeKeys_eq := hlocal.scopeKeys_eq.trans hm.scopeKeys_eq
    stackKeys_eq := hlocal.stackKeys_eq.trans hm.stackKeys_eq
    scope_vacant := fun _ _ hs hkey => hi.scope_vacant hm h hs hkey
    stack_vacant := fun _ _ ht hkey => Compiled.stack_vacant hm h ht hkey
    props_line := hi.props_line h hm.props_line }

/-! ### Missing containers -/

/-- The instruction leaves the scope that a fault says is missing, and it is missing. -/
def LeavesMissing (i : Instr) (m : Machine) (kind : Container) (key : Value) : Prop :=
  i = .leaveAt key ∧ kind = .scope ∧ ¬ m.Has .scope key

/-- A fault that reports a missing container is about a scope to be left. -/
def Faults (i : Instr) (m : Machine) (f : Fault) : Prop :=
  ∀ kind key, f = .unknownContainer kind key → i.LeavesMissing m kind key

theorem faults_of_unrelated {f : Fault} (h : f.Unrelated) : i.Faults m f :=
  fun kind key hf => absurd hf (h kind key)

theorem meets_findAt (hm : m.Plain) (name : Atom) :
    Meets (fun _ => True) Fault.Unrelated (m.findAt Machine.localKey (.atom name)) := by
  obtain ⟨s, hget, hs⟩ := hm.exists_scope
  obtain ⟨found, hlookup, hfound⟩ := hs.lookup name
  have hlookupAt : m.lookupAt Machine.localKey (.atom name) = .ok found :=
    (bind_of_ok (Machine.scope_eq_ok_iff.mpr ⟨_, rfl, hget⟩)).trans hlookup
  rw [Machine.findAt, bind_of_ok hlookupAt]
  cases found with
  | none => exact Fault.unrelated_raised fun kind key h => nomatch h
  | some binding =>
    obtain ⟨a, ha⟩ := hfound binding rfl
    obtain ⟨m', hpush, -⟩ := hm.push a
    rw [← ha] at hpush
    exact .of_ok hpush trivial

theorem meets_leaveAt (m : Machine) (key : Atom) :
    Meets (fun _ => True) ((Instr.leaveAt (.atom key)).Faults m) (m.leaveAt (.atom key)) := by
  cases hget : m.scopeMap.get? key with
  | some s => exact .of_ok (Machine.updateScope_of_get? hget rfl) trivial
  | none =>
    rw [Machine.leaveAt, Machine.updateScope, bind_of_error (Machine.scope_of_get?_eq_none hget)]
    intro kind k hfault
    unfold Fault.raised at hfault
    split at hfault
    · cases hfault
      refine ⟨rfl, rfl, ?_⟩
      rintro ⟨k, hk, hcontains⟩
      cases hk
      simp [OrderedMap.contains, hget] at hcontains
    · cases hfault

/-- A compiled instruction finds every container it needs, unless it leaves a scope by name. -/
theorem Compiled.meets [MemoryLimit] (hi : i.Compiled) (hm : m.Plain) :
    Meets (fun _ => True) (i.Faults m) (i.execute m) := by
  have hanchored : m.Anchored := by
    constructor
    · rw [hm.scopeKey_eq]
      obtain ⟨s, hget, -⟩ := hm.exists_scope
      exact Machine.has_scope_iff.mpr ⟨s, Machine.scope_eq_ok_iff.mpr ⟨_, rfl, hget⟩⟩
    · rw [hm.stackKey_eq]
      obtain ⟨t, hget, -⟩ := hm.exists_stack
      exact Machine.has_stack_iff.mpr ⟨t, Machine.stack_eq_ok_iff.mpr ⟨_, rfl, hget⟩⟩
  have hselected (hop : i.opcode.worksOnSelected = true) :
      Meets (fun _ => True) (i.Faults m) (i.execute m) :=
    (execute_meets hanchored hop).imp (fun _ h => h) fun _ => faults_of_unrelated
  obtain ⟨a, taken, htake, htaken⟩ := hm.take
  cases hi with
  | nop | line _ => trivial
  | pop | push _ | setFrameTitle | addFrameNote | binary _ | unary _ => exact hselected rfl
  | bind hname =>
    obtain ⟨next, hnext, -⟩ := htaken.updateScope fun s hs => hs.bind hname a
    exact .of_ok ((bind_of_ok htake).trans hnext) trivial
  | rebind name =>
    obtain ⟨index, next, hnext, -⟩ := htaken.rebindAt name a
    exact .of_ok ((bind_of_ok htake).trans (bind_of_ok hnext)) trivial
  | enter name =>
    obtain ⟨next, hnext, -⟩ := hm.updateScope fun s hs => ⟨_, rfl, hs.enter (.atom name)⟩
    exact .of_ok hnext trivial
  | leave =>
    obtain ⟨next, hnext, -⟩ := hm.updateScope fun s hs => ⟨_, rfl, hs.leave⟩
    exact .of_ok hnext trivial
  | @find name _ =>
    exact (meets_findAt hm name).imp (fun _ h => h) fun _ => faults_of_unrelated
  | @leaveAt key _ => exact meets_leaveAt m key

end Instr

/-! ### Compiled programs -/

/-- The expression at place `j` of a source text is `leaveAt` with one argument, which is the key
of a scope that the machine lacks. -/
def LeavesMissingAt (strict : Bool) (source : String) (j : Nat) (m : Machine) (kind : Container)
    (key : Value) : Prop :=
  kind = .scope ∧ ¬ m.Has .scope key ∧
    ∃ phrase a, (Listing.ofSource strict source).phrases[j]? = some phrase ∧
      phrase.expr = .call "leaveAt" (some [a]) ∧ a.value = key

theorem Instr.LeavesMissing.at_phrase {strict : Bool} {source : String} {program : List Instr}
    (hcompile : compile strict source = .ok program) {j : Nat} {i : Instr}
    (hi : program[j]? = some i) {m : Machine} {kind : Container} {key : Value}
    (h : i.LeavesMissing m kind key) : LeavesMissingAt strict source j m kind key := by
  obtain ⟨rfl, rfl, hmissing⟩ := h
  refine ⟨rfl, hmissing, ?_⟩
  have hall := Listing.forall₂_phrases strict source
  rw [(Listing.result_eq_ok_iff.mp hcompile).2] at hall
  obtain ⟨hj, hget⟩ := List.getElem?_eq_some_iff.mp hi
  have hplace : j < (Listing.ofSource strict source).phrases.length := by rwa [hall.length_eq]
  have hinstr := hall.get hplace hj
  rw [List.get_eq_getElem, List.get_eq_getElem, hget] at hinstr
  obtain ⟨a, hexpr, ha⟩ := Expr.eq_call_of_leaveAt hinstr
  exact ⟨_, a, List.getElem?_eq_getElem hplace, hexpr, ha⟩

namespace Stepper

/-- The trail is confined, and plain so that faults are known. -/
theorem confined_plain_of_mem_states [MemoryLimit] {strict : Bool} {source : String}
    {program : List Instr} (hcompile : compile strict source = .ok program) {c : Config}
    {s : Stepper}
    (hs : s.Follows Instr.ExecutesOrPasses program c.machine) {m : Machine} (hm : m ∈ s.states) :
    c.machine.Confined m ∧ m.Plain := by
  obtain ⟨-, hall⟩ := compiled_of_compile hcompile
  have hkeeps : ∀ i ∈ program, ∀ m n, i.ExecutesOrPasses m n →
      c.machine.Confined m ∧ m.Plain → c.machine.Confined n ∧ n.Plain := by
    rintro i hi m n hstep ⟨hconfined, hplain⟩
    rcases hstep with hexecute | rfl
    · exact ⟨(hall i hi).confined hconfined hexecute, (hall i hi).plain_of_execute hplain hexecute⟩
    · exact ⟨hconfined, hplain⟩
  exact hs.trail.invariant_of_mem hkeeps ⟨c.confined_machine, c.plain_machine⟩ (mem_states.mp hm)

theorem leavesMissingAt_of_execute [MemoryLimit] {strict : Bool} {source : String}
    {program : List Instr} (hcompile : compile strict source = .ok program) {m : Machine}
    (hm : m.Plain) {j : Nat}
    {i : Instr} {kind : Container} {key : Value} (hi : program[j]? = some i)
    (h : i.execute m = .error (.unknownContainer kind key)) :
    LeavesMissingAt strict source j m kind key := by
  obtain ⟨-, hall⟩ := compiled_of_compile hcompile
  have hmeets := (hall i (List.mem_of_getElem? hi)).meets hm
  rw [h] at hmeets
  exact (hmeets kind key rfl).at_phrase hcompile hi

/-- Whatever commands led a stepper through a compiled program, all its machines are confined to
`local` and `data` and have the further containers as the configuration made them. An instruction
of the program reports a missing container only if it is `leaveAt` with the key of a scope that is
not there, and so does the command that the fault stops. -/
theorem compiled_confined [MemoryLimit] {strict : Bool} {source : String} {program : List Instr}
    (hcompile : compile strict source = .ok program) (c : Config) (commands : List Command) :
    let s := (start program c.machine).after commands
    (∀ m ∈ s.states, c.machine.Confined m ∧
      ∀ j i kind key, program[j]? = some i →
        i.execute m = .error (.unknownContainer kind key) →
        LeavesMissingAt strict source j m kind key) ∧
      ∀ command kind key,
        let o := s.perform command
        o.fault = some (.unknownContainer kind key) →
          LeavesMissingAt strict source o.stepper.pc o.stepper.machine kind key := by
  intro s
  have hfollows : s.Follows Instr.ExecutesOrPasses program c.machine :=
    follows_after_start program c.machine commands
  constructor
  · intro m hm
    obtain ⟨hconfined, hplain⟩ := confined_plain_of_mem_states hcompile hfollows hm
    exact ⟨hconfined, fun j i kind key => leavesMissingAt_of_execute hcompile hplain⟩
  · intro command kind key o hfault
    obtain ⟨i, hcurrent, hexecute⟩ := execute_of_fault hfault
    have ho : o.stepper.Follows Instr.ExecutesOrPasses program c.machine :=
      hfollows.perform (fun _ _ _ h => .inl h) fun _ _ _ => .inr rfl
    have hprogram : program[o.stepper.pc]? = some i := by
      rw [← ho.program_eq]
      exact hcurrent
    have hmem : o.stepper.machine ∈ o.stepper.states := mem_states.mpr List.mem_cons_self
    have hplain := (confined_plain_of_mem_states hcompile ho hmem).2
    exact leavesMissingAt_of_execute hcompile hplain hprogram hexecute

/-- A program leaves a further scope, which is vacant, and then one that is not there. -/
theorem compiled_confined_further :
    ∃ program, compile true "leaveAt(main) line(2) leaveAt('nope')" = .ok program ∧
      let c : Config := { scopeKeys := [.str "main"], stackKeys := [.str "aux"] }
      let s := (start program c.machine).after [.run false, .prev, .prev]
      c.machine.Confined s.machine ∧ (s.perform (.run true)).fault =
          some (.unknownContainer .scope (.str "nope")) ∧
        LeavesMissingAt true "leaveAt(main) line(2) leaveAt('nope')" 2
          (s.perform (.run true)).stepper.machine .scope (.str "nope") := by
  have hcompile : compile true "leaveAt(main) line(2) leaveAt('nope')" =
      .ok [.leaveAt (.str "main"), .setProp (.str "l") (.int 2), .leaveAt (.str "nope")] := by cbv
  obtain ⟨hstates, hfault⟩ := compiled_confined hcompile
    { scopeKeys := [.str "main"], stackKeys := [.str "aux"] } [.run false, .prev, .prev]
  exact ⟨_, hcompile, (hstates _ (by simp [states])).1, rfl, hfault (.run true) _ _ rfl⟩

end Stepper

end ScopeMachine
