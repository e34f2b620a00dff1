import ScopeMachine.Config
import ScopeMachine.Proofs.Machine.Refusal
import ScopeMachine.Proofs.Machine.ScopeEdit
import ScopeMachine.Proofs.Source.Compiled

/-! The machines that compiled programs meet, and what instructions do there. Such a machine is
*plain*: the scope `local` and the stack `data` are there and selected, and no value that can be
reached has parts. An instruction of a compiled program leaves a plain machine plain or fails with
a fault that a run survives, unless memory runs out or an operator refuses an integer that is too
long for the message to name. -/
namespace ScopeMachine

/-- All names are bound to values without parts. -/
def Frame.Plain (f : Frame) : Prop := f.binds.Holds (fun _ => True) Value.IsAtom

def Scope.Plain (s : Scope) : Prop := ∀ f ∈ s.frames, f.Plain

def Stack.Plain (t : Stack Value) : Prop := ∀ v ∈ t.toList, v.IsAtom

structure Machine.Plain (m : Machine) : Prop where
  scopeKey_eq : m.scopeKey = localKey
  stackKey_eq : m.stackKey = dataKey
  exists_scope : ∃ s, m.scopeMap.get? (.str "local") = some s ∧ s.Plain
  exists_stack : ∃ t, m.stackMap.get? (.str "data") = some t ∧ t.Plain

/-! ### Frames, scopes and stacks -/

theorem Frame.plain_create (name : Value) : (Frame.create name .empty).Plain := by
  unfold create
  split <;> exact OrderedMap.holds_empty

theorem Frame.Plain.bind {f : Frame} (h : f.Plain) (name a : Atom) :
    (f.bind name (.atom a)).Plain :=
  OrderedMap.Holds.set h trivial (Value.isAtom_atom a)

/-- A name is bound only if it can be written. -/
theorem Scope.bind_eq_ok_iff {s s' : Scope} {name value : Value} :
    s.bind name value = .ok s' ↔ name.Writable ∧
      (s.updateTop fun frame => do
        let name ← name.asKey
        pure (frame.bind name value)) = .ok s' := by
  rw [← Value.isSome_plain?_iff, Option.isSome_iff_exists]
  constructor
  · intro h
    obtain ⟨text, htext, h⟩ := bind_eq_ok h
    unfold Value.plain at htext
    split at htext
    · rename_i found hfound
      exact ⟨⟨found, hfound⟩, h⟩
    · cases htext
  · rintro ⟨⟨text, htext⟩, h⟩
    have hplain : name.plain = .ok text := by simp [Value.plain, htext]
    exact (bind_of_ok hplain).trans h

namespace Scope.Plain

variable {s : Scope}

theorem enter (h : s.Plain) (name : Value) : (s.enter name .empty).Plain :=
  List.forall_mem_cons.mpr ⟨Frame.plain_create name, h⟩

theorem leave (h : s.Plain) : s.leave.Plain := fun f hf => h f (List.mem_of_mem_tail hf)

theorem updateTop (h : s.Plain) {f : Frame → Except Fault Frame}
    (hf : ∀ frame : Frame, frame.Plain → ∃ frame', f frame = .ok frame' ∧ frame'.Plain) :
    ∃ s', s.updateTop f = .ok s' ∧ s'.Plain := by
  unfold Scope.updateTop
  split
  · exact ⟨s, rfl, h⟩
  · rename_i frame outer hframes
    have hall : ∀ g ∈ frame :: outer, g.Plain := hframes ▸ h
    obtain ⟨hfirst, houter⟩ := List.forall_mem_cons.mp hall
    obtain ⟨frame', hok, hframe'⟩ := hf frame hfirst
    exact ⟨_, bind_of_ok hok, List.forall_mem_cons.mpr ⟨hframe', houter⟩⟩

theorem bind (h : s.Plain) {name : Atom} (hname : name.Writable) (a : Atom) :
    ∃ s', s.bind (.atom name) (.atom a) = .ok s' ∧ s'.Plain := by
  obtain ⟨s', hok, hs'⟩ :=
    h.updateTop fun frame hframe => ⟨frame.bind name (.atom a), rfl, hframe.bind name a⟩
  exact ⟨s', Scope.bind_eq_ok_iff.mpr ⟨Value.writable_atom.mpr hname, hok⟩, hs'⟩

theorem setTitle (h : s.Plain) (title : Value) : ∃ s', s.setTitle title = .ok s' ∧ s'.Plain :=
  h.updateTop fun frame hframe => ⟨frame.setTitle title, rfl, hframe⟩

theorem addNote (h : s.Plain) (note : Value) : ∃ s', s.addNote note = .ok s' ∧ s'.Plain :=
  h.updateTop fun frame hframe => ⟨frame.addNote note, rfl, hframe⟩

theorem isAtom_of_lookupIn {frames : List Frame} (h : ∀ f ∈ frames, f.Plain) {name : Atom}
    {depth : Nat} {binding : Binding} (hfound : lookupIn name depth frames = some binding) :
    binding.value.IsAtom := by
  induction frames generalizing depth with
  | nil => cases hfound
  | cons frame outer ih =>
    obtain ⟨hframe, houter⟩ := List.forall_mem_cons.mp h
    unfold lookupIn at hfound
    split at hfound
    · rename_i found hlookup
      cases hfound
      obtain ⟨value, hget, rfl⟩ := Option.map_eq_some_iff.mp hlookup
      exact OrderedMap.Holds.get? hframe hget
    · exact ih houter hfound

theorem lookup (h : s.Plain) (name : Atom) :
    ∃ found, s.lookup (.atom name) = .ok found ∧ ∀ b, found = some b → b.value.IsAtom := by
  unfold Scope.lookup
  split
  · exact ⟨none, rfl, fun b hb => nomatch hb⟩
  · exact ⟨lookupIn name 0 s.frames, rfl, fun b hb => isAtom_of_lookupIn h hb⟩

theorem rebind (h : s.Plain) (name a : Atom) :
    ∃ found, s.rebind (.atom name) (.atom a) = .ok found ∧ ∀ e, found = some e → e.2.Plain := by
  refine ⟨_, Scope.rebind_atom s name (.atom a), ?_⟩
  intro e he
  obtain ⟨⟨index, frames'⟩, hfound, rfl⟩ := Option.map_eq_some_iff.mp he
  exact forall_of_rebindIn h (fun f hf _ => hf.bind name a) hfound

end Scope.Plain

theorem Stack.Plain.push {t : Stack Value} (h : t.Plain) (a : Atom) : (t.push (.atom a)).Plain :=
  List.forall_mem_cons.mpr ⟨Value.isAtom_atom a, h⟩

theorem Stack.Plain.pop {t : Stack Value} (h : t.Plain) : t.pop.Plain := by
  intro v hv
  rw [Stack.toList_pop] at hv
  exact h v (List.mem_of_mem_tail hv)

theorem Stack.Plain.peek {t : Stack Value} (h : t.Plain) : (t.peek .null).IsAtom := by
  rw [Stack.peek_eq_headD]
  cases hitems : t.toList with
  | nil => exact Value.isAtom_atom .null
  | cons v rest => exact h v (by simp [hitems])

/-! ### The parts of an instruction -/

namespace Machine

theorem updateStack_of_get? {m : Machine} {k : Atom} {t : Stack Value}
    (h : m.stackMap.get? k = some t) (f : Stack Value → Stack Value) :
    m.updateStack (.atom k) f = .ok { m with stackMap := m.stackMap.set k (f t) } :=
  bind_of_ok (stack_eq_ok_iff.mpr ⟨k, rfl, h⟩)

theorem updateScope_of_get? {m : Machine} {k : Atom} {s s' : Scope}
    (h : m.scopeMap.get? k = some s) {f : Scope → Except Fault Scope} (hf : f s = .ok s') :
    m.updateScope (.atom k) f = .ok { m with scopeMap := m.scopeMap.set k s' } :=
  updateScope_eq_ok_iff.mpr ⟨k, s, s', rfl, h, hf, rfl⟩

namespace Plain

variable {m : Machine}

theorem setStack (h : m.Plain) {t : Stack Value} (ht : t.Plain) :
    Plain { m with stackMap := m.stackMap.set (.str "data") t } :=
  ⟨h.scopeKey_eq, h.stackKey_eq, h.exists_scope, t, OrderedMap.get?_set_self _ t (by simp), ht⟩

theorem setScope (h : m.Plain) {s : Scope} (hs : s.Plain) :
    Plain { m with scopeMap := m.scopeMap.set (.str "local") s } :=
  ⟨h.scopeKey_eq, h.stackKey_eq, ⟨s, OrderedMap.get?_set_self _ s (by simp), hs⟩, h.exists_stack⟩

theorem push (h : m.Plain) (a : Atom) : ∃ m', m.push (.atom a) = .ok m' ∧ m'.Plain := by
  obtain ⟨t, hget, ht⟩ := h.exists_stack
  rw [Machine.push, h.stackKey_eq]
  exact ⟨_, updateStack_of_get? hget _, h.setStack (ht.push a)⟩

theorem pop (h : m.Plain) : ∃ m', m.pop = .ok m' ∧ m'.Plain := by
  obtain ⟨t, hget, ht⟩ := h.exists_stack
  rw [Machine.pop, h.stackKey_eq]
  exact ⟨_, updateStack_of_get? hget _, h.setStack ht.pop⟩

theorem take (h : m.Plain) : ∃ a m', m.take = .ok (.atom a, m') ∧ m'.Plain := by
  obtain ⟨t, hget, ht⟩ := h.exists_stack
  obtain ⟨a, ha⟩ := ht.peek
  obtain ⟨m', hpop, hm'⟩ := h.pop
  have hpeek : m.peek .null = .ok (.atom a) := by
    rw [peek, h.stackKey_eq, peekAt, ← ha]
    exact bind_of_ok (stack_eq_ok_iff.mpr ⟨_, rfl, hget⟩)
  exact ⟨a, m', (bind_of_ok hpeek).trans (bind_of_ok hpop), hm'⟩

theorem updateScope (h : m.Plain) {f : Scope → Except Fault Scope}
    (hf : ∀ s : Scope, s.Plain → ∃ s', f s = .ok s' ∧ s'.Plain) :
    ∃ m', m.updateScope localKey f = .ok m' ∧ m'.Plain := by
  obtain ⟨s, hget, hs⟩ := h.exists_scope
  obtain ⟨s', hok, hs'⟩ := hf s hs
  exact ⟨_, updateScope_of_get? hget hok, h.setScope hs'⟩

theorem rebindAt (h : m.Plain) (name a : Atom) :
    ∃ index m', m.rebindAt localKey (.atom name) (.atom a) = .ok (index, m') ∧ m'.Plain := by
  obtain ⟨s, hget, hs⟩ := h.exists_scope
  obtain ⟨found, hrebind, hfound⟩ := hs.rebind name a
  have hstart : m.rebindAt localKey (.atom name) (.atom a) = _ :=
    (bind_of_ok (scope_eq_ok_iff.mpr ⟨_, rfl, hget⟩)).trans (bind_of_ok hrebind)
  cases found with
  | none => exact ⟨none, m, hstart, h⟩
  | some found => exact ⟨some found.1, _, hstart, h.setScope (hfound found rfl)⟩

/-- A scope that is left, if it is there, is either `local` or none of the program's concern. -/
theorem leaveAt (h : m.Plain) {key : Atom} (hkey : key.Writable) :
    (∃ m', m.leaveAt (.atom key) = .ok m' ∧ m'.Plain) ∨
      ∃ fault, m.leaveAt (.atom key) = .error fault ∧ fault.isRecoverable = true := by
  cases hget : m.scopeMap.get? key with
  | none =>
    refine .inr ⟨_, bind_of_error (scope_of_get?_eq_none hget), ?_⟩
    exact Fault.isRecoverable_raised (Fault.isSome_message?_unknownContainer .scope hkey) rfl
  | some s =>
    refine .inl ⟨_, updateScope_of_get? hget rfl, h.scopeKey_eq, h.stackKey_eq, ?_, h.exists_stack⟩
    obtain ⟨s', hget', hs'⟩ := h.exists_scope
    cases hsame : key.same (.str "local") with
    | true =>
      have heq : s = s' := by
        rw [OrderedMap.get?_congr _ hsame, hget'] at hget
        exact (Option.some.inj hget).symm
      exact ⟨s.leave, OrderedMap.get?_set_of_same _ _ hsame, (heq ▸ hs').leave⟩
    | false =>
      refine ⟨s', ?_, hs'⟩
      rw [OrderedMap.get?_set_of_not_same _ _ hsame]
      exact hget'

theorem findAt (h : m.Plain) {name : Atom} (hname : name.Writable) :
    (∃ m', m.findAt localKey (.atom name) = .ok m' ∧ m'.Plain) ∨
      ∃ fault, m.findAt localKey (.atom name) = .error fault ∧ fault.isRecoverable = true := by
  obtain ⟨s, hget, hs⟩ := h.exists_scope
  obtain ⟨found, hlookup, hfound⟩ := hs.lookup name
  have hstart : m.findAt localKey (.atom name) = _ :=
    bind_of_ok ((bind_of_ok (scope_eq_ok_iff.mpr ⟨_, rfl, hget⟩)).trans hlookup)
  cases found with
  | none =>
    refine .inr ⟨_, hstart, Fault.isRecoverable_raised ?_ rfl⟩
    exact Fault.isSome_message?_nameNotFound (Atom.writable_str "local") hname
  | some binding =>
    obtain ⟨a, ha⟩ := hfound binding rfl
    obtain ⟨m', hpush, hm'⟩ := h.push a
    rw [← ha] at hpush
    exact .inl ⟨m', hstart.trans hpush, hm'⟩

end Plain

end Machine

/-! ### Instructions -/

namespace Instr

/-- What comes of an instruction of a compiled program on a plain machine. -/
inductive Ends [MemoryLimit] (i : Instr) (m : Machine) : Prop
  | done {next : Machine} (h : i.execute m = .ok next) (hplain : next.Plain)
  | failed {fault : Fault} (h : i.execute m = .error fault) (hsurvived : fault.isRecoverable = true)
  | outOfMemory (hmemory : i.ExceedsMemory m)
  | digitLimit (hrefuses : i.RefusesOverlong m)

variable {i : Instr} {m : Machine}

theorem ends_of_ok [MemoryLimit] (h : ∃ m', i.execute m = .ok m' ∧ m'.Plain) : i.Ends m := by
  obtain ⟨m', hok, hm'⟩ := h
  exact .done hok hm'

theorem ends_of_ok_or_error [MemoryLimit] (h : (∃ m', i.execute m = .ok m' ∧ m'.Plain) ∨
    ∃ fault, i.execute m = .error fault ∧ fault.isRecoverable = true) : i.Ends m := by
  rcases h with hok | ⟨fault, herror, hfault⟩
  · exact ends_of_ok hok
  · exact .failed herror hfault

theorem ends_binary [MemoryLimit] (hm : m.Plain) (op : BinaryOp) : (Instr.binary op).Ends m := by
  obtain ⟨a, first, ha, hfirst⟩ := hm.take
  obtain ⟨b, rest, hb, hrest⟩ := hfirst.take
  have hoffers : m.Offers (.atom a) (.atom b) rest := ⟨first, ha, hb⟩
  have hexecute : (Instr.binary op).execute m = _ := execute_binary hoffers
  cases happly : op.apply (.atom a) (.atom b) with
  | ok v =>
    obtain ⟨c, rfl⟩ := BinaryOp.isAtom_of_apply happly
    obtain ⟨m', hpush, hm'⟩ := hrest.push c
    rw [happly] at hexecute
    exact .done (hexecute.trans hpush) hm'
  | error cause =>
    have hrefuses : (Instr.binary op).Refuses m (.atom a) (.atom b) cause :=
      ⟨op, rest, rfl, hoffers, happly⟩
    rw [happly] at hexecute
    by_cases hcause : cause = .outOfMemory
    · exact .outOfMemory ⟨_, _, hcause ▸ hrefuses⟩
    by_cases hleft : a.Writable
    · by_cases hright : b.Writable
      · have hwritable : ∀ v ∈ [Value.atom a, .atom b], v.Writable := by simp [hleft, hright]
        obtain ⟨fault, hrefuse, hfault⟩ := refuse_recoverable (.binary op) rfl hwritable hcause
        exact .failed (hexecute.trans (bind_of_error hrefuse)) hfault
      · obtain ⟨n, rfl, hlong⟩ := Atom.exists_int_of_not_writable hright
        exact .digitLimit ⟨_, _, cause, hrefuses, hcause, n, hlong, .inr rfl⟩
    · obtain ⟨n, rfl, hlong⟩ := Atom.exists_int_of_not_writable hleft
      exact .digitLimit ⟨_, _, cause, hrefuses, hcause, n, hlong, .inl rfl⟩

theorem ends_unary [MemoryLimit] (hm : m.Plain) (op : UnaryOp) : (Instr.unary op).Ends m := by
  obtain ⟨a, rest, ha, hrest⟩ := hm.take
  have hexecute : (Instr.unary op).execute m = _ := execute_unary ha
  cases happly : op.apply (.atom a) with
  | ok v =>
    obtain ⟨c, rfl⟩ := (UnaryOp.simple_of_apply happly).isAtom
    obtain ⟨m', hpush, hm'⟩ := hrest.push c
    rw [happly] at hexecute
    exact .done (hexecute.trans hpush) hm'
  | error cause =>
    obtain ⟨hwritable, hcause⟩ := UnaryOp.writable_of_apply happly
    have hall : ∀ v ∈ [Value.atom a], v.Writable := by simp [hwritable]
    obtain ⟨fault, hrefuse, hfault⟩ := refuse_recoverable (.unary op) rfl hall hcause
    rw [happly] at hexecute
    exact .failed (hexecute.trans (bind_of_error hrefuse)) hfault

/-- An instruction of a compiled program, case by case. -/
theorem Compiled.ends [MemoryLimit] (hi : i.Compiled) (hm : m.Plain) : i.Ends m := by
  -- The operand and the machine without it, for the instructions that take one.
  obtain ⟨a, taken, htake, htaken⟩ := hm.take
  cases hi with
  | nop => exact .done rfl hm
  | pop => exact ends_of_ok hm.pop
  | push value => exact ends_of_ok (hm.push value)
  | line place =>
    exact .done rfl ⟨hm.scopeKey_eq, hm.stackKey_eq, hm.exists_scope, hm.exists_stack⟩
  | setFrameTitle =>
    obtain ⟨next, hnext, hplain⟩ := htaken.updateScope fun s hs => hs.setTitle (.atom a)
    rw [← htaken.scopeKey_eq] at hnext
    exact .done ((bind_of_ok htake).trans hnext) hplain
  | addFrameNote =>
    obtain ⟨next, hnext, hplain⟩ := htaken.updateScope fun s hs => hs.addNote (.atom a)
    rw [← htaken.scopeKey_eq] at hnext
    exact .done ((bind_of_ok htake).trans hnext) hplain
  | bind hname =>
    obtain ⟨next, hnext, hplain⟩ := htaken.updateScope fun s hs => hs.bind hname a
    exact .done ((bind_of_ok htake).trans hnext) hplain
  | rebind name =>
    obtain ⟨index, next, hnext, hplain⟩ := htaken.rebindAt name a
    exact .done ((bind_of_ok htake).trans (bind_of_ok hnext)) hplain
  | enter name => exact ends_of_ok (hm.updateScope fun s hs => ⟨_, rfl, hs.enter (.atom name)⟩)
  | leave => exact ends_of_ok (hm.updateScope fun s hs => ⟨_, rfl, hs.leave⟩)
  | find hname => exact ends_of_ok_or_error (hm.findAt hname)
  | leaveAt hkey => exact ends_of_ok_or_error (hm.leaveAt hkey)
  | binary op => exact ends_binary hm op
  | unary op => exact ends_unary hm op

theorem Compiled.plain_of_execute [MemoryLimit] (hi : i.Compiled) (hm : m.Plain) {next : Machine}
    (h : i.execute m = .ok next) : next.Plain := by
  cases hi.ends hm with
  | done hdone hplain =>
    cases hdone.symm.trans h
    exact hplain
  | failed hfailed _ => cases hfailed.symm.trans h
  | outOfMemory hmemory => cases hmemory.execute.symm.trans h
  | digitLimit hrefuses => cases hrefuses.execute.symm.trans h

theorem Ends.result [MemoryLimit] (h : i.Ends m) :
    (∃ next, i.execute m = .ok next) ∨
      ∃ fault, i.execute m = .error fault ∧
        (fault.isRecoverable = true ∨ fault = .outOfMemory ∨ fault = .digitLimit) := by
  cases h with
  | done hdone _ => exact .inl ⟨_, hdone⟩
  | failed hfailed hsurvived => exact .inr ⟨_, hfailed, .inl hsurvived⟩
  | outOfMemory hmemory => exact .inr ⟨_, hmemory.execute, .inr (.inl rfl)⟩
  | digitLimit hrefuses => exact .inr ⟨_, hrefuses.execute, .inr (.inr rfl)⟩

/-- The two faults that a run does not survive have one reason each. -/
theorem Ends.fault_iff [MemoryLimit] (h : i.Ends m) :
    (i.execute m = .error .outOfMemory ↔ i.ExceedsMemory m) ∧
      (i.execute m = .error .digitLimit ↔ i.RefusesOverlong m) := by
  refine ⟨⟨fun herror => ?_, ExceedsMemory.execute⟩, ⟨fun herror => ?_, RefusesOverlong.execute⟩⟩
  · cases h with
    | done hdone _ => cases hdone.symm.trans herror
    | failed hfailed hsurvived =>
      cases hfailed.symm.trans herror
      cases hsurvived
    | outOfMemory hmemory => exact hmemory
    | digitLimit hrefuses => cases hrefuses.execute.symm.trans herror
  · cases h with
    | done hdone _ => cases hdone.symm.trans herror
    | failed hfailed hsurvived =>
      cases hfailed.symm.trans herror
      cases hsurvived
    | outOfMemory hmemory => cases hmemory.execute.symm.trans herror
    | digitLimit hrefuses => exact hrefuses

end Instr

/-- The machine that a configuration asks for is plain, whatever containers it names. -/
theorem Config.plain_machine (c : Config) : c.machine.Plain := by
  refine ⟨rfl, rfl, ?_, ?_⟩
  · apply OrderedMap.exists_get?_foldl_set
    · intro key frame hframe
      cases hframe
    · refine ⟨_, rfl, ?_⟩
      intro frame hframe
      rw [List.mem_singleton.mp hframe]
      exact Frame.plain_create _
  · apply OrderedMap.exists_get?_foldl_set
    · intro key v hv
      cases hv
    · refine ⟨_, rfl, ?_⟩
      intro v hv
      cases hv

end ScopeMachine
