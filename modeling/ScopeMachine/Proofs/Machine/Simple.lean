import ScopeMachine.Proofs.FrontEnd
import ScopeMachine.Proofs.Machine.Confinement
import ScopeMachine.Proofs.Machine.Refusal
import ScopeMachine.Proofs.Machine.ScopeEdit

/-! Machines whose values have no parts. No table of such a machine has the same key twice, and its
containers and properties have texts for keys. Every instruction whose operands have no parts keeps
a machine simple, if it sets no property but under a text; so whatever commands lead a compiled
program through the machine of its configuration, the machine stays simple. -/
namespace ScopeMachine

/-- A value without parts, its code points well coded. -/
def Value.WellCoded (v : Value) : Prop := ∃ a : Atom, v = .atom a ∧ a.WellCoded

theorem Atom.wellCoded_of_ne_codes {a : Atom} (h : ∀ points, a ≠ .codes points) : a.WellCoded :=
  fun points hpoints => absurd hpoints (h points)

theorem Value.Simple.wellCoded {v : Value} (h : v.Simple) : v.WellCoded := by
  obtain ⟨a, rfl, ha⟩ := h
  exact ⟨a, rfl, Atom.wellCoded_of_ne_codes ha⟩

/-- All names are bound to simple values, and no name twice. -/
structure Frame.Simple (f : Frame) : Prop where
  name : f.name.Simple
  title : f.title.Simple
  notes : ∀ v ∈ f.notes, v.Simple
  binds : f.binds.Holds Atom.WellCoded Value.Simple
  distinct : f.binds.Distinct
  metaBinds_eq : f.metaBinds = .empty

/-- The frames hold simple values; the scope itself may be named by any key. -/
structure Scope.Simple (s : Scope) : Prop where
  name : s.name.WellCoded
  frames : ∀ f ∈ s.frames, f.Simple

def Stack.Simple (t : Stack Value) : Prop := ∀ v ∈ t.toList, v.Simple

/-- A table with texts for keys, no two of them the same, whose values satisfy `q`. -/
structure OrderedMap.ByText {α : Type} (q : α → Prop) (m : OrderedMap α) : Prop where
  holds : m.Holds Atom.CodedText q
  distinct : m.Distinct

structure Machine.Simple (m : Machine) : Prop where
  scopeKey : m.scopeKey.Simple
  stackKey : m.stackKey.Simple
  scopeMap : m.scopeMap.ByText Scope.Simple
  stackMap : m.stackMap.ByText Stack.Simple
  props : m.props.ByText Value.Simple

namespace OrderedMap.ByText

variable {α : Type} {q : α → Prop} {m : OrderedMap α}

theorem empty : (OrderedMap.empty : OrderedMap α).ByText q := ⟨holds_empty, distinct_empty⟩

theorem set (h : m.ByText q) {key : Atom} (hkey : key.CodedText) {value : α} (hvalue : q value) :
    (m.set key value).ByText q :=
  ⟨h.holds.set hkey hvalue, h.distinct.set key value⟩

theorem set_of_get? (h : m.ByText q) {key : Atom} {old value : α} (hget : m.get? key = some old)
    (hvalue : q value) : (m.set key value).ByText q :=
  ⟨h.holds.set_of_get? hget hvalue, h.distinct.set key value⟩

theorem foldl_set (h : m.ByText q) {keys : List Atom} {f : Atom → α}
    (hkeys : ∀ k ∈ keys, k.CodedText ∧ q (f k)) :
    (keys.foldl (fun m k => m.set k (f k)) m).ByText q :=
  ⟨h.holds.foldl_set (f := fun k => (k, f k)) hkeys, h.distinct.foldl_set (fun k => (k, f k)) keys⟩

end OrderedMap.ByText

/-! ### Frames, scopes and stacks -/

theorem Frame.simple_create {name : Value} (h : name.Simple) :
    (Frame.create name .empty).Simple := by
  have hcreate (name : Value) (h : name.Simple) :
      Frame.Simple ⟨name, .empty, .null, [], .empty⟩ :=
    ⟨h, Value.simple_null, nofun, OrderedMap.holds_empty, OrderedMap.distinct_empty, rfl⟩
  unfold create
  split
  · exact hcreate _ (Value.simple_str "<frame>")
  · exact hcreate _ h

theorem Frame.Simple.bind {f : Frame} (h : f.Simple) {name : Atom} (hname : name.WellCoded)
    {value : Value} (hvalue : value.Simple) : (f.bind name value).Simple :=
  { h with
    binds := h.binds.set hname hvalue
    distinct := h.distinct.set name value }

theorem Frame.Simple.addNote {f : Frame} (h : f.Simple) {note : Value} (hnote : note.Simple) :
    (f.addNote note).Simple :=
  { h with
    notes := by
      intro v hv
      rcases List.mem_append.mp hv with hv | hv
      · exact h.notes v hv
      · rw [List.mem_singleton.mp hv]
        exact hnote }

namespace Scope.Simple

variable {s s' : Scope}

theorem enter (h : s.Simple) {name : Value} (hname : name.Simple) :
    (s.enter name .empty).Simple :=
  ⟨h.name, List.forall_mem_cons.mpr ⟨Frame.simple_create hname, h.frames⟩⟩

theorem leave (h : s.Simple) : s.leave.Simple :=
  ⟨h.name, fun f hf => h.frames f (List.mem_of_mem_tail hf)⟩

theorem updateTop (h : s.Simple) {f : Frame → Except Fault Frame}
    (hf : ∀ frame frame', frame.Simple → f frame = .ok frame' → frame'.Simple)
    (hok : s.updateTop f = .ok s') : s'.Simple := by
  obtain ⟨hname, hframes⟩ := forall_of_updateTop h.frames hf hok
  exact ⟨hname ▸ h.name, hframes⟩

theorem bind (h : s.Simple) {name value : Value} (hname : name.Simple) (hvalue : value.Simple)
    (hok : s.bind name value = .ok s') : s'.Simple := by
  obtain ⟨a, rfl, ha⟩ := hname.wellCoded
  obtain ⟨-, -, hok⟩ := bind_eq_ok hok
  refine h.updateTop (fun frame frame' hframe hbind => ?_) hok
  cases hbind
  exact hframe.bind ha hvalue

theorem setTitle (h : s.Simple) {title : Value} (htitle : title.Simple)
    (hok : s.setTitle title = .ok s') : s'.Simple := by
  refine h.updateTop (fun frame frame' hframe hset => ?_) hok
  cases hset
  exact { hframe with title := htitle }

theorem addNote (h : s.Simple) {note : Value} (hnote : note.Simple)
    (hok : s.addNote note = .ok s') : s'.Simple := by
  refine h.updateTop (fun frame frame' hframe hset => ?_) hok
  cases hset
  exact hframe.addNote hnote

theorem rebind (h : s.Simple) {name value : Value} (hname : name.Simple) (hvalue : value.Simple)
    {index : Nat} (hok : s.rebind name value = .ok (some (index, s'))) : s'.Simple := by
  obtain ⟨a, rfl, ha⟩ := hname.wellCoded
  rw [Scope.rebind_atom] at hok
  obtain ⟨⟨found, frames⟩, hfound, heq⟩ := Option.map_eq_some_iff.mp (Except.ok.inj hok)
  cases heq
  exact ⟨h.name, forall_of_rebindIn h.frames (fun f hf _ => hf.bind ha hvalue) hfound⟩

theorem of_lookupIn {frames : List Frame} (h : ∀ f ∈ frames, f.Simple) {name : Atom} {depth : Nat}
    {binding : Binding} (hfound : lookupIn name depth frames = some binding) :
    binding.value.Simple := by
  induction frames generalizing depth with
  | nil => cases hfound
  | cons frame outer ih =>
    obtain ⟨hframe, houter⟩ := List.forall_mem_cons.mp h
    unfold lookupIn at hfound
    split at hfound
    · rename_i found hlookup
      cases hfound
      obtain ⟨value, hget, rfl⟩ := Option.map_eq_some_iff.mp hlookup
      exact hframe.binds.get? hget
    · exact ih houter hfound

theorem lookup (h : s.Simple) {name : Value} {binding : Binding}
    (hok : s.lookup name = .ok (some binding)) : binding.value.Simple := by
  unfold Scope.lookup at hok
  split at hok
  · cases hok
  · obtain ⟨k, -, hok⟩ := bind_eq_ok hok
    exact of_lookupIn h.frames (Except.ok.inj hok)

end Scope.Simple

theorem Stack.Simple.push {t : Stack Value} (h : t.Simple) {value : Value} (hvalue : value.Simple) :
    (t.push value).Simple :=
  List.forall_mem_cons.mpr ⟨hvalue, h⟩

theorem Stack.Simple.pop {t : Stack Value} (h : t.Simple) : t.pop.Simple := by
  intro v hv
  rw [Stack.toList_pop] at hv
  exact h v (List.mem_of_mem_tail hv)

theorem Stack.Simple.peek {t : Stack Value} (h : t.Simple) : (t.peek .null).Simple := by
  rw [Stack.peek_eq_headD]
  cases hitems : t.toList with
  | nil => exact Value.simple_null
  | cons v rest => exact h v (by simp [hitems])

/-! ### The parts of an instruction -/

namespace Machine.Simple

variable {m m' : Machine} {key name value : Value}

theorem updateStack (h : m.Simple) {f : Stack Value → Stack Value}
    (hf : ∀ t : Stack Value, t.Simple → (f t).Simple) (hok : m.updateStack key f = .ok m') :
    m'.Simple := by
  obtain ⟨k, stack, rfl, hget, rfl⟩ := updateStack_eq_ok hok
  exact { h with stackMap := h.stackMap.set_of_get? hget (hf stack (h.stackMap.holds.get? hget)) }

theorem push (h : m.Simple) (hvalue : value.Simple) (hok : m.push value = .ok m') : m'.Simple :=
  h.updateStack (fun _ ht => ht.push hvalue) hok

theorem pop (h : m.Simple) (hok : m.pop = .ok m') : m'.Simple :=
  h.updateStack (fun _ ht => ht.pop) hok

theorem take (h : m.Simple) (hok : m.take = .ok (value, m')) : value.Simple ∧ m'.Simple := by
  obtain ⟨k, stack, -, hget, rfl, rfl⟩ := take_eq_ok hok
  have hstack := h.stackMap.holds.get? hget
  exact ⟨hstack.peek, { h with stackMap := h.stackMap.set_of_get? hget hstack.pop }⟩

theorem updateScope (h : m.Simple) {f : Scope → Except Fault Scope}
    (hf : ∀ s s', s.Simple → f s = .ok s' → s'.Simple) (hok : m.updateScope key f = .ok m') :
    m'.Simple := by
  obtain ⟨s, hs, hok⟩ := bind_eq_ok hok
  obtain ⟨s', hs', hok⟩ := bind_eq_ok hok
  obtain ⟨k, hk, hok⟩ := bind_eq_ok hok
  cases Value.asKey_eq_ok_iff.mp hk
  obtain ⟨k', hkey, hget⟩ := scope_eq_ok_iff.mp hs
  cases hkey
  cases hok
  have hscope := hf s s' (h.scopeMap.holds.get? hget) hs'
  exact { h with scopeMap := h.scopeMap.set_of_get? hget hscope }

theorem enterAt (h : m.Simple) (hname : name.Simple) (hok : m.enterAt key name = .ok m') :
    m'.Simple := by
  refine h.updateScope (fun s s' hs hs' => ?_) hok
  cases hs'
  exact hs.enter hname

theorem leaveAt (h : m.Simple) (hok : m.leaveAt key = .ok m') : m'.Simple := by
  refine h.updateScope (fun s s' hs hs' => ?_) hok
  cases hs'
  exact hs.leave

theorem bindAt (h : m.Simple) (hname : name.Simple) (hvalue : value.Simple)
    (hok : m.bindAt key name value = .ok m') : m'.Simple :=
  h.updateScope (fun _ _ hs hs' => hs.bind hname hvalue hs') hok

theorem rebindAt (h : m.Simple) (hname : name.Simple) (hvalue : value.Simple)
    {index : Option Nat} (hok : m.rebindAt key name value = .ok (index, m')) : m'.Simple := by
  obtain ⟨s, hs, hok⟩ := bind_eq_ok hok
  obtain ⟨found, hfound, hok⟩ := bind_eq_ok hok
  obtain ⟨k, rfl, hget⟩ := scope_eq_ok_iff.mp hs
  cases found with
  | none =>
    cases hok
    exact h
  | some found =>
    cases hok
    have hscope := (h.scopeMap.holds.get? hget).rebind hname hvalue hfound
    exact { h with scopeMap := h.scopeMap.set_of_get? hget hscope }

theorem findAt (h : m.Simple) (hok : m.findAt key name = .ok m') : m'.Simple := by
  obtain ⟨found, hfound, hok⟩ := bind_eq_ok hok
  obtain ⟨s, hs, hlookup⟩ := bind_eq_ok hfound
  obtain ⟨k, rfl, hget⟩ := scope_eq_ok_iff.mp hs
  cases found with
  | none => cases hok
  | some binding => exact h.push ((h.scopeMap.holds.get? hget).lookup hlookup) hok

end Machine.Simple

/-! ### Instructions -/

namespace Instr

variable {i : Instr} {m m' : Machine}

theorem eq_ok_of_refuse {operands : List Value} {result : Except OperandError Value} {v : Value}
    (h : i.refuse operands result = .ok v) : result = .ok v := by
  unfold refuse at h
  split at h
  · cases h
    rfl
  · cases h
  · cases h

/-- Instructions without parts in their operands, which set properties under texts only. -/
structure Simple (i : Instr) : Prop where
  operands : ∀ v ∈ i.operands, v.Simple
  prop : i.opcode = .setProp → ∃ key value, i.operands = [.str key, value]

theorem Simple.operand (hi : i.Simple) {value : Value} (h : i.operand = .ok value) :
    value.Simple := by
  obtain ⟨rest, hoperands⟩ := operand_eq_ok h
  exact hi.operands value (by simp [hoperands])

theorem Simple.operandPair (hi : i.Simple) {first second : Value}
    (h : i.operandPair = .ok (first, second)) : first.Simple ∧ second.Simple := by
  have hoperands := operandPair_eq_ok h
  exact ⟨hi.operands first (by simp [hoperands]), hi.operands second (by simp [hoperands])⟩

/-- An instruction, operation by operation. -/
theorem Simple.execute [MemoryLimit] (hi : i.Simple) (hm : m.Simple) (h : i.execute m = .ok m') :
    m'.Simple := by
  obtain ⟨opcode, operands⟩ := i
  cases opcode with
  | nop =>
    cases h
    exact hm
  | push =>
    obtain ⟨value, hvalue, h⟩ := bind_eq_ok h
    exact hm.push (hi.operand hvalue) h
  | pop => exact hm.pop h
  | findAt =>
    obtain ⟨⟨key, name⟩, -, h⟩ := bind_eq_ok h
    exact hm.findAt h
  | find =>
    obtain ⟨name, -, h⟩ := bind_eq_ok h
    exact hm.findAt h
  | enterAt =>
    obtain ⟨⟨key, name⟩, hpair, h⟩ := bind_eq_ok h
    exact hm.enterAt (hi.operandPair hpair).2 h
  | enter =>
    obtain ⟨name, hname, h⟩ := bind_eq_ok h
    exact hm.enterAt (hi.operand hname) h
  | leaveAt =>
    obtain ⟨key, -, h⟩ := bind_eq_ok h
    exact hm.leaveAt h
  | leave => exact hm.leaveAt h
  | bindAt =>
    obtain ⟨⟨key, name⟩, hpair, h⟩ := bind_eq_ok h
    obtain ⟨⟨value, taken⟩, htake, h⟩ := bind_eq_ok h
    obtain ⟨hvalue, htaken⟩ := hm.take htake
    exact htaken.bindAt (hi.operandPair hpair).2 hvalue h
  | bind =>
    obtain ⟨⟨value, taken⟩, htake, h⟩ := bind_eq_ok h
    obtain ⟨name, hname, h⟩ := bind_eq_ok h
    obtain ⟨hvalue, htaken⟩ := hm.take htake
    exact htaken.bindAt (hi.operand hname) hvalue h
  | rebindAt =>
    obtain ⟨⟨key, name⟩, hpair, h⟩ := bind_eq_ok h
    obtain ⟨⟨value, taken⟩, htake, h⟩ := bind_eq_ok h
    obtain ⟨⟨index, rebound⟩, hrebind, h⟩ := bind_eq_ok h
    obtain ⟨hvalue, htaken⟩ := hm.take htake
    cases h
    exact htaken.rebindAt (hi.operandPair hpair).2 hvalue hrebind
  | rebind =>
    obtain ⟨⟨value, taken⟩, htake, h⟩ := bind_eq_ok h
    obtain ⟨name, hname, h⟩ := bind_eq_ok h
    obtain ⟨⟨index, rebound⟩, hrebind, h⟩ := bind_eq_ok h
    obtain ⟨hvalue, htaken⟩ := hm.take htake
    cases h
    exact htaken.rebindAt (hi.operand hname) hvalue hrebind
  | binary op =>
    obtain ⟨⟨a, first⟩, hfirst, h⟩ := bind_eq_ok h
    obtain ⟨⟨b, second⟩, hsecond, h⟩ := bind_eq_ok h
    obtain ⟨result, hresult, hpush⟩ := bind_eq_ok h
    obtain ⟨ha, hrest⟩ := hm.take hfirst
    obtain ⟨hb, hrest⟩ := hrest.take hsecond
    exact hrest.push (BinaryOp.simple_of_apply ha hb (eq_ok_of_refuse hresult)) hpush
  | unary op =>
    obtain ⟨⟨a, first⟩, hfirst, h⟩ := bind_eq_ok h
    obtain ⟨result, hresult, hpush⟩ := bind_eq_ok h
    obtain ⟨⟨a, rfl, -⟩, hrest⟩ := hm.take hfirst
    exact hrest.push (UnaryOp.simple_of_apply (eq_ok_of_refuse hresult)) hpush
  | setFrameTitle =>
    obtain ⟨⟨value, taken⟩, htake, h⟩ := bind_eq_ok h
    obtain ⟨hvalue, htaken⟩ := hm.take htake
    exact htaken.updateScope (fun _ _ hs hs' => hs.setTitle hvalue hs') h
  | addFrameNote =>
    obtain ⟨⟨value, taken⟩, htake, h⟩ := bind_eq_ok h
    obtain ⟨hvalue, htaken⟩ := hm.take htake
    exact htaken.updateScope (fun _ _ hs hs' => hs.addNote hvalue hs') h
  | setProp =>
    obtain ⟨⟨key, value⟩, hpair, h⟩ := bind_eq_ok h
    obtain ⟨name, value', hoperands⟩ := hi.prop rfl
    have hvalue := (hi.operandPair hpair).2
    cases hoperands.symm.trans (operandPair_eq_ok hpair)
    cases h
    exact { hm with props := hm.props.set (Atom.codedText_str name) hvalue }
  | setCurrentScope =>
    obtain ⟨key, hkey, h⟩ := bind_eq_ok h
    cases h
    exact { hm with scopeKey := hi.operand hkey }
  | setCurrentStack =>
    obtain ⟨key, hkey, h⟩ := bind_eq_ok h
    cases h
    exact { hm with stackKey := hi.operand hkey }

end Instr

/-! ### Compiled programs -/

theorem Atom.Literal.ne_codes {a : Atom} (h : a.Literal) (points : List Nat) :
    a ≠ .codes points := by
  cases h <;> nofun

theorem simple_of_compile {strict : Bool} {source : String} {program : List Instr}
    (h : compile strict source = .ok program) : ∀ i ∈ program, i.Simple := by
  intro i hi
  refine ⟨fun v hv => ?_, fun hop => ?_⟩
  · obtain ⟨a, rfl, ha⟩ := spelled_of_compile h i hi v hv
    exact ⟨a, rfl, ha.ne_codes⟩
  · obtain ⟨a, hoperands⟩ := ((compiled_of_compile h).2 i hi).operands_of_setProp hop
    exact ⟨"l", .atom a, hoperands⟩

/-- The machine that a configuration asks for is simple if it names containers by texts. -/
theorem Config.NamesTexts.simple_machine {c : Config} (h : c.NamesTexts) : c.machine.Simple where
  scopeKey := Value.simple_str "local"
  stackKey := Value.simple_str "data"
  scopeMap := by
    have hframe : (Frame.create (.str "global") .empty).Simple :=
      Frame.simple_create (Value.simple_str "global")
    have hlocal : Scope.Simple ⟨.str "local", [.create (.str "global") .empty]⟩ :=
      ⟨(Value.simple_str "local").wellCoded, by simpa using hframe⟩
    refine (OrderedMap.ByText.empty.set (Atom.codedText_str "local") hlocal).foldl_set ?_
    intro k hk
    have hkey := h.scopeKeys k hk
    exact ⟨hkey, ⟨k, rfl, hkey.2⟩, nofun⟩
  stackMap := by
    have hempty : (Stack.empty : Stack Value).Simple := nofun
    refine (OrderedMap.ByText.empty.set (Atom.codedText_str "data") hempty).foldl_set ?_
    exact fun k hk => ⟨h.stackKeys k hk, hempty⟩
  props := OrderedMap.ByText.empty

/-- Whatever commands lead through simple instructions, the machine stays simple. -/
theorem Stepper.simple_after [MemoryLimit] {program : List Instr} {first : Machine}
    (hprogram : ∀ i ∈ program, i.Simple) (hfirst : first.Simple) (commands : List Command) :
    ((Stepper.start program first).after commands).machine.Simple := by
  refine (follows_after_start program first commands).trail.invariant ?_ hfirst
  rintro i hi m n (hexecute | rfl) hm
  · exact (hprogram i hi).execute hm hexecute
  · exact hm

end ScopeMachine
