import ScopeMachine.Proofs.Machine.ScopeEdit

/-! How far an instruction reaches. One that succeeds keeps all containers in their places, changes
no stack but the selected one and no scope but the one it addresses, and moves a pointer or sets a
property only if that is what it is for. In the addressed scope it changes no frame but the
innermost, or the innermost that has the name in question. -/
namespace ScopeMachine

namespace Machine

/-- `k` is the key of the selected stack. -/
def Selects (m : Machine) (k : Atom) : Prop := m.stackKey.same (.atom k) = true

/-- `m'` differs from `m` at most in what the scopes hold, and in what those stacks hold whose keys
are `touched`. -/
structure Spares (m m' : Machine) (touched : Atom → Prop) : Prop where
  scopeKeys_eq : m'.scopeMap.keys = m.scopeMap.keys
  stackKeys_eq : m'.stackMap.keys = m.stackMap.keys
  stack_eq : ∀ k, ¬ touched k → m'.stackMap.get? k = m.stackMap.get? k
  props_eq : m'.props = m.props
  scopeKey_eq : m'.scopeKey = m.scopeKey
  stackKey_eq : m'.stackKey = m.stackKey

namespace Spares

variable {m n m' : Machine} {touched : Atom → Prop}

theorem refl (m : Machine) (touched : Atom → Prop) : m.Spares m touched :=
  ⟨rfl, rfl, fun _ _ => rfl, rfl, rfl, rfl⟩

theorem trans (hmn : m.Spares n touched) (hnm : n.Spares m' touched) : m.Spares m' touched where
  scopeKeys_eq := hnm.scopeKeys_eq.trans hmn.scopeKeys_eq
  stackKeys_eq := hnm.stackKeys_eq.trans hmn.stackKeys_eq
  stack_eq k hk := (hnm.stack_eq k hk).trans (hmn.stack_eq k hk)
  props_eq := hnm.props_eq.trans hmn.props_eq
  scopeKey_eq := hnm.scopeKey_eq.trans hmn.scopeKey_eq
  stackKey_eq := hnm.stackKey_eq.trans hmn.stackKey_eq

/-- What the second of two steps touches may be told from where the first began. -/
theorem trans_selects (hmn : m.Spares n m.Selects) (hnm : n.Spares m' n.Selects) :
    m.Spares m' m.Selects := by
  have hsame : n.Selects = m.Selects := by
    unfold Selects
    rw [hmn.stackKey_eq]
  exact hmn.trans (hsame ▸ hnm)

end Spares

/-! ### The parts of an instruction -/

variable {m m' : Machine}

theorem spares_of_updateStack {f : Stack Value → Stack Value}
    (h : m.updateStack m.stackKey f = .ok m') : m.Spares m' m.Selects := by
  obtain ⟨k, stack, hkey, hget, rfl⟩ := updateStack_eq_ok h
  refine ⟨rfl, OrderedMap.keys_set_of_get? hget _, ?_, rfl, rfl, rfl⟩
  intro other hother
  rw [Selects, hkey, Value.same_atom, Bool.not_eq_true] at hother
  exact OrderedMap.get?_set_of_not_same _ _ hother

theorem spares_of_take {value : Value} (h : m.take = .ok (value, m')) :
    m.Spares m' m.Selects := by
  obtain ⟨top, -, h⟩ := bind_eq_ok h
  obtain ⟨popped, hpop, h⟩ := bind_eq_ok h
  cases h
  exact spares_of_updateStack hpop

theorem spares_of_findAt {key name : Value} (h : m.findAt key name = .ok m') :
    m.Spares m' m.Selects := by
  obtain ⟨value, hpush⟩ := findAt_eq_ok h
  exact spares_of_updateStack hpush

theorem spares_of_updateScope {key : Value} {f : Scope → Except Fault Scope}
    (h : m.updateScope key f = .ok m') (touched : Atom → Prop) : m.Spares m' touched := by
  obtain ⟨k, s, s', -, hget, -, rfl⟩ := updateScope_eq_ok_iff.mp h
  exact ⟨OrderedMap.keys_set_of_get? hget _, rfl, fun _ _ => rfl, rfl, rfl, rfl⟩

theorem spares_of_rebindAt {key name value : Value} {index : Option Nat}
    (h : m.rebindAt key name value = .ok (index, m')) (touched : Atom → Prop) :
    m.Spares m' touched := by
  obtain ⟨k, s, found, -, hget, -, -, rfl⟩ := rebindAt_eq_ok_iff.mp h
  exact ⟨OrderedMap.keys_set_of_get? hget _, rfl, fun _ _ => rfl, rfl, rfl, rfl⟩

end Machine

/-- Whether an instruction puts anything on the selected stack or takes anything from it. -/
def Opcode.usesStack : Opcode → Bool
  | .push | .pop | .findAt | .find | .bindAt | .bind | .rebindAt | .rebind | .binary _ | .unary _
  | .setFrameTitle | .addFrameNote => true
  | .nop | .enterAt | .enter | .leaveAt | .leave | .setProp | .setCurrentScope
  | .setCurrentStack => false

namespace Instr

/-- What an instruction that leads from `m` to `m'` may change outside the frames of the scopes. -/
structure StaysLocal (i : Instr) (m m' : Machine) : Prop where
  scopeKeys_eq : m'.scopeMap.keys = m.scopeMap.keys
  stackKeys_eq : m'.stackMap.keys = m.stackMap.keys
  stack_eq : ∀ k, ¬ (i.opcode.usesStack = true ∧ m.Selects k) →
    m'.stackMap.get? k = m.stackMap.get? k
  props_eq : i.opcode ≠ .setProp → m'.props = m.props
  scopeKey_eq : i.opcode ≠ .setCurrentScope → m'.scopeKey = m.scopeKey
  stackKey_eq : i.opcode ≠ .setCurrentStack → m'.stackKey = m.stackKey

variable {i : Instr} {m m' : Machine}

theorem staysLocal_of_spares {touched : Atom → Prop} (h : m.Spares m' touched)
    (htouched : ∀ k, touched k → i.opcode.usesStack = true ∧ m.Selects k) : i.StaysLocal m m' where
  scopeKeys_eq := h.scopeKeys_eq
  stackKeys_eq := h.stackKeys_eq
  stack_eq k hk := h.stack_eq k fun hin => hk (htouched k hin)
  props_eq _ := h.props_eq
  scopeKey_eq _ := h.scopeKey_eq
  stackKey_eq _ := h.stackKey_eq

theorem staysLocal_of_execute [MemoryLimit] (h : i.execute m = .ok m') : i.StaysLocal m m' := by
  obtain ⟨opcode, operands⟩ := i
  -- Instructions that use the stack, and those that only edit a scope.
  have hstack (hspares : m.Spares m' m.Selects) (huses : opcode.usesStack = true) :
      StaysLocal ⟨opcode, operands⟩ m m' :=
    staysLocal_of_spares hspares fun k hk => ⟨huses, hk⟩
  have hscope (hspares : m.Spares m' fun _ => False) : StaysLocal ⟨opcode, operands⟩ m m' :=
    staysLocal_of_spares hspares fun k hk => hk.elim
  cases opcode with
  | nop =>
    cases h
    exact hscope (.refl m _)
  | push =>
    obtain ⟨value, -, h⟩ := bind_eq_ok h
    exact hstack (Machine.spares_of_updateStack h) rfl
  | pop => exact hstack (Machine.spares_of_updateStack h) rfl
  | findAt =>
    obtain ⟨⟨key, name⟩, -, h⟩ := bind_eq_ok h
    exact hstack (Machine.spares_of_findAt h) rfl
  | find =>
    obtain ⟨name, -, h⟩ := bind_eq_ok h
    exact hstack (Machine.spares_of_findAt h) rfl
  | enterAt =>
    obtain ⟨⟨key, name⟩, -, h⟩ := bind_eq_ok h
    exact hscope (Machine.spares_of_updateScope h _)
  | enter =>
    obtain ⟨name, -, h⟩ := bind_eq_ok h
    exact hscope (Machine.spares_of_updateScope h _)
  | leaveAt =>
    obtain ⟨key, -, h⟩ := bind_eq_ok h
    exact hscope (Machine.spares_of_updateScope h _)
  | leave => exact hscope (Machine.spares_of_updateScope h _)
  | bindAt =>
    obtain ⟨⟨key, name⟩, -, h⟩ := bind_eq_ok h
    obtain ⟨⟨value, taken⟩, htake, h⟩ := bind_eq_ok h
    exact hstack ((Machine.spares_of_take htake).trans (Machine.spares_of_updateScope h _)) rfl
  | bind =>
    obtain ⟨⟨value, taken⟩, htake, hrest⟩ := bind_eq_ok h
    obtain ⟨name, -, h⟩ := bind_eq_ok hrest
    exact hstack ((Machine.spares_of_take htake).trans (Machine.spares_of_updateScope h _)) rfl
  | rebindAt =>
    obtain ⟨⟨key, name⟩, -, h⟩ := bind_eq_ok h
    obtain ⟨⟨value, taken⟩, htake, h⟩ := bind_eq_ok h
    obtain ⟨⟨index, rebound⟩, hrebind, h⟩ := bind_eq_ok h
    cases h
    exact hstack ((Machine.spares_of_take htake).trans (Machine.spares_of_rebindAt hrebind _)) rfl
  | rebind =>
    obtain ⟨⟨value, taken⟩, htake, hrest⟩ := bind_eq_ok h
    obtain ⟨name, -, h⟩ := bind_eq_ok hrest
    obtain ⟨⟨index, rebound⟩, hrebind, h⟩ := bind_eq_ok h
    cases h
    exact hstack ((Machine.spares_of_take htake).trans (Machine.spares_of_rebindAt hrebind _)) rfl
  | binary op =>
    obtain ⟨⟨a, first⟩, hfirst, h⟩ := bind_eq_ok h
    obtain ⟨⟨b, second⟩, hsecond, h⟩ := bind_eq_ok h
    obtain ⟨result, -, h⟩ := bind_eq_ok h
    have htaken := (Machine.spares_of_take hfirst).trans_selects (Machine.spares_of_take hsecond)
    exact hstack (htaken.trans_selects (Machine.spares_of_updateStack h)) rfl
  | unary op =>
    obtain ⟨⟨a, first⟩, hfirst, h⟩ := bind_eq_ok h
    obtain ⟨result, -, h⟩ := bind_eq_ok h
    have htaken := Machine.spares_of_take hfirst
    exact hstack (htaken.trans_selects (Machine.spares_of_updateStack h)) rfl
  | setFrameTitle | addFrameNote =>
    obtain ⟨⟨value, taken⟩, htake, h⟩ := bind_eq_ok h
    exact hstack ((Machine.spares_of_take htake).trans (Machine.spares_of_updateScope h _)) rfl
  | setProp =>
    obtain ⟨⟨key, value⟩, -, h⟩ := bind_eq_ok h
    obtain ⟨k, -, h⟩ := bind_eq_ok h
    cases h
    exact ⟨rfl, rfl, fun _ _ => rfl, fun hne => absurd rfl hne, fun _ => rfl, fun _ => rfl⟩
  | setCurrentScope =>
    obtain ⟨key, -, h⟩ := bind_eq_ok h
    cases h
    exact ⟨rfl, rfl, fun _ _ => rfl, fun _ => rfl, fun hne => absurd rfl hne, fun _ => rfl⟩
  | setCurrentStack =>
    obtain ⟨key, -, h⟩ := bind_eq_ok h
    cases h
    exact ⟨rfl, rfl, fun _ _ => rfl, fun _ => rfl, fun _ => rfl, fun hne => absurd rfl hne⟩

end Instr

/-! ### Frames -/

/-- How an edit may change the frames of its scope, innermost first. -/
def ScopeEdit.Reaches : ScopeEdit → List Frame → List Frame → Prop
  | .enter name, frames, frames' => frames' = .create name .empty :: frames
  | .leave, frames, frames' => frames' = frames.tail
  | .bind _ _, frames, frames' | .setTitle _, frames, frames' | .addNote _, frames, frames' =>
    frames'.tail = frames.tail ∧ frames'.length = frames.length
  | .rebind name value, frames, frames' =>
    (frames' = frames ∧ ∀ k, name = .atom k → ∀ f ∈ frames, f.hasName k = false) ∨
      ∃ k inner frame outer, name = .atom k ∧ frames = inner ++ frame :: outer ∧
        (∀ f ∈ inner, f.hasName k = false) ∧ frame.hasName k = true ∧
        frames' = inner ++ frame.bind k value :: outer

namespace Scope

variable {s s' : Scope}

theorem updateTop_reaches {f : Frame → Except Fault Frame} (h : s.updateTop f = .ok s') :
    s'.name = s.name ∧ s'.frames.tail = s.frames.tail ∧ s'.frames.length = s.frames.length := by
  unfold updateTop at h
  split at h
  · cases h
    exact ⟨rfl, rfl, rfl⟩
  · rename_i frame outer hframes
    obtain ⟨frame', -, h⟩ := bind_eq_ok h
    cases h
    simp [hframes]

theorem rebindIn_eq_none {name : Atom} {value : Value} {frames : List Frame}
    (h : rebindIn name value frames = none) : ∀ f ∈ frames, f.hasName name = false := by
  induction frames with
  | nil => simp
  | cons frame outer ih =>
    unfold rebindIn at h
    split at h
    · cases h
    · rename_i hname
      rw [List.forall_mem_cons]
      exact ⟨by simpa using hname, ih (Option.map_eq_none_iff.mp h)⟩

/-- The frame that is changed is the innermost that has the name. -/
theorem rebindIn_eq_some {name : Atom} {value : Value} {frames frames' : List Frame} {index : Nat}
    (h : rebindIn name value frames = some (index, frames')) :
    ∃ inner frame outer, frames = inner ++ frame :: outer ∧
      (∀ f ∈ inner, f.hasName name = false) ∧ frame.hasName name = true ∧
      frames' = inner ++ frame.bind name value :: outer := by
  induction frames generalizing index frames' with
  | nil => cases h
  | cons frame outer ih =>
    unfold rebindIn at h
    split at h
    · rename_i hname
      cases h
      exact ⟨[], frame, outer, rfl, by simp, hname, rfl⟩
    · rename_i hname
      obtain ⟨⟨index', frames'⟩, hfound, h⟩ := Option.map_eq_some_iff.mp h
      cases h
      obtain ⟨inner, found, rest, rfl, hinner, hhas, rfl⟩ := ih hfound
      refine ⟨frame :: inner, found, rest, rfl, ?_, hhas, rfl⟩
      rw [List.forall_mem_cons]
      exact ⟨by simpa using hname, hinner⟩

theorem rebind_reaches {name value : Value}
    (h : (ScopeEdit.rebind name value).apply s = .ok s') :
    s'.name = s.name ∧ (ScopeEdit.rebind name value).Reaches s.frames s'.frames := by
  cases name with
  | atom k =>
    rw [ScopeEdit.apply, rebind_atom] at h
    cases hin : rebindIn k value s.frames with
    | none =>
      rw [hin] at h
      cases h
      refine ⟨rfl, .inl ⟨rfl, ?_⟩⟩
      rintro _ ⟨⟩
      exact rebindIn_eq_none hin
    | some found =>
      rw [hin] at h
      cases h
      obtain ⟨inner, frame, outer, hframes, hinner, hname, hframes'⟩ := rebindIn_eq_some hin
      exact ⟨rfl, .inr ⟨k, inner, frame, outer, rfl, hframes, hinner, hname, hframes'⟩⟩
  | list items | dict entries =>
    -- A name that cannot be a key passes only where there is no frame to look at.
    obtain ⟨scopeName, frames⟩ := s
    cases frames with
    | nil =>
      cases h
      refine ⟨rfl, .inl ⟨rfl, ?_⟩⟩
      rintro k ⟨⟩
    | cons frame outer => cases h

theorem reaches_of_apply {edit : ScopeEdit} (h : edit.apply s = .ok s') :
    s'.name = s.name ∧ edit.Reaches s.frames s'.frames := by
  cases edit with
  | enter name =>
    cases h
    exact ⟨rfl, rfl⟩
  | leave =>
    cases h
    exact ⟨rfl, rfl⟩
  | bind name value =>
    obtain ⟨-, -, h⟩ := bind_eq_ok h
    exact updateTop_reaches h
  | rebind name value => exact rebind_reaches h
  | setTitle title => exact updateTop_reaches h
  | addNote note => exact updateTop_reaches h

end Scope

namespace Instr

variable {i : Instr} {m m' : Machine}

theorem props_of_setProp [MemoryLimit] (h : i.execute m = .ok m') (hop : i.opcode = .setProp) :
    ∃ k value, i.operands = [.atom k, value] ∧ m'.props = m.props.set k value := by
  obtain ⟨opcode, operands⟩ := i
  cases hop
  obtain ⟨⟨key, value⟩, hpair, h⟩ := bind_eq_ok h
  obtain ⟨k, hk, h⟩ := bind_eq_ok h
  cases Value.asKey_eq_ok_iff.mp hk
  cases h
  exact ⟨k, value, operandPair_eq_ok hpair, rfl⟩

/-- Whatever an instruction does, it does to the selected stack, to the scope it addresses, to one
property or to one pointer. The containers keep their places; in the addressed scope, frames are
entered and left at the inner end, the innermost frame alone is bound in, entitled and annotated,
and a name is bound anew in the innermost frame that has it. -/
theorem execute_local [MemoryLimit] (h : i.execute m = .ok m') :
    i.StaysLocal m m' ∧
    (∀ key s, m.scope key = .ok s → ∃ operand s', m'.scope key = .ok s' ∧
      match i.editAt? m.scopeKey operand key with
      | none => s' = s
      | some edit => s'.name = s.name ∧ edit.Reaches s.frames s'.frames) ∧
    (i.opcode = .setProp → ∃ k value, i.operands = [.atom k, value] ∧
      (m'.props.keys = m.props.keys ∨ m'.props.keys = m.props.keys ++ [k]) ∧
      ∀ other, k.same other = false → m'.props.get? other = m.props.get? other) := by
  refine ⟨staysLocal_of_execute h, ?_, ?_⟩
  · intro key s hs
    obtain ⟨operand, s', hs', hedit⟩ := execute_scope h hs
    refine ⟨operand, s', hs', ?_⟩
    cases hat : i.editAt? m.scopeKey operand key with
    | none =>
      rw [hat] at hedit
      cases hedit
      rfl
    | some edit =>
      rw [hat] at hedit
      exact Scope.reaches_of_apply hedit
  · intro hop
    obtain ⟨k, value, hoperands, hprops⟩ := props_of_setProp h hop
    refine ⟨k, value, hoperands, ?_, ?_⟩
    · rw [hprops, OrderedMap.keys_set]
      split
      · exact .inl rfl
      · exact .inr rfl
    · intro other hother
      rw [hprops, OrderedMap.get?_set_of_not_same _ _ hother]

/-- A name that the outer frame of another scope has is bound anew there. -/
theorem execute_local_rebind :
    let outer : Frame := (Frame.create (.str "outer") .empty).bind (.str "x") (.int 1)
    let dyn : Scope := { name := .str "dyn", frames := [.create (.str "inner") .empty, outer] }
    let m : Machine := { Machine.initial with
      scopeMap := Machine.initial.scopeMap.set (.str "dyn") dyn
      stackMap := OrderedMap.empty.set (.str "data") (.ofItems [.int 2, .int 3]) }
    let i : Instr := .rebindAt (.str "dyn") (.str "x")
    ∃ m' operand dyn' around, i.execute m = .ok m' ∧ i.StaysLocal m m' ∧
      m'.scope (.str "dyn") = .ok dyn' ∧
      (ScopeEdit.rebind (.str "x") operand).Reaches dyn.frames dyn'.frames ∧
      m.scope Machine.localKey = .ok around ∧ m'.scope Machine.localKey = .ok around := by
  intro outer dyn m i
  obtain ⟨hlocal, hscope, -⟩ := execute_local (i := i) (m := m) rfl
  obtain ⟨operand, dyn', hdyn, -, hreaches⟩ := hscope (.str "dyn") dyn rfl
  obtain ⟨_, around, haround, hsame⟩ := hscope Machine.localKey _ rfl
  cases hsame
  exact ⟨_, operand, dyn', _, rfl, hlocal, hdyn, hreaches, rfl, haround⟩

end Instr

end ScopeMachine
