import ScopeMachine.Machine.Execute
import ScopeMachine.Proofs.Basic
import ScopeMachine.Proofs.OrderedMap

/-! What instructions do to scopes. An instruction that succeeds makes at most one edit, to the one
scope that it addresses; the edit and the address can be read off the instruction, the selected
scope and the operand it takes. -/
namespace ScopeMachine

theorem Value.asKey_eq_ok_iff {v : Value} {k : Atom} : v.asKey = .ok k ↔ v = .atom k := by
  cases v <;> simp [asKey]

theorem Scope.rebind_atom (s : Scope) (name : Atom) (value : Value) :
    s.rebind (.atom name) value = .ok ((rebindIn name value s.frames).map fun found =>
      (found.1, { s with frames := found.2 })) := by
  obtain ⟨scopeName, frames⟩ := s
  cases frames <;> rfl

/-- What a change of the innermost frame keeps goes on to hold of all frames. -/
theorem Scope.forall_of_updateTop {q : Frame → Prop} {s s' : Scope} (h : ∀ f ∈ s.frames, q f)
    {change : Frame → Except Fault Frame}
    (hchange : ∀ f f', q f → change f = .ok f' → q f') (hok : s.updateTop change = .ok s') :
    s'.name = s.name ∧ ∀ f ∈ s'.frames, q f := by
  unfold Scope.updateTop at hok
  split at hok
  · cases hok
    exact ⟨rfl, h⟩
  · rename_i frame outer hframes
    obtain ⟨frame', hframe', hok⟩ := bind_eq_ok hok
    cases hok
    have hall : ∀ f ∈ frame :: outer, q f := hframes ▸ h
    obtain ⟨hfirst, houter⟩ := List.forall_mem_cons.mp hall
    exact ⟨rfl, List.forall_mem_cons.mpr ⟨hchange frame frame' hfirst hframe', houter⟩⟩

/-- Binding a name anew has to keep it only for a frame that has the name. -/
theorem Scope.forall_of_rebindIn {q : Frame → Prop} {frames frames' : List Frame}
    (h : ∀ f ∈ frames, q f) {name : Atom} {value : Value}
    (hbind : ∀ f, q f → f.hasName name = true → q (f.bind name value)) {index : Nat}
    (hfound : rebindIn name value frames = some (index, frames')) : ∀ f ∈ frames', q f := by
  induction frames generalizing index frames' with
  | nil => cases hfound
  | cons frame outer ih =>
    obtain ⟨hframe, houter⟩ := List.forall_mem_cons.mp h
    unfold rebindIn at hfound
    split at hfound
    · rename_i hname
      cases hfound
      exact List.forall_mem_cons.mpr ⟨hbind frame hframe hname, houter⟩
    · obtain ⟨⟨index', outer'⟩, hrest, heq⟩ := Option.map_eq_some_iff.mp hfound
      cases heq
      exact List.forall_mem_cons.mpr ⟨hframe, ih houter hrest⟩

/-- A change to one scope. -/
inductive ScopeEdit
  | enter (name : Value)
  | leave
  | bind (name value : Value)
  | rebind (name value : Value)
  | setTitle (title : Value)
  | addNote (note : Value)

/-- The scope after an edit. Binding a name anew that no frame has changes nothing. -/
def ScopeEdit.apply : ScopeEdit → Scope → Except Fault Scope
  | .enter name, s => s.enterWith name .null
  | .leave, s => .ok s.leave
  | .bind name value, s => s.bind name value
  | .rebind name value, s => (s.rebind name value).map fun found => (found.map Prod.snd).getD s
  | .setTitle title, s => s.setTitle title
  | .addNote note, s => s.addNote note

/-- The key of the scope that an instruction edits, and the edit, when `selected` is the key of the
selected scope and `operand` the value it takes from the stack. -/
def Instr.scopeEdit? (i : Instr) (selected operand : Value) : Option (Value × ScopeEdit) :=
  match i.opcode, i.operands with
  | .enterAt, [key, name] => some (key, .enter name)
  | .enter, name :: _ => some (Machine.localKey, .enter name)
  | .leaveAt, key :: _ => some (key, .leave)
  | .leave, _ => some (Machine.localKey, .leave)
  | .bindAt, [key, name] => some (key, .bind name operand)
  | .bind, name :: _ => some (Machine.localKey, .bind name operand)
  | .rebindAt, [key, name] => some (key, .rebind name operand)
  | .rebind, name :: _ => some (Machine.localKey, .rebind name operand)
  | .setFrameTitle, _ => some (selected, .setTitle operand)
  | .addFrameNote, _ => some (selected, .addNote operand)
  | _, _ => none

/-- The edit that an instruction makes to the scope under `key`, if it makes one. -/
def Instr.editAt? (i : Instr) (selected operand key : Value) : Option ScopeEdit :=
  match i.scopeEdit? selected operand with
  | some (address, edit) => if address.same key then some edit else none
  | none => none

namespace Machine

theorem scope_eq_ok_iff {m : Machine} {key : Value} {s : Scope} :
    m.scope key = .ok s ↔ ∃ k, key = .atom k ∧ m.scopeMap.get? k = some s := by
  constructor
  · intro h
    obtain ⟨k, hk, h⟩ := bind_eq_ok h
    refine ⟨k, Value.asKey_eq_ok_iff.mp hk, ?_⟩
    split at h
    · rename_i found hget
      cases h
      exact hget
    · cases h
  · rintro ⟨k, rfl, hget⟩
    simp [scope, hget, bind, Except.bind, pure, Except.pure]

theorem scope_of_get?_eq_none {m : Machine} {k : Atom} (h : m.scopeMap.get? k = none) :
    m.scope (.atom k) = .error (Fault.unknownContainer .scope (.atom k)).raised := by
  simp only [scope, Value.asKey_atom, bind, Except.bind, h]
  rfl

/-- A key that finds a scope is the same as itself. -/
theorem same_self_of_scope {m : Machine} {key : Value} {s : Scope} (h : m.scope key = .ok s) :
    key.same key = true := by
  obtain ⟨k, rfl, hget⟩ := scope_eq_ok_iff.mp h
  rw [Value.same_atom]
  exact OrderedMap.same_self_of_get? hget

theorem stack_eq_ok_iff {m : Machine} {key : Value} {stack : Stack Value} :
    m.stack key = .ok stack ↔ ∃ k, key = .atom k ∧ m.stackMap.get? k = some stack := by
  constructor
  · intro h
    obtain ⟨k, hk, h⟩ := bind_eq_ok h
    refine ⟨k, Value.asKey_eq_ok_iff.mp hk, ?_⟩
    split at h
    · rename_i found hget
      cases h
      exact hget
    · cases h
  · rintro ⟨k, rfl, hget⟩
    simp [Machine.stack, hget, bind, Except.bind, pure, Except.pure]

theorem stack_of_get?_eq_none {m : Machine} {k : Atom} (h : m.stackMap.get? k = none) :
    m.stack (.atom k) = .error (Fault.unknownContainer .stack (.atom k)).raised := by
  simp only [Machine.stack, Value.asKey_atom, bind, Except.bind, h]
  rfl

/-! ### The parts of an instruction

Each part says what becomes of the machine as a whole, so the rest is seen to be unchanged. -/

theorem updateStack_eq_ok {m m' : Machine} {key : Value} {f : Stack Value → Stack Value}
    (h : m.updateStack key f = .ok m') :
    ∃ k stack, key = .atom k ∧ m.stackMap.get? k = some stack ∧
      m' = { m with stackMap := m.stackMap.set k (f stack) } := by
  obtain ⟨stack, hstack, h⟩ := bind_eq_ok h
  obtain ⟨k, hk, h⟩ := bind_eq_ok h
  have hkey := Value.asKey_eq_ok_iff.mp hk
  obtain ⟨k', hkey', hget⟩ := stack_eq_ok_iff.mp hstack
  cases h
  rw [hkey] at hkey'
  cases hkey'
  exact ⟨k, stack, hkey, hget, rfl⟩

theorem updateScope_eq_ok_iff {m m' : Machine} {key : Value} {f : Scope → Except Fault Scope} :
    m.updateScope key f = .ok m' ↔
      ∃ k s s', key = .atom k ∧ m.scopeMap.get? k = some s ∧ f s = .ok s' ∧
        m' = { m with scopeMap := m.scopeMap.set k s' } := by
  constructor
  · intro h
    obtain ⟨s, hs, h⟩ := bind_eq_ok h
    obtain ⟨s', hs', h⟩ := bind_eq_ok h
    obtain ⟨k, hkey, hget⟩ := scope_eq_ok_iff.mp hs
    subst hkey
    cases h
    exact ⟨k, s, s', rfl, hget, hs', rfl⟩
  · rintro ⟨k, s, s', rfl, hget, hs', rfl⟩
    exact (bind_of_ok (scope_eq_ok_iff.mpr ⟨k, rfl, hget⟩)).trans (bind_of_ok hs')

/-- Where no frame has the name, the scope is put back as it was. -/
theorem rebindAt_eq_ok_iff {m m' : Machine} {key name value : Value} {index : Option Nat} :
    m.rebindAt key name value = .ok (index, m') ↔
      ∃ k s found, key = .atom k ∧ m.scopeMap.get? k = some s ∧
        s.rebind name value = .ok found ∧ index = found.map Prod.fst ∧
        m' = { m with scopeMap := m.scopeMap.set k ((found.map Prod.snd).getD s) } := by
  constructor
  · intro h
    obtain ⟨s, hs, h⟩ := bind_eq_ok h
    obtain ⟨found, hfound, h⟩ := bind_eq_ok h
    obtain ⟨k, rfl, hget⟩ := scope_eq_ok_iff.mp hs
    refine ⟨k, s, found, rfl, hget, hfound, ?_⟩
    cases found with
    | none =>
      cases h
      rw [Option.map_none, Option.map_none, Option.getD_none, OrderedMap.set_of_get? hget]
      exact ⟨rfl, rfl⟩
    | some found =>
      cases h
      exact ⟨rfl, rfl⟩
  · rintro ⟨k, s, found, rfl, hget, hfound, rfl, rfl⟩
    have hstart : m.rebindAt (.atom k) name value = _ :=
      (bind_of_ok (scope_eq_ok_iff.mpr ⟨k, rfl, hget⟩)).trans (bind_of_ok hfound)
    cases found with
    | none =>
      rw [hstart, Option.map_none, Option.map_none, Option.getD_none, OrderedMap.set_of_get? hget]
      rfl
    | some found => exact hstart

/-- Taking an operand shortens the selected stack. -/
theorem take_eq_ok {m m' : Machine} {value : Value} (h : m.take = .ok (value, m')) :
    ∃ k stack, m.stackKey = .atom k ∧ m.stackMap.get? k = some stack ∧
      value = stack.peek .null ∧ m' = { m with stackMap := m.stackMap.set k stack.pop } := by
  obtain ⟨top, hpeek, h⟩ := bind_eq_ok h
  obtain ⟨popped, hpop, h⟩ := bind_eq_ok h
  obtain ⟨stack, hstack, hpeek⟩ := bind_eq_ok hpeek
  obtain ⟨k, found, hkey, hget, rfl⟩ := updateStack_eq_ok hpop
  obtain ⟨k', hkey', hget'⟩ := stack_eq_ok_iff.mp hstack
  rw [hkey] at hkey'
  cases hkey'
  rw [hget] at hget'
  cases hget'
  cases h
  cases hpeek
  exact ⟨k, stack, hkey, hget, rfl, rfl⟩

theorem findAt_eq_ok {m m' : Machine} {key name : Value} (h : m.findAt key name = .ok m') :
    ∃ value, m.push value = .ok m' := by
  obtain ⟨found, -, h⟩ := bind_eq_ok h
  split at h
  · exact ⟨_, h⟩
  · cases h

theorem scopeMap_of_push {m m' : Machine} {value : Value} (h : m.push value = .ok m') :
    m'.scopeMap = m.scopeMap := by
  obtain ⟨k, stack, -, -, rfl⟩ := updateStack_eq_ok h
  rfl

theorem scopes_of_take {m m' : Machine} {value : Value} (h : m.take = .ok (value, m')) :
    m'.scopeMap = m.scopeMap ∧ m'.scopeKey = m.scopeKey := by
  obtain ⟨k, stack, -, -, -, rfl⟩ := take_eq_ok h
  exact ⟨rfl, rfl⟩

/-- The scopes of `m'` are those of `m` after an edit of the scope under `key`. -/
def EditedAt (m m' : Machine) (key : Value) (edit : ScopeEdit) : Prop :=
  ∃ k s s', key = .atom k ∧ m.scopeMap.get? k = some s ∧ edit.apply s = .ok s' ∧
    m'.scopeMap = m.scopeMap.set k s'

theorem editedAt_of_updateScope (edit : ScopeEdit) {m m' : Machine} {key : Value}
    (h : m.updateScope key edit.apply = .ok m') : m.EditedAt m' key edit := by
  obtain ⟨k, s, s', hkey, hget, hs', rfl⟩ := updateScope_eq_ok_iff.mp h
  exact ⟨k, s, s', hkey, hget, hs', rfl⟩

/-- Binding a name anew is an edit whether or not a frame has the name. -/
theorem editedAt_of_rebindAt {m m' : Machine} {key name value : Value} {index : Option Nat}
    (h : m.rebindAt key name value = .ok (index, m')) :
    m.EditedAt m' key (.rebind name value) := by
  obtain ⟨k, s, found, hkey, hget, hfound, -, rfl⟩ := rebindAt_eq_ok_iff.mp h
  refine ⟨k, s, _, hkey, hget, ?_, rfl⟩
  rw [ScopeEdit.apply, hfound]
  rfl

/-- An operand taken first leaves the scopes alone. -/
theorem EditedAt.after_take {m taken m' : Machine} {value key : Value} {edit : ScopeEdit}
    (htake : m.take = .ok (value, taken)) (h : taken.EditedAt m' key edit) :
    m.EditedAt m' key edit := by
  obtain ⟨k, stack, -, -, -, rfl⟩ := take_eq_ok htake
  exact h

end Machine

namespace Instr

theorem operand_eq_ok {i : Instr} {value : Value} (h : i.operand = .ok value) :
    ∃ rest, i.operands = value :: rest := by
  unfold operand at h
  split at h
  · cases h
  · rename_i first rest hoperands
    cases h
    exact ⟨rest, hoperands⟩

theorem operandPair_eq_ok {i : Instr} {first second : Value}
    (h : i.operandPair = .ok (first, second)) : i.operands = [first, second] := by
  unfold operandPair at h
  split at h
  · rename_i hoperands
    cases h
    exact hoperands
  · cases h

/-- What becomes of the scopes: nothing, or the edit that the instruction stands for. -/
def ScopesFollow (i : Instr) (m m' : Machine) (operand : Value) : Prop :=
  match i.scopeEdit? m.scopeKey operand with
  | none => m'.scopeMap = m.scopeMap
  | some (key, edit) => m.EditedAt m' key edit

/-- An instruction that succeeds has made the edit it stands for, and no other. -/
theorem scopesFollow_of_execute [MemoryLimit] {i : Instr} {m m' : Machine}
    (hexecute : i.execute m = .ok m') :
    ∃ operand, i.ScopesFollow m m' operand := by
  obtain ⟨opcode, operands⟩ := i
  cases opcode with
  | nop =>
    cases hexecute
    exact ⟨.null, rfl⟩
  | push =>
    obtain ⟨value, -, h⟩ := bind_eq_ok hexecute
    exact ⟨.null, Machine.scopeMap_of_push h⟩
  | pop =>
    obtain ⟨k, stack, -, -, rfl⟩ := Machine.updateStack_eq_ok hexecute
    exact ⟨.null, rfl⟩
  | findAt =>
    obtain ⟨⟨key, name⟩, -, h⟩ := bind_eq_ok hexecute
    obtain ⟨value, h⟩ := Machine.findAt_eq_ok h
    exact ⟨.null, Machine.scopeMap_of_push h⟩
  | find =>
    obtain ⟨name, -, h⟩ := bind_eq_ok hexecute
    obtain ⟨value, h⟩ := Machine.findAt_eq_ok h
    exact ⟨.null, Machine.scopeMap_of_push h⟩
  | enterAt =>
    obtain ⟨⟨key, name⟩, hpair, h⟩ := bind_eq_ok hexecute
    cases operandPair_eq_ok hpair
    exact ⟨.null, Machine.editedAt_of_updateScope (.enter name) h⟩
  | enter =>
    obtain ⟨name, hname, h⟩ := bind_eq_ok hexecute
    obtain ⟨rest, hoperands⟩ := operand_eq_ok hname
    cases hoperands
    exact ⟨.null, Machine.editedAt_of_updateScope (.enter name) h⟩
  | leaveAt =>
    obtain ⟨key, hkey, h⟩ := bind_eq_ok hexecute
    obtain ⟨rest, hoperands⟩ := operand_eq_ok hkey
    cases hoperands
    exact ⟨.null, Machine.editedAt_of_updateScope .leave h⟩
  | leave => exact ⟨.null, Machine.editedAt_of_updateScope .leave hexecute⟩
  | bindAt =>
    obtain ⟨⟨key, name⟩, hpair, h⟩ := bind_eq_ok hexecute
    obtain ⟨⟨value, taken⟩, htake, h⟩ := bind_eq_ok h
    cases operandPair_eq_ok hpair
    exact ⟨value, (Machine.editedAt_of_updateScope (.bind name value) h).after_take htake⟩
  | bind =>
    obtain ⟨⟨value, taken⟩, htake, hrest⟩ := bind_eq_ok hexecute
    obtain ⟨name, hname, h⟩ := bind_eq_ok hrest
    obtain ⟨rest, hoperands⟩ := operand_eq_ok hname
    cases hoperands
    exact ⟨value, (Machine.editedAt_of_updateScope (.bind name value) h).after_take htake⟩
  | rebindAt =>
    obtain ⟨⟨key, name⟩, hpair, h⟩ := bind_eq_ok hexecute
    obtain ⟨⟨value, taken⟩, htake, h⟩ := bind_eq_ok h
    obtain ⟨⟨index, rebound⟩, hrebind, h⟩ := bind_eq_ok h
    cases operandPair_eq_ok hpair
    cases h
    exact ⟨value, (Machine.editedAt_of_rebindAt hrebind).after_take htake⟩
  | rebind =>
    obtain ⟨⟨value, taken⟩, htake, hrest⟩ := bind_eq_ok hexecute
    obtain ⟨name, hname, h⟩ := bind_eq_ok hrest
    obtain ⟨⟨index, rebound⟩, hrebind, h⟩ := bind_eq_ok h
    obtain ⟨rest, hoperands⟩ := operand_eq_ok hname
    cases hoperands
    cases h
    exact ⟨value, (Machine.editedAt_of_rebindAt hrebind).after_take htake⟩
  | binary op =>
    obtain ⟨⟨a, first⟩, hfirst, h⟩ := bind_eq_ok hexecute
    obtain ⟨⟨b, second⟩, hsecond, h⟩ := bind_eq_ok h
    obtain ⟨result, -, h⟩ := bind_eq_ok h
    have hscopes := (Machine.scopes_of_take hsecond).1.trans (Machine.scopes_of_take hfirst).1
    exact ⟨.null, (Machine.scopeMap_of_push h).trans hscopes⟩
  | unary op =>
    obtain ⟨⟨a, first⟩, hfirst, h⟩ := bind_eq_ok hexecute
    obtain ⟨result, -, h⟩ := bind_eq_ok h
    exact ⟨.null, (Machine.scopeMap_of_push h).trans (Machine.scopes_of_take hfirst).1⟩
  | setFrameTitle =>
    obtain ⟨⟨value, taken⟩, htake, h⟩ := bind_eq_ok hexecute
    have hedit := Machine.editedAt_of_updateScope (.setTitle value) h
    rw [(Machine.scopes_of_take htake).2] at hedit
    exact ⟨value, hedit.after_take htake⟩
  | addFrameNote =>
    obtain ⟨⟨value, taken⟩, htake, h⟩ := bind_eq_ok hexecute
    have hedit := Machine.editedAt_of_updateScope (.addNote value) h
    rw [(Machine.scopes_of_take htake).2] at hedit
    exact ⟨value, hedit.after_take htake⟩
  | setProp =>
    obtain ⟨⟨key, value⟩, -, h⟩ := bind_eq_ok hexecute
    obtain ⟨k, -, h⟩ := bind_eq_ok h
    cases h
    exact ⟨.null, rfl⟩
  | setCurrentScope =>
    obtain ⟨key, -, h⟩ := bind_eq_ok hexecute
    cases h
    exact ⟨.null, rfl⟩
  | setCurrentStack =>
    obtain ⟨key, -, h⟩ := bind_eq_ok hexecute
    cases h
    exact ⟨.null, rfl⟩

/-- Seen from one scope: it stays and becomes what the edit makes of it, if there is one. -/
theorem execute_scope [MemoryLimit] {i : Instr} {m m' : Machine} (h : i.execute m = .ok m')
    {key : Value}
    {s : Scope} (hs : m.scope key = .ok s) :
    ∃ operand s', m'.scope key = .ok s' ∧
      (i.editAt? m.scopeKey operand key).elim (.ok s) (·.apply s) = .ok s' := by
  obtain ⟨k, rfl, hget⟩ := Machine.scope_eq_ok_iff.mp hs
  obtain ⟨operand, hfollow⟩ := scopesFollow_of_execute h
  refine ⟨operand, ?_⟩
  unfold ScopesFollow at hfollow
  unfold editAt?
  split at hfollow
  · rename_i hnone
    simp only [hnone]
    exact ⟨s, Machine.scope_eq_ok_iff.mpr ⟨k, rfl, hfollow ▸ hget⟩, rfl⟩
  · rename_i address edit hedit
    obtain ⟨a, old, new, rfl, hold, happly, hmap⟩ := hfollow
    simp only [hedit, Value.same_atom]
    by_cases hsame : a.same k = true
    · have heq : old = s := by
        rw [OrderedMap.get?_congr _ hsame, hget] at hold
        exact (Option.some.inj hold).symm
      subst heq
      refine ⟨new, Machine.scope_eq_ok_iff.mpr ⟨k, rfl, ?_⟩, by simpa [hsame] using happly⟩
      rw [hmap, OrderedMap.get?_set_of_same _ _ hsame]
    · refine ⟨s, Machine.scope_eq_ok_iff.mpr ⟨k, rfl, ?_⟩, by simp [hsame]⟩
      rw [hmap, OrderedMap.get?_set_of_not_same _ _ (by simpa using hsame)]
      exact hget

end Instr

end ScopeMachine
