import Mathlib.Data.List.Forall2
import ScopeMachine.Proofs.Machine.Lockstep

/-! Machines that differ only in what no instruction can tell. A *likeness* says which maps pass for
one another and which titles do. If maps that pass for one another answer every look-up alike and
stay so whenever a key is set on both sides, then machines made of such maps cannot be told apart by
running a program on them. -/
namespace ScopeMachine

theorem optionRel_map {α β α' β' : Type} {r : α → β → Prop} {r' : α' → β' → Prop}
    {x : Option α} {y : Option β} (h : Option.Rel r x y) {f : α → α'} {g : β → β'}
    (hfg : ∀ a b, r a b → r' (f a) (g b)) : Option.Rel r' (x.map f) (y.map g) := by
  cases h with
  | none => exact .none
  | some hab => exact .some (hfg _ _ hab)

theorem eq_of_optionRel {α : Type} {x y : Option α} (h : Option.Rel Eq x y) : x = y := by
  cases h with
  | none => rfl
  | some hab => rw [hab]

/-- Which differences between machines are overlooked: those of maps, once it is said when two of
their values are alike, and those of the titles of frames that bear one name. -/
structure Likeness where
  maps {α : Type} (r : α → α → Prop) (m n : OrderedMap α) : Prop
  titles (name title title' : Value) : Prop
  maps_empty {α : Type} (r : α → α → Prop) : maps r .empty .empty
  maps_get? {α : Type} {r : α → α → Prop} {m n : OrderedMap α} (h : maps r m n) (key : Atom) :
    Option.Rel r (m.get? key) (n.get? key)
  maps_set {α : Type} {r : α → α → Prop} {m n : OrderedMap α} (h : maps r m n) (key : Atom)
    {value value' : α} (hvalue : r value value') : maps r (m.set key value) (n.set key value')
  titles_refl (name title : Value) : titles name title title

namespace Likeness

variable (l : Likeness)

structure FramesAlike (f g : Frame) : Prop where
  name_eq : f.name = g.name
  binds : l.maps Eq f.binds g.binds
  titles : l.titles f.name f.title g.title
  notes_eq : f.notes = g.notes
  metaBinds : l.maps Eq f.metaBinds g.metaBinds

structure ScopesAlike (s t : Scope) : Prop where
  name_eq : s.name = t.name
  frames : List.Forall₂ l.FramesAlike s.frames t.frames

/-- Stacks have to hold the same items; the seals of their cells are not looked at. -/
structure MachinesAlike (a b : Machine) : Prop where
  scopeKey_eq : a.scopeKey = b.scopeKey
  stackKey_eq : a.stackKey = b.stackKey
  scopeMap : l.maps l.ScopesAlike a.scopeMap b.scopeMap
  stackMap : l.maps (fun s t => s.toList = t.toList) a.stackMap b.stackMap
  props : l.maps Eq a.props b.props

variable {l : Likeness}

/-! ### Frames -/

namespace FramesAlike

variable {f g : Frame}

theorem create (name : Value) : l.FramesAlike (.create name .empty) (.create name .empty) := by
  have hfresh (name : Value) : l.FramesAlike ⟨name, .empty, .null, [], .empty⟩
      ⟨name, .empty, .null, [], .empty⟩ :=
    ⟨rfl, l.maps_empty Eq, l.titles_refl name .null, rfl, l.maps_empty Eq⟩
  unfold Frame.create
  split <;> exact hfresh _

theorem bind (h : l.FramesAlike f g) (name : Atom) (value : Value) :
    l.FramesAlike (f.bind name value) (g.bind name value) :=
  { h with binds := l.maps_set h.binds name rfl }

/-- A title that is set on both sides no longer differs, whatever stood there before. -/
theorem setTitle (h : l.FramesAlike f g) (title : Value) :
    l.FramesAlike (f.setTitle title) (g.setTitle title) :=
  { h with titles := l.titles_refl f.name title }

theorem addNote (h : l.FramesAlike f g) (note : Value) :
    l.FramesAlike (f.addNote note) (g.addNote note) :=
  { h with notes_eq := congrArg (· ++ [note]) h.notes_eq }

theorem get?_eq (h : l.FramesAlike f g) (name : Atom) : f.binds.get? name = g.binds.get? name :=
  eq_of_optionRel (l.maps_get? h.binds name)

end FramesAlike

/-! ### Scopes -/

namespace ScopesAlike

variable {s t : Scope}

theorem enter (h : l.ScopesAlike s t) (name : Value) :
    l.ScopesAlike (s.enter name .empty) (t.enter name .empty) :=
  ⟨h.name_eq, .cons (.create name) h.frames⟩

theorem leave (h : l.ScopesAlike s t) : l.ScopesAlike s.leave t.leave := by
  obtain ⟨name, frames⟩ := s
  obtain ⟨name', frames'⟩ := t
  obtain ⟨rfl, hframes⟩ := h
  cases hframes with
  | nil => exact ⟨rfl, .nil⟩
  | cons _ houter => exact ⟨rfl, houter⟩

theorem updateTop (h : l.ScopesAlike s t) {change : Frame → Except Fault Frame}
    (hchange : ∀ f g, l.FramesAlike f g → Agree l.FramesAlike (change f) (change g)) :
    Agree l.ScopesAlike (s.updateTop change) (t.updateTop change) := by
  obtain ⟨name, frames⟩ := s
  obtain ⟨name', frames'⟩ := t
  obtain ⟨rfl, hframes⟩ := h
  cases hframes with
  | nil => exact ⟨rfl, .nil⟩
  | cons hfirst houter =>
    apply (hchange _ _ hfirst).bind
    intro f g hfg
    exact ⟨rfl, .cons hfg houter⟩

theorem bind (h : l.ScopesAlike s t) (name value : Value) :
    Agree l.ScopesAlike (s.bind name value) (t.bind name value) := by
  apply Agree.bind_same
  intro _
  apply h.updateTop
  intro f g hfg
  apply Agree.bind_same
  intro k
  exact hfg.bind k value

theorem setTitle (h : l.ScopesAlike s t) (title : Value) :
    Agree l.ScopesAlike (s.setTitle title) (t.setTitle title) :=
  h.updateTop fun _ _ hfg => hfg.setTitle title

theorem addNote (h : l.ScopesAlike s t) (note : Value) :
    Agree l.ScopesAlike (s.addNote note) (t.addNote note) :=
  h.updateTop fun _ _ hfg => hfg.addNote note

theorem lookupIn_eq {frames frames' : List Frame} (h : List.Forall₂ l.FramesAlike frames frames')
    (name : Atom) (depth : Nat) :
    Scope.lookupIn name depth frames = Scope.lookupIn name depth frames' := by
  induction h generalizing depth with
  | nil => rfl
  | cons hfirst _ ih => simp only [Scope.lookupIn, Frame.lookup, hfirst.get?_eq name, ih]

theorem lookup_eq (h : l.ScopesAlike s t) (name : Value) : s.lookup name = t.lookup name := by
  obtain ⟨key, frames⟩ := s
  obtain ⟨key', frames'⟩ := t
  obtain ⟨rfl, hframes⟩ := h
  have hsame := lookupIn_eq hframes
  cases hframes with
  | nil => rfl
  | cons _ _ => simp only [Scope.lookup, hsame]

/-- The name is found in frames of one depth, and they are alike once it is bound anew there. -/
theorem rebindIn {frames frames' : List Frame} (h : List.Forall₂ l.FramesAlike frames frames')
    (name : Atom) (value : Value) :
    Option.Rel (fun p q => p.1 = q.1 ∧ List.Forall₂ l.FramesAlike p.2 q.2)
      (Scope.rebindIn name value frames) (Scope.rebindIn name value frames') := by
  induction h with
  | nil => exact .none
  | @cons f g outer outer' hfirst houter ih =>
    have hhas : f.hasName name = g.hasName name :=
      congrArg Option.isSome (hfirst.get?_eq name)
    simp only [Scope.rebindIn, hhas]
    split
    · exact .some ⟨rfl, .cons (hfirst.bind name value) houter⟩
    · apply optionRel_map ih
      rintro p q ⟨hindex, houter⟩
      exact ⟨congrArg (· + 1) hindex, .cons hfirst houter⟩

theorem rebind (h : l.ScopesAlike s t) (name value : Value) :
    Agree (Option.Rel fun p q => p.1 = q.1 ∧ l.ScopesAlike p.2 q.2) (s.rebind name value)
      (t.rebind name value) := by
  obtain ⟨key, frames⟩ := s
  obtain ⟨key', frames'⟩ := t
  obtain ⟨rfl, hframes⟩ := h
  have hrebound := rebindIn hframes
  cases hframes with
  | nil => exact Option.Rel.none
  | cons _ _ =>
    apply Agree.bind_same
    intro k
    apply optionRel_map (hrebound k value)
    rintro p q ⟨hindex, hframes⟩
    exact ⟨hindex, rfl, hframes⟩

end ScopesAlike

/-! ### Machines -/

namespace MachinesAlike

variable {a b : Machine}

theorem scope (h : l.MachinesAlike a b) (key : Value) :
    Agree l.ScopesAlike (a.scope key) (b.scope key) := by
  apply Agree.bind_same
  intro k
  have hget := l.maps_get? h.scopeMap k
  generalize a.scopeMap.get? k = x at hget ⊢
  generalize b.scopeMap.get? k = y at hget ⊢
  cases hget with
  | none => rfl
  | some hst => exact hst

theorem stack (h : l.MachinesAlike a b) (key : Value) :
    Agree (fun s t => s.toList = t.toList) (a.stack key) (b.stack key) := by
  apply Agree.bind_same
  intro k
  have hget := l.maps_get? h.stackMap k
  generalize a.stackMap.get? k = x at hget ⊢
  generalize b.stackMap.get? k = y at hget ⊢
  cases hget with
  | none => rfl
  | some hst => exact hst

theorem updateScope (h : l.MachinesAlike a b) (key : Value) {change : Scope → Except Fault Scope}
    (hchange : ∀ s t, l.ScopesAlike s t → Agree l.ScopesAlike (change s) (change t)) :
    Agree l.MachinesAlike (a.updateScope key change) (b.updateScope key change) := by
  apply (h.scope key).bind
  intro s t hst
  apply (hchange s t hst).bind
  intro s' t' hst'
  apply Agree.bind_same
  intro k
  exact { h with scopeMap := l.maps_set h.scopeMap k hst' }

theorem updateStack (h : l.MachinesAlike a b) (key : Value) {change : Stack Value → Stack Value}
    (hchange : ∀ s t, s.toList = t.toList → (change s).toList = (change t).toList) :
    Agree l.MachinesAlike (a.updateStack key change) (b.updateStack key change) := by
  apply (h.stack key).bind
  intro s t hst
  apply Agree.bind_same
  intro k
  exact { h with stackMap := l.maps_set h.stackMap k (hchange s t hst) }

theorem push (h : l.MachinesAlike a b) (value : Value) :
    Agree l.MachinesAlike (a.push value) (b.push value) := by
  unfold Machine.push
  rw [← h.stackKey_eq]
  apply h.updateStack
  intro s t hst
  rw [Stack.toList_push, Stack.toList_push, hst]

theorem pop (h : l.MachinesAlike a b) : Agree l.MachinesAlike a.pop b.pop := by
  unfold Machine.pop
  rw [← h.stackKey_eq]
  apply h.updateStack
  intro s t hst
  rw [Stack.toList_pop, Stack.toList_pop, hst]

/-- One value is taken from both, and they stay alike without it. -/
theorem take (h : l.MachinesAlike a b) :
    Agree (fun p q => p.1 = q.1 ∧ l.MachinesAlike p.2 q.2) a.take b.take := by
  have hpeek : Agree Eq (a.peek .null) (b.peek .null) := by
    unfold Machine.peek
    rw [← h.stackKey_eq]
    apply (h.stack a.stackKey).bind
    intro s t hst
    show s.peek .null = t.peek .null
    rw [Stack.peek_eq_headD, Stack.peek_eq_headD, hst]
  apply hpeek.bind
  rintro value _ rfl
  apply h.pop.bind
  intro a' b' hpopped
  exact ⟨rfl, hpopped⟩

theorem findAt (h : l.MachinesAlike a b) (key name : Value) :
    Agree l.MachinesAlike (a.findAt key name) (b.findAt key name) := by
  have hlookup : Agree Eq (a.lookupAt key name) (b.lookupAt key name) := by
    apply (h.scope key).bind
    intro s t hst
    rw [hst.lookup_eq name]
    exact Agree.refl _
  apply hlookup.bind
  rintro (_ | binding) _ rfl
  · rfl
  · exact h.push binding.value

theorem enterAt (h : l.MachinesAlike a b) (key name : Value) :
    Agree l.MachinesAlike (a.enterAt key name) (b.enterAt key name) :=
  h.updateScope key fun _ _ hst => hst.enter name

theorem leaveAt (h : l.MachinesAlike a b) (key : Value) :
    Agree l.MachinesAlike (a.leaveAt key) (b.leaveAt key) :=
  h.updateScope key fun _ _ hst => hst.leave

theorem bindAt (h : l.MachinesAlike a b) (key name value : Value) :
    Agree l.MachinesAlike (a.bindAt key name value) (b.bindAt key name value) :=
  h.updateScope key fun _ _ hst => hst.bind name value

theorem rebindAt (h : l.MachinesAlike a b) (key name value : Value) :
    Agree (fun p q => p.1 = q.1 ∧ l.MachinesAlike p.2 q.2) (a.rebindAt key name value)
      (b.rebindAt key name value) := by
  apply (h.scope key).bind
  intro s t hst
  apply (hst.rebind name value).bind
  intro x y hxy
  cases hxy with
  | none => exact ⟨rfl, h⟩
  | some hpair =>
    apply Agree.bind_same
    intro k
    exact ⟨congrArg some hpair.1, { h with scopeMap := l.maps_set h.scopeMap k hpair.2 }⟩

theorem setTitle (h : l.MachinesAlike a b) (title : Value) :
    Agree l.MachinesAlike (a.setTitle title) (b.setTitle title) := by
  unfold Machine.setTitle
  rw [← h.scopeKey_eq]
  exact h.updateScope a.scopeKey fun _ _ hst => hst.setTitle title

theorem addNote (h : l.MachinesAlike a b) (note : Value) :
    Agree l.MachinesAlike (a.addNote note) (b.addNote note) := by
  unfold Machine.addNote
  rw [← h.scopeKey_eq]
  exact h.updateScope a.scopeKey fun _ _ hst => hst.addNote note

theorem setProp (h : l.MachinesAlike a b) (key value : Value) :
    Agree l.MachinesAlike (a.setProp key value) (b.setProp key value) := by
  apply Agree.bind_same
  intro k
  exact { h with props := l.maps_set h.props k rfl }

end MachinesAlike

/-- Every instruction keeps machines alike, or fails on both with one fault. -/
theorem agree_execute [MemoryLimit] {a b : Machine} (h : l.MachinesAlike a b) (i : Instr) :
    Agree l.MachinesAlike (i.execute a) (i.execute b) := by
  -- the operand that is taken from the stack is one and the same
  have htake {a b : Machine} (h : l.MachinesAlike a b)
      {next : Value × Machine → Except Fault Machine}
      (hnext : ∀ v a b, l.MachinesAlike a b → Agree l.MachinesAlike (next (v, a)) (next (v, b))) :
      Agree l.MachinesAlike (a.take >>= next) (b.take >>= next) := by
    apply h.take.bind
    rintro ⟨v, a'⟩ ⟨_, b'⟩ ⟨rfl, hab⟩
    exact hnext v a' b' hab
  obtain ⟨opcode, operands⟩ := i
  cases opcode with
  | nop => exact h
  | push => exact Agree.bind_same _ h.push
  | pop => exact h.pop
  | findAt => exact Agree.bind_same _ fun (key, name) => h.findAt key name
  | find => exact Agree.bind_same _ (h.findAt Machine.localKey)
  | enterAt => exact Agree.bind_same _ fun (key, name) => h.enterAt key name
  | enter => exact Agree.bind_same _ (h.enterAt Machine.localKey)
  | leaveAt => exact Agree.bind_same _ h.leaveAt
  | leave => exact h.leaveAt Machine.localKey
  | bindAt =>
    apply Agree.bind_same
    rintro ⟨key, name⟩
    apply htake h
    intro v a b hab
    exact hab.bindAt key name v
  | bind =>
    apply htake h
    intro v a b hab
    exact Agree.bind_same _ fun name => hab.bindAt Machine.localKey name v
  | rebindAt =>
    apply Agree.bind_same
    rintro ⟨key, name⟩
    apply htake h
    intro v a b hab
    exact (hab.rebindAt key name v).bind fun _ _ hpair => hpair.2
  | rebind =>
    apply htake h
    intro v a b hab
    apply Agree.bind_same
    intro name
    exact (hab.rebindAt Machine.localKey name v).bind fun _ _ hpair => hpair.2
  | binary op =>
    apply htake h
    intro left a b hab
    apply htake hab
    intro right a b hab
    exact Agree.bind_same _ hab.push
  | unary op =>
    apply htake h
    intro v a b hab
    exact Agree.bind_same _ hab.push
  | setFrameTitle =>
    apply htake h
    intro v a b hab
    exact hab.setTitle v
  | addFrameNote =>
    apply htake h
    intro v a b hab
    exact hab.addNote v
  | setProp => exact Agree.bind_same _ fun (key, value) => h.setProp key value
  | setCurrentScope => exact Agree.bind_same _ fun _ => { h with scopeKey_eq := rfl }
  | setCurrentStack => exact Agree.bind_same _ fun _ => { h with stackKey_eq := rfl }

/-- No program tells machines apart that are alike. -/
theorem sameOutcome [MemoryLimit] {a b : Machine} (h : l.MachinesAlike a b) (program : List Instr) :
    Machine.SameOutcome l.MachinesAlike a b program :=
  Machine.sameOutcome_of_agree (fun i _ _ _ hab => agree_execute hab i) h

end Likeness

end ScopeMachine
