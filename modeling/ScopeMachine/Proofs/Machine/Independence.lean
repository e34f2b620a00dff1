import ScopeMachine.Proofs.Machine.Pointers

/-! Operations on different containers are independent of one another. Each of them looks up one
scope or stack and puts back what becomes of it, so of two that name different containers either may
come first: the machine that results is the same, with its containers in the same order, and so is
what is reported. -/
namespace ScopeMachine

/-! ### Operations -/

/-- What can be done to a scope. -/
inductive ScopeOp
  | enter (name binds : Value)
  | leave
  | bind (name value : Value)
  | rebind (name value : Value)
  | setTitle (title : Value)
  | addNote (note : Value)
  | bindMeta (key value : Value)

/-- What can be done to a stack. -/
inductive StackOp
  | push (value : Value)
  | pop

/-- An operation on the scope or the stack under a key. -/
inductive ContainerOp
  | scope (key : Value) (op : ScopeOp)
  | stack (key : Value) (op : StackOp)

/-- A result beside which nothing is reported. -/
def silent {α : Type} (x : Except Fault α) : Except Fault (Option Nat × α) := do
  let a ← x
  pure (none, a)

namespace ScopeOp

/-- The machine after an operation, and the index of the frame in which a name is bound anew. -/
def perform (m : Machine) (key : Value) : ScopeOp → Except Fault (Option Nat × Machine)
  | .enter name binds => silent (m.enterAt key name binds)
  | .leave => silent (m.leaveAt key)
  | .bind name value => silent (m.bindAt key name value)
  | .rebind name value => m.rebindAt key name value
  | .setTitle title => silent (m.setTitleAt key title)
  | .addNote note => silent (m.addNoteAt key note)
  | .bindMeta metaKey value => silent (m.bindMetaAt key metaKey value)

/-- What becomes of the scope by itself. -/
def change (s : Scope) : ScopeOp → Except Fault (Option Nat × Scope)
  | .enter name binds => silent (s.enterWith name binds)
  | .leave => .ok (none, s.leave)
  | .bind name value => silent (s.bind name value)
  | .rebind name value => do
    let found ← s.rebind name value
    pure (found.map Prod.fst, (found.map Prod.snd).getD s)
  | .setTitle title => silent (s.setTitle title)
  | .addNote note => silent (s.addNote note)
  | .bindMeta metaKey value => silent (s.bindMeta metaKey value)

/-- The operands are of the sort that is needed: names and keys can be looked up, a name that is
bound can be written as well, and bindings that are given make a map. -/
def Sound : ScopeOp → Prop
  | .enter _ binds => ∃ map, binds.toMap = .ok map
  | .bind name _ => ∃ k, name = .atom k ∧ k.Writable
  | .rebind name _ => name.IsAtom
  | .bindMeta metaKey _ => metaKey.IsAtom
  | .leave | .setTitle _ | .addNote _ => True

end ScopeOp

namespace StackOp

def perform (m : Machine) (key : Value) : StackOp → Except Fault (Option Nat × Machine)
  | .push value => silent (m.pushAt key value)
  | .pop => silent (m.popAt key)

def change (t : Stack Value) : StackOp → Stack Value
  | .push value => t.push value
  | .pop => t.pop

end StackOp

namespace ContainerOp

def kind : ContainerOp → Container
  | .scope _ _ => .scope
  | .stack _ _ => .stack

def key : ContainerOp → Value
  | .scope key _ | .stack key _ => key

def perform (m : Machine) : ContainerOp → Except Fault (Option Nat × Machine)
  | .scope key op => op.perform m key
  | .stack key op => op.perform m key

def Sound : ContainerOp → Prop
  | .scope _ op => op.Sound
  | .stack _ _ => True

/-- The operations name different containers: two scopes, two stacks, or a scope and a stack. -/
def Apart (f g : ContainerOp) : Prop :=
  f.kind = g.kind → ∀ k k', f.key = .atom k → g.key = .atom k' → k.same k' = false

end ContainerOp

/-- The machine after two operations, and what each of them reports. -/
def Machine.inTurn (m : Machine) (f g : ContainerOp) :
    Except Fault ((Option Nat × Option Nat) × Machine) := do
  let (report, m) ← f.perform m
  let (report', m) ← g.perform m
  pure ((report, report'), m)

/-! ### One operation -/

theorem silent_eq_ok_iff {α : Type} {x : Except Fault α} {report : Option Nat} {a : α} :
    silent x = .ok (report, a) ↔ report = none ∧ x = .ok a := by
  cases x <;> simp [silent, bind, Except.bind, pure, Except.pure, eq_comm]

theorem silent_updateScope_eq_ok_iff {m m' : Machine} {key : Value} {f : Scope → Except Fault Scope}
    {report : Option Nat} :
    silent (m.updateScope key f) = .ok (report, m') ↔
      ∃ k s s', key = .atom k ∧ m.scopeMap.get? k = some s ∧ silent (f s) = .ok (report, s') ∧
        m' = { m with scopeMap := m.scopeMap.set k s' } := by
  simp only [silent_eq_ok_iff, Machine.updateScope_eq_ok_iff]
  constructor
  · rintro ⟨rfl, k, s, s', hkey, hget, hok, rfl⟩
    exact ⟨k, s, s', hkey, hget, ⟨rfl, hok⟩, rfl⟩
  · rintro ⟨k, s, s', hkey, hget, ⟨rfl, hok⟩, rfl⟩
    exact ⟨rfl, k, s, s', hkey, hget, hok, rfl⟩

/-- An operation looks up a scope and puts back what becomes of it. -/
theorem ScopeOp.perform_eq_ok_iff {op : ScopeOp} {m m' : Machine} {key : Value}
    {report : Option Nat} :
    op.perform m key = .ok (report, m') ↔
      ∃ k s s', key = .atom k ∧ m.scopeMap.get? k = some s ∧ op.change s = .ok (report, s') ∧
        m' = { m with scopeMap := m.scopeMap.set k s' } := by
  cases op with
  | rebind name value =>
    apply Machine.rebindAt_eq_ok_iff.trans
    constructor
    · rintro ⟨k, s, found, hkey, hget, hfound, rfl, rfl⟩
      exact ⟨k, s, _, hkey, hget, bind_of_ok hfound, rfl⟩
    · rintro ⟨k, s, s', hkey, hget, hchange, rfl⟩
      obtain ⟨found, hfound, hchange⟩ := bind_eq_ok hchange
      cases hchange
      exact ⟨k, s, found, hkey, hget, hfound, rfl, rfl⟩
  | enter _ _ | leave | bind _ _ | setTitle _ | addNote _ | bindMeta _ _ =>
    exact silent_updateScope_eq_ok_iff

theorem StackOp.perform_eq_ok_iff {op : StackOp} {m m' : Machine} {key : Value}
    {report : Option Nat} :
    op.perform m key = .ok (report, m') ↔
      ∃ k t, key = .atom k ∧ m.stackMap.get? k = some t ∧ report = none ∧
        m' = { m with stackMap := m.stackMap.set k (op.change t) } := by
  have hperform : op.perform m key = silent (m.updateStack key op.change) := by
    cases op <;> rfl
  rw [hperform, silent_eq_ok_iff]
  constructor
  · rintro ⟨rfl, h⟩
    obtain ⟨k, t, hkey, hget, rfl⟩ := Machine.updateStack_eq_ok h
    exact ⟨k, t, hkey, hget, rfl, rfl⟩
  · rintro ⟨k, t, rfl, hget, rfl, rfl⟩
    exact ⟨rfl, Machine.updateStack_of_get? hget _⟩

/-! ### Two operations -/

/-- Of two changes under keys that differ the second finds what it would have found first. -/
theorem OrderedMap.change_comm {α : Type} {n : OrderedMap α} {k k' : Atom} {a a' b : α}
    (hdiffer : k.same k' = false) (hfirst : n.get? k = some a)
    (hsecond : (n.set k a').get? k' = some b) (b' : α) :
    n.get? k' = some b ∧ (n.set k' b').get? k = some a ∧
      (n.set k' b').set k a' = (n.set k a').set k' b' := by
  rw [get?_set_of_not_same n a' hdiffer] at hsecond
  refine ⟨hsecond, ?_, ?_⟩
  · rwa [get?_set_of_not_same n b' (by rwa [Atom.same_comm])]
  · exact (set_comm hdiffer (by rw [contains, hfirst, Option.isSome_some]) a' b').symm

namespace ContainerOp

variable {f g : ContainerOp} {m mid m' : Machine} {report report' : Option Nat}

/-- A scope and a stack are different containers. -/
theorem apart_of_kind_ne (h : f.kind ≠ g.kind) : f.Apart g := fun hkind => absurd hkind h

theorem Apart.symm (h : f.Apart g) : g.Apart f := by
  intro hkind k k' hk hk'
  rw [Atom.same_comm]
  exact h hkind.symm k' k hk' hk

/-- Two operations that name different containers change places. -/
theorem Apart.swap (h : f.Apart g) (hf : f.perform m = .ok (report, mid))
    (hg : g.perform mid = .ok (report', m')) :
    ∃ other, g.perform m = .ok (report', other) ∧ f.perform other = .ok (report, m') := by
  cases f with
  | scope key op =>
    obtain ⟨k, s, s', rfl, hget, hchange, rfl⟩ := ScopeOp.perform_eq_ok_iff.mp hf
    cases g with
    | scope key' op' =>
      obtain ⟨k', t, t', rfl, hget', hchange', rfl⟩ := ScopeOp.perform_eq_ok_iff.mp hg
      have hdiffer := h rfl k k' rfl rfl
      obtain ⟨hfound', hfound, hset⟩ := OrderedMap.change_comm hdiffer hget hget' t'
      refine ⟨_, ScopeOp.perform_eq_ok_iff.mpr ⟨k', t, t', rfl, hfound', hchange', rfl⟩, ?_⟩
      exact ScopeOp.perform_eq_ok_iff.mpr ⟨k, s, s', rfl, hfound, hchange, by rw [← hset]⟩
    | stack key' op' =>
      obtain ⟨k', t, rfl, hget', rfl, rfl⟩ := StackOp.perform_eq_ok_iff.mp hg
      refine ⟨_, StackOp.perform_eq_ok_iff.mpr ⟨k', t, rfl, hget', rfl, rfl⟩, ?_⟩
      exact ScopeOp.perform_eq_ok_iff.mpr ⟨k, s, s', rfl, hget, hchange, rfl⟩
  | stack key op =>
    obtain ⟨k, s, rfl, hget, rfl, rfl⟩ := StackOp.perform_eq_ok_iff.mp hf
    cases g with
    | scope key' op' =>
      obtain ⟨k', t, t', rfl, hget', hchange', rfl⟩ := ScopeOp.perform_eq_ok_iff.mp hg
      refine ⟨_, ScopeOp.perform_eq_ok_iff.mpr ⟨k', t, t', rfl, hget', hchange', rfl⟩, ?_⟩
      exact StackOp.perform_eq_ok_iff.mpr ⟨k, s, rfl, hget, rfl, rfl⟩
    | stack key' op' =>
      obtain ⟨k', t, rfl, hget', rfl, rfl⟩ := StackOp.perform_eq_ok_iff.mp hg
      have hdiffer := h rfl k k' rfl rfl
      obtain ⟨hfound', hfound, hset⟩ := OrderedMap.change_comm hdiffer hget hget' (op'.change t)
      refine ⟨_, StackOp.perform_eq_ok_iff.mpr ⟨k', t, rfl, hfound', rfl, rfl⟩, ?_⟩
      exact StackOp.perform_eq_ok_iff.mpr ⟨k, s, rfl, hfound, rfl, by rw [← hset]⟩

theorem inTurn_eq_ok_iff :
    m.inTurn f g = .ok ((report, report'), m') ↔
      ∃ mid, f.perform m = .ok (report, mid) ∧ g.perform mid = .ok (report', m') := by
  constructor
  · intro h
    obtain ⟨⟨r, mid⟩, hf, h⟩ := bind_eq_ok h
    obtain ⟨⟨r', last⟩, hg, h⟩ := bind_eq_ok h
    cases h
    exact ⟨mid, hf, hg⟩
  · rintro ⟨mid, hf, hg⟩
    exact (bind_of_ok hf).trans (bind_of_ok hg)

theorem Apart.inTurn (h : f.Apart g) (hdone : m.inTurn f g = .ok ((report, report'), m')) :
    m.inTurn g f = .ok ((report', report), m') := by
  obtain ⟨mid, hf, hg⟩ := inTurn_eq_ok_iff.mp hdone
  exact inTurn_eq_ok_iff.mpr (h.swap hf hg)

/-! ### Containers that are there and containers that are not -/

theorem has_of_perform (h : f.perform m = .ok (report, m')) (kind : Container) (key : Value) :
    m'.Has kind key ↔ m.Has kind key := by
  cases f with
  | scope _ op =>
    obtain ⟨k, s, s', -, hget, -, rfl⟩ := ScopeOp.perform_eq_ok_iff.mp h
    have hkeys := OrderedMap.keys_set_of_get? hget s'
    apply Machine.has_congr
    · exact hkeys
    · rfl
  | stack _ op =>
    obtain ⟨k, t, -, hget, -, rfl⟩ := StackOp.perform_eq_ok_iff.mp h
    have hkeys := OrderedMap.keys_set_of_get? hget (op.change t)
    apply Machine.has_congr
    · rfl
    · exact hkeys

theorem reported_of_not_has (h : ¬ m.Has f.kind f.key) :
    Reported (f.perform m) f.kind f.key := by
  cases f with
  | scope key op =>
    cases op with
    | rebind name value => exact (Machine.reported_scope h).bind
    | enter _ _ | leave | bind _ _ | setTitle _ | addNote _ | bindMeta _ _ =>
      exact (Machine.reported_scope h).bind.bind
  | stack key op =>
    cases op with
    | push _ | pop => exact (Machine.reported_stack h).bind.bind

end ContainerOp

/-- Operands of the right sort do for every scope. -/
theorem ScopeOp.Sound.change {op : ScopeOp} (h : op.Sound) (s : Scope) :
    ∃ report s', op.change s = .ok (report, s') := by
  cases op with
  | leave => exact ⟨none, s.leave, rfl⟩
  | enter name binds =>
    obtain ⟨map, hmap⟩ := h
    exact ⟨none, s.enter name map, silent_eq_ok_iff.mpr ⟨rfl, bind_of_ok hmap⟩⟩
  | bind name value =>
    obtain ⟨k, rfl, hk⟩ := h
    obtain ⟨s', hs'⟩ := s.exists_updateTop fun frame => frame.bind k value
    have hbind := Scope.bind_eq_ok_iff.mpr ⟨Value.writable_atom.mpr hk, hs'⟩
    exact ⟨none, s', silent_eq_ok_iff.mpr ⟨rfl, hbind⟩⟩
  | rebind name value =>
    obtain ⟨k, rfl⟩ := h
    exact ⟨_, _, bind_of_ok (s.rebind_atom k value)⟩
  | setTitle title =>
    obtain ⟨s', hs'⟩ := s.exists_updateTop (·.setTitle title)
    exact ⟨none, s', silent_eq_ok_iff.mpr ⟨rfl, hs'⟩⟩
  | addNote note =>
    obtain ⟨s', hs'⟩ := s.exists_updateTop (·.addNote note)
    exact ⟨none, s', silent_eq_ok_iff.mpr ⟨rfl, hs'⟩⟩
  | bindMeta metaKey value =>
    obtain ⟨k, rfl⟩ := h
    obtain ⟨s', hs'⟩ := s.exists_updateTop (·.bindMeta k value)
    exact ⟨none, s', silent_eq_ok_iff.mpr ⟨rfl, hs'⟩⟩

theorem Machine.not_has_stack_aux : ¬ initial.Has .stack (.str "aux") := by
  rintro ⟨k, hk, hcontains⟩
  cases hk
  simp only at hcontains
  exact absurd hcontains (by decide)

namespace ContainerOp

variable {f g : ContainerOp} {m : Machine}

theorem Sound.perform (h : f.Sound) (hhas : m.Has f.kind f.key) :
    ∃ report m', f.perform m = .ok (report, m') := by
  cases f with
  | scope key op =>
    obtain ⟨s, hs⟩ := Machine.has_scope_iff.mp hhas
    obtain ⟨k, hkey, hget⟩ := Machine.scope_eq_ok_iff.mp hs
    obtain ⟨report, s', hchange⟩ := ScopeOp.Sound.change h s
    exact ⟨report, _, ScopeOp.perform_eq_ok_iff.mpr ⟨k, s, s', hkey, hget, hchange, rfl⟩⟩
  | stack key op =>
    obtain ⟨t, ht⟩ := Machine.has_stack_iff.mp hhas
    obtain ⟨k, hkey, hget⟩ := Machine.stack_eq_ok_iff.mp ht
    exact ⟨none, _, StackOp.perform_eq_ok_iff.mpr ⟨k, t, hkey, hget, rfl, rfl⟩⟩

/-- Two operations whose containers are there succeed one after the other. -/
theorem Sound.inTurn (hf : f.Sound) (hg : g.Sound) (hfhas : m.Has f.kind f.key)
    (hghas : m.Has g.kind g.key) : ∃ done, m.inTurn f g = .ok done := by
  obtain ⟨report, mid, hfirst⟩ := hf.perform hfhas
  obtain ⟨report', m', hsecond⟩ := hg.perform ((has_of_perform hfirst _ _).mpr hghas)
  exact ⟨_, inTurn_eq_ok_iff.mpr ⟨mid, hfirst, hsecond⟩⟩

/-- A container that is missing is reported, by whichever of the operations comes to it. -/
theorem Sound.inTurn_reported (hf : f.Sound)
    (hmissing : ¬ (m.Has f.kind f.key ∧ m.Has g.kind g.key)) :
    ∃ e ∈ [f, g], ¬ m.Has e.kind e.key ∧ Reported (m.inTurn f g) e.kind e.key := by
  by_cases hfhas : m.Has f.kind f.key
  · have hghas : ¬ m.Has g.kind g.key := fun h => hmissing ⟨hfhas, h⟩
    obtain ⟨report, mid, hfirst⟩ := hf.perform hfhas
    have hmid : ¬ mid.Has g.kind g.key := mt (has_of_perform hfirst _ _).mp hghas
    exact ⟨g, by simp, hghas, .after_ok hfirst (reported_of_not_has hmid).bind⟩
  · exact ⟨f, by simp, hfhas, (reported_of_not_has hfhas).bind⟩

/-- Two operations on different containers commute: what comes of them and what they report does
not depend on which comes first. If their operands are of the right sort, they succeed when both
containers are there, and otherwise fail in either order for want of one that is not. -/
theorem inTurn_comm (h : f.Apart g) (m : Machine) :
    (∀ report report' m', m.inTurn f g = .ok ((report, report'), m') ↔
      m.inTurn g f = .ok ((report', report), m')) ∧
    (f.Sound → g.Sound →
      (m.Has f.kind f.key → m.Has g.kind g.key → ∃ done, m.inTurn f g = .ok done) ∧
      (¬ (m.Has f.kind f.key ∧ m.Has g.kind g.key) →
        (∃ e ∈ [f, g], ¬ m.Has e.kind e.key ∧ Reported (m.inTurn f g) e.kind e.key) ∧
        ∃ e ∈ [g, f], ¬ m.Has e.kind e.key ∧ Reported (m.inTurn g f) e.kind e.key)) := by
  refine ⟨fun report report' m' => ⟨h.inTurn, h.symm.inTurn⟩, fun hf hg => ⟨hf.inTurn hg, ?_⟩⟩
  intro hmissing
  exact ⟨hf.inTurn_reported hmissing, hg.inTurn_reported (mt And.symm hmissing)⟩

/-- A name bound anew and a value pushed, and a push on a stack that is not there. -/
theorem inTurn_comm_push :
    let f : ContainerOp := .scope (.str "local") (.rebind (.str "x") (.int 1))
    let g : ContainerOp := .stack (.str "data") (.push (.int 2))
    let missing : ContainerOp := .stack (.str "aux") (.push (.int 2))
    (∃ report report' m', Machine.initial.inTurn f g = .ok ((report, report'), m') ∧
      Machine.initial.inTurn g f = .ok ((report', report), m')) ∧
    Reported (Machine.initial.inTurn f missing) .stack (.str "aux") := by
  intro f g missing
  have hf : f.Sound := Value.isAtom_atom _
  have hlocal : Machine.initial.Has f.kind f.key := ⟨_, rfl, rfl⟩
  have hdata : Machine.initial.Has g.kind g.key := ⟨_, rfl, rfl⟩
  have haux : ¬ Machine.initial.Has missing.kind missing.key := Machine.not_has_stack_aux
  have hkinds : Container.scope ≠ .stack := by decide
  obtain ⟨hswap, hsound⟩ := inTurn_comm (f := f) (g := g) (apart_of_kind_ne hkinds) Machine.initial
  obtain ⟨⟨⟨report, report'⟩, m'⟩, hdone⟩ := (hsound hf trivial).1 hlocal hdata
  refine ⟨⟨report, report', m', hdone, (hswap _ _ _).mp hdone⟩, ?_⟩
  obtain ⟨-, hsound'⟩ :=
    inTurn_comm (f := f) (g := missing) (apart_of_kind_ne hkinds) Machine.initial
  obtain ⟨⟨e, he, hmissing, hreported⟩, -⟩ := (hsound' hf trivial).2 fun h => haux h.2
  simp only [List.mem_cons, List.not_mem_nil, or_false] at he
  rcases he with rfl | rfl
  · exact absurd hlocal hmissing
  · exact hreported

/-- An integer too long to be written is refused where it is to be told: as a name that is bound,
though both containers are there, and as the key of a stack that is not. -/
theorem overlong_refused :
    let bound : ContainerOp := .scope (.str "local") (.bind (.int Numeral.tooLong) (.int 1))
    let pushed : ContainerOp := .stack (.str "data") (.push (.int 1))
    let missing : ContainerOp := .stack (.int Numeral.tooLong) (.push (.int 1))
    bound.Apart pushed ∧ Machine.initial.Has bound.kind bound.key ∧
      Machine.initial.Has pushed.kind pushed.key ∧
      Machine.initial.inTurn bound pushed = .error .digitLimit ∧
      bound.Apart missing ∧ ¬ Machine.initial.Has missing.kind missing.key ∧
      Machine.initial.inTurn missing bound = .error .digitLimit := by
  intro bound pushed missing
  have hplain : (Value.int Numeral.tooLong).plain? = none := by
    rw [← Option.not_isSome_iff_eq_none, Value.isSome_plain?_iff, Value.writable_atom]
    intro hwritable
    have hshort := Atom.writable_iff.mp hwritable _ rfl
    rw [Int.natAbs_natCast] at hshort
    exact Nat.lt_irrefl _ hshort
  have hname : (Value.int Numeral.tooLong).plain = .error .digitLimit := by
    rw [Value.plain, hplain]
  have hscope : Machine.initial.scope (.str "local") = .ok _ := rfl
  have hbound : bound.perform Machine.initial = .error .digitLimit :=
    bind_of_error ((bind_of_ok hscope).trans (bind_of_error (bind_of_error hname)))
  have hget : Machine.initial.stackMap.get? (.int Numeral.tooLong) = none := by
    have hdiffers (i : Int) : (Atom.str "data").same (.int i) = false := by
      simp [Atom.same, Atom.sense?, Atom.place?]
    exact OrderedMap.get?_set_of_not_same .empty _ (hdiffers _)
  have hstack : Machine.initial.stack (.int Numeral.tooLong) = .error .digitLimit := by
    rw [Machine.stack_of_get?_eq_none hget, Fault.raised, Fault.message?, hplain]
    rfl
  have hkinds : Container.scope ≠ .stack := by decide
  refine ⟨apart_of_kind_ne hkinds, ⟨_, rfl, rfl⟩, ⟨_, rfl, rfl⟩, bind_of_error hbound,
    apart_of_kind_ne hkinds, ?_, ?_⟩
  · intro hhas
    obtain ⟨t, ht⟩ := Machine.has_stack_iff.mp hhas
    cases hstack.symm.trans ht
  · exact bind_of_error (bind_of_error (bind_of_error hstack))

end ContainerOp

end ScopeMachine
