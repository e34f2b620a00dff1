import ScopeMachine.Proofs.Machine.Locality
import ScopeMachine.Proofs.Machine.Plain
import ScopeMachine.Proofs.Stepper.Trail

/-! The two pointers of a machine. A machine is *anchored* if the selected scope and the selected
stack are both there. Instructions that name a container which is not there are refused, except
those that only select: they succeed and leave a pointer to nothing, which is noticed when another
instruction uses it. A program without such selections stays anchored on every run. -/
namespace ScopeMachine

/-- The fault says that there is no such container. A key that is no atom cannot be looked up, and
one that cannot be written cannot be reported. -/
def Fault.Reports (f : Fault) (kind : Container) (key : Value) : Prop :=
  ∀ k : Atom, key = .atom k → k.Writable → f = .unknownContainer kind key

/-- The fault has nothing to do with a missing container. -/
def Fault.Unrelated (f : Fault) : Prop := ∀ kind key, f ≠ .unknownContainer kind key

theorem Fault.unrelated_raised {f : Fault} (h : f.Unrelated) : f.raised.Unrelated := by
  unfold raised
  split
  · exact h
  · exact fun kind key hdigits => nomatch hdigits

theorem Fault.reports_raised (kind : Container) (key : Value) :
    (unknownContainer kind key).raised.Reports kind key := by
  rintro k rfl hk
  rw [raised, if_pos (isSome_message?_unknownContainer kind hk)]

/-- A computation fails for want of a container. -/
def Reported {α : Type} (x : Except Fault α) (kind : Container) (key : Value) : Prop :=
  ∃ fault, x = .error fault ∧ fault.Reports kind key

namespace Reported

variable {α β : Type} {x : Except Fault α} {f : α → Except Fault β} {kind : Container} {key : Value}

theorem bind (h : Reported x kind key) : Reported (x >>= f) kind key := by
  obtain ⟨fault, hfault, hreports⟩ := h
  exact ⟨fault, bind_of_error hfault, hreports⟩

theorem after_ok {a : α} (hx : x = .ok a) (h : Reported (f a) kind key) :
    Reported (x >>= f) kind key := by
  rwa [bind_of_ok hx]

end Reported

theorem Scope.exists_updateTop (s : Scope) (f : Frame → Frame) :
    ∃ s', s.updateTop (fun frame => .ok (f frame)) = .ok s' := by
  unfold updateTop
  split <;> exact ⟨_, rfl⟩

namespace Machine

/-- There is a container of this sort under this key. -/
def Has (m : Machine) (kind : Container) (key : Value) : Prop :=
  ∃ k, key = .atom k ∧
    match kind with
    | .scope => m.scopeMap.contains k = true
    | .stack => m.stackMap.contains k = true

structure Anchored (m : Machine) : Prop where
  has_scope : m.Has .scope m.scopeKey
  has_stack : m.Has .stack m.stackKey

variable {m n m' : Machine}

theorem has_scope_iff {key : Value} : m.Has .scope key ↔ ∃ s, m.scope key = .ok s := by
  simp only [Has, OrderedMap.contains, Option.isSome_iff_exists, scope_eq_ok_iff]
  constructor
  · rintro ⟨k, hkey, s, hs⟩
    exact ⟨s, k, hkey, hs⟩
  · rintro ⟨s, k, hkey, hs⟩
    exact ⟨k, hkey, s, hs⟩

theorem has_stack_iff {key : Value} : m.Has .stack key ↔ ∃ t, m.stack key = .ok t := by
  simp only [Has, OrderedMap.contains, Option.isSome_iff_exists, stack_eq_ok_iff]
  constructor
  · rintro ⟨k, hkey, t, ht⟩
    exact ⟨t, k, hkey, ht⟩
  · rintro ⟨t, k, hkey, ht⟩
    exact ⟨k, hkey, t, ht⟩

/-- Which containers there are can be read off the keys. -/
theorem has_congr (hscopes : m'.scopeMap.keys = m.scopeMap.keys)
    (hstacks : m'.stackMap.keys = m.stackMap.keys) (kind : Container) (key : Value) :
    m'.Has kind key ↔ m.Has kind key := by
  cases kind <;> simp only [Has, OrderedMap.contains_eq_any, hscopes, hstacks]

theorem Spares.has_iff {touched : Atom → Prop} (h : m.Spares m' touched) (kind : Container)
    (key : Value) : m'.Has kind key ↔ m.Has kind key :=
  has_congr h.scopeKeys_eq h.stackKeys_eq kind key

theorem Spares.anchored {touched : Atom → Prop} (h : m.Spares m' touched) (hm : m.Anchored) :
    m'.Anchored := by
  constructor
  · rw [h.has_iff, h.scopeKey_eq]
    exact hm.has_scope
  · rw [h.has_iff, h.stackKey_eq]
    exact hm.has_stack

theorem reported_scope {key : Value} (h : ¬ m.Has .scope key) :
    Reported (m.scope key) .scope key := by
  cases key with
  | atom k =>
    cases hget : m.scopeMap.get? k with
    | some s => exact absurd (has_scope_iff.mpr ⟨s, scope_eq_ok_iff.mpr ⟨k, rfl, hget⟩⟩) h
    | none => exact ⟨_, scope_of_get?_eq_none hget, Fault.reports_raised .scope (.atom k)⟩
  | list items | dict entries =>
    refine ⟨_, rfl, ?_⟩
    rintro k ⟨⟩

theorem reported_stack {key : Value} (h : ¬ m.Has .stack key) :
    Reported (m.stack key) .stack key := by
  cases key with
  | atom k =>
    cases hget : m.stackMap.get? k with
    | some t => exact absurd (has_stack_iff.mpr ⟨t, stack_eq_ok_iff.mpr ⟨k, rfl, hget⟩⟩) h
    | none => exact ⟨_, stack_of_get?_eq_none hget, Fault.reports_raised .stack (.atom k)⟩
  | list items | dict entries =>
    refine ⟨_, rfl, ?_⟩
    rintro k ⟨⟩

/-! ### What an anchored machine can do -/

namespace Anchored

theorem updateStack (hm : m.Anchored) (f : Stack Value → Stack Value) :
    ∃ m', m.updateStack m.stackKey f = .ok m' ∧ m'.Anchored := by
  obtain ⟨t, ht⟩ := has_stack_iff.mp hm.has_stack
  obtain ⟨k, hkey, hget⟩ := stack_eq_ok_iff.mp ht
  have hupdate := updateStack_of_get? hget f
  rw [← hkey] at hupdate
  exact ⟨_, hupdate, (spares_of_updateStack hupdate).anchored hm⟩

theorem take (hm : m.Anchored) :
    ∃ value m', m.take = .ok (value, m') ∧ m'.Anchored := by
  obtain ⟨t, ht⟩ := has_stack_iff.mp hm.has_stack
  obtain ⟨m', hpop, hm'⟩ := hm.updateStack Stack.pop
  have hpeek : m.peek .null = .ok (t.peek .null) := bind_of_ok ht
  exact ⟨_, m', (bind_of_ok hpeek).trans (bind_of_ok hpop), hm'⟩

theorem updateScope (hm : m.Anchored) {f : Scope → Except Fault Scope}
    (hf : ∀ s, ∃ s', f s = .ok s') : ∃ m', m.updateScope m.scopeKey f = .ok m' := by
  obtain ⟨s, hs⟩ := has_scope_iff.mp hm.has_scope
  obtain ⟨k, hkey, hget⟩ := scope_eq_ok_iff.mp hs
  obtain ⟨s', hs'⟩ := hf s
  rw [hkey]
  exact ⟨_, updateScope_of_get? hget hs'⟩

end Anchored

end Machine

/-! ### Instructions that name a container -/

/-- Whether an instruction works on nothing but the selected containers. -/
def Opcode.worksOnSelected : Opcode → Bool
  | .push | .pop | .binary _ | .unary _ | .setFrameTitle | .addFrameNote => true
  | .nop | .findAt | .find | .enterAt | .enter | .leaveAt | .leave | .bindAt | .bind | .rebindAt
  | .rebind | .setProp | .setCurrentScope | .setCurrentStack => false

namespace Instr

/-- An instruction names a container. To give no key is to name the scope `local`. -/
inductive Names : Instr → Container → Value → Prop
  | findAt (key name : Value) : Names (.findAt key name) .scope key
  | find (name : Value) : Names (.find name) .scope Machine.localKey
  | enterAt (key name : Value) : Names (.enterAt key name) .scope key
  | enter (name : Value) : Names (.enter name) .scope Machine.localKey
  | leaveAt (key : Value) : Names (.leaveAt key) .scope key
  | leave : Names .leave .scope Machine.localKey
  | bindAt (key name : Value) : Names (.bindAt key name) .scope key
  | bind (name : Value) : Names (.bind name) .scope Machine.localKey
  | rebindAt (key name : Value) : Names (.rebindAt key name) .scope key
  | rebind (name : Value) : Names (.rebind name) .scope Machine.localKey
  | setCurrentScope (key : Value) (rest : List Value) :
    Names ⟨.setCurrentScope, key :: rest⟩ .scope key
  | setCurrentStack (key : Value) (rest : List Value) :
    Names ⟨.setCurrentStack, key :: rest⟩ .stack key

/-- The instruction moves a pointer to a container that is not there. -/
def SelectsMissing (i : Instr) (m : Machine) : Prop :=
  (i.opcode = .setCurrentScope ∨ i.opcode = .setCurrentStack) ∧
    ∃ kind key, i.Names kind key ∧ ¬ m.Has kind key

variable {i : Instr} {m m' : Machine}

theorem StaysLocal.has_iff (h : i.StaysLocal m m') (kind : Container) (key : Value) :
    m'.Has kind key ↔ m.Has kind key :=
  Machine.has_congr h.scopeKeys_eq h.stackKeys_eq kind key

/-- A missing container is reported by every instruction that names it and does more than select
it. An operand that is taken before the container is looked up is there to take. -/
theorem Names.reported [MemoryLimit] {kind : Container} {key : Value} (hnames : i.Names kind key)
    (hm : m.Anchored) (hmissing : ¬ m.Has kind key) (hi : ¬ i.SelectsMissing m) :
    Reported (i.execute m) kind key := by
  obtain ⟨value, taken, htake, -⟩ := hm.take
  have htaken : ¬ taken.Has kind key := by
    rwa [(Machine.spares_of_take htake).has_iff]
  cases hnames with
  | findAt | find => exact .after_ok rfl (Machine.reported_scope hmissing).bind.bind
  | enterAt | enter | leaveAt => exact .after_ok rfl (Machine.reported_scope hmissing).bind
  | leave => exact (Machine.reported_scope hmissing).bind
  | bindAt => exact .after_ok rfl (.after_ok htake (Machine.reported_scope htaken).bind)
  | bind => exact .after_ok htake (.after_ok rfl (Machine.reported_scope htaken).bind)
  | rebindAt => exact .after_ok rfl (.after_ok htake (Machine.reported_scope htaken).bind.bind)
  | rebind => exact .after_ok htake (.after_ok rfl (Machine.reported_scope htaken).bind.bind)
  | setCurrentScope key rest =>
    exact absurd ⟨.inl rfl, _, _, .setCurrentScope key rest, hmissing⟩ hi
  | setCurrentStack key rest =>
    exact absurd ⟨.inr rfl, _, _, .setCurrentStack key rest, hmissing⟩ hi

/-- Success keeps the pointers on containers, as far as it was not the aim to move one away. -/
theorem anchored_of_execute [MemoryLimit] (hm : m.Anchored) (hi : ¬ i.SelectsMissing m)
    (h : i.execute m = .ok m') : m'.Anchored := by
  have hlocal := staysLocal_of_execute h
  obtain ⟨opcode, operands⟩ := i
  constructor
  · rw [hlocal.has_iff]
    by_cases hop : opcode = .setCurrentScope
    · subst hop
      obtain ⟨key, hkey, h⟩ := bind_eq_ok h
      obtain ⟨rest, hoperands⟩ := operand_eq_ok hkey
      cases hoperands
      cases h
      by_contra hmissing
      exact hi ⟨.inl rfl, _, _, .setCurrentScope key rest, hmissing⟩
    · rw [hlocal.scopeKey_eq hop]
      exact hm.has_scope
  · rw [hlocal.has_iff]
    by_cases hop : opcode = .setCurrentStack
    · subst hop
      obtain ⟨key, hkey, h⟩ := bind_eq_ok h
      obtain ⟨rest, hoperands⟩ := operand_eq_ok hkey
      cases hoperands
      cases h
      by_contra hmissing
      exact hi ⟨.inr rfl, _, _, .setCurrentStack key rest, hmissing⟩
    · rw [hlocal.stackKey_eq hop]
      exact hm.has_stack

/-- Nothing looks at the key that is selected. -/
theorem SelectsMissing.execute [MemoryLimit] (h : i.SelectsMissing m) :
    ∃ m', i.execute m = .ok m' ∧ ¬ m'.Anchored := by
  obtain ⟨hop, kind, key, hnames, hmissing⟩ := h
  cases hnames with
  | setCurrentScope key rest => exact ⟨_, rfl, fun hanchored => hmissing hanchored.has_scope⟩
  | setCurrentStack key rest => exact ⟨_, rfl, fun hanchored => hmissing hanchored.has_stack⟩
  -- The others are no selections.
  | _ => simp [findAt, find, enterAt, enter, leaveAt, leave, bindAt, bind, rebindAt, rebind] at hop

theorem refuse_meets (i : Instr) (operands : List Value) (result : Except OperandError Value) :
    Meets (fun _ => True) Fault.Unrelated (i.refuse operands result) := by
  unfold refuse
  split
  · trivial
  · exact fun kind key h => nomatch h
  · exact Fault.unrelated_raised fun kind key h => nomatch h

/-- What works on the selected containers alone finds them on an anchored machine. -/
theorem execute_meets [MemoryLimit] (hm : m.Anchored) (hop : i.opcode.worksOnSelected = true) :
    Meets (fun _ => True) Fault.Unrelated (i.execute m) := by
  have htake {n : Machine} (hn : n.Anchored) :
      Meets (fun taken => taken.2.Anchored) Fault.Unrelated n.take := by
    obtain ⟨value, taken, hok, htaken⟩ := hn.take
    exact .of_ok hok htaken
  have hpush {n : Machine} (hn : n.Anchored) (v : Value) :
      Meets (fun _ => True) Fault.Unrelated (n.push v) := by
    obtain ⟨n', hok, -⟩ := hn.updateStack (·.push v)
    exact .of_ok hok trivial
  have hedit {n : Machine} (hn : n.Anchored) {f : Scope → Except Fault Scope}
      (hf : ∀ s, ∃ s', f s = .ok s') :
      Meets (fun _ => True) Fault.Unrelated (n.updateScope n.scopeKey f) := by
    obtain ⟨n', hok⟩ := hn.updateScope hf
    exact .of_ok hok trivial
  obtain ⟨opcode, operands⟩ := i
  cases opcode with
  | push =>
    cases operands with
    | nil => exact fun kind key h => nomatch h
    | cons value rest => exact hpush hm value
  | pop =>
    obtain ⟨m', hok, -⟩ := hm.updateStack Stack.pop
    exact .of_ok hok trivial
  | binary op =>
    refine (htake hm).bind fun ⟨a, first⟩ hfirst => ?_
    refine (htake hfirst).bind fun ⟨b, rest⟩ hrest => ?_
    exact (refuse_meets _ [a, b] _).bind fun result _ => hpush hrest result
  | unary op =>
    refine (htake hm).bind fun ⟨a, rest⟩ hrest => ?_
    exact (refuse_meets _ [a] _).bind fun result _ => hpush hrest result
  | setFrameTitle =>
    refine (htake hm).bind fun ⟨value, rest⟩ hrest => ?_
    exact hedit hrest fun s => s.exists_updateTop (·.setTitle value)
  | addFrameNote =>
    refine (htake hm).bind fun ⟨value, rest⟩ hrest => ?_
    exact hedit hrest fun s => s.exists_updateTop (·.addNote value)
  | _ => cases hop

/-- Which selections go astray is settled by the containers that are there. -/
theorem selectsMissing_congr (h : ∀ kind key, m'.Has kind key ↔ m.Has kind key) :
    i.SelectsMissing m' ↔ i.SelectsMissing m := by
  simp only [SelectsMissing, h]

end Instr

namespace Machine

variable {m n n' : Machine} {program : List Instr}

/-- The machine `n` is anchored and has the containers that `m` has. -/
structure AnchoredLike (m n : Machine) : Prop where
  anchored : n.Anchored
  has_iff : ∀ kind key, n.Has kind key ↔ m.Has kind key

theorem Anchored.like (hm : m.Anchored) : m.AnchoredLike m := ⟨hm, fun _ _ => .rfl⟩

theorem AnchoredLike.execute [MemoryLimit] {i : Instr} (hn : m.AnchoredLike n)
    (hi : ¬ i.SelectsMissing m) (h : i.execute n = .ok n') : m.AnchoredLike n' := by
  have hlocal := Instr.staysLocal_of_execute h
  rw [← Instr.selectsMissing_congr hn.has_iff] at hi
  refine ⟨Instr.anchored_of_execute hn.anchored hi h, ?_⟩
  intro kind key
  rw [hlocal.has_iff, hn.has_iff]

theorem AnchoredLike.run [MemoryLimit] (hn : m.AnchoredLike n)
    (hall : ∀ i ∈ program, ¬ i.SelectsMissing m) (h : n.run program = .ok n') :
    m.AnchoredLike n' := by
  induction program generalizing n with
  | nil =>
    cases h
    exact hn
  | cons i rest ih =>
    obtain ⟨hi, hrest⟩ := List.forall_mem_cons.mp hall
    rw [run_cons] at h
    obtain ⟨next, hnext, h⟩ := bind_eq_ok h
    exact ih (hn.execute hi hnext) hrest h

theorem Anchored.after [MemoryLimit] (hm : m.Anchored) (hall : ∀ i ∈ program, ¬ i.SelectsMissing m)
    (commands : List Command) :
    m.AnchoredLike ((Stepper.start program m).after commands).machine := by
  have hfollows := Stepper.follows_after_start program m commands
  apply hfollows.trail.invariant _ hm.like
  intro i hi n n' hstep hn
  rcases hstep with hexecute | rfl
  · exact hn.execute (hall i hi) hexecute
  · exact hn

/-- On a machine whose pointers are valid, an instruction that names a missing container fails and
reports it, and one that succeeds leaves the pointers valid, unless it is a selection of a missing
container. That succeeds and leaves the pointer astray. A program without such selections keeps the
pointers valid on every run, by itself or step by step, so that whatever works on the selected
containers finds them. -/
theorem pointers_stay_valid [MemoryLimit] (hm : m.Anchored) :
    (∀ i : Instr, ¬ i.SelectsMissing m →
      (∀ kind key, i.Names kind key → ¬ m.Has kind key →
        ∃ fault, i.execute m = .error fault ∧ fault.Reports kind key) ∧
      ∀ m', i.execute m = .ok m' → m'.Anchored) ∧
    (∀ i : Instr, i.SelectsMissing m → ∃ m', i.execute m = .ok m' ∧ ¬ m'.Anchored) ∧
    ∀ program : List Instr, (∀ i ∈ program, ¬ i.SelectsMissing m) → ∀ reached : Machine,
      ((∃ k, m.run (program.take k) = .ok reached) ∨
        ∃ commands, ((Stepper.start program m).after commands).machine = reached) →
      reached.Anchored ∧ ∀ i : Instr, i.opcode.worksOnSelected = true →
        ∀ kind key, i.execute reached ≠ .error (.unknownContainer kind key) := by
  refine ⟨fun i hi => ⟨?_, ?_⟩, fun i => Instr.SelectsMissing.execute, ?_⟩
  · intro kind key hnames hmissing
    exact hnames.reported hm hmissing hi
  · intro m' h
    exact Instr.anchored_of_execute hm hi h
  · intro program hall reached hreached
    have hlike : m.AnchoredLike reached := by
      rcases hreached with ⟨k, hrun⟩ | ⟨commands, rfl⟩
      · exact hm.like.run (fun i hi => hall i (List.mem_of_mem_take hi)) hrun
      · exact hm.after hall commands
    refine ⟨hlike.anchored, ?_⟩
    intro i hop kind key herror
    have hmeets := Instr.execute_meets hlike.anchored hop
    rw [herror] at hmeets
    exact hmeets kind key rfl

theorem anchored_initial : initial.Anchored := ⟨⟨_, rfl, rfl⟩, ⟨_, rfl, rfl⟩⟩

/-- A look-up in a missing scope is reported, and a run that goes on past it stays anchored. -/
theorem pointers_stay_valid_lookup :
    let i : Instr := .findAt (.str "dyn") (.str "x")
    let program : List Instr := [i, .bind (.str "y"), .setFrameTitle]
    let s := (Stepper.start program initial).after [.run false]
    initial.Anchored ∧ i.execute initial = .error (.unknownContainer .scope (.str "dyn")) ∧
      s.machine.Anchored := by
  intro i program s
  have hselects : ∀ j ∈ program, ¬ j.SelectsMissing initial := by
    rintro j hj ⟨hop, -⟩
    simp only [program, List.mem_cons, List.not_mem_nil, or_false] at hj
    rcases hj with rfl | rfl | rfl <;> revert hop <;> decide
  have hmissing : ¬ initial.Has .scope (.str "dyn") := by
    rintro ⟨k, hk, hcontains⟩
    cases hk
    exact absurd hcontains (by decide)
  obtain ⟨hinstr, -, hprogram⟩ := pointers_stay_valid anchored_initial
  obtain ⟨hreport, -⟩ := hinstr i (hselects i List.mem_cons_self)
  obtain ⟨fault, hfault, hreports⟩ := hreport _ _ (.findAt _ _) hmissing
  rw [hreports _ rfl (Atom.writable_str "dyn")] at hfault
  exact ⟨anchored_initial, hfault, (hprogram program hselects _ (.inr ⟨_, rfl⟩)).1⟩

/-- A stack that is not there can be selected, and what is pushed next fails for it. -/
theorem selects_missing_stack :
    let i : Instr := .setCurrentStack (.str "aux")
    initial.Anchored ∧ i.Names .stack (.str "aux") ∧ ¬ initial.Has .stack (.str "aux") ∧
      ∃ m', i.execute initial = .ok m' ∧ ¬ m'.Anchored ∧
        (Instr.push (.int 1)).execute m' = .error (.unknownContainer .stack (.str "aux")) := by
  intro i
  have hmissing {m : Machine} (hstacks : m.stackMap = initial.stackMap) :
      ¬ m.Has .stack (.str "aux") := by
    rintro ⟨k, hk, hcontains⟩
    cases hk
    simp only [hstacks] at hcontains
    exact absurd hcontains (by decide)
  exact ⟨anchored_initial, .setCurrentStack _ [], hmissing rfl, _, rfl,
    fun hanchored => hmissing rfl hanchored.has_stack, rfl⟩

end Machine

end ScopeMachine
