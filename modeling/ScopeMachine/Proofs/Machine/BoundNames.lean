import ScopeMachine.Config
import ScopeMachine.Proofs.Machine.ScopeEdit
import ScopeMachine.Proofs.Source.Compiled
import ScopeMachine.Proofs.Stepper.Trail

/-! Where the names of frames come from. A frame is entered without names, and binding a name anew
takes a frame that has it; so every name of a frame was named by an instruction that binds. -/
namespace ScopeMachine

variable {p : Atom → Prop}

/-- All names of the frame satisfy `p`. -/
def Frame.BindsOnly (p : Atom → Prop) (f : Frame) : Prop := f.binds.Holds p fun _ => True

def Scope.BindsOnly (p : Atom → Prop) (s : Scope) : Prop := ∀ f ∈ s.frames, f.BindsOnly p

def Machine.BindsOnly (p : Atom → Prop) (m : Machine) : Prop :=
  m.scopeMap.Holds (fun _ => True) (Scope.BindsOnly p)

/-- The only names that the instruction can bind satisfy `p`. -/
def Instr.BindsOnly (p : Atom → Prop) (i : Instr) : Prop :=
  ∀ selected operand key name value,
    i.scopeEdit? selected operand = some (key, .bind (.atom name) value) → p name

theorem Frame.bindsOnly_create (name : Value) : (Frame.create name .empty).BindsOnly p := by
  unfold create
  split <;> exact OrderedMap.holds_empty

theorem Frame.BindsOnly.bind {f : Frame} (h : f.BindsOnly p) {name : Atom} (hname : p name)
    (value : Value) : (f.bind name value).BindsOnly p :=
  OrderedMap.Holds.set h hname trivial

theorem Frame.BindsOnly.rebind {f : Frame} (h : f.BindsOnly p) {name : Atom}
    (hname : f.hasName name = true) (value : Value) : (f.bind name value).BindsOnly p := by
  obtain ⟨old, hget⟩ := Option.isSome_iff_exists.mp hname
  exact OrderedMap.Holds.set_of_get? h hget trivial

theorem Scope.BindsOnly.rebind {s s' : Scope} (h : s.BindsOnly p) {name value : Value}
    (happly : (ScopeEdit.rebind name value).apply s = .ok s') : s'.BindsOnly p := by
  cases name with
  | atom a =>
    rw [ScopeEdit.apply, rebind_atom] at happly
    cases hin : rebindIn a value s.frames with
    | none =>
      rw [hin] at happly
      cases happly
      exact h
    | some found =>
      rw [hin] at happly
      cases happly
      exact forall_of_rebindIn h (fun f hf hname => hf.rebind hname value) hin
  | list items | dict entries =>
    obtain ⟨scopeName, frames⟩ := s
    cases frames with
    | nil =>
      cases happly
      exact h
    | cons frame outer => cases happly

/-- An edit that binds no name but one that satisfies `p`. -/
theorem Scope.BindsOnly.apply {s s' : Scope} (h : s.BindsOnly p) {edit : ScopeEdit}
    (hnew : ∀ name value, edit = .bind (.atom name) value → p name)
    (happly : edit.apply s = .ok s') : s'.BindsOnly p := by
  cases edit with
  | enter name =>
    cases happly
    exact List.forall_mem_cons.mpr ⟨Frame.bindsOnly_create name, h⟩
  | leave =>
    cases happly
    exact fun f hf => h f (List.mem_of_mem_tail hf)
  | bind name value =>
    obtain ⟨text, -, happly⟩ := bind_eq_ok happly
    refine (forall_of_updateTop h (fun f f' hf hbind => ?_) happly).2
    obtain ⟨a, ha, hbind⟩ := bind_eq_ok hbind
    cases Value.asKey_eq_ok_iff.mp ha
    cases hbind
    exact hf.bind (hnew a value rfl) value
  | rebind name value => exact h.rebind happly
  | setTitle title | addNote note =>
    refine (forall_of_updateTop h (fun f f' hf hset => ?_) happly).2
    cases hset
    exact hf

theorem Instr.BindsOnly.execute [MemoryLimit] {i : Instr} (hi : i.BindsOnly p) {m m' : Machine}
    (hm : m.BindsOnly p) (h : i.execute m = .ok m') : m'.BindsOnly p := by
  obtain ⟨operand, hfollow⟩ := scopesFollow_of_execute h
  unfold ScopesFollow at hfollow
  split at hfollow
  · rw [Machine.BindsOnly, hfollow]
    exact hm
  · rename_i key edit hedit
    obtain ⟨k, s, s', rfl, hget, happly, hmap⟩ := hfollow
    have hscope : s'.BindsOnly p := by
      refine Scope.BindsOnly.apply (OrderedMap.Holds.get? hm hget) ?_ happly
      rintro name value rfl
      exact hi m.scopeKey operand _ name value hedit
    rw [Machine.BindsOnly, hmap]
    exact OrderedMap.Holds.set_of_get? hm hget hscope

/-- Whatever commands lead through a program, the frames have no names but those that the
instructions bind. -/
theorem Stepper.bindsOnly_after [MemoryLimit] {program : List Instr} {first : Machine}
    (hprogram : ∀ i ∈ program, i.BindsOnly p) (hfirst : first.BindsOnly p)
    (commands : List Command) :
    ((Stepper.start program first).after commands).machine.BindsOnly p := by
  refine (follows_after_start program first commands).trail.invariant ?_ hfirst
  rintro i hi m n (hexecute | rfl) hm
  · exact (hprogram i hi).execute hm hexecute
  · exact hm

theorem Instr.Compiled.bindsOnly {i : Instr} (h : i.Compiled) :
    i.BindsOnly fun name => i = .bind (.atom name) := by
  intro selected operand key name value hedit
  cases h <;> cases hedit
  rfl

/-- The machine that a configuration asks for has one frame, without names. -/
theorem Config.bindsOnly_machine (c : Config) : c.machine.BindsOnly p := by
  have hlocal : Scope.BindsOnly p ⟨.str "local", [.create (.str "global") .empty]⟩ := by
    intro f hf
    rw [List.mem_singleton.mp hf]
    exact Frame.bindsOnly_create _
  have hinitial : Machine.initial.BindsOnly p := by
    intro e he
    rw [List.mem_singleton.mp he]
    exact ⟨trivial, hlocal⟩
  exact OrderedMap.Holds.foldl_set (f := fun k => (k, { name := .atom k })) hinitial
    fun _ _ => ⟨trivial, nofun⟩

end ScopeMachine
