import ScopeMachine.Proofs.Machine.BlockIsolation

/-! Frames while they live. Frames are counted from the outermost one, so a frame keeps its number
until it is left. As long as a run does not leave it, a frame keeps its name and its labels, and the
names bound in it and its notes only get longer at the end. -/
namespace ScopeMachine

/-- `g` is what may become of `f` while it lives. -/
structure Frame.GrowsTo (f g : Frame) : Prop where
  name_eq : g.name = f.name
  metaBinds_eq : g.metaBinds = f.metaBinds
  names_prefix : f.binds.keys <+: g.binds.keys
  notes_prefix : f.notes <+: g.notes

namespace Frame

variable {f g h : Frame}

theorem GrowsTo.refl (f : Frame) : f.GrowsTo f :=
  ⟨rfl, rfl, List.prefix_rfl, List.prefix_rfl⟩

theorem GrowsTo.trans (hfg : f.GrowsTo g) (hgh : g.GrowsTo h) : f.GrowsTo h :=
  ⟨hgh.name_eq.trans hfg.name_eq, hgh.metaBinds_eq.trans hfg.metaBinds_eq,
    hfg.names_prefix.trans hgh.names_prefix, hfg.notes_prefix.trans hgh.notes_prefix⟩

/-- A new name comes behind those that are bound, and an old one stays where it is. -/
theorem growsTo_bind (f : Frame) (name : Atom) (value : Value) : f.GrowsTo (f.bind name value) := by
  refine ⟨rfl, rfl, ?_, List.prefix_rfl⟩
  change f.binds.keys <+: (f.binds.set name value).keys
  rw [OrderedMap.keys_set]
  split
  · exact List.prefix_rfl
  · exact List.prefix_append f.binds.keys [name]

theorem growsTo_setTitle (f : Frame) (title : Value) : f.GrowsTo (f.setTitle title) :=
  ⟨rfl, rfl, List.prefix_rfl, List.prefix_rfl⟩

theorem growsTo_addNote (f : Frame) (note : Value) : f.GrowsTo (f.addNote note) :=
  ⟨rfl, rfl, List.prefix_rfl, List.prefix_append f.notes [note]⟩

theorem KeptBut.growsTo {changed : Atom → Prop} (hfg : f.KeptBut changed g) : f.GrowsTo g := by
  have hkeys : f.binds.keys = g.binds.keys := by
    unfold OrderedMap.keys
    rw [← List.forall₂_eq_eq_eq, List.forall₂_map_left_iff, List.forall₂_map_right_iff]
    exact hfg.binds_eq.imp fun e e' hentry => hentry.1.symm
  exact ⟨hfg.name_eq, hfg.metaBinds_eq, hkeys ▸ List.prefix_rfl,
    hfg.notes_eq ▸ List.prefix_rfl⟩

end Frame

namespace Scope

variable {s s' : Scope} {i : Nat}

/-- The frame with a number, counted from the outermost frame. -/
def frameAt? (s : Scope) (i : Nat) : Option Frame := s.frames.reverse[i]?

theorem exists_frameAt?_of_lt (h : i < s.depth) : ∃ f, s.frameAt? i = some f := by
  rw [depth, ← List.length_reverse] at h
  exact ⟨s.frames.reverse[i], List.getElem?_eq_getElem h⟩

/-- Of two frames with the same number, the one in `s` grows to the one in `s'`. -/
def GrowsTo (s s' : Scope) : Prop :=
  ∀ i f g, s.frameAt? i = some f → s'.frameAt? i = some g → f.GrowsTo g

theorem GrowsTo.refl (s : Scope) : s.GrowsTo s := by
  intro i f g hf hg
  cases hf.symm.trans hg
  exact .refl f

theorem growsTo_of_forall₂ (h : List.Forall₂ Frame.GrowsTo s.frames s'.frames) :
    s.GrowsTo s' := by
  intro i f g hf hg
  obtain ⟨hi, rfl⟩ := List.getElem?_eq_some_iff.mp hf
  obtain ⟨hi', rfl⟩ := List.getElem?_eq_some_iff.mp hg
  exact (List.rel_reverse h).get hi hi'

/-- Frames outside of those that come or go stay as they are. -/
theorem growsTo_of_suffix (h : s.frames <:+ s'.frames ∨ s'.frames <:+ s.frames) :
    s.GrowsTo s' := by
  intro i f g hf hg
  obtain ⟨hi, rfl⟩ := List.getElem?_eq_some_iff.mp hf
  obtain ⟨hi', rfl⟩ := List.getElem?_eq_some_iff.mp hg
  have hsame : s.frames.reverse[i] = s'.frames.reverse[i] := by
    rw [← List.reverse_prefix, ← List.reverse_prefix] at h
    rcases h with h | h
    · exact h.getElem hi
    · exact (h.getElem hi').symm
  rw [hsame]
  exact .refl _

theorem growsTo_of_updateTop {change : Frame → Except Fault Frame}
    (hchange : ∀ f g, change f = .ok g → f.GrowsTo g) (h : s.updateTop change = .ok s') :
    s.GrowsTo s' := by
  unfold updateTop at h
  split at h
  · cases h
    exact .refl s
  · rename_i top outer hframes
    obtain ⟨top', htop, h⟩ := bind_eq_ok h
    cases h
    apply growsTo_of_forall₂
    rw [hframes]
    exact .cons (hchange top top' htop) (List.forall₂_same.mpr fun f _ => .refl f)

/-- No edit changes a frame that it does not take off other than by making it grow. -/
theorem growsTo_of_apply (edit : ScopeEdit) (h : edit.apply s = .ok s') : s.GrowsTo s' := by
  cases edit with
  | enter name =>
    cases h
    exact growsTo_of_suffix (.inl (List.suffix_cons _ s.frames))
  | leave =>
    cases h
    exact growsTo_of_suffix (.inr (List.tail_suffix s.frames))
  | bind name value =>
    obtain ⟨-, -, h⟩ := bind_eq_ok h
    refine growsTo_of_updateTop (fun f g hbind => ?_) h
    obtain ⟨key, -, hbind⟩ := bind_eq_ok hbind
    cases hbind
    exact f.growsTo_bind key value
  | rebind name value =>
    have hany : ∀ other, name.same (.atom other) = true → True := fun _ _ => trivial
    obtain ⟨-, hkept⟩ := forall₂_rebind hany h
    exact growsTo_of_forall₂ (hkept.imp fun f g hfg => hfg.growsTo)
  | setTitle title =>
    refine growsTo_of_updateTop (fun f g hset => ?_) h
    cases hset
    exact f.growsTo_setTitle title
  | addNote note =>
    refine growsTo_of_updateTop (fun f g hadd => ?_) h
    cases hadd
    exact f.growsTo_addNote note

end Scope

namespace Machine

variable {m m' : Machine} {key : Value} {s : Scope} {i : Nat} {f : Frame}

/-- One instruction: the scope stays, and its frames grow. -/
theorem exists_growsTo_of_execute [MemoryLimit] {instr : Instr} (h : instr.execute m = .ok m')
    (hs : m.scope key = .ok s) : ∃ s', m'.scope key = .ok s' ∧ s.GrowsTo s' := by
  obtain ⟨operand, s', hs', hedit⟩ := Instr.execute_scope h hs
  refine ⟨s', hs', ?_⟩
  cases hat : instr.editAt? m.scopeKey operand key with
  | none =>
    rw [hat] at hedit
    cases hedit
    exact .refl s
  | some edit =>
    rw [hat] at hedit
    exact Scope.growsTo_of_apply edit hedit

/-- A frame that is not left in the course of a run has the same name and the same labels at the
end. The names bound in it at the start are still the first ones bound in it, and its notes the
first of its notes. -/
theorem living_frame_growsTo [MemoryLimit] {program : List Instr} (h : m.run program = .ok m')
    (hs : m.scope key = .ok s) (hf : s.frameAt? i = some f)
    (hlives : ∀ done mid inside, done <+: program → m.run done = .ok mid →
      mid.scope key = .ok inside → i < inside.depth) :
    ∃ s' g, m'.scope key = .ok s' ∧ s'.frameAt? i = some g ∧ f.GrowsTo g := by
  induction program generalizing m s f with
  | nil =>
    cases h
    exact ⟨s, f, hs, hf, .refl f⟩
  | cons instr rest ih =>
    rw [run_cons] at h
    obtain ⟨next, hnext, h⟩ := bind_eq_ok h
    obtain ⟨inside, hinside, hgrows⟩ := exists_growsTo_of_execute hnext hs
    have hafter (done : List Instr) : m.run (instr :: done) = next.run done := by
      rw [run_cons]
      exact bind_of_ok hnext
    -- After one instruction the frame is still there, so the rest of the run starts with it.
    have hdepth : i < inside.depth := hlives [instr] next inside
      (List.cons_prefix_cons.mpr ⟨rfl, List.nil_prefix⟩) (hafter []) hinside
    obtain ⟨between, hbetween⟩ := Scope.exists_frameAt?_of_lt hdepth
    obtain ⟨s', g, hs', hg, hrest⟩ := ih h hinside hbetween
      fun done mid scope hdone hmid hscope => hlives (instr :: done) mid scope
        (List.cons_prefix_cons.mpr ⟨rfl, hdone⟩) ((hafter done).trans hmid) hscope
    exact ⟨s', g, hs', hg, (hgrows i f between hf hbetween).trans hrest⟩

/-- A frame whose name is bound anew from within another frame, and to which a note and a name are
added once that frame has been left. -/
theorem living_frame_growsTo_annotated :
    let f : Frame :=
      ((Frame.create (.str "global") .empty).bind (.str "x") (.int 1)).addNote (.str "first")
    let s : Scope := { name := localKey, frames := [f] }
    let m : Machine :=
      { scopeMap := OrderedMap.empty.set (.str "local") s
        stackMap := OrderedMap.empty.set (.str "data")
          (.ofItems [.int 3, .str "second", .int 2]) }
    let program : List Instr :=
      [.enter (.str "inner"), .rebind (.str "x"), .leave, .addFrameNote, .bind (.str "y")]
    ∃ m' s' g, m.run program = .ok m' ∧ m'.scope localKey = .ok s' ∧
      s'.frameAt? 0 = some g ∧ f.GrowsTo g ∧ g.binds.keys = [.str "x", .str "y"] := by
  intro f s m program
  have hrun : m.run program = .ok ((m.run program).toOption.getD m) := rfl
  have hlives : ∀ done mid inside, done <+: program → m.run done = .ok mid →
      mid.scope localKey = .ok inside → 0 < inside.depth := by
    intro done mid inside hdone hmid hinside
    simp only [program, List.prefix_cons_iff, List.prefix_nil] at hdone
    rcases hdone with
      rfl | ⟨-, rfl, rfl | ⟨-, rfl, rfl | ⟨-, rfl, rfl | ⟨-, rfl, rfl | ⟨-, rfl, rfl⟩⟩⟩⟩⟩ <;>
      cases hmid <;> cases hinside <;> decide
  have hf : s.frameAt? 0 = some f := rfl
  obtain ⟨s', g, hs', hg, hgrows⟩ := living_frame_growsTo hrun rfl hf hlives
  refine ⟨_, s', g, hrun, hs', hg, hgrows, ?_⟩
  cases hs'
  cases hg
  rfl

end Machine

end ScopeMachine
