import ScopeMachine.Proofs.Machine.BlockIsolation
import ScopeMachine.Proofs.Stack

/-! Names in nested frames. A name is looked up in the innermost frame that has it, and binding it
anew changes that frame and no other. Both can be told from the place of that frame, and so can what
becomes of the scope when its frames lie on a stack that is searched and changed in two steps. -/
namespace ScopeMachine

theorem Atom.entry?_eq_find? {α : Type} (key : Atom) (entries : List (Atom × α)) :
    key.entry? entries = (entries.find? fun e => e.1.same key).map Prod.snd := by
  induction entries with
  | nil => rfl
  | cons e rest ih => cases h : e.1.same key <;> simp [Atom.entry?, h, ih]

theorem Frame.exists_get?_of_hasName {f : Frame} {name : Atom} (h : f.hasName name = true) :
    ∃ value, f.binds.get? name = some value := Option.isSome_iff_exists.mp h

theorem Frame.get?_of_not_hasName {f : Frame} {name : Atom} (h : f.hasName name = false) :
    f.binds.get? name = none := by simpa [hasName, OrderedMap.contains] using h

namespace Scope

/-- The bindings of all frames, from the innermost frame outwards. -/
def bindings (s : Scope) : List (Atom × Value) := s.frames.flatMap fun f => f.binds.entries

theorem lookup_atom (s : Scope) (name : Atom) :
    s.lookup (.atom name) = .ok (lookupIn name 0 s.frames) := by
  obtain ⟨scopeName, frames⟩ := s
  cases frames <;> rfl

/-! ### The frame that has a name -/

theorem lookupIn_eq (name : Atom) (depth : Nat) (frames : List Frame) :
    lookupIn name depth frames = (frames.findIdx? (·.hasName name)).bind fun i =>
      (frames[i]?.bind fun f => f.binds.get? name).map fun value => ⟨name, value, depth + i⟩ := by
  induction frames generalizing depth with
  | nil => rfl
  | cons frame outer ih =>
    rw [lookupIn, List.findIdx?_cons]
    cases hname : frame.hasName name with
    | true =>
      obtain ⟨value, hget⟩ := Frame.exists_get?_of_hasName hname
      simp [Frame.lookup, hget]
    | false =>
      have hdepth (i : Nat) : depth + 1 + i = depth + (i + 1) := by omega
      simp only [Frame.lookup, Frame.get?_of_not_hasName hname, Option.map_none, ih]
      cases outer.findIdx? (·.hasName name) with
      | none => rfl
      | some i => simp [hdepth]

theorem rebindIn_eq (name : Atom) (value : Value) (frames : List Frame) :
    rebindIn name value frames = (frames.findIdx? (·.hasName name)).map fun i =>
      (i, frames.modify i (·.bind name value)) := by
  induction frames with
  | nil => rfl
  | cons frame outer ih =>
    rw [rebindIn, List.findIdx?_cons]
    cases hname : frame.hasName name with
    | true => rfl
    | false => simp [ih, Function.comp_def]

/-- The frames can be taken for one long list of bindings. -/
theorem value_lookupIn (name : Atom) (depth : Nat) (frames : List Frame) :
    (lookupIn name depth frames).map Binding.value =
      ((frames.flatMap fun f => f.binds.entries).find? fun e => e.1.same name).map Prod.snd := by
  induction frames generalizing depth with
  | nil => rfl
  | cons frame outer ih =>
    rw [lookupIn, List.flatMap_cons, List.find?_append, Option.map_or, ← Atom.entry?_eq_find?]
    change _ = (frame.binds.get? name).or _
    cases hget : frame.binds.get? name <;> simp [Frame.lookup, hget, ih (depth + 1)]

/-- A frame with a new value for one name has the old ones for the others. -/
theorem lookupIn_modify {name other : Atom} (h : name.same other = false) (value : Value)
    (depth i : Nat) (frames : List Frame) :
    lookupIn other depth (frames.modify i (·.bind name value)) = lookupIn other depth frames := by
  induction frames generalizing depth i with
  | nil => simp
  | cons frame outer ih =>
    cases i with
    | zero =>
      have hget : (frame.bind name value).binds.get? other = frame.binds.get? other :=
        OrderedMap.get?_set_of_not_same _ value h
      simp only [List.modify_zero_cons, lookupIn, Frame.lookup, hget]
    | succ i => simp only [List.modify_succ_cons, lookupIn, ih]

/-- The name keeps its place among the frames, and has the new value there. -/
theorem lookupIn_modify_self {name : Atom} {i : Nat} {frames : List Frame}
    (h : frames.findIdx? (·.hasName name) = some i) (value : Value) (depth : Nat) :
    lookupIn name depth (frames.modify i (·.bind name value)) =
      some ⟨name, value, depth + i⟩ := by
  induction frames generalizing depth i with
  | nil => cases h
  | cons frame outer ih =>
    rw [List.findIdx?_cons] at h
    cases hname : frame.hasName name with
    | true =>
      rw [hname] at h
      cases h
      obtain ⟨old, hold⟩ := Frame.exists_get?_of_hasName hname
      have hget : (frame.bind name value).binds.get? name = some value :=
        OrderedMap.get?_set_self _ value (OrderedMap.same_self_of_get? hold)
      simp [lookupIn, Frame.lookup, hget]
    | false =>
      simp only [hname, Bool.false_eq_true, ↓reduceIte] at h
      obtain ⟨j, hj, rfl⟩ := Option.map_eq_some_iff.mp h
      have hmore := ih hj (depth + 1)
      simp only [List.modify_succ_cons, lookupIn, Frame.lookup, Frame.get?_of_not_hasName hname,
        Option.map_none, hmore]
      congr 2
      omega

/-- `s'` is `s` with another value for `name` in frame `i`, counted from the innermost. -/
structure ReboundAt (s s' : Scope) (name : Atom) (value : Value) (i : Nat) : Prop where
  name_eq : s'.name = s.name
  depth_eq : s'.depth = s.depth
  frame_eq : ∀ j, j ≠ i → s'.frames[j]? = s.frames[j]?
  frame_kept : ∃ f f', s.frames[i]? = some f ∧ s'.frames[i]? = some f' ∧
    f.KeptBut (fun other => other.same name = true) f'
  lookup_name : s'.lookup (.atom name) = .ok (some ⟨name, value, i⟩)
  lookup_other : ∀ other : Value, (Value.atom name).same other = false →
    s'.lookup other = s.lookup other

theorem reboundAt_modify {s : Scope} {name : Atom} {i : Nat}
    (h : s.frames.findIdx? (·.hasName name) = some i) (value : Value) :
    s.ReboundAt { s with frames := s.frames.modify i (·.bind name value) } name value i := by
  obtain ⟨hi, hname, -⟩ := List.findIdx?_eq_some_iff_getElem.mp h
  have hframe : s.frames[i]? = some s.frames[i] := List.getElem?_eq_getElem hi
  refine ⟨rfl, List.length_modify .., ?_, ?_, ?_, ?_⟩
  · intro j hj
    simp [hj.symm]
  · refine ⟨s.frames[i], s.frames[i].bind name value, hframe, ?_, .bind hname (fun _ => id) value⟩
    simp [hframe]
  · rw [lookup_atom, lookupIn_modify_self h, Nat.zero_add]
  · intro other hother
    cases other with
    | atom k =>
      rw [Value.same_atom] at hother
      rw [lookup_atom, lookup_atom, lookupIn_modify hother]
    | list items | dict entries =>
      -- A name that cannot be a key is refused as soon as there is a frame.
      obtain ⟨scopeName, frames⟩ := s
      cases frames with
      | nil => cases h
      | cons frame outer => cases i <;> rfl

end Scope

/-- Binds a name anew in a stack of frames: the index of the innermost frame that has the name is
searched for, the frame is taken from there and put back changed. -/
def Stack.rebind? (frames : Stack Frame) (default : Frame) (name : Atom) (value : Value) :
    Option (Nat × Stack Frame) :=
  let i := frames.findIndex fun f => f.hasName name
  if i = -1 then none
  else (frames.replace? i ((frames.get i default).bind name value)).map fun t => (i.toNat, t)

/-- Searching for the index and replacing the frame there does the same as one walk through the
frames. -/
theorem Scope.rebind_eq_stack {s : Scope} {frames : Stack Frame} (h : frames.toList = s.frames)
    (default : Frame) (name : Atom) (value : Value) :
    s.rebind (.atom name) value = .ok ((frames.rebind? default name value).map fun found =>
      (found.1, { s with frames := found.2.toList })) := by
  rw [rebind_atom, rebindIn_eq, ← h, Stack.rebind?]
  cases hindex : frames.toList.findIdx? (·.hasName name) with
  | none => simp [Stack.findIndex_of_none hindex]
  | some i =>
    obtain ⟨hi, -⟩ := List.findIdx?_eq_some_iff_getElem.mp hindex
    have hne : (i : Int) ≠ -1 := by omega
    obtain ⟨t, hreplace, ht⟩ := frames.exists_replace?_natCast hi (frames.toList[i].bind name value)
    have hget : frames.get i default = frames.toList[i] := by
      rw [Stack.get_natCast, List.getElem?_eq_getElem hi, Option.getD_some]
    simp [Stack.findIndex_of_some hindex, hne, hget, hreplace, ht, List.modify_eq_set_get _ hi]

/-- A name is looked up where it would be bound anew. Both find the innermost frame that has it, or
that there is none; the value found is the first in the bindings of all frames, even if it is null.
Binding the name anew changes its value in that frame only, and no other name is looked up
differently afterwards. -/
theorem Scope.rebind_agrees_with_lookup (s : Scope) (name : Atom) (value : Value) :
    (s.rebind (.atom name) value = .ok none ↔ s.lookup (.atom name) = .ok none) ∧
    (∃ found, s.lookup (.atom name) = .ok found ∧
      found.map Binding.value = (s.bindings.find? fun e => e.1.same name).map Prod.snd) ∧
    (∀ b, s.lookup (.atom name) = .ok (some b) →
      b.name = name ∧
      (∃ f, s.frames[b.depth]? = some f ∧ f.hasName name = true) ∧
      (∀ j, j < b.depth → ∀ f, s.frames[j]? = some f → f.hasName name = false) ∧
      ∃ s', s.rebind (.atom name) value = .ok (some (b.depth, s')) ∧
        s.ReboundAt s' name value b.depth) ∧
    ∀ (frames : Stack Frame) (default : Frame), frames.toList = s.frames →
      s.rebind (.atom name) value = .ok ((frames.rebind? default name value).map fun found =>
        (found.1, { s with frames := found.2.toList })) := by
  rw [rebind_atom, lookup_atom, rebindIn_eq]
  refine ⟨?_, ⟨_, rfl, value_lookupIn name 0 s.frames⟩, ?_, ?_⟩
  · rw [lookupIn_eq]
    cases hindex : s.frames.findIdx? (·.hasName name) with
    | none => simp
    | some i =>
      obtain ⟨hi, hname, -⟩ := List.findIdx?_eq_some_iff_getElem.mp hindex
      obtain ⟨old, hold⟩ := Frame.exists_get?_of_hasName hname
      simp [hi, hold]
  · intro b hb
    rw [lookupIn_eq] at hb
    obtain ⟨i, hindex, hb⟩ := Option.bind_eq_some_iff.mp (Except.ok.inj hb)
    obtain ⟨old, -, rfl⟩ := Option.map_eq_some_iff.mp hb
    obtain ⟨hi, hname, hinner⟩ := List.findIdx?_eq_some_iff_getElem.mp hindex
    simp only [Nat.zero_add, true_and]
    refine ⟨⟨s.frames[i], List.getElem?_eq_getElem hi, hname⟩, ?_, ?_⟩
    · intro j hj f hf
      obtain ⟨hlt, rfl⟩ := List.getElem?_eq_some_iff.mp hf
      simpa using hinner j hj
    · refine ⟨_, ?_, reboundAt_modify hindex value⟩
      rw [hindex]
      rfl
  · intro frames default hframes
    rw [← rebind_eq_stack hframes, rebind_atom, rebindIn_eq]

/-- The inner of two frames counts, even if it binds the name to null. -/
example : (Scope.mk .null [.create (.str "inner") ⟨[(.str "x", .null)]⟩,
    .create (.str "outer") ⟨[(.str "x", .int 1)]⟩]).lookup (.str "x") =
      .ok (some ⟨.str "x", .null, 0⟩) := rfl

end ScopeMachine
