import ScopeMachine.Proofs.Machine.ScopeEdit

/-! Blocks. A program that enters a scope, stays above the frames it found there and leaves again
gives those frames back: names, titles, notes and labels as they were, the same names bound in the
same order, and other values only under names that the program bound anew in that scope. How many
frames lie above them depends on how many the program itself left open. -/
namespace ScopeMachine

/-- `g` is `f` up to the values of those names of which `changed` holds. -/
structure Frame.KeptBut (changed : Atom → Prop) (f g : Frame) : Prop where
  name_eq : g.name = f.name
  title_eq : g.title = f.title
  notes_eq : g.notes = f.notes
  metaBinds_eq : g.metaBinds = f.metaBinds
  binds_eq : List.Forall₂ (fun e e' => e'.1 = e.1 ∧ (e'.2 ≠ e.2 → changed e.1)) f.binds.entries
    g.binds.entries

namespace Frame.KeptBut

variable {changed : Atom → Prop} {f g h : Frame}

theorem refl (changed : Atom → Prop) (f : Frame) : f.KeptBut changed f :=
  ⟨rfl, rfl, rfl, rfl, List.forall₂_same.mpr fun _ _ => ⟨rfl, fun hne => absurd rfl hne⟩⟩

theorem trans (hfg : f.KeptBut changed g) (hgh : g.KeptBut changed h) : f.KeptBut changed h := by
  refine ⟨hgh.name_eq.trans hfg.name_eq, hgh.title_eq.trans hfg.title_eq,
    hgh.notes_eq.trans hfg.notes_eq, hgh.metaBinds_eq.trans hfg.metaBinds_eq,
    forall₂_trans ?_ hfg.binds_eq hgh.binds_eq⟩
  rintro ⟨k, u⟩ ⟨k', v⟩ ⟨k'', w⟩ ⟨rfl, huv⟩ ⟨rfl, hvw⟩
  refine ⟨rfl, fun hne => ?_⟩
  by_cases hv : v = u
  · subst hv
    exact hvw hne
  · exact huv hv

/-- Where no name may change, nothing does. -/
theorem eq_of_forall_not (hfg : f.KeptBut changed g) (hnone : ∀ name, ¬ changed name) : g = f := by
  have hentries : f.binds.entries = g.binds.entries := by
    rw [← List.forall₂_eq_eq_eq]
    refine hfg.binds_eq.imp ?_
    rintro ⟨k, v⟩ ⟨k', v'⟩ ⟨rfl, hne⟩
    by_cases hv : v' = v
    · rw [hv]
    · exact absurd (hne hv) (hnone k')
  obtain ⟨name, ⟨entries⟩, title, notes, metaBinds⟩ := f
  obtain ⟨name', ⟨entries'⟩, title', notes', metaBinds'⟩ := g
  cases hfg.name_eq
  cases hfg.title_eq
  cases hfg.notes_eq
  cases hfg.metaBinds_eq
  cases hentries
  rfl

/-- Binding a name anew keeps a frame that has it, up to the value of that name. -/
theorem bind {name : Atom} (hname : f.hasName name = true)
    (hchanged : ∀ other, other.same name = true → changed other) (value : Value) :
    f.KeptBut changed (f.bind name value) := by
  refine ⟨rfl, rfl, rfl, rfl, (OrderedMap.forall₂_set hname value).imp ?_⟩
  rintro e e' ⟨hkey, hvalue⟩
  exact ⟨hkey, fun hne => hchanged e.1 (hvalue hne)⟩

end Frame.KeptBut

namespace Scope

variable {changed : Atom → Prop} {base s s' : Scope}

/-- The outermost frames of `s` are those of `base` up to changed values. -/
def RestsOn (s : Scope) (changed : Atom → Prop) (base : Scope) : Prop :=
  s.name = base.name ∧ ∃ inner outer, s.frames = inner ++ outer ∧
    List.Forall₂ (Frame.KeptBut changed) base.frames outer

/-- Without frames of its own, a scope has just the frames it rests on. -/
theorem RestsOn.forall₂_frames (h : s.RestsOn changed base) (hdepth : s.depth = base.depth) :
    List.Forall₂ (Frame.KeptBut changed) base.frames s.frames := by
  obtain ⟨-, inner, outer, hframes, hkept⟩ := h
  have hlength := hkept.length_eq
  simp only [depth, hframes, List.length_append] at hdepth
  obtain rfl : inner = [] := List.eq_nil_of_length_eq_zero (by omega)
  rw [hframes]
  exact hkept

theorem RestsOn.suffix_of_forall_not (h : s.RestsOn changed base)
    (hnone : ∀ name, ¬ changed name) : base.frames <:+ s.frames := by
  obtain ⟨-, inner, outer, hframes, hkept⟩ := h
  obtain rfl : base.frames = outer := by
    rw [← List.forall₂_eq_eq_eq]
    exact hkept.imp fun f g hfg => (hfg.eq_of_forall_not hnone).symm
  exact ⟨inner, hframes.symm⟩

theorem updateTop_eq_ok {f : Frame → Except Fault Frame} (h : s.updateTop f = .ok s')
    {top : Frame} {outer : List Frame} (hframes : s.frames = top :: outer) :
    ∃ top', s' = { s with frames := top' :: outer } := by
  simp only [updateTop, hframes] at h
  obtain ⟨top', -, h⟩ := bind_eq_ok h
  cases h
  exact ⟨top', rfl⟩

theorem forall₂_rebindIn {name : Atom} {value : Value} {frames frames' : List Frame} {index : Nat}
    (hchanged : ∀ other, other.same name = true → changed other)
    (h : rebindIn name value frames = some (index, frames')) :
    List.Forall₂ (Frame.KeptBut changed) frames frames' := by
  induction frames generalizing index frames' with
  | nil => cases h
  | cons frame outer ih =>
    unfold rebindIn at h
    split at h
    · rename_i hname
      cases h
      exact .cons (.bind hname hchanged value) (List.forall₂_same.mpr fun f _ => .refl changed f)
    · obtain ⟨⟨index', outer'⟩, houter, h⟩ := Option.map_eq_some_iff.mp h
      cases h
      exact .cons (.refl changed frame) (ih houter)

/-- Binding a name anew keeps all frames, wherever the name is found. -/
theorem forall₂_rebind {name value : Value}
    (hchanged : ∀ other, name.same (.atom other) = true → changed other)
    (h : (ScopeEdit.rebind name value).apply s = .ok s') :
    s'.name = s.name ∧ List.Forall₂ (Frame.KeptBut changed) s.frames s'.frames := by
  have hrefl : List.Forall₂ (Frame.KeptBut changed) s.frames s.frames :=
    List.forall₂_same.mpr fun f _ => .refl changed f
  cases name with
  | atom a =>
    rw [ScopeEdit.apply, rebind_atom] at h
    cases hin : rebindIn a value s.frames with
    | none =>
      rw [hin] at h
      cases h
      exact ⟨rfl, hrefl⟩
    | some found =>
      rw [hin] at h
      cases h
      refine ⟨rfl, forall₂_rebindIn (fun other hsame => hchanged other ?_) hin⟩
      rw [Value.same_atom, Atom.same_comm]
      exact hsame
  | list items | dict entries =>
    -- A name that cannot be a key is only looked at when there are frames.
    obtain ⟨scopeName, frames⟩ := s
    cases frames with
    | nil =>
      cases h
      exact ⟨rfl, hrefl⟩
    | cons frame outer => cases h

/-- An edit of a scope that has a frame of its own leaves the frames below alone, except that a
name may be bound anew in them. -/
theorem RestsOn.apply (h : s.RestsOn changed base) (hdeep : base.depth < s.depth)
    (edit : ScopeEdit)
    (hchanged : ∀ name value other, edit = .rebind name value → name.same (.atom other) = true →
      changed other)
    (happly : edit.apply s = .ok s') : s'.RestsOn changed base := by
  obtain ⟨hname, inner, outer, hframes, hkept⟩ := h
  have hlength : outer.length = base.depth := hkept.length_eq.symm
  obtain ⟨top, inner, rfl⟩ : ∃ top rest, inner = top :: rest := by
    cases inner with
    | nil =>
      simp only [depth, hframes, List.nil_append] at hdeep hlength
      omega
    | cons top rest => exact ⟨top, rest, rfl⟩
  have htop {f : Frame → Except Fault Frame} (hf : s.updateTop f = .ok s') :
      s'.RestsOn changed base := by
    obtain ⟨top', rfl⟩ := updateTop_eq_ok hf hframes
    exact ⟨hname, top' :: inner, outer, rfl, hkept⟩
  cases edit with
  | enter name =>
    cases happly
    exact ⟨hname, .create name .empty :: top :: inner, outer, by simp [enter, hframes], hkept⟩
  | leave =>
    cases happly
    exact ⟨hname, inner, outer, by simp [leave, hframes], hkept⟩
  | bind name value =>
    obtain ⟨-, -, happly⟩ := bind_eq_ok happly
    exact htop happly
  | setTitle title => exact htop happly
  | addNote note => exact htop happly
  | rebind name value =>
    obtain ⟨hname', hall⟩ := forall₂_rebind (hchanged name value · rfl) happly
    have houter := List.forall₂_drop (top :: inner).length hall
    rw [hframes, List.drop_left] at houter
    refine ⟨hname'.trans hname, _, _, (List.take_append_drop (top :: inner).length _).symm, ?_⟩
    exact forall₂_trans (fun _ _ _ => .trans) hkept houter

end Scope

namespace Instr

/-- The scope key and the name of an instruction that binds a name anew. -/
def rebinding? (i : Instr) : Option (Value × Value) :=
  match i.opcode, i.operands with
  | .rebindAt, [key, name] => some (key, name)
  | .rebind, name :: _ => some (Machine.localKey, name)
  | _, _ => none

/-- An instruction binds a name the same as `name` anew in the scope under `key`. -/
def RebindsAt (i : Instr) (key name : Value) : Prop :=
  ∃ address target, i.rebinding? = some (address, target) ∧ address.same key = true ∧
    target.same name = true

/-- The instructions that enter the scope under `key`. -/
inductive Enters : Instr → Value → Prop
  | named (key name : Value) : Enters (.enterAt key name) key
  | unnamed (name : Value) : Enters (.enter name) Machine.localKey

/-- The instructions that leave the scope under `key`. -/
inductive Leaves : Instr → Value → Prop
  | named (key : Value) : Leaves (.leaveAt key) key
  | unnamed : Leaves .leave Machine.localKey

theorem rebindsAt_of_editAt? {i : Instr} {selected operand key name value other : Value}
    (h : i.editAt? selected operand key = some (.rebind name value))
    (hother : name.same other = true) : i.RebindsAt key other := by
  unfold editAt? at h
  split at h
  · rename_i address edit hedit
    split at h
    · rename_i hsame
      cases h
      refine ⟨address, name, ?_, hsame, hother⟩
      unfold scopeEdit? at hedit
      unfold rebinding?
      split at hedit <;> cases hedit <;> simp [*]
    · cases h
  · cases h

theorem Enters.execute_scope [MemoryLimit] {i : Instr} {key : Value} (hi : i.Enters key)
    {m m' : Machine} (h : i.execute m = .ok m') {s : Scope} (hs : m.scope key = .ok s) :
    ∃ name, m'.scope key = .ok (s.enter name .empty) := by
  have hself := Machine.same_self_of_scope hs
  obtain ⟨operand, s', hs', hedit⟩ := Instr.execute_scope h hs
  obtain ⟨name, hat⟩ : ∃ name, i.editAt? m.scopeKey operand key = some (.enter name) := by
    cases hi with
    | named key name => exact ⟨name, by simp [editAt?, scopeEdit?, enterAt, hself]⟩
    | unnamed name => exact ⟨name, by simp [editAt?, scopeEdit?, enter, hself]⟩
  rw [hat] at hedit
  cases hedit
  exact ⟨name, hs'⟩

theorem Leaves.execute_scope [MemoryLimit] {i : Instr} {key : Value} (hi : i.Leaves key)
    {m m' : Machine} (h : i.execute m = .ok m') {s : Scope} (hs : m.scope key = .ok s) :
    m'.scope key = .ok s.leave := by
  have hself := Machine.same_self_of_scope hs
  obtain ⟨operand, s', hs', hedit⟩ := Instr.execute_scope h hs
  have hat : i.editAt? m.scopeKey operand key = some .leave := by
    cases hi with
    | named key => simp [editAt?, scopeEdit?, leaveAt, hself]
    | unnamed => simp [editAt?, scopeEdit?, leave, hself]
  rw [hat] at hedit
  cases hedit
  exact hs'

end Instr

namespace Machine

variable {changed : Atom → Prop} {key : Value} {base : Scope}

/-- One instruction: a scope with a frame above those of `base` still rests on them afterwards. -/
theorem execute_restsOn [MemoryLimit] {i : Instr} {m m' : Machine} (h : i.execute m = .ok m')
    {s : Scope} (hs : m.scope key = .ok s) (hrests : s.RestsOn changed base)
    (hdeep : base.depth < s.depth)
    (hchanged : ∀ name, i.RebindsAt key (.atom name) → changed name) :
    ∃ s', m'.scope key = .ok s' ∧ s'.RestsOn changed base := by
  obtain ⟨operand, s', hs', hedit⟩ := Instr.execute_scope h hs
  refine ⟨s', hs', ?_⟩
  cases hat : i.editAt? m.scopeKey operand key with
  | none =>
    rw [hat] at hedit
    cases hedit
    exact hrests
  | some edit =>
    rw [hat] at hedit
    refine hrests.apply hdeep edit ?_ hedit
    rintro name value other rfl hsame
    exact hchanged other (Instr.rebindsAt_of_editAt? hat hsame)

/-- A run that stays above the frames of `base` before each of its instructions. -/
theorem run_restsOn [MemoryLimit] {body : List Instr} {m m' : Machine} (h : m.run body = .ok m')
    {s : Scope} (hs : m.scope key = .ok s) (hrests : s.RestsOn changed base)
    (hdeep : ∀ done mid inside, done <+: body → m.run done = .ok mid →
      mid.scope key = .ok inside → base.depth < inside.depth)
    (hchanged : ∀ i ∈ body, ∀ name, i.RebindsAt key (.atom name) → changed name) :
    ∃ s', m'.scope key = .ok s' ∧ s'.RestsOn changed base := by
  induction body generalizing m s with
  | nil =>
    cases h
    exact ⟨s, hs, hrests⟩
  | cons i rest ih =>
    rw [run_cons] at h
    obtain ⟨next, hnext, h⟩ := bind_eq_ok h
    have hstart : base.depth < s.depth := hdeep [] m s (List.nil_prefix) rfl hs
    obtain ⟨s', hs', hrests'⟩ :=
      execute_restsOn hnext hs hrests hstart (hchanged i List.mem_cons_self)
    refine ih h hs' hrests' ?_ fun j hj => hchanged j (List.mem_cons_of_mem i hj)
    intro done mid inside hdone hmid hinside
    refine hdeep (i :: done) mid inside (List.cons_prefix_cons.mpr ⟨rfl, hdone⟩) ?_ hinside
    rw [run_cons, hnext]
    exact hmid

/-- An error-free run from `m` to `m'` that enters the scope under `key`, whose frames are those
of `base`, executes `body` without ever coming down to these frames, and leaves. -/
structure Block [MemoryLimit] (key : Value) (base : Scope) (m : Machine) (opening : Instr)
    (body : List Instr) (closing : Instr) (m' : Machine) : Prop where
  scope_eq : m.scope key = .ok base
  opens : opening.Enters key
  closes : closing.Leaves key
  run_eq : m.run (opening :: body ++ [closing]) = .ok m'
  deeper : ∀ done mid inside, done <+: body → m.run (opening :: done) = .ok mid →
    mid.scope key = .ok inside → base.depth < inside.depth

namespace Block

variable {m m' : Machine} {opening closing : Instr} {body : List Instr}

/-- A name is bound anew in the scope under `key` by an instruction of `body`. -/
def Rebound (body : List Instr) (key : Value) (name : Atom) : Prop :=
  ∃ i ∈ body, i.RebindsAt key (.atom name)

/-- Before the block is left, its scope rests on the frames it had before. -/
theorem inside_restsOn [MemoryLimit] (h : Block key base m opening body closing m') :
    ∃ mid inside, m.run (opening :: body) = .ok mid ∧ mid.scope key = .ok inside ∧
      mid.run [closing] = .ok m' ∧ inside.RestsOn (Rebound body key) base ∧
      base.depth < inside.depth := by
  have hrun := h.run_eq
  rw [run_append] at hrun
  obtain ⟨mid, hmid, hclosing⟩ := bind_eq_ok hrun
  have hbody := hmid
  rw [run_cons] at hbody
  obtain ⟨opened, hopened, hbody⟩ := bind_eq_ok hbody
  obtain ⟨name, hentered⟩ := h.opens.execute_scope hopened h.scope_eq
  have hrests : (base.enter name .empty).RestsOn (Rebound body key) base :=
    ⟨rfl, [.create name .empty], base.frames, rfl,
      List.forall₂_same.mpr fun f _ => .refl _ f⟩
  obtain ⟨inside, hinside, hrests⟩ := run_restsOn hbody hentered hrests
    (fun done middle s hdone hrun hs => h.deeper done middle s hdone
      (by rw [run_cons, hopened]; exact hrun) hs)
    fun i hi name hrebinds => ⟨i, hi, hrebinds⟩
  exact ⟨mid, inside, hmid, hinside, hclosing, hrests,
    h.deeper body mid inside List.prefix_rfl hmid hinside⟩

/-- Leaving a block gives back the frames that were there before it was entered. They are kept but
for names bound anew in their scope, and exactly kept if there are none; above them remain as many
frames as the block has left open. -/
theorem leaves_frames_kept [MemoryLimit] (h : Block key base m opening body closing m') :
    ∃ mid inside final, m.run (opening :: body) = .ok mid ∧ mid.scope key = .ok inside ∧
      m'.scope key = .ok final ∧ final.depth + 1 = inside.depth ∧
      final.RestsOn (Rebound body key) base ∧
      (inside.depth = base.depth + 1 → final.depth = base.depth ∧
        List.Forall₂ (Frame.KeptBut (Rebound body key)) base.frames final.frames) ∧
      ((∀ i ∈ body, ∀ name, ¬ i.RebindsAt key name) →
        base.frames <:+ final.frames ∧ (inside.depth = base.depth + 1 → final = base)) := by
  obtain ⟨mid, inside, hmid, hinside, hclosing, hrests, hdeep⟩ := h.inside_restsOn
  rw [run_cons] at hclosing
  obtain ⟨left, hleft, hclosing⟩ := bind_eq_ok hclosing
  cases hclosing
  have hfinal := h.closes.execute_scope hleft hinside
  have hdepth : inside.leave.depth + 1 = inside.depth := by
    simp only [Scope.leave, Scope.depth, List.length_tail] at hdeep ⊢
    omega
  have hkept : inside.leave.RestsOn (Rebound body key) base :=
    hrests.apply hdeep .leave (fun _ _ _ hne => nomatch hne) rfl
  refine ⟨mid, inside, inside.leave, hmid, hinside, hfinal, hdepth, hkept, ?_, ?_⟩
  · intro hclosed
    have hsame : inside.leave.depth = base.depth := by omega
    exact ⟨hsame, hkept.forall₂_frames hsame⟩
  · intro hnone
    have hsuffix : base.frames <:+ inside.leave.frames := by
      apply hkept.suffix_of_forall_not
      rintro name ⟨i, hi, hrebinds⟩
      exact hnone i hi _ hrebinds
    refine ⟨hsuffix, fun hclosed => ?_⟩
    have hsame : base.depth = inside.leave.depth := by omega
    have hname : inside.leave.name = base.name := hkept.1
    have hframes : base.frames = inside.leave.frames := hsuffix.eq_of_length hsame
    obtain ⟨baseName, baseFrames⟩ := base
    cases hname
    cases hframes
    rfl

/-- A block that binds a name of the frame around it anew, and has a block within it. -/
theorem leaves_frames_kept_nested :
    let around : Frame := (Frame.create (.str "global") .empty).bind (.str "x") (.int 1)
    let base : Scope := { name := localKey, frames := [around] }
    let m : Machine := { Machine.bare with scopeMap := OrderedMap.empty.set (.str "local") base }
    let body : List Instr := [.push (.int 2), .rebind (.str "x"), .enter (.str "b"), .leave]
    ∃ m', Block localKey base m (.enter (.str "a")) body .leave m' ∧
      ∃ final, m'.scope localKey = .ok final ∧ final.depth = base.depth ∧
        List.Forall₂ (Frame.KeptBut (Rebound body localKey)) base.frames final.frames := by
  intro around base m body
  have hblock : Block localKey base m (.enter (.str "a")) body .leave
      ((m.run (.enter (.str "a") :: body ++ [.leave])).toOption.getD m) := by
    refine ⟨rfl, .unnamed _, .unnamed, rfl, ?_⟩
    intro done mid inside hdone hmid hinside
    simp only [body, List.prefix_cons_iff, List.prefix_nil] at hdone
    rcases hdone with rfl | ⟨-, rfl, rfl | ⟨-, rfl, rfl | ⟨-, rfl, rfl | ⟨-, rfl, rfl⟩⟩⟩⟩ <;>
      cases hmid <;> cases hinside <;> decide
  obtain ⟨mid, inside, final, hmid, hinside, hfinal, -, -, hclosed, -⟩ :=
    leaves_frames_kept hblock
  have hdepth : inside.depth = base.depth + 1 := by
    cases hmid
    cases hinside
    rfl
  exact ⟨_, hblock, final, hfinal, hclosed hdepth⟩

/-- A block that enters a second frame and leaves only one does not come back to the frames it
started from, although it never comes down to them either. -/
theorem depth_ne_of_open_frame :
    ∃ base m' final,
      Block localKey base .initial (.enter (.str "a")) [.enter (.str "b")] .leave m' ∧
      m'.scope localKey = .ok final ∧ final.depth ≠ base.depth := by
  refine ⟨_, _, _, ⟨rfl, .unnamed _, .unnamed, rfl, ?_⟩, rfl, by decide⟩
  intro done mid inside hdone hmid hinside
  simp only [List.prefix_cons_iff, List.prefix_nil] at hdone
  rcases hdone with rfl | ⟨-, rfl, rfl⟩ <;> cases hmid <;> cases hinside <;> decide

end Block

end Machine

end ScopeMachine
