import ScopeMachine.Machine.Snapshot
import ScopeMachine.Proofs.Machine.Likeness
import ScopeMachine.Proofs.OrderedMap

/-! What a snapshot shows of a machine. It lists every container, every binding and every item in
order and under its own key, and loses one thing only: a frame whose title is its own name looks
like one without a title. Since no instruction reads a title, machines that look alike stay alike
whatever is run on them. -/
namespace ScopeMachine

/-- Maps agree entry by entry. A title that was left unset passes for one that repeats the name of
the frame. -/
def Likeness.unsetTitles : Likeness where
  maps r m n := m.Entrywise true r n
  titles name title title' :=
    title = title' ∨ (title = .null ∧ title' = name) ∨ (title = name ∧ title' = .null)
  maps_empty _ := .nil
  maps_get? h key := h.get? key
  maps_set h key _ _ hvalue := h.set key hvalue
  titles_refl _ _ := .inl rfl

open Likeness (unsetTitles)

theorem Frame.shownTitle_of_null {f : Frame} (h : f.title = .null) : f.shownTitle = f.name := by
  simp [shownTitle, h]

theorem Frame.shownTitle_of_ne_null {f : Frame} (h : f.title ≠ .null) : f.shownTitle = f.title := by
  unfold shownTitle
  split
  · next hnull => exact absurd hnull h
  · rfl

theorem Frame.shownTitle_eq_iff {f g : Frame} (hname : f.name = g.name) :
    f.shownTitle = g.shownTitle ↔ unsetTitles.titles f.name f.title g.title := by
  by_cases hf : f.title = .null <;> by_cases hg : g.title = .null
  · simp [shownTitle_of_null hf, shownTitle_of_null hg, unsetTitles, hf, hg, hname]
  · simp [shownTitle_of_null hf, shownTitle_of_ne_null hg, unsetTitles, hf, hg, Ne.symm hg, eq_comm]
  · simp [shownTitle_of_ne_null hf, shownTitle_of_null hg, unsetTitles, hf, hg, hname]
  · simp [shownTitle_of_ne_null hf, shownTitle_of_ne_null hg, unsetTitles, hf, hg]

theorem Frame.snapshot_eq_iff {f g : Frame} :
    f.snapshot = g.snapshot ↔ unsetTitles.FramesAlike f g := by
  have hmaps (m n : OrderedMap Value) : unsetTitles.maps Eq m n ↔ m.entries = n.entries :=
    OrderedMap.entrywise_eq_iff
  constructor
  · intro h
    simp only [Frame.snapshot, Value.dict.injEq, List.cons.injEq, Prod.mk.injEq, true_and,
      and_true, Value.list.injEq] at h
    obtain ⟨hname, htitle, hbinds, hnotes, hmeta⟩ := h
    exact ⟨hname, (hmaps _ _).mpr hbinds, (shownTitle_eq_iff hname).mp htitle, hnotes,
      (hmaps _ _).mpr hmeta⟩
  · rintro ⟨hname, hbinds, htitle, hnotes, hmeta⟩
    rw [hmaps] at hbinds hmeta
    rw [← shownTitle_eq_iff hname] at htitle
    simp only [Frame.snapshot, hname, hbinds, htitle, hnotes, hmeta]

theorem Scope.snapshot_eq_iff {s t : Scope} :
    s.snapshot = t.snapshot ↔ unsetTitles.ScopesAlike s t := by
  have hframes : s.frames.map Frame.snapshot = t.frames.map Frame.snapshot ↔
      List.Forall₂ unsetTitles.FramesAlike s.frames t.frames := by
    rw [← List.forall₂_eq_eq_eq, List.forall₂_map_left_iff, List.forall₂_map_right_iff]
    simp only [Frame.snapshot_eq_iff]
  constructor
  · intro h
    simp only [Scope.snapshot, Value.dict.injEq, List.cons.injEq, Prod.mk.injEq, true_and,
      and_true, Value.list.injEq] at h
    exact ⟨h.1, hframes.mp h.2⟩
  · rintro ⟨hname, hlike⟩
    rw [← hframes] at hlike
    simp only [Scope.snapshot, hname, hlike]

namespace Machine

theorem snapshot_eq_iff {a b : Machine} :
    a.snapshot = b.snapshot ↔ unsetTitles.MachinesAlike a b := by
  have hscopes : unsetTitles.maps unsetTitles.ScopesAlike a.scopeMap b.scopeMap ↔
      (a.scopeMap.mapValues Scope.snapshot).entries =
        (b.scopeMap.mapValues Scope.snapshot).entries := by
    rw [← OrderedMap.entrywise_iff_mapValues]
    simp only [Scope.snapshot_eq_iff]
    rfl
  have hstacks : unsetTitles.maps (fun s t => s.toList = t.toList) a.stackMap b.stackMap ↔
      (a.stackMap.mapValues fun stack => Value.list stack.toList).entries =
        (b.stackMap.mapValues fun stack => Value.list stack.toList).entries := by
    rw [← OrderedMap.entrywise_iff_mapValues]
    simp only [Value.list.injEq]
    rfl
  have hprops : unsetTitles.maps Eq a.props b.props ↔ a.props.entries = b.props.entries :=
    OrderedMap.entrywise_eq_iff
  constructor
  · intro h
    simp only [snapshot, Value.dict.injEq, List.cons.injEq, Prod.mk.injEq, true_and, and_true] at h
    obtain ⟨hscopeKey, hstackKey, hscopesEq, hstacksEq, hpropsEq⟩ := h
    exact ⟨hscopeKey, hstackKey, hscopes.mpr hscopesEq, hstacks.mpr hstacksEq,
      hprops.mpr hpropsEq⟩
  · rintro ⟨hscopeKey, hstackKey, hscopesAlike, hstacksAlike, hpropsAlike⟩
    have hscopesEq := hscopes.mp hscopesAlike
    have hstacksEq := hstacks.mp hstacksAlike
    simp only [OrderedMap.mapValues] at hscopesEq hstacksEq
    simp only [snapshot, hscopeKey, hstackKey, hscopesEq, hstacksEq, hprops.mp hpropsAlike]

/-- What is seen of a machine determines what becomes of it. The snapshot leaves open only whether
a title was set to the name of its frame, and no program brings that to light: from machines that
look alike it stops at the same instruction with the same fault, or ends in machines that look
alike. -/
theorem snapshot_determines [MemoryLimit] (a b : Machine) :
    (a.snapshot = b.snapshot ↔ unsetTitles.MachinesAlike a b) ∧
    (a.snapshot = b.snapshot → ∀ program,
      SameOutcome (fun a' b' => a'.snapshot = b'.snapshot) a b program) := by
  constructor
  · exact snapshot_eq_iff
  · intro h program
    have hruns := Likeness.sameOutcome (snapshot_eq_iff.mp h) program
    exact hruns.mono fun _ _ => snapshot_eq_iff.mpr

/-- The initial machine looks like one whose only frame, `global`, was given that title, also after
a program that fails in the end. -/
theorem snapshot_determines_titled :
    let titled : Machine := { initial with
      scopeMap := OrderedMap.empty.set (.str "local")
        { name := localKey
          frames := [(Frame.create (.str "global") .empty).setTitle (.str "global")] } }
    let program : List Instr := [.push (.int 1), .bind (.str "x"), .find (.str "x"), .addFrameNote,
      .find (.str "y")]
    initial.snapshot = titled.snapshot ∧
      SameOutcome (fun a b => a.snapshot = b.snapshot) initial titled program := by
  intro titled program
  have hlook : initial.snapshot = titled.snapshot := rfl
  exact ⟨hlook, (snapshot_determines initial titled).2 hlook program⟩

end Machine

end ScopeMachine
