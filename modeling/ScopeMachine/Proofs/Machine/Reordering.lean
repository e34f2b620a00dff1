import ScopeMachine.Proofs.Machine.Likeness
import ScopeMachine.Proofs.OrderedMap

/-! The order in which containers, bindings and properties are listed. It is kept for display only:
machines that differ in nothing else run alike. -/
namespace ScopeMachine

/-- Maps hold the same entries in whatever order. If `strict` is not set, one key may also be
spelled in two ways. -/
def Likeness.reordering (strict : Bool) : Likeness where
  maps r m n := m.Reordered strict r n
  titles _ title title' := title = title'
  maps_empty _ := OrderedMap.reordered_empty
  maps_get? h key := h.get? key
  maps_set h key _ _ hvalue := h.set key hvalue
  titles_refl _ _ := rfl

namespace Machine

/-- The machines have the same pointers and, as maps, the same scopes, stacks and properties. The
scopes have the same frames, which have the same names, titles and notes and, as maps, the same
bindings and labels; the stacks have the same items. -/
def Similar (strict : Bool) (a b : Machine) : Prop := (Likeness.reordering strict).MachinesAlike a b

/-- No program brings the order of a map to light. -/
theorem sameOutcome_of_similar [MemoryLimit] {strict : Bool} {a b : Machine}
    (h : a.Similar strict b) (program : List Instr) : SameOutcome (Similar strict) a b program :=
  Likeness.sameOutcome h program

/-- Two machines that list the same scopes, stacks, properties and bindings in opposite orders. The
program binds in one frame, looks up in another and fails in the end. -/
theorem sameOutcome_of_similar_swapped :
    let frames (binds labels : List (Atom × Value)) : List Frame :=
      [⟨.str "global", ⟨binds⟩, .null, [.str "first"], ⟨labels⟩⟩]
    let a : Machine :=
      { scopeMap := ⟨[
          (.str "local", ⟨localKey, frames [(.str "x", .int 1), (.str "y", .int 2)]
            [(.str "hue", .null), (.str "row", .int 3)]⟩),
          (.str "dyn", ⟨.str "dyn", []⟩)]⟩
        stackMap := ⟨[(.str "data", .empty), (.str "aux", .ofItems [.int 4])]⟩
        props := ⟨[(.str "l", .int 1), (.str "m", .int 2)]⟩ }
    let b : Machine :=
      { scopeMap := ⟨[
          (.str "dyn", ⟨.str "dyn", []⟩),
          (.str "local", ⟨localKey, frames [(.str "y", .int 2), (.str "x", .int 1)]
            [(.str "row", .int 3), (.str "hue", .null)]⟩)]⟩
        stackMap := ⟨[(.str "aux", .ofItems [.int 4]), (.str "data", .empty)]⟩
        props := ⟨[(.str "m", .int 2), (.str "l", .int 1)]⟩ }
    let program : List Instr := [.find (.str "x"), .bind (.str "z"), .setProp (.str "l") (.int 7),
      .enterAt (.str "dyn") (.str "inner"), .find (.str "y"), .rebind (.str "x"),
      .findAt (.str "dyn") (.str "x")]
    a.Similar true b ∧ SameOutcome (Similar true) a b program := by
  intro frames a b program
  have hswap {α : Type} {r : α → α → Prop} {k k' : String} (hne : k ≠ k') {v v' w w' : α}
      (hv : r v w) (hv' : r v' w') : OrderedMap.Reordered true r
        ⟨[(.str k, v), (.str k', v')]⟩ ⟨[(.str k', w'), (.str k, w)]⟩ := by
    refine ⟨?_, ⟨[(.str k', v'), (.str k, v)]⟩, .swap .., ?_⟩
    · simp [OrderedMap.Distinct, OrderedMap.keys, hne]
    · exact .cons ⟨.inl rfl, hv'⟩ (.cons ⟨.inl rfl, hv⟩ .nil)
  have hsimilar : a.Similar true b :=
    { scopeKey_eq := rfl
      stackKey_eq := rfl
      scopeMap := by
        apply hswap (by decide)
        · exact ⟨rfl, .cons ⟨rfl, hswap (by decide) rfl rfl, rfl, rfl,
            hswap (by decide) rfl rfl⟩ .nil⟩
        · exact ⟨rfl, .nil⟩
      stackMap := hswap (by decide) rfl rfl
      props := hswap (by decide) rfl rfl }
  exact ⟨hsimilar, sameOutcome_of_similar hsimilar program⟩

end Machine

end ScopeMachine
