import ScopeMachine.Stack

/-! Searching a stack and replacing an item on it, told from the list of its items. -/
namespace ScopeMachine.Stack

variable {α : Type}

theorem itemsAbove_eq_findIdx? (p : α → Bool) (items : List α) :
    itemsAbove p items = items.findIdx? p := by
  induction items with
  | nil => rfl
  | cons item rest ih => rw [itemsAbove, List.findIdx?_cons, ih]

theorem findIndex_of_none {s : Stack α} {p : α → Bool} (h : s.toList.findIdx? p = none) :
    s.findIndex p = -1 := by
  simp only [findIndex, itemsAbove_eq_findIdx?, h]

theorem findIndex_of_some {s : Stack α} {p : α → Bool} {i : Nat}
    (h : s.toList.findIdx? p = some i) : s.findIndex p = i := by
  simp only [findIndex, itemsAbove_eq_findIdx?, h]

theorem itemBelow_eq_getD (default : α) (index : Nat) (cells : List (Cell α)) :
    itemBelow default index cells = (cells.map Cell.item)[index]?.getD default := by
  induction cells generalizing index with
  | nil => simp [itemBelow]
  | cons cell rest ih => cases index <;> simp [itemBelow, ih]

theorem get_natCast (s : Stack α) (i : Nat) (default : α) :
    s.get i default = s.toList[i]?.getD default := by
  have hi : ¬ (i : Int) < 0 := by omega
  simp only [get, if_neg hi, Int.toNat_natCast, itemBelow_eq_getD, toList]

/-- The items are taken off from the top of the list, and the cells below them are left. -/
theorem exists_takeOff? {s : Stack α} {count : Nat} (h : count ≤ s.size) (taken : List α) :
    ∃ rest, s.takeOff? count taken = some ((s.toList.take count).reverse ++ taken, rest) ∧
      rest.cells = s.cells.drop count := by
  induction count generalizing s taken with
  | zero => exact ⟨s, rfl, rfl⟩
  | succ count ih =>
    obtain ⟨cells, hsized⟩ := s
    cases cells with
    | nil => cases h
    | cons cell below =>
      have hbelow : count ≤ (Stack.mk below hsized.2).size := by
        rw [size_eq] at h ⊢
        exact Nat.le_of_succ_le_succ h
      obtain ⟨rest, htake, hrest⟩ := ih hbelow (cell.item :: taken)
      refine ⟨rest, htake.trans ?_, hrest⟩
      simp [toList]

theorem exists_replace?_natCast (s : Stack α) {i : Nat} (h : i < s.toList.length) (item : α) :
    ∃ t, s.replace? i item = some t ∧ t.toList = s.toList.set i item := by
  have hsize : i < s.size := by rwa [length_toList] at h
  have hi : 0 ≤ (i : Int) ∧ (i : Int) < s.size := by omega
  obtain ⟨rest, htake, hrest⟩ := exists_takeOff? (Nat.le_of_lt hsize) []
  have hbelow : rest.toList.tail = s.toList.drop (i + 1) := by
    rw [toList, hrest, toList, List.map_drop, List.tail_drop]
  have hreplace : s.replace? i item =
      some (((s.toList.take i).reverse ++ []).foldl push (rest.pop.push item)) := by
    rw [replace?, if_pos hi, Int.toNat_natCast, htake]
    rfl
  refine ⟨_, hreplace, ?_⟩
  rw [toList_foldl_push, toList_push, toList_pop, hbelow, List.append_nil, List.reverse_reverse,
    List.set_eq_take_append_cons_drop, if_pos h]

end ScopeMachine.Stack
