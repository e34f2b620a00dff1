import Mathlib.Data.List.Forall2
import ScopeMachine.Proofs.Stack
import ScopeMachine.Proofs.Value.Writable

/-! A stack is what its edits make of a list. Pushing, popping and replacing are told from the list
of the items alone, and so is what a stack answers. The sizes that the cells keep, on which
replacing and comparing rely, are the lengths of that list from each of its places on. -/
namespace ScopeMachine

/-- What is no NaN equals itself, so it does in two places that are one and the same. -/
theorem Cell.equal_of_same {a b : Cell Value} (h : a.same b = true)
    (hitem : a.item.isNaN = false) : a.item.equal b.item = true := by
  rw [Cell.same, Bool.and_eq_true] at h
  exact (Value.equal_eq_same hitem b.item).trans h.2

theorem Fault.isSome_message?_stackIndex_iff {index : Value} :
    (stackIndex index).message?.isSome = true ↔ index.Writable := by
  rw [← Value.isSome_plain?_iff]
  cases hplain : index.plain? <;> simp [message?, hplain]

namespace Stack

variable {α : Type}

/-! ### Indices that are whole numbers -/

section Whole

variable {index : Value} {i : Int}

theorem getAt_of_whole? (h : index.whole? = some i) (s : Stack α) (default : α) :
    s.getAt index default = .ok (s.get i default) := by
  have hnumber := Value.number?_of_whole? h
  rw [getAt, Order.compare_of_numbers (j := 0) .lt hnumber rfl, hnumber]
  rfl

theorem inRange_of_whole? (h : index.whole? = some i) (s : Stack α) :
    s.inRange index = .ok (decide (0 ≤ i ∧ i < s.size)) := by
  have hnumber := Value.number?_of_whole? h
  have hle : (decide (0 < i) || (0 : Int) == i) = decide (0 ≤ i) := by
    rw [Bool.eq_iff_iff, Bool.or_eq_true, decide_eq_true_iff, decide_eq_true_iff, beq_iff_eq]
    omega
  rw [inRange, Order.compare_of_numbers (i := 0) .le rfl hnumber,
    Order.compare_of_numbers (j := s.size) .lt hnumber rfl]
  simp only [Order.decide, hle]
  by_cases hi : 0 ≤ i <;> simp [hi] <;> rfl

theorem exists_replaceAt_of_inside (h : index.whole? = some i) {s : Stack α}
    (hi : 0 ≤ i ∧ i < s.size) (item : α) :
    ∃ t, s.replaceAt index item = .ok t ∧ t.toList = s.toList.set i.toNat item := by
  obtain ⟨n, rfl⟩ := Int.eq_ofNat_of_zero_le hi.1
  have hn : n < s.toList.length := by
    rw [length_toList]
    exact Int.ofNat_lt.mp hi.2
  obtain ⟨t, hreplace, ht⟩ := s.exists_replace?_natCast hn item
  refine ⟨t, ?_, ht⟩
  rw [replaceAt, inRange_of_whole? h, decide_eq_true hi, h]
  simp only [hreplace]
  rfl

theorem replaceAt_of_not_inside (h : index.whole? = some i) {s : Stack α}
    (hi : ¬ (0 ≤ i ∧ i < s.size)) (item : α) :
    s.replaceAt index item = .error (Fault.stackIndex index).raised := by
  rw [replaceAt, inRange_of_whole? h, decide_eq_false hi]
  rfl

end Whole

/-- Replacing needs an index of a kind that counts. -/
theorem exists_error_of_whole?_eq_none {index : Value} (h : index.whole? = none) (s : Stack α)
    (item : α) : ∃ fault, s.replaceAt index item = .error fault := by
  rw [replaceAt, h]
  cases s.inRange index with
  | error fault => exact ⟨fault, rfl⟩
  | ok inside => cases inside <;> exact ⟨_, rfl⟩

/-! ### Edits -/

/-- What makes a stack out of another. -/
inductive Edit (α : Type)
  | push (item : α)
  | pop
  | replace (index : Value) (item : α)
  | sealWith (mark : Nat)

/-- The stack after an edit. A replacement that fails leaves it as it was. -/
def Edit.apply (s : Stack α) : Edit α → Stack α
  | .push item => s.push item
  | .pop => s.pop
  | .replace index item =>
    match s.replaceAt index item with
    | .ok t => t
    | .error _ => s
  | .sealWith mark => s.sealed mark

/-- What an edit does to a list of items, top first. -/
def Edit.onItems (items : List α) : Edit α → List α
  | .push item => item :: items
  | .pop => items.tail
  | .replace index item =>
    match index.whole? with
    | some i => if 0 ≤ i then items.set i.toNat item else items
    | none => items
  | .sealWith _ => items

/-- The stack after one edit after another. -/
def edited (s : Stack α) (edits : List (Edit α)) : Stack α := edits.foldl Edit.apply s

/-- The items after one edit after another. -/
def editedItems (items : List α) (edits : List (Edit α)) : List α := edits.foldl Edit.onItems items

theorem Edit.toList_apply (s : Stack α) (edit : Edit α) :
    (edit.apply s).toList = edit.onItems s.toList := by
  cases edit with
  | push item => rfl
  | pop => exact s.toList_pop
  | sealWith mark => exact s.toList_sealed mark
  | replace index item =>
    rw [apply, onItems]
    cases hindex : index.whole? with
    | none =>
      obtain ⟨fault, hfault⟩ := s.exists_error_of_whole?_eq_none hindex item
      rw [hfault]
    | some i =>
      by_cases hi : 0 ≤ i ∧ i < s.size
      · obtain ⟨t, hreplace, ht⟩ := exists_replaceAt_of_inside hindex hi item
        rw [hreplace]
        exact ht.trans (if_pos hi.1).symm
      · -- Outside of the stack nothing is replaced, and nothing in the list.
        have hkept : (if 0 ≤ i then s.toList.set i.toNat item else s.toList) = s.toList := by
          split
          · apply List.set_eq_of_length_le
            rw [length_toList]
            omega
          · rfl
        rw [replaceAt_of_not_inside hindex hi]
        exact hkept.symm

theorem toList_edited (s : Stack α) (edits : List (Edit α)) :
    (edited s edits).toList = editedItems s.toList edits := by
  induction edits generalizing s with
  | nil => rfl
  | cons edit rest ih =>
    rw [edited, List.foldl_cons, ← edited, ih, Edit.toList_apply]
    rfl

/-! ### What a stack answers -/

/-- The cells hold the items in turn, and each keeps the number of items from it down. -/
theorem cell_getElem? {s : Stack α} {i : Nat} {cell : Cell α} (h : s.cells[i]? = some cell) :
    s.toList[i]? = some cell.item ∧ cell.size = (s.toList.drop i).length := by
  have hitem : s.toList[i]? = some cell.item := by
    rw [toList, List.getElem?_map, h, Option.map_some]
  obtain ⟨hi, rfl⟩ := List.getElem?_eq_some_iff.mp h
  have hsplit : s.cells = s.cells.take i ++ s.cells[i] :: s.cells.drop (i + 1) := by
    rw [List.getElem_cons_drop, List.take_append_drop]
  have hsized := s.sized
  rw [hsplit] at hsized
  refine ⟨hitem, hsized.size_of_append.trans ?_⟩
  rw [List.getElem_cons_drop, toList, List.length_drop, List.length_drop, List.length_map]

theorem pop_of_toList_eq_nil {s : Stack α} (h : s.toList = []) : s.pop = s := by
  have hcells : s.cells = [] := List.map_eq_nil_iff.mp h
  ext1
  change s.cells.tail = s.cells
  rw [hcells, List.tail_nil]

theorem get_eq (s : Stack α) (i : Int) (default : α) :
    s.get i default = if 0 ≤ i then s.toList.getD i.toNat default else default := by
  by_cases hi : 0 ≤ i
  · obtain ⟨n, rfl⟩ := Int.eq_ofNat_of_zero_le hi
    rw [get_natCast, if_pos hi, Int.toNat_natCast, List.getD_eq_getElem?_getD]
  · rw [get, if_pos (Int.not_le.mp hi), if_neg hi]

theorem findIndex_cases (s : Stack α) (p : α → Bool) :
    (∃ i : Nat, s.findIndex p = i ∧ (∃ item, s.toList[i]? = some item ∧ p item = true) ∧
      ∀ j < i, ∀ item, s.toList[j]? = some item → p item = false) ∨
    s.findIndex p = -1 ∧ ∀ item ∈ s.toList, p item = false := by
  cases hfound : s.toList.findIdx? p with
  | none => exact .inr ⟨findIndex_of_none hfound, List.findIdx?_eq_none_iff.mp hfound⟩
  | some i =>
    obtain ⟨hi, hitem, hearlier⟩ := List.findIdx?_eq_some_iff_getElem.mp hfound
    refine .inl ⟨i, findIndex_of_some hfound, ⟨_, List.getElem?_eq_getElem hi, hitem⟩, ?_⟩
    intro j hj item hget
    obtain ⟨hlt, rfl⟩ := List.getElem?_eq_some_iff.mp hget
    exact Bool.eq_false_iff.mpr (hearlier j hj)

/-- A stack without a bare NaN equals those stacks whose items equal its own one by one. Stacks that
are one and the same are no exception. -/
theorem same_iff {s t : Stack Value} (h : ∀ v ∈ s.toList, v.isNaN = false) :
    s.same t = true ↔ List.Forall₂ (fun v w => v.equal w = true) s.toList t.toList := by
  rw [same, Bool.and_eq_true, Bool.or_eq_true, or_iff_right_of_imp, beq_iff_eq,
    List.forall₂_iff_zip, length_toList, length_toList, List.all_eq_true]
  · simp only [Prod.forall]
  · -- Stacks of the same cells have equal items, because no item is NaN.
    intro hsame
    rw [toList, toList, List.zip_map, List.all_map]
    rw [List.all_eq_true] at hsame ⊢
    rintro ⟨a, b⟩ hab
    have hitem : a.item ∈ s.toList := List.mem_map_of_mem (List.of_mem_zip hab).1
    exact Cell.equal_of_same (hsame (a, b) hab) (h a.item hitem)

/-- A stack that is made of a list of items and edited then follows the list that the same edits
make of the items, which are reversed at first because the last one lies on top. Its cells hold the
items of that list, and each keeps the number of items from it down. Pushing puts an item in front
of the list and popping drops the first; an empty stack stays as it is. Replacing puts an item at
its place in the list, and an index outside of the list is refused: with the fault that tells the
index, or with the one that it cannot be told if it is too long to be written. Getting gives the
item at a place of the list, or else the default; searching gives the first place with an item that
is looked for, or -1. A stack without a bare NaN equals another if and only if their items are equal
one by one. -/
theorem stack_follows_list (start : List α) (edits : List (Edit α)) :
    let s := edited (ofItems start) edits
    let items := editedItems start.reverse edits
    s.toList = items ∧ s.size = items.length ∧
    (∀ (i : Nat) cell, s.cells[i]? = some cell →
      items[i]? = some cell.item ∧ cell.size = (items.drop i).length) ∧
    (∀ item, (s.push item).toList = item :: items) ∧
    s.pop.toList = items.tail ∧ (items = [] → s.pop = s) ∧
    (∀ index (i : Int) item, index.whole? = some i →
      (0 ≤ i ∧ i < items.length →
        ∃ t, s.replaceAt index item = .ok t ∧ t.toList = items.set i.toNat item) ∧
      (¬ (0 ≤ i ∧ i < items.length) →
        (index.Writable → s.replaceAt index item = .error (.stackIndex index)) ∧
        (¬ index.Writable → s.replaceAt index item = .error .digitLimit))) ∧
    (∀ index (i : Int) default, index.whole? = some i →
      s.getAt index default = .ok (if 0 ≤ i then items.getD i.toNat default else default)) ∧
    (∀ p : α → Bool,
      (∃ i : Nat, s.findIndex p = i ∧ (∃ item, items[i]? = some item ∧ p item = true) ∧
        ∀ j < i, ∀ item, items[j]? = some item → p item = false) ∨
      s.findIndex p = -1 ∧ ∀ item ∈ items, p item = false) ∧
    ∀ t u : Stack Value, (∀ v ∈ t.toList, v.isNaN = false) →
      (t.same u = true ↔ List.Forall₂ (fun v w => v.equal w = true) t.toList u.toList) := by
  intro s items
  have hitems : s.toList = items := by rw [toList_edited, toList_ofItems]
  have hsize : s.size = items.length := by rw [← hitems, length_toList]
  refine ⟨hitems, hsize, ?_, ?_, ?_, ?_, ?_, ?_, ?_, fun t u => same_iff⟩
  · intro i cell hcell
    rw [← hitems]
    exact cell_getElem? hcell
  · intro item
    rw [toList_push, hitems]
  · rw [toList_pop, hitems]
  · intro hempty
    exact pop_of_toList_eq_nil (hitems.trans hempty)
  · intro index i item hindex
    rw [← hitems, length_toList]
    refine ⟨fun hi => exists_replaceAt_of_inside hindex hi item, fun hi => ?_⟩
    have hrefused := replaceAt_of_not_inside hindex hi item
    rw [← Fault.isSome_message?_stackIndex_iff]
    constructor
    · intro hmessage
      rw [hrefused, Fault.raised_of_message? hmessage]
    · intro hmessage
      rw [hrefused, Fault.raised_of_not_message? hmessage]
  · intro index i default hindex
    rw [getAt_of_whole? hindex, get_eq, hitems]
  · intro p
    rw [← hitems]
    exact s.findIndex_cases p

/-- An item is pushed, another replaced below it, the first popped again, and a replacement above
the top fails. What is left equals a stack that has the number 1 where it holds *true*. -/
theorem stack_follows_list_replaced :
    let edits : List (Edit Value) :=
      [.push (.int 7), .replace (.int 2) (.str "y"), .pop, .replace (.int (-1)) .null]
    let s := edited (ofItems [.int 1, .str "x", .bool true]) edits
    let t : Stack Value := ofItems [.int 1, .str "y", .int 1]
    s.toList = [.bool true, .str "y", .int 1] ∧ s.getAt (.bool true) .null = .ok (.str "y") ∧
      s.replaceAt (.int 3) .null = .error (.stackIndex (.int 3)) ∧ s.same t = true := by
  intro edits s t
  obtain ⟨hitems, -, -, -, -, -, hreplace, hget, -, hsame⟩ :=
    stack_follows_list [.int 1, .str "x", .bool true] edits
  have hlist : s.toList = [.bool true, .str "y", .int 1] := hitems.trans rfl
  have hshort : Numeral.valueOf [3] < Numeral.tooLong :=
    Numeral.valueOf_lt_tooLong (by decide) (by decide)
  have hwritable : (Value.int 3).Writable :=
    Value.writable_atom.mpr (Atom.writable_signed false hshort)
  have hnumbers : ∀ v ∈ s.toList, v.isNaN = false := by
    rw [hlist]
    decide
  refine ⟨hlist, (hget (.bool true) 1 .null rfl).trans rfl, ?_, ?_⟩
  · exact ((hreplace (.int 3) 3 .null rfl).2 (by decide)).1 hwritable
  · rw [hsame s t hnumbers, hlist]
    exact .cons (by decide +kernel) (.cons (by decide +kernel) (.cons (by decide +kernel) .nil))

/-- An index outside of the stack is refused for its length where it is too long to be written. -/
theorem overlong_index_refused :
    let s : Stack Value := ofItems [.int 1]
    let index : Value := .int Numeral.tooLong
    index.whole? = some (Numeral.tooLong : Int) ∧ (s.toList.length : Int) ≤ Numeral.tooLong ∧
      s.replaceAt index (.int 2) = .error .digitLimit := by
  intro s index
  have hone : Numeral.valueOf [1] < Numeral.tooLong :=
    Numeral.valueOf_lt_tooLong (by decide) (by decide)
  have hlength : (s.toList.length : Int) ≤ Numeral.tooLong := Int.ofNat_le.mpr (Nat.le_of_lt hone)
  have houtside : ¬ (0 ≤ (Numeral.tooLong : Int) ∧ (Numeral.tooLong : Int) < s.size) := by
    rw [length_toList] at hlength
    omega
  refine ⟨rfl, hlength, ?_⟩
  rw [replaceAt_of_not_inside rfl houtside, Fault.raised_of_not_message?]
  rw [Fault.isSome_message?_stackIndex_iff, Value.writable_atom]
  exact Atom.not_writable_tooLong

end Stack

end ScopeMachine
