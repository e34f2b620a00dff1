import Mathlib.Data.Nat.Digits.Defs
import ScopeMachine.Proofs.Text.Parts
import ScopeMachine.Value.Text

/-! Which values can be written. An integer with more digits than `Numeral.digitLimit` cannot, and a
value that holds one cannot either. What was read from no more digits than that can be written
again. -/
namespace ScopeMachine

namespace Numeral

theorem valueOf_eq_ofDigits (digits : List Nat) :
    valueOf digits = Nat.ofDigits 10 digits.reverse := by
  rw [valueOf, Nat.ofDigits_eq_foldr, List.foldr_reverse]
  simp only [Nat.cast_id, Nat.add_comm]

/-- A number is too long to be written only if it takes more than `digitLimit` digits to spell. -/
theorem valueOf_lt_tooLong {digits : List Nat} (hdigits : ∀ d ∈ digits, d < 10)
    (hlength : digits.length ≤ digitLimit) : valueOf digits < tooLong := by
  have hlt : Nat.ofDigits 10 digits.reverse < 10 ^ digits.reverse.length :=
    Nat.ofDigits_lt_base_pow_length (by decide) (by simpa using hdigits)
  rw [List.length_reverse] at hlt
  rw [valueOf_eq_ofDigits]
  unfold tooLong
  -- For any limit, so that the power is not computed.
  generalize digitLimit = limit at hlength ⊢
  exact lt_of_lt_of_le hlt (Nat.pow_le_pow_right (by decide) hlength)

theorem valueOf_asciiDigits_lt {cs : List Char} (hdigits : ∀ c ∈ cs, Text.isAsciiDigit c = true)
    (hlength : cs.length ≤ digitLimit) : valueOf (cs.map Text.asciiDigitValue) < tooLong := by
  refine valueOf_lt_tooLong ?_ (by rwa [List.length_map])
  intro d hd
  obtain ⟨c, hc, rfl⟩ := List.mem_map.mp hd
  exact Text.asciiDigitValue_lt (hdigits c hc)

theorem valueOf_replicate_nine (n : Nat) : valueOf (List.replicate n 9) + 1 = Nat.pow 10 n := by
  induction n with
  | zero => rfl
  | succ n ih =>
    have hpow : Nat.pow 10 (n + 1) = 10 * Nat.pow 10 n := Nat.pow_succ'
    rw [hpow, ← ih, List.replicate_succ', valueOf, List.foldl_append, ← valueOf]
    simp only [List.foldl_cons, List.foldl_nil]
    omega

theorem valueOf_nines : valueOf (List.replicate digitLimit 9) + 1 = tooLong := by
  unfold tooLong
  exact valueOf_replicate_nine digitLimit

end Numeral

def Atom.Writable (a : Atom) : Prop := a.literal?.isSome = true

def Value.Writable (v : Value) : Prop := v.literal?.isSome = true

namespace Atom

theorem writable_iff {a : Atom} :
    a.Writable ↔ ∀ i : Int, a = .int i → i.natAbs < Numeral.tooLong := by
  cases a with
  | int i =>
    unfold Writable literal? Numeral.ofInt?
    by_cases hlt : i.natAbs < Numeral.tooLong <;> simp [hlt]
  | bool b => cases b <;> simp [Writable, literal?]
  | null | float x | str s | codes points => simp [Writable, literal?]

theorem exists_int_of_not_writable {a : Atom} (h : ¬ a.Writable) :
    ∃ i : Int, a = .int i ∧ Numeral.tooLong ≤ i.natAbs := by
  by_contra hnone
  refine h (writable_iff.mpr fun i hi => ?_)
  exact Nat.lt_of_not_le fun hlong => hnone ⟨i, hi, hlong⟩

theorem writable_str (s : String) : (Atom.str s).Writable := rfl

theorem writable_signed (negative : Bool) {n : Nat} (h : n < Numeral.tooLong) :
    (Atom.int (if negative then -(n : Int) else n)).Writable := by
  rw [writable_iff]
  rintro _ ⟨⟩
  cases negative <;> simpa using h

theorem not_writable_tooLong : ¬ (Atom.int Numeral.tooLong).Writable := by
  intro h
  have hshort := writable_iff.mp h _ rfl
  rw [Int.natAbs_natCast] at hshort
  exact Nat.lt_irrefl _ hshort

theorem Writable.plain? {a : Atom} (h : a.Writable) : a.plain?.isSome = true := by
  cases a with
  | str s => rfl
  | codes points => rfl
  | null | bool b | int i | float x => exact h

end Atom

namespace Value

theorem isSome_itemLiterals?_iff {items : List Value} :
    (itemLiterals? items).isSome = true ↔ ∀ v ∈ items, v.Writable := by
  induction items with
  | nil => simp [itemLiterals?]
  | cons v rest ih =>
    rw [List.forall_mem_cons, ← ih]
    cases hv : v.literal? <;> cases hrest : itemLiterals? rest <;>
      simp [itemLiterals?, Writable, hv, hrest]

theorem isSome_entryLiterals?_iff {entries : List (Atom × Value)} :
    (entryLiterals? entries).isSome = true ↔ ∀ e ∈ entries, e.1.Writable ∧ e.2.Writable := by
  induction entries with
  | nil => simp [entryLiterals?]
  | cons entry rest ih =>
    obtain ⟨k, v⟩ := entry
    rw [List.forall_mem_cons, ← ih]
    cases hk : k.literal? <;> cases hv : v.literal? <;> cases hrest : entryLiterals? rest <;>
      simp [entryLiterals?, Writable, Atom.Writable, hk, hv, hrest]

@[simp] theorem writable_atom {a : Atom} : (Value.atom a).Writable ↔ a.Writable := by
  simp [Writable, Atom.Writable, literal?]

@[simp] theorem writable_list {items : List Value} :
    (Value.list items).Writable ↔ ∀ v ∈ items, v.Writable := by
  rw [← isSome_itemLiterals?_iff]
  simp [Writable, literal?]

@[simp] theorem writable_dict {entries : List (Atom × Value)} :
    (Value.dict entries).Writable ↔ ∀ e ∈ entries, e.1.Writable ∧ e.2.Writable := by
  rw [← isSome_entryLiterals?_iff]
  simp [Writable, literal?]

theorem Writable.plain? {v : Value} (h : v.Writable) : v.plain?.isSome = true := by
  cases v with
  | atom a => exact (writable_atom.mp h).plain?
  | list items => exact h
  | dict entries => exact h

theorem isSome_plain?_iff {v : Value} : v.plain?.isSome = true ↔ v.Writable := by
  refine ⟨fun h => ?_, Writable.plain?⟩
  cases v with
  | atom a =>
    cases a with
    | str s | codes points => rfl
    | null | bool b | int i | float x => exact h
  | list items | dict entries => exact h

/-- Every atom in a value satisfies `p`, the keys of tables included. -/
inductive Every (p : Atom → Prop) : Value → Prop
  | atom {a : Atom} (h : p a) : Every p (.atom a)
  | list {items : List Value} (h : ∀ v ∈ items, Every p v) : Every p (.list items)
  | dict {entries : List (Atom × Value)} (hkeys : ∀ e ∈ entries, p e.1)
      (hvalues : ∀ e ∈ entries, Every p e.2) : Every p (.dict entries)

theorem Every.imp {p q : Atom → Prop} (hpq : ∀ a, p a → q a) {v : Value} (h : v.Every p) :
    v.Every q := by
  induction h with
  | atom h => exact .atom (hpq _ h)
  | list _ ih => exact .list ih
  | dict hkeys _ ih => exact .dict (fun e he => hpq _ (hkeys e he)) ih

@[simp] theorem every_atom {p : Atom → Prop} {a : Atom} : (Value.atom a).Every p ↔ p a :=
  ⟨fun h => by cases h; assumption, .atom⟩

@[simp] theorem every_list {p : Atom → Prop} {items : List Value} :
    (Value.list items).Every p ↔ ∀ v ∈ items, v.Every p :=
  ⟨fun h => by cases h; assumption, .list⟩

@[simp] theorem every_dict {p : Atom → Prop} {entries : List (Atom × Value)} :
    (Value.dict entries).Every p ↔ ∀ e ∈ entries, p e.1 ∧ e.2.Every p := by
  constructor
  · intro h
    cases h with
    | dict hkeys hvalues => exact fun e he => ⟨hkeys e he, hvalues e he⟩
  · exact fun h => .dict (fun e he => (h e he).1) fun e he => (h e he).2

/-- A value can be written if all its atoms can. -/
theorem Every.writable {v : Value} (h : v.Every Atom.Writable) : v.Writable := by
  induction h with
  | atom h => exact writable_atom.mpr h
  | list _ ih => exact writable_list.mpr ih
  | dict hkeys _ ih => exact writable_dict.mpr fun e he => ⟨hkeys e he, ih e he⟩

end Value

end ScopeMachine
