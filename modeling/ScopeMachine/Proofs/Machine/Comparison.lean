import Mathlib.Data.List.Lex
import ScopeMachine.Proofs.Json.Quoted
import ScopeMachine.Proofs.Machine.Postfix

/-! The six comparisons on truth values, whole numbers and texts. To the order a truth value is the
number it counts as, but equality keeps the two apart. So a truth value and that number are
*mixed*: none of less, equal and greater holds of them. Of any other two operands that have an order
exactly one holds. -/
namespace ScopeMachine

namespace Value

/-- Truth values, whole numbers and texts. A text is given by code points only where characters do
not do. -/
inductive Comparable : Value → Prop
  | bool (b : Bool) : Comparable (.bool b)
  | int (i : Int) : Comparable (.int i)
  | str (s : String) : Comparable (.str s)
  | codes {points : List Nat} (h : Atom.ofCodes points = .codes points) :
    Comparable (.atom (.codes points))

/-- One operand is a truth value, the other the number it counts as. -/
def Mixed (x y : Value) : Prop :=
  ∃ b : Bool, (x = .bool b ∧ y = .int (if b then 1 else 0)) ∨
    (x = .int (if b then 1 else 0) ∧ y = .bool b)

variable {x y : Value} {i j : Int} {p q : List Nat}

theorem alike_iff_eq (hx : x.Comparable) (hy : y.Comparable) : x.alike y = true ↔ x = y := by
  cases hx <;> cases hy <;>
    simp [alike, equal, isNaN, Atom.same, Atom.sense?, Atom.place?, Place.ofInt_inj]

theorem Comparable.number_or_text (h : x.Comparable) :
    (∃ i, x.number? = some (.int i)) ∨ x.number? = none ∧ ∃ p, x.codePoints? = some p := by
  cases h with
  | bool b => exact .inl ⟨_, rfl⟩
  | int i => exact .inl ⟨i, rfl⟩
  | str s => exact .inr ⟨rfl, _, rfl⟩
  | codes h => exact .inr ⟨rfl, _, rfl⟩

theorem number?_eq_int_iff :
    x.number? = some (.int i) ↔ x = .int i ∨ ∃ b : Bool, x = .bool b ∧ i = if b then 1 else 0 := by
  cases x with
  | atom a => cases a <;> simp [number?, eq_comm]
  | list items | dict entries => simp [number?]

/-- The same number is written in two ways only if one of them is a truth value. -/
theorem eq_iff_of_number? (hi : x.number? = some (.int i)) (hj : y.number? = some (.int j)) :
    i = j ↔ x = y ∨ x.Mixed y := by
  rcases number?_eq_int_iff.mp hi with rfl | ⟨b, rfl, rfl⟩
  · rcases number?_eq_int_iff.mp hj with rfl | ⟨c, rfl, rfl⟩
    · simp [Mixed]
    · cases c <;> simp [Mixed]
  · rcases number?_eq_int_iff.mp hj with rfl | ⟨c, rfl, rfl⟩
    · cases b <;> simp [Mixed, eq_comm]
    · cases b <;> cases c <;> simp [Mixed]

/-- A text is known by its code points. -/
theorem Comparable.eq_ofCodes (h : x.Comparable) (hp : x.codePoints? = some p) :
    x = .atom (.ofCodes p) := by
  cases h with
  | bool b | int i => cases hp
  | str s =>
    cases hp
    rw [Json.ofCodes_toList]
  | codes h =>
    cases hp
    rw [h]

theorem eq_iff_of_codePoints? (hx : x.Comparable) (hy : y.Comparable)
    (hp : x.codePoints? = some p) (hq : y.codePoints? = some q) : p = q ↔ x = y := by
  constructor
  · rintro rfl
    rw [hx.eq_ofCodes hp, hy.eq_ofCodes hq]
  · rintro rfl
    exact Option.some.inj (hp.symm.trans hq)

theorem not_mixed_of_number? (h : x.number? = none) : ¬ x.Mixed y := by
  rintro ⟨b, ⟨rfl, -⟩ | ⟨rfl, -⟩⟩ <;> cases h

end Value

/-! ### The order of two operands -/

/-- Of two things in a linear order exactly one of less, equal and greater holds. -/
theorem count_lt_eq_gt {α : Type} [LinearOrder α] (a b : α) {less equal more : Bool}
    (hless : less = true ↔ a < b) (hequal : equal = true ↔ a = b) (hmore : more = true ↔ b < a) :
    [less, equal, more].count true = 1 := by
  rcases lt_trichotomy a b with h | h | h
  · rw [hless.mpr h, Bool.eq_false_iff.mpr fun he => h.ne (hequal.mp he),
      Bool.eq_false_iff.mpr fun hm => h.asymm (hmore.mp hm)]
    rfl
  · rw [hequal.mpr h, Bool.eq_false_iff.mpr fun hl => (hless.mp hl).ne h,
      Bool.eq_false_iff.mpr fun hm => (hmore.mp hm).ne h.symm]
    rfl
  · rw [hmore.mpr h, Bool.eq_false_iff.mpr fun he => h.ne (hequal.mp he).symm,
      Bool.eq_false_iff.mpr fun hl => h.asymm (hless.mp hl)]
    rfl

namespace Order

variable {x y : Value}

theorem compare_of_texts {p q : List Nat} (o : Order) (hx : x.codePoints? = some p)
    (hy : y.codePoints? = some q) :
    o.compare x y = .ok (o.decide (p < q) (p == q) (q < p)) := by
  cases x with
  | list items | dict entries => cases hx
  | atom a =>
    have hnumber : Value.number? (.atom a) = none := by
      cases a <;> cases hx <;> rfl
    rw [compare, hnumber, hx, hy]
    · rfl
    · intro xs ys hlist
      cases hlist

/-- A number and a text have no order. -/
theorem compare_of_unlike {n : Number} {p : List Nat} (o : Order)
    (h : x.number? = some n ∧ y.codePoints? = some p ∨
      x.codePoints? = some p ∧ y.number? = some n) : ∃ e, o.compare x y = .error e := by
  have htext {v : Value} (hv : v.codePoints? = some p) : v.number? = none := by
    rcases v with (_ | _) | _ | _ <;> first | rfl | cases hv
  have hnumber {v : Value} (hv : v.number? = some n) : v.codePoints? = none := by
    rcases v with (_ | _) | _ | _ <;> first | rfl | cases hv
  cases x with
  | list items | dict entries => rcases h with ⟨hx, -⟩ | ⟨hx, -⟩ <;> cases hx
  | atom a =>
    rw [compare]
    · rcases h with ⟨hx, hy⟩ | ⟨hx, hy⟩ <;> simp [hx, hy, htext, hnumber]
    · intro xs ys hlist
      cases hlist

/-- What the order says of two operands: exactly one of less, level and more, or nothing. Level are
those that are equal and those that are mixed. -/
theorem compare_cases (hx : x.Comparable) (hy : y.Comparable) :
    (∃ less level more : Bool, [less, level, more].count true = 1 ∧
      (level = true ↔ x = y ∨ x.Mixed y) ∧
      ∀ o : Order, o.compare x y = .ok (o.decide less level more)) ∨
    ∃ e, Order.lt.compare x y = .error e := by
  rcases hx.number_or_text with ⟨i, hi⟩ | ⟨hxnone, p, hp⟩ <;>
    rcases hy.number_or_text with ⟨j, hj⟩ | ⟨-, q, hq⟩
  · refine .inl ⟨i < j, i == j, j < i, ?_, ?_, fun o => compare_of_numbers o hi hj⟩
    · exact count_lt_eq_gt i j decide_eq_true_iff beq_iff_eq decide_eq_true_iff
    · rw [beq_iff_eq, Value.eq_iff_of_number? hi hj]
  · exact .inr (compare_of_unlike .lt (.inl ⟨hi, hq⟩))
  · exact .inr (compare_of_unlike .lt (.inr ⟨hp, hj⟩))
  · refine .inl ⟨p < q, p == q, q < p, ?_, ?_, fun o => compare_of_texts o hp hq⟩
    · exact count_lt_eq_gt p q decide_eq_true_iff beq_iff_eq decide_eq_true_iff
    · rw [beq_iff_eq, Value.eq_iff_of_codePoints? hx hy hp hq,
        or_iff_left (Value.not_mixed_of_number? hxnone)]

end Order

/-! ### Answers on the stack -/

/-- The instruction pushes a truth value on `rest`. -/
def Instr.Answers [MemoryLimit] (i : Instr) (m rest : Machine) (answer : Bool) : Prop :=
  ∃ next, i.execute m = .ok next ∧ next.take = .ok (.bool answer, rest)

namespace Machine

variable {m rest : Machine} {x y : Value}

/-- What is pushed where two operands were taken can be taken again. -/
theorem Offers.push_take (h : m.Offers x y rest) (v : Value) :
    ∃ next, rest.push v = .ok next ∧ next.take = .ok (v, rest) := by
  obtain ⟨first, -, htake⟩ := h
  obtain ⟨k, stack, hkey, hget, -, rfl⟩ := take_eq_ok htake
  have hself := OrderedMap.same_self_of_get? hget
  exact ⟨_, push_onStack hkey hself stack.pop v, take_onStack hkey hself stack.pop v⟩

theorem Offers.answers [MemoryLimit] (h : m.Offers x y rest) {op : BinaryOp} {answer : Bool}
    (happly : op.apply x y = .ok (.bool answer)) : (Instr.binary op).Answers m rest answer := by
  obtain ⟨next, hpush, htake⟩ := h.push_take (.bool answer)
  refine ⟨next, ?_, htake⟩
  rw [Instr.execute_binary h, happly]
  exact hpush

/-- The first machine with two operands on its stack. -/
def offering (x y : Value) : Machine :=
  initial.onStack (.str "data") ((Stack.empty.push y).push x)

theorem offers_offering (x y : Value) :
    (offering x y).Offers x y (initial.onStack (.str "data") .empty) :=
  ⟨_, take_onStack rfl rfl _ x, take_onStack rfl rfl _ y⟩

end Machine

theorem Instr.Answers.unique [MemoryLimit] {i : Instr} {m rest : Machine} {answer answer' : Bool}
    (h : i.Answers m rest answer) (h' : i.Answers m rest answer') : answer = answer' := by
  obtain ⟨next, hnext, htake⟩ := h
  obtain ⟨next', hnext', htake'⟩ := h'
  rw [hnext] at hnext'
  cases hnext'
  rw [htake] at htake'
  cases htake'
  rfl

/-! ### The six comparisons -/

/-- The operators that compare their operands. -/
def BinaryOp.comparisons : List BinaryOp := [.eq, .notEq, .gt, .ge, .lt, .le]

/-- Wherever the two operands are offered, the machine finds them equal. -/
def Value.FoundEqual [MemoryLimit] (x y : Value) : Prop :=
  ∀ m rest : Machine, m.Offers x y rest → (Instr.binary .eq).Answers m rest true

theorem Value.foundEqual_iff [MemoryLimit] {x y : Value} (hx : x.Comparable) (hy : y.Comparable) :
    x.FoundEqual y ↔ x = y := by
  rw [← alike_iff_eq hx hy]
  constructor
  · intro h
    have hoffers := Machine.offers_offering x y
    exact (hoffers.answers rfl).unique (h _ _ hoffers)
  · intro halike m rest hoffers
    apply hoffers.answers
    rw [BinaryOp.apply, halike]

/-- The answers to the six comparisons, if the order and the equality of the operands are known. -/
def BinaryOp.answer (less level more equal : Bool) : BinaryOp → Bool
  | .eq => equal
  | .notEq => !equal
  | .gt => Order.gt.decide less level more
  | .ge => Order.ge.decide less level more
  | .lt => Order.lt.decide less level more
  | .le => Order.le.decide less level more
  | _ => false

theorem BinaryOp.apply_of_compare [MemoryLimit] {x y : Value} {less level more : Bool}
    (h : ∀ o : Order, o.compare x y = .ok (o.decide less level more)) {op : BinaryOp}
    (hop : op ∈ comparisons) :
    op.apply x y = .ok (.bool (op.answer less level more (x.alike y))) := by
  simp only [comparisons, List.mem_cons, List.not_mem_nil, or_false] at hop
  rcases hop with rfl | rfl | rfl | rfl | rfl | rfl
  · rfl
  · rfl
  all_goals simp only [apply, h, answer, Except.map]

/-- One operand counts as the other without being equal to it. -/
theorem Value.Mixed.ne {x y : Value} (h : x.Mixed y) : x ≠ y := by
  rintro rfl
  obtain ⟨b, ⟨rfl, hint⟩ | ⟨rfl, hbool⟩⟩ := h
  · cases hint
  · cases hbool

/-- Equality, as the machine finds it, is an equivalence relation on truth values, whole numbers and
texts. If the operator *less* accepts two of them, so do all six comparisons, and *not equal* denies
*equal*. Exactly one of *less*, *equal* and *greater* holds then, and the other two operators say
that one of two of them holds, unless the operands are mixed. Of a truth value and the number it
counts as none of the three holds, while both are *less or equal* and *greater or equal*. -/
theorem BinaryOp.comparisons_cohere [MemoryLimit] :
    (Equivalence fun x y : {v : Value // v.Comparable} => x.val.FoundEqual y.val) ∧
    ∀ x y : Value, x.Comparable → y.Comparable → ∀ m rest next : Machine, m.Offers x y rest →
      (Instr.binary .lt).execute m = .ok next →
      ∃ answer : BinaryOp → Bool,
        (∀ op ∈ comparisons, (Instr.binary op).Answers m rest (answer op)) ∧
        answer .notEq = !answer .eq ∧
        (¬ x.Mixed y → [answer .lt, answer .eq, answer .gt].count true = 1 ∧
          answer .le = (answer .lt || answer .eq) ∧ answer .ge = (answer .gt || answer .eq)) ∧
        (x.Mixed y → answer .lt = false ∧ answer .eq = false ∧ answer .gt = false ∧
          answer .le = true ∧ answer .ge = true) := by
  constructor
  · have hequal (x y : {v : Value // v.Comparable}) : x.val.FoundEqual y.val ↔ x = y :=
      (Value.foundEqual_iff x.property y.property).trans Subtype.ext_iff.symm
    simp only [hequal]
    exact eq_equivalence
  · intro x y hx hy m rest next hoffers hless
    rcases Order.compare_cases hx hy with ⟨less, level, more, hone, hlevel, hcompare⟩ | ⟨e, herror⟩
    · refine ⟨answer less level more (x.alike y), ?_, rfl, fun hmixed => ?_, fun hmixed => ?_⟩
      · intro op hop
        exact hoffers.answers (apply_of_compare hcompare hop)
      · have halike : x.alike y = level := by
          rw [Bool.eq_iff_iff, hlevel, Value.alike_iff_eq hx hy, or_iff_left hmixed]
        rw [halike]
        exact ⟨hone, rfl, rfl⟩
      · have halike : x.alike y = false :=
          Bool.eq_false_iff.mpr fun h => hmixed.ne ((Value.alike_iff_eq hx hy).mp h)
        rw [hlevel.mpr (.inr hmixed)] at hone ⊢
        rw [halike]
        revert hone
        cases less <;> cases more <;> decide
    · -- An operator that has no value does not end well.
      rw [Instr.execute_binary hoffers, apply, herror] at hless
      obtain ⟨result, hresult, -⟩ := bind_eq_ok hless
      cases e <;> cases hresult

/-- Two numbers of which the first is less. -/
theorem BinaryOp.comparisons_cohere_numbers :
    ∃ answer : BinaryOp → Bool,
      (∀ op ∈ comparisons, (Instr.binary op).Answers (.offering (.int 1) (.int 2))
        (Machine.initial.onStack (.str "data") .empty) (answer op)) ∧
      [answer .lt, answer .eq, answer .gt].count true = 1 := by
  have hoffers := Machine.offers_offering (.int 1) (.int 2)
  have hless : BinaryOp.lt.apply (.int 1) (.int 2) = .ok (.bool true) := by
    rw [apply, Order.compare_of_numbers (i := 1) (j := 2) .lt rfl rfl]
    rfl
  obtain ⟨next, hnext, -⟩ := hoffers.answers hless
  obtain ⟨answer, hanswers, -, hordinary, -⟩ :=
    comparisons_cohere.2 (.int 1) (.int 2) (.int 1) (.int 2) _ _ next hoffers hnext
  refine ⟨answer, hanswers, (hordinary ?_).1⟩
  rintro ⟨b, ⟨hbool, -⟩ | ⟨-, hbool⟩⟩ <;> cases hbool

/-- The truth value that counts as 1 is neither less than 1, nor equal to it, nor greater. -/
theorem BinaryOp.mixed_incomparable :
    let m := Machine.offering (.bool true) (.int 1)
    let rest := Machine.initial.onStack (.str "data") .empty
    (Instr.binary .lt).Answers m rest false ∧ (Instr.binary .eq).Answers m rest false ∧
      (Instr.binary .gt).Answers m rest false := by
  intro m rest
  have hoffers : m.Offers (.bool true) (.int 1) rest := Machine.offers_offering _ _
  have hcompare (o : Order) : o.compare (.bool true) (.int 1) = .ok (o.decide false true false) :=
    Order.compare_of_numbers (i := 1) (j := 1) o rfl rfl
  exact ⟨hoffers.answers (apply_of_compare hcompare (by decide)),
    hoffers.answers (apply_of_compare hcompare (by decide)),
    hoffers.answers (apply_of_compare hcompare (by decide))⟩

end ScopeMachine
