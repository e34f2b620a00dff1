import ScopeMachine.Machine.Execute
import ScopeMachine.Proofs.Basic
import ScopeMachine.Proofs.Value.Writable

/-! Operators that refuse their operands. The fault is reported with all operands in its message,
so an integer among them that is too long to be written takes the place of the fault itself. -/
namespace ScopeMachine

/-! ### Operators on atoms -/

namespace Value

/-- A value without parts. -/
def IsAtom (v : Value) : Prop := ∃ a : Atom, v = .atom a

theorem isAtom_atom (a : Atom) : (Value.atom a).IsAtom := ⟨a, rfl⟩

/-- A value without parts, and if it is a text, one of characters. -/
def Simple (v : Value) : Prop := ∃ a : Atom, v = .atom a ∧ ∀ points, a ≠ .codes points

theorem simple_null : Value.null.Simple := ⟨_, rfl, nofun⟩

theorem simple_bool (b : Bool) : (Value.bool b).Simple := ⟨_, rfl, nofun⟩

theorem simple_int (i : Int) : (Value.int i).Simple := ⟨_, rfl, nofun⟩

theorem simple_float (x : Binary64) : (Value.float x).Simple := ⟨_, rfl, nofun⟩

theorem simple_str (s : String) : (Value.str s).Simple := ⟨_, rfl, nofun⟩

theorem Simple.isAtom {v : Value} (h : v.Simple) : v.IsAtom := by
  obtain ⟨a, ha, -⟩ := h
  exact ⟨a, ha⟩

theorem simple_of_combine {exact : Int → Int → Int} {rounded : Binary64 → Binary64 → Binary64}
    {x y : Number} {v : Value} (h : x.combine exact rounded y = .ok v) : v.Simple := by
  unfold Number.combine at h
  split at h
  · cases h
    exact simple_int _
  · obtain ⟨a, -, h⟩ := bind_eq_ok h
    obtain ⟨b, -, h⟩ := bind_eq_ok h
    cases h
    exact simple_float _

theorem simple_of_divide {x y : Number} {v : Value} (h : x.divide y = .ok v) :
    v.Simple := by
  unfold Number.divide at h
  split at h
  · split at h
    · cases h
    · dsimp only at h
      split at h
      · cases h
      · cases h
        exact simple_float _
  · obtain ⟨a, -, h⟩ := bind_eq_ok h
    obtain ⟨b, -, h⟩ := bind_eq_ok h
    split at h
    · cases h
    · cases h
      exact simple_float _

/-- A text made of another one that cannot be given by characters. -/
def IsRespelled (v : Value) (a : Atom) : Prop :=
  (∃ points, a = .codes points) ∧ ∃ points, v = .atom (.ofCodes points)

theorem IsRespelled.isAtom {v : Value} {a : Atom} (h : v.IsRespelled a) : v.IsAtom := by
  obtain ⟨-, points, hv⟩ := h
  exact ⟨_, hv⟩

theorem repeated_cases [MemoryLimit] {a : Atom} {count v : Value}
    (h : (Value.atom a).repeated count = .ok v) :
    v.Simple ∨ v.IsRespelled a := by
  unfold repeated at h
  split at h
  · cases h
  · split at h
    · obtain ⟨k, -, h⟩ := bind_eq_ok h
      cases h
      exact .inl (simple_str _)
    · rename_i points hcodes
      obtain ⟨k, -, h⟩ := bind_eq_ok h
      cases h
      cases hcodes
      exact .inr ⟨⟨points, rfl⟩, _, rfl⟩
    · rename_i hlist
      cases hlist
    · cases h

theorem add_cases {a b : Atom} {v : Value} (h : (Value.atom a).add (.atom b) = .ok v) :
    v.Simple ∨ v.IsRespelled a ∨ v.IsRespelled b := by
  unfold add at h
  split at h
  · cases h
    exact .inl (simple_str _)
  · rename_i hlist _
    cases hlist
  · rename_i hcharacters _
    split at h
    · rename_i p q hp hq
      cases h
      -- Not both texts are of characters, for such texts were joined before.
      cases a with
      | codes points => exact .inr (.inl ⟨⟨points, rfl⟩, _, rfl⟩)
      | null | bool x | int x | float x => cases hp
      | str s =>
        cases b with
        | codes points => exact .inr (.inr ⟨⟨points, rfl⟩, _, rfl⟩)
        | null | bool x | int x | float x => cases hq
        | str t => exact absurd rfl (hcharacters s t rfl)
    · split at h
      · exact .inl (simple_of_combine h)
      · split at h <;> cases h

theorem mul_cases [MemoryLimit] {a b : Atom} {v : Value}
    (h : (Value.atom a).mul (.atom b) = .ok v) :
    v.Simple ∨ v.IsRespelled a ∨ v.IsRespelled b := by
  unfold mul at h
  split at h
  · exact .inl (simple_of_combine h)
  · split at h
    · exact (repeated_cases h).imp_right .inl
    · split at h
      · exact (repeated_cases h).imp_right .inr
      · cases h

end Value

/-- An operator yields one of its operands, a simple value, or a text made of an operand that cannot
be given by characters. -/
theorem BinaryOp.apply_cases [MemoryLimit] {op : BinaryOp} {a b : Atom} {v : Value}
    (h : op.apply (.atom a) (.atom b) = .ok v) :
    v = .atom a ∨ v = .atom b ∨ v.Simple ∨ v.IsRespelled a ∨ v.IsRespelled b := by
  -- An order is asked for with a truth value as the answer.
  have hcompare {o : Order} {v : Value}
      (h : (o.compare (.atom a) (.atom b)).map Value.bool = .ok v) : v.Simple := by
    cases hanswer : o.compare (.atom a) (.atom b) with
    | error e => simp [hanswer, Except.map] at h
    | ok answer =>
      simp only [hanswer, Except.map, Except.ok.injEq] at h
      exact h ▸ Value.simple_bool answer
  cases op with
  | add => exact .inr (.inr (Value.add_cases h))
  | mul => exact .inr (.inr (Value.mul_cases h))
  | sub =>
    simp only [apply, Value.sub] at h
    split at h
    · exact .inr (.inr (.inl (Value.simple_of_combine h)))
    · cases h
  | div =>
    simp only [apply, Value.div] at h
    split at h
    · exact .inr (.inr (.inl (Value.simple_of_divide h)))
    · cases h
  | gt | ge | lt | le => exact .inr (.inr (.inl (hcompare h)))
  | eq | notEq =>
    cases h
    exact .inr (.inr (.inl (Value.simple_bool _)))
  | and | or =>
    cases h
    split
    · simp
    · simp

theorem BinaryOp.isAtom_of_apply [MemoryLimit] {op : BinaryOp} {a b : Atom} {v : Value}
    (h : op.apply (.atom a) (.atom b) = .ok v) : v.IsAtom := by
  rcases apply_cases h with rfl | rfl | hsimple | hrespelled | hrespelled
  · exact Value.isAtom_atom a
  · exact Value.isAtom_atom b
  · exact hsimple.isAtom
  · exact hrespelled.isAtom
  · exact hrespelled.isAtom

/-- Of simple operands an operator makes a simple value. -/
theorem BinaryOp.simple_of_apply [MemoryLimit] {op : BinaryOp} {a b v : Value} (ha : a.Simple)
    (hb : b.Simple) (h : op.apply a b = .ok v) : v.Simple := by
  obtain ⟨a, rfl, hcharsa⟩ := ha
  obtain ⟨b, rfl, hcharsb⟩ := hb
  rcases apply_cases h with rfl | rfl | hsimple | ⟨⟨points, hcodes⟩, -⟩ | ⟨⟨points, hcodes⟩, -⟩
  · exact ⟨a, rfl, hcharsa⟩
  · exact ⟨b, rfl, hcharsb⟩
  · exact hsimple
  · exact absurd hcodes (hcharsa points)
  · exact absurd hcodes (hcharsb points)

theorem UnaryOp.simple_of_apply {op : UnaryOp} {a : Atom} {v : Value}
    (h : op.apply (.atom a) = .ok v) : v.Simple := by
  cases op with
  | not =>
    cases h
    exact Value.simple_bool _
  | neg =>
    simp only [apply, Value.neg] at h
    split at h
    · cases h
      exact Value.simple_int _
    · cases h
      exact Value.simple_float _
    · cases h

/-- A sign is refused only by what is no number, and that can be written. -/
theorem UnaryOp.writable_of_apply {op : UnaryOp} {a : Atom} {cause : OperandError}
    (h : op.apply (.atom a) = .error cause) : a.Writable ∧ cause ≠ .outOfMemory := by
  cases op with
  | not => cases h
  | neg =>
    simp only [apply, Value.neg] at h
    split at h
    · cases h
    · cases h
    · rename_i hnumber
      cases h
      refine ⟨Atom.writable_iff.mpr ?_, by simp⟩
      rintro i rfl
      cases hnumber

/-! ### Faults that can be told -/

namespace Fault

theorem isRecoverable_raised {f : Fault} (h : f.message?.isSome = true)
    (hf : f.isRecoverable = true) : f.raised.isRecoverable = true := by
  rwa [raised, if_pos h]

theorem isSome_message?_nameNotFound {key name : Atom} (hkey : key.Writable)
    (hname : name.Writable) :
    (nameNotFound (.atom key) (.atom name)).message?.isSome = true := by
  obtain ⟨keyText, hkeyText⟩ := Option.isSome_iff_exists.mp hkey.plain?
  obtain ⟨nameText, hnameText⟩ := Option.isSome_iff_exists.mp hname.plain?
  simp [message?, Value.plain?, hkeyText, hnameText]

theorem isSome_message?_unknownContainer (kind : Container) {key : Atom} (hkey : key.Writable) :
    (unknownContainer kind (.atom key)).message?.isSome = true := by
  obtain ⟨keyText, hkeyText⟩ := Option.isSome_iff_exists.mp hkey.plain?
  simp [message?, Value.plain?, hkeyText]

/-- The message about refused operands names them all. -/
theorem isSome_message?_operator {i : Instr} (hi : i.operands = []) {operands : List Value}
    (cause : OperandError) :
    (operator i operands cause).message?.isSome = true ↔ ∀ v ∈ operands, v.Writable := by
  rw [← Value.isSome_itemLiterals?_iff]
  cases hoperands : Value.itemLiterals? operands <;>
    simp [message?, hoperands, Instr.text?, hi]

end Fault

/-! ### Refusal -/

/-- An operator finds `a` on top of the selected stack and `b` below it, and leaves `rest`. -/
def Machine.Offers (m : Machine) (a b : Value) (rest : Machine) : Prop :=
  ∃ first, m.take = .ok (a, first) ∧ first.take = .ok (b, rest)

namespace Instr

/-- The instruction is an operator that refuses the operands `a` and `b` it finds. -/
def Refuses [MemoryLimit] (i : Instr) (m : Machine) (a b : Value) (cause : OperandError) : Prop :=
  ∃ op rest, i = .binary op ∧ m.Offers a b rest ∧ op.apply a b = .error cause

/-- The result of an operator is larger than the memory. -/
def ExceedsMemory [MemoryLimit] (i : Instr) (m : Machine) : Prop :=
  ∃ a b, i.Refuses m a b .outOfMemory

/-- An operator refuses its operands, and one of them is an integer too long to be written. -/
def RefusesOverlong [MemoryLimit] (i : Instr) (m : Machine) : Prop :=
  ∃ a b cause, i.Refuses m a b cause ∧ cause ≠ .outOfMemory ∧
    ∃ n : Int, Numeral.tooLong ≤ n.natAbs ∧ (a = .int n ∨ b = .int n)

theorem execute_binary [MemoryLimit] {op : BinaryOp} {m rest : Machine} {a b : Value}
    (h : m.Offers a b rest) :
    (Instr.binary op).execute m =
      (Instr.binary op).refuse [a, b] (op.apply a b) >>= fun result => rest.push result := by
  obtain ⟨first, ha, hb⟩ := h
  exact (bind_of_ok ha).trans (bind_of_ok hb)

theorem execute_unary [MemoryLimit] {op : UnaryOp} {m rest : Machine} {a : Value}
    (h : m.take = .ok (a, rest)) :
    (Instr.unary op).execute m =
      (Instr.unary op).refuse [a] (op.apply a) >>= fun result => rest.push result :=
  bind_of_ok h

theorem refuse_error (i : Instr) (operands : List Value) {cause : OperandError}
    (h : cause ≠ .outOfMemory) :
    i.refuse operands (.error cause) = .error (Fault.operator i operands cause).raised := by
  unfold refuse
  split
  · rename_i heq
    cases heq
  · rename_i heq
    cases heq
    exact absurd rfl h
  · rename_i heq
    cases heq
    rfl

theorem ExceedsMemory.execute [MemoryLimit] {i : Instr} {m : Machine} (h : i.ExceedsMemory m) :
    i.execute m = .error .outOfMemory := by
  obtain ⟨a, b, op, rest, rfl, hoffers, happly⟩ := h
  rw [execute_binary hoffers, happly]
  rfl

theorem RefusesOverlong.execute [MemoryLimit] {i : Instr} {m : Machine} (h : i.RefusesOverlong m) :
    i.execute m = .error .digitLimit := by
  obtain ⟨a, b, cause, ⟨op, rest, rfl, hoffers, happly⟩, hcause, n, hlong, hn⟩ := h
  have hmessage : ¬ (Fault.operator (.binary op) [a, b] cause).message?.isSome = true := by
    rw [Fault.isSome_message?_operator rfl]
    intro hwritable
    have hint : (Value.int n).Writable := by
      rcases hn with rfl | rfl
      · exact hwritable _ (by simp)
      · exact hwritable _ (by simp)
    have hshort := Atom.writable_iff.mp (Value.writable_atom.mp hint) n rfl
    omega
  rw [execute_binary hoffers, happly, refuse_error _ _ hcause, Fault.raised, if_neg hmessage]
  rfl

/-- An operator that refuses operands that can all be written fails in the ordinary way. -/
theorem refuse_recoverable (i : Instr) (hi : i.operands = []) {operands : List Value}
    (hwritable : ∀ v ∈ operands, v.Writable) {cause : OperandError} (h : cause ≠ .outOfMemory) :
    ∃ fault, i.refuse operands (.error cause) = .error fault ∧ fault.isRecoverable = true := by
  refine ⟨_, refuse_error i operands h, ?_⟩
  exact Fault.isRecoverable_raised ((Fault.isSome_message?_operator hi cause).mpr hwritable) rfl

end Instr

end ScopeMachine
