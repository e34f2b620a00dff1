import ScopeMachine.Machine.Execute

/-! Two runs side by side. A relation between machines that every instruction keeps, failing on both
sides with one and the same fault if it fails on one, is kept by every program: both runs come to
their end, or both stop at the same instruction with the same fault. -/
namespace ScopeMachine

/-- Two computations that both yield, and yield what `r` relates, or both fail, with one error. -/
def Agree {ε α β : Type} (r : α → β → Prop) : Except ε α → Except ε β → Prop
  | .ok a, .ok b => r a b
  | .error e, .error e' => e = e'
  | _, _ => False

namespace Agree

variable {ε α β α' β' : Type} {r : α → β → Prop} {r' : α' → β' → Prop}

theorem refl (x : Except ε α) : Agree Eq x x := by
  cases x <;> rfl

theorem ok_or_error {x : Except ε α} {y : Except ε β} (h : Agree r x y) :
    (∃ a b, x = .ok a ∧ y = .ok b ∧ r a b) ∨ ∃ e, x = .error e ∧ y = .error e := by
  cases x with
  | ok a =>
    cases y with
    | ok b => exact .inl ⟨a, b, rfl, rfl, h⟩
    | error e => exact h.elim
  | error e =>
    cases y with
    | ok b => exact h.elim
    | error e' =>
      obtain rfl : e = e' := h
      exact .inr ⟨e, rfl, rfl⟩

/-- The second computation of a sequence may build on what the first ones are known to yield. -/
theorem bind {x : Except ε α} {y : Except ε β} {f : α → Except ε α'} {g : β → Except ε β'}
    (h : Agree r x y) (hnext : ∀ a b, r a b → Agree r' (f a) (g b)) :
    Agree r' (x >>= f) (y >>= g) := by
  obtain ⟨a, b, rfl, rfl, hab⟩ | ⟨e, rfl, rfl⟩ := h.ok_or_error
  · exact hnext a b hab
  · rfl

/-- A sequence that begins alike needs to be looked at only from its second computation on. -/
theorem bind_same (x : Except ε α) {f : α → Except ε α'} {g : α → Except ε β'}
    (hnext : ∀ a, Agree r' (f a) (g a)) : Agree r' (x >>= f) (x >>= g) := by
  apply (refl x).bind
  rintro a _ rfl
  exact hnext a

end Agree

namespace Machine

/-- Two runs of a program that both end, in machines that `r` relates, or stop at one instruction
with one fault. -/
inductive SameOutcome [MemoryLimit] (r : Machine → Machine → Prop) (a b : Machine) :
    List Instr → Prop
  | done {program : List Instr} {a' b' : Machine} (hleft : a.run program = .ok a')
      (hright : b.run program = .ok b') (hends : r a' b') : SameOutcome r a b program
  | failed {before after : List Instr} {i : Instr} {a' b' : Machine} {fault : Fault}
      (hleft : a.run before = .ok a') (hright : b.run before = .ok b')
      (hstopLeft : i.execute a' = .error fault) (hstopRight : i.execute b' = .error fault) :
      SameOutcome r a b (before ++ i :: after)

variable {r r' : Machine → Machine → Prop} {a b : Machine}

theorem SameOutcome.mono [MemoryLimit] (himp : ∀ a b, r a b → r' a b) {program : List Instr}
    (h : SameOutcome r a b program) : SameOutcome r' a b program := by
  cases h with
  | done hleft hright hends => exact .done hleft hright (himp _ _ hends)
  | failed hleft hright hstopLeft hstopRight =>
    exact .failed hleft hright hstopLeft hstopRight

/-- An instruction that both machines get through may be put before two runs. -/
theorem SameOutcome.cons [MemoryLimit] {i : Instr} {a₁ b₁ : Machine} {rest : List Instr}
    (ha : i.execute a = .ok a₁) (hb : i.execute b = .ok b₁) (h : SameOutcome r a₁ b₁ rest) :
    SameOutcome r a b (i :: rest) := by
  have hrunLeft (program : List Instr) : a.run (i :: program) = a₁.run program := by
    rw [run, ha]
  have hrunRight (program : List Instr) : b.run (i :: program) = b₁.run program := by
    rw [run, hb]
  cases h with
  | done hleft hright hends =>
    exact .done ((hrunLeft rest).trans hleft) ((hrunRight rest).trans hright) hends
  | @failed before after j _ _ _ hleft hright hstopLeft hstopRight =>
    rw [← List.cons_append]
    exact .failed ((hrunLeft before).trans hleft) ((hrunRight before).trans hright) hstopLeft
      hstopRight

/-- What every instruction keeps, every program keeps. -/
theorem sameOutcome_of_agree [MemoryLimit] {program : List Instr}
    (hstep : ∀ i ∈ program, ∀ a b, r a b → Agree r (i.execute a) (i.execute b)) (h : r a b) :
    SameOutcome r a b program := by
  induction program generalizing a b with
  | nil => exact .done rfl rfl h
  | cons i rest ih =>
    obtain ⟨hfirst, hrest⟩ := List.forall_mem_cons.mp hstep
    obtain ⟨a₁, b₁, ha, hb, hnext⟩ | ⟨fault, ha, hb⟩ := (hfirst a b h).ok_or_error
    · exact (ih hrest hnext).cons ha hb
    · rw [← List.nil_append (i :: rest)]
      exact .failed rfl rfl ha hb

end Machine

end ScopeMachine
