import Mathlib.Data.List.Forall2

/-! Facts about results, about lists that agree item by item, and about runs at the front of a
text. -/
namespace ScopeMachine

/-- A sequence of two computations succeeds only through a result of the first. -/
theorem bind_eq_ok {ε α β : Type} {x : Except ε α} {f : α → Except ε β} {b : β}
    (h : (x >>= f) = .ok b) : ∃ a, x = .ok a ∧ f a = .ok b := by
  cases x with
  | error e => cases h
  | ok a => exact ⟨a, rfl, h⟩

theorem bind_of_ok {ε α β : Type} {x : Except ε α} {f : α → Except ε β} {a : α} (h : x = .ok a) :
    (x >>= f) = f a := by
  rw [h]
  rfl

theorem bind_of_error {ε α β : Type} {x : Except ε α} {f : α → Except ε β} {e : ε}
    (h : x = .error e) : (x >>= f) = .error e := by
  rw [h]
  rfl

/-- A change of results passes through a sequence of two computations if it passes through the
second. -/
theorem bind_eq_map {ε α β β' : Type} {x : Except ε α} {f : α → Except ε β} {f' : α → Except ε β'}
    {g : β → β'} (h : ∀ a, x = .ok a → f' a = g <$> f a) : (x >>= f') = g <$> (x >>= f) := by
  cases x with
  | error e => rfl
  | ok a => exact h a rfl

/-- The second computation may be told from what the first one yields before it is changed. -/
theorem map_bind_eq_map {ε α α' β β' : Type} {x : Except ε α} {h : α → α'} {f : α → Except ε β}
    {f' : α' → Except ε β'} {g : β → β'} (hf : ∀ a, x = .ok a → f' (h a) = g <$> f a) :
    (h <$> x >>= f') = g <$> (x >>= f) := by
  rw [bind_map_left]
  exact bind_eq_map hf

/-- A computation yields what satisfies `good`, or fails with what satisfies `bad`. -/
def Meets {ε α : Type} (good : α → Prop) (bad : ε → Prop) : Except ε α → Prop
  | .ok a => good a
  | .error e => bad e

namespace Meets

variable {ε α β : Type} {good : α → Prop} {good' : β → Prop} {bad bad' : ε → Prop}

theorem of_ok {x : Except ε α} {a : α} (h : x = .ok a) (ha : good a) : Meets good bad x := by
  rw [h]
  exact ha

/-- A sequence of two computations fails with an error of the first or of the second. -/
theorem bind {x : Except ε α} {f : α → Except ε β} (hx : Meets good bad x)
    (hf : ∀ a, good a → Meets good' bad (f a)) : Meets good' bad (x >>= f) := by
  cases x with
  | error e => exact hx
  | ok a => exact hf a hx

theorem imp {x : Except ε α} {good' : α → Prop} (hx : Meets good bad x)
    (hgood : ∀ a, good a → good' a) (hbad : ∀ e, bad e → bad' e) : Meets good' bad' x := by
  cases x with
  | error e => exact hbad e hx
  | ok a => exact hgood a hx

end Meets

theorem forall₂_trans {α : Type} {r : α → α → Prop} (htrans : ∀ a b c, r a b → r b c → r a c)
    {xs ys zs : List α} (hxy : List.Forall₂ r xs ys) (hyz : List.Forall₂ r ys zs) :
    List.Forall₂ r xs zs := by
  induction hxy generalizing zs with
  | nil => exact hyz
  | cons hab _ ih =>
    cases hyz with
    | cons hbc hrest => exact .cons (htrans _ _ _ hab hbc) (ih hrest)

theorem forall₂_right {α β : Type} {r : α → β → Prop} {xs : List α} {ys : List β}
    (h : List.Forall₂ r xs ys) {y : β} (hy : y ∈ ys) : ∃ x ∈ xs, r x y := by
  induction h with
  | nil => cases hy
  | @cons a b xs ys hab _ ih =>
    rcases List.mem_cons.mp hy with rfl | hy
    · exact ⟨a, List.mem_cons_self, hab⟩
    · obtain ⟨x, hx, hxy⟩ := ih hy
      exact ⟨x, List.mem_cons_of_mem a hx, hxy⟩

theorem forall₂_left {α β : Type} {r : α → β → Prop} {xs : List α} {ys : List β}
    (h : List.Forall₂ r xs ys) {x : α} (hx : x ∈ xs) : ∃ y ∈ ys, r x y :=
  forall₂_right h.flip hx

theorem forall₂_of_mapM {α β : Type} {f : α → Option β} {xs : List α} {ys : List β}
    (h : xs.mapM f = some ys) : List.Forall₂ (fun x y => f x = some y) xs ys := by
  induction xs generalizing ys with
  | nil =>
    cases h
    exact .nil
  | cons x xs ih =>
    rw [List.mapM_cons] at h
    obtain ⟨y, hy, h⟩ := Option.bind_eq_some_iff.mp h
    obtain ⟨rest, hrest, h⟩ := Option.bind_eq_some_iff.mp h
    cases h
    exact .cons hy (ih hrest)

theorem isSome_mapM {α β : Type} {f : α → Option β} {xs : List α}
    (h : ∀ x ∈ xs, (f x).isSome = true) : (xs.mapM f).isSome = true := by
  induction xs with
  | nil => rfl
  | cons x xs ih =>
    obtain ⟨hx, hxs⟩ := List.forall_mem_cons.mp h
    obtain ⟨y, hy⟩ := Option.isSome_iff_exists.mp hx
    obtain ⟨ys, hys⟩ := Option.isSome_iff_exists.mp (ih hxs)
    simp [List.mapM_cons, hy, hys]

/-- A run of what satisfies `p` ends where something else stands. -/
theorem span_of_boundary {p : Char → Bool} {w behind : List Char} (hw : ∀ c ∈ w, p c = true)
    (hbehind : ∀ c, behind.head? = some c → p c = false) :
    (w ++ behind).takeWhile p = w ∧ (w ++ behind).dropWhile p = behind := by
  rw [List.takeWhile_append_of_pos hw, List.dropWhile_append_of_pos hw]
  cases behind with
  | nil => simp
  | cons c rest => simp [hbehind c rfl]

end ScopeMachine
