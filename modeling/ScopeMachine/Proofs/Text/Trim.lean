import Mathlib.Data.List.TakeWhile
import ScopeMachine.Proofs.Text.Parts

/-! Trimming. What is trimmed off a text are characters that may be trimmed, at either end, and what
is left does not end with one. Text that neither begins nor ends with one is left as it is. -/
namespace ScopeMachine.Text

variable {α : Type} {p : α → Bool} {cs : List α}

theorem trimBy_append_left {front : List α} (h : ∀ c ∈ front, p c = true) (cs : List α) :
    trimBy p (front ++ cs) = trimBy p cs := by
  rw [trimBy, trimBy, List.dropWhile_append_of_pos h]

theorem trimBy_append_right {back : List α} (h : ∀ c ∈ back, p c = true) (cs : List α) :
    trimBy p (cs ++ back) = trimBy p cs := by
  have hback : ∀ c ∈ back.reverse, p c = true := fun c hc => h c (List.mem_reverse.mp hc)
  unfold trimBy
  rw [List.dropWhile_append]
  split
  · rename_i hempty
    have hnone : back.dropWhile p = [] := List.dropWhile_eq_nil_iff.mpr h
    rw [hnone, List.isEmpty_iff.mp hempty]
  · rw [List.reverse_append, List.dropWhile_append_of_pos hback]

theorem dropWhile_eq_self (h : ∀ c, cs.head? = some c → p c = false) : cs.dropWhile p = cs := by
  cases cs with
  | nil => rfl
  | cons c rest => rw [List.dropWhile_cons_of_neg (by simp [h c rfl])]

theorem trimBy_eq_self (hfirst : ∀ c, cs.head? = some c → p c = false)
    (hlast : ∀ c, cs.getLast? = some c → p c = false) : trimBy p cs = cs := by
  have hreverse : ∀ c, cs.reverse.head? = some c → p c = false := by
    rw [List.head?_reverse]
    exact hlast
  rw [trimBy, dropWhile_eq_self hfirst, dropWhile_eq_self hreverse, List.reverse_reverse]

theorem exists_trimBy (p : α → Bool) (cs : List α) :
    ∃ front back, cs = front ++ (trimBy p cs ++ back) ∧ (∀ c ∈ front, p c = true) ∧
      ∀ c ∈ back, p c = true := by
  have hfront : cs.takeWhile p ++ cs.dropWhile p = cs := List.takeWhile_append_dropWhile
  have hback : (cs.dropWhile p).reverse.takeWhile p ++ (cs.dropWhile p).reverse.dropWhile p =
      (cs.dropWhile p).reverse := List.takeWhile_append_dropWhile
  have hmiddle := congrArg List.reverse hback
  rw [List.reverse_append, List.reverse_reverse] at hmiddle
  refine ⟨cs.takeWhile p, ((cs.dropWhile p).reverse.takeWhile p).reverse, ?_, ?_, ?_⟩
  · rw [trimBy, hmiddle, hfront]
  · exact fun c hc => List.mem_takeWhile_imp hc
  · exact fun c hc => List.mem_takeWhile_imp (List.mem_reverse.mp hc)

theorem head?_dropWhile {c : α} (h : (cs.dropWhile p).head? = some c) : p c = false := by
  have hhead := List.head?_dropWhile_not p cs
  rwa [h] at hhead

theorem getLast?_trimBy {c : α} (h : (trimBy p cs).getLast? = some c) : p c = false := by
  rw [trimBy, List.getLast?_reverse] at h
  exact head?_dropWhile h

/-- A character that stays keeps what is trimmed behind it but at the end. -/
theorem exists_trimBy_cons {c : α} (hc : p c = false) (cs : List α) :
    ∃ front, (∀ d ∈ front, p d = true) ∧ trimBy p (c :: cs) = c :: (front ++ trimBy p cs) := by
  obtain ⟨front, back, hcs, hfront, hback⟩ := exists_trimBy p cs
  have hlast (d : α) : (trimBy p cs).getLast? = some d → p d = false := getLast?_trimBy
  generalize htrim : trimBy p cs = core at hcs hlast ⊢
  have hend : trimBy p (c :: cs) = trimBy p (c :: (front ++ core)) := by
    rw [hcs, ← List.append_assoc, ← List.cons_append]
    exact trimBy_append_right hback _
  have hfirst (d : α) (rest : List α) (hd : (c :: rest).head? = some d) : p d = false := by
    cases hd
    exact hc
  cases core with
  | nil =>
    refine ⟨[], by simp, hend.trans ?_⟩
    rw [List.append_nil, ← List.singleton_append, trimBy_append_right hfront]
    exact trimBy_eq_self (hfirst · []) (hfirst · [])
  | cons first rest =>
    refine ⟨front, hfront, hend.trans (trimBy_eq_self (hfirst · _) fun d hd => hlast d ?_)⟩
    rwa [← List.cons_append, List.getLast?_append_of_ne_nil _ (List.cons_ne_nil first rest)] at hd

/-- Some text that neither begins nor ends with a blank. -/
structure Trimmed (cs : List Char) : Prop where
  ne_nil : cs ≠ []
  first : ∀ c, cs.head? = some c → isBlank c = false
  last : ∀ c, cs.getLast? = some c → isBlank c = false

namespace Trimmed

variable {cs : List Char}

theorem trim_eq (h : Trimmed cs) : trim cs = cs := trimBy_eq_self h.first h.last

theorem of_forall (hne : cs ≠ []) (h : ∀ c ∈ cs, isBlank c = false) : Trimmed cs :=
  ⟨hne, fun c hc => h c (List.mem_of_head? hc), fun c hc => h c (List.mem_of_getLast? hc)⟩

theorem cons_append (h : Trimmed cs) {c : Char} (hc : isBlank c = false) (more : List Char) :
    Trimmed (c :: (more ++ cs)) := by
  refine ⟨List.cons_ne_nil c _, ?_, fun d hd => h.last d ?_⟩
  · rintro d ⟨⟩
    exact hc
  · rwa [← List.cons_append, List.getLast?_append_of_ne_nil _ h.ne_nil] at hd

end Trimmed

end ScopeMachine.Text
