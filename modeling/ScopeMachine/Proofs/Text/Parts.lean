import Mathlib.Data.List.Infix
import ScopeMachine.Number.Numeral
import ScopeMachine.Text.Digit
import ScopeMachine.Text.Line

/-! The parts that a text is cut into stand in it as they are. A run of digits that is found in a
part is therefore a run of digits of the text. -/
namespace ScopeMachine.Text

theorem trimBy_prefix_dropWhile {α : Type} (p : α → Bool) (cs : List α) :
    trimBy p cs <+: cs.dropWhile p := by
  rw [trimBy, ← List.reverse_suffix, List.reverse_reverse]
  exact List.dropWhile_suffix p

theorem trimBy_infix {α : Type} (p : α → Bool) (cs : List α) : trimBy p cs <:+: cs := by
  have hfront : cs.dropWhile p <:+ cs := List.dropWhile_suffix p
  exact (trimBy_prefix_dropWhile p cs).isInfix.trans hfront.isInfix

theorem trim_infix (cs : List Char) : trim cs <:+: cs := trimBy_infix isBlank cs

/-- The first piece starts the text, and the others stand in it. -/
theorem splitBy_parts {α : Type} (p : α → Bool) (cs : List α) :
    ∃ piece more, splitBy p cs = piece :: more ∧ piece <+: cs ∧ ∀ q ∈ more, q <:+: cs := by
  induction cs with
  | nil => exact ⟨[], [], rfl, List.prefix_rfl, by simp⟩
  | cons c rest ih =>
    obtain ⟨piece, more, hsplit, hpiece, hmore⟩ := ih
    have hlift : ∀ q ∈ more, q <:+: c :: rest := fun q hq => List.infix_cons (hmore q hq)
    unfold splitBy
    split
    · refine ⟨[], splitBy p rest, rfl, List.nil_prefix, ?_⟩
      rw [hsplit]
      exact List.forall_mem_cons.mpr ⟨List.infix_cons hpiece.isInfix, hlift⟩
    · rw [hsplit]
      exact ⟨c :: piece, more, rfl, (List.prefix_cons_inj c).mpr hpiece, hlift⟩

theorem infix_of_mem_splitBy {α : Type} {p : α → Bool} {cs piece : List α}
    (h : piece ∈ splitBy p cs) : piece <:+: cs := by
  obtain ⟨first, more, hsplit, hfirst, hmore⟩ := splitBy_parts p cs
  rw [hsplit] at h
  rcases List.mem_cons.mp h with rfl | h
  · exact hfirst.isInfix
  · exact hmore piece h

theorem lines_parts (cs : List Char) :
    (∀ line, (lines cs).head? = some line → line <+: cs) ∧ ∀ line ∈ lines cs, line <:+: cs := by
  fun_induction lines cs with
  | case1 => simp
  | case2 rest ih =>
    refine ⟨by simp, List.forall_mem_cons.mpr ⟨List.nil_infix, fun line hline => ?_⟩⟩
    exact List.infix_cons (List.infix_cons (ih.2 line hline))
  | case3 c rest _ _ ih =>
    refine ⟨by simp, List.forall_mem_cons.mpr ⟨List.nil_infix, fun line hline => ?_⟩⟩
    exact List.infix_cons (ih.2 line hline)
  | case4 c rest _ _ hlines _ =>
    have hone : [c] <+: c :: rest := (List.prefix_cons_inj c).mpr List.nil_prefix
    exact ⟨by simp, by simpa using hone.isInfix⟩
  | case5 c rest _ _ line more hlines ih =>
    rw [hlines] at ih
    have hfirst : c :: line <+: c :: rest := (List.prefix_cons_inj c).mpr (ih.1 line rfl)
    refine ⟨by simpa using hfirst, List.forall_mem_cons.mpr ⟨hfirst.isInfix, ?_⟩⟩
    intro other hother
    exact List.infix_cons (ih.2 other (List.mem_cons_of_mem line hother))

/-! ### Digits -/

theorem toNat_of_isAsciiDigit {c : Char} (h : isAsciiDigit c = true) :
    '0'.toNat ≤ c.toNat ∧ c.toNat ≤ '0'.toNat + 9 := by
  obtain ⟨hge, hle⟩ := Bool.and_eq_true_iff.mp h
  exact ⟨UInt32.le_iff_toNat_le.mp (of_decide_eq_true hge),
    UInt32.le_iff_toNat_le.mp (of_decide_eq_true hle)⟩

theorem asciiDigitValue_lt {c : Char} (h : isAsciiDigit c = true) : asciiDigitValue c < 10 := by
  have hrange := toNat_of_isAsciiDigit h
  unfold asciiDigitValue
  omega

theorem digitValue?_lt {c : Char} {d : Nat} (h : digitValue? c = some d) : d < 10 := by
  obtain ⟨first, hfirst, rfl⟩ := Option.map_eq_some_iff.mp h
  have hnear := List.find?_some hfirst
  simp only [Bool.and_eq_true, decide_eq_true_eq] at hnear
  omega

theorem isSome_digitValue?_of_isAsciiDigit {c : Char} (h : isAsciiDigit c = true) :
    (digitValue? c).isSome = true := by
  rw [digitValue?, Option.isSome_map, List.find?_isSome]
  refine ⟨'0'.toNat, by decide, ?_⟩
  simpa using toNat_of_isAsciiDigit h

end ScopeMachine.Text

namespace ScopeMachine

/-- A text has a run of `n` digits, which are more than a whole number may have. -/
def LongRun (isDigit : Char → Bool) (cs : List Char) (n : Nat) : Prop :=
  Numeral.digitLimit < n ∧
    ∃ run : List Char, run <:+: cs ∧ run.length = n ∧ ∀ c ∈ run, isDigit c = true

theorem LongRun.of_part {isDigit : Char → Bool} {part cs : List Char} {n : Nat}
    (h : LongRun isDigit part n) (hpart : part <:+: cs) : LongRun isDigit cs n := by
  obtain ⟨hlong, run, hrun, hlength, hdigits⟩ := h
  exact ⟨hlong, run, hrun.trans hpart, hlength, hdigits⟩

theorem LongRun.imp {isDigit isDigit' : Char → Bool} {cs : List Char} {n : Nat}
    (h : LongRun isDigit cs n) (himp : ∀ c, isDigit c = true → isDigit' c = true) :
    LongRun isDigit' cs n := by
  obtain ⟨hlong, run, hrun, hlength, hdigits⟩ := h
  exact ⟨hlong, run, hrun, hlength, fun c hc => himp c (hdigits c hc)⟩

end ScopeMachine
