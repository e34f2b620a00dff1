import ScopeMachine.Text.Line

/-! What is left whole and what is cut. A text without line breaks is one line, one without
separators is one piece, and texts that are joined by a separator are cut into themselves again if
they do not hold it. -/
namespace ScopeMachine.Text

theorem forall_mem_eq_false {α : Type} {p : α → Bool} {cs : List α} (h : cs.any p = false) :
    ∀ c ∈ cs, p c = false :=
  fun c hc => Bool.eq_false_iff.mpr (List.any_eq_false.mp h c hc)

theorem lines_eq_singleton {cs : List Char} (hne : cs ≠ []) (h : ∀ c ∈ cs, isLineBreak c = false) :
    lines cs = [cs] := by
  induction cs with
  | nil => exact absurd rfl hne
  | cons c rest ih =>
    obtain ⟨hc, hrest⟩ := List.forall_mem_cons.mp h
    have hreturn : c ≠ '\r' := by
      rintro rfl
      cases hc
    rw [lines.eq_3 _ _ (fun _ hr _ => hreturn hr), hc]
    by_cases hempty : rest = []
    · rw [hempty]
      rfl
    · rw [ih hempty hrest]
      rfl

section Separators

variable {α : Type} {p : α → Bool} {cs : List α}

theorem splitBy_append_cons (h : ∀ c ∈ cs, p c = false) {d : α} (hd : p d = true)
    (rest : List α) : splitBy p (cs ++ d :: rest) = cs :: splitBy p rest := by
  induction cs with
  | nil => rw [List.nil_append, splitBy, if_pos hd]
  | cons c cs ih =>
    obtain ⟨hc, hcs⟩ := List.forall_mem_cons.mp h
    rw [List.cons_append, splitBy, if_neg (by simp [hc]), ih hcs]

theorem splitBy_eq_singleton (h : ∀ c ∈ cs, p c = false) : splitBy p cs = [cs] := by
  induction cs with
  | nil => rfl
  | cons c cs ih =>
    obtain ⟨hc, hcs⟩ := List.forall_mem_cons.mp h
    rw [splitBy, if_neg (by simp [hc]), ih hcs]

end Separators

/-- Texts with a separator between them are cut at it. -/
theorem splitBy_join {p : Char → Bool} {separator : String} {d : Char}
    (hseparator : separator.toList = [d]) (hd : p d = true) {texts : List String}
    (hne : texts ≠ []) (h : ∀ text ∈ texts, ∀ c ∈ text.toList, p c = false) :
    splitBy p (join separator texts).toList = texts.map String.toList := by
  induction texts with
  | nil => exact absurd rfl hne
  | cons text rest ih =>
    obtain ⟨htext, hrest⟩ := List.forall_mem_cons.mp h
    cases rest with
    | nil => exact splitBy_eq_singleton htext
    | cons next rest =>
      have hjoined : (join separator (text :: next :: rest)).toList =
          text.toList ++ d :: (join separator (next :: rest)).toList := by
        simp [join, hseparator]
      rw [hjoined, splitBy_append_cons htext hd, ih (List.cons_ne_nil next rest) hrest]
      rfl

theorem mem_join {separator : String} {texts : List String} {c : Char}
    (h : c ∈ (join separator texts).toList) :
    c ∈ separator.toList ∨ ∃ text ∈ texts, c ∈ text.toList := by
  induction texts with
  | nil => cases h
  | cons text rest ih =>
    cases rest with
    | nil => exact .inr ⟨text, List.mem_cons_self, h⟩
    | cons next rest =>
      have hjoined : (join separator (text :: next :: rest)).toList =
          text.toList ++ (separator.toList ++ (join separator (next :: rest)).toList) := by
        simp [join]
      rw [hjoined] at h
      rcases List.mem_append.mp h with h | h
      · exact .inr ⟨text, List.mem_cons_self, h⟩
      rcases List.mem_append.mp h with h | h
      · exact .inl h
      rcases ih h with h | ⟨found, hfound, h⟩
      · exact .inl h
      · exact .inr ⟨found, List.mem_cons_of_mem text hfound, h⟩

end ScopeMachine.Text
