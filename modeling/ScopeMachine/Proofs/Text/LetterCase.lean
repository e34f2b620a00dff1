import ScopeMachine.Text.LetterCase

/-! Words in any case. A word of small letters other than `i` and `k` has only ASCII spellings: a
text has it for its lower case just if the text becomes the word when nothing but the letters `A`
to `Z` is made small. -/
namespace ScopeMachine.Text

/-- The small letters that no character outside of ASCII has in its lower case. -/
def isSteady (c : Char) : Bool := 97 ≤ c.toNat && c.toNat ≤ 122 && c != 'i' && c != 'k'

/-- What holds of all ASCII characters is seen one by one. -/
theorem forall_ascii {p : Char → Prop} (h : ∀ n < 128, p (Char.ofNat n)) {c : Char}
    (hc : c.toNat < 128) : p c := by
  rw [← Char.ofNat_toNat c]
  exact h c.toNat hc

theorem toLower_ascii {c : Char} (h : c.toNat < 128) :
    c.toLower = if 65 ≤ c.toNat && c.toNat ≤ 90 then Char.ofNat (c.toNat + 32) else c :=
  forall_ascii (p := fun c =>
    c.toLower = if 65 ≤ c.toNat && c.toNat ≤ 90 then Char.ofNat (c.toNat + 32) else c)
    (by decide +kernel) h

/-- Every run of capitals but the first one lies outside of ASCII. -/
theorem lowerChar_ascii {c : Char} (h : c.toNat < 128) : lowerChar c = [c.toLower] := by
  have hruns : upperRuns = (0x41, 0x5a, 1, 32) :: upperRuns.tail := rfl
  have hothers : ∀ r ∈ upperRuns.tail, 128 ≤ r.1 := by decide +kernel
  have hdotted : (c.toNat == 0x130) = false := by
    rw [beq_eq_false_iff_ne]
    omega
  rw [lowerChar, hruns]
  simp only [hdotted, List.find?_cons, Nat.mod_one, toLower_ascii h]
  cases 65 ≤ c.toNat && c.toNat ≤ 90 with
  | true => rfl
  | false =>
    rw [List.find?_eq_none.mpr]
    · rfl
    · intro r hr
      have hfirst := hothers r hr
      simp only [Bool.and_eq_true, decide_eq_true_eq, not_and]
      omega

theorem isSteady_eq_false {c : Char} (h : c.toNat < 97 ∨ 122 < c.toNat) : isSteady c = false := by
  unfold isSteady
  rcases h with h | h
  · simp [Nat.not_le_of_lt h]
  · simp [Nat.not_le_of_lt h]

theorem isSteady_ofNat {n : Nat} (h : 128 ≤ n) : isSteady (Char.ofNat n) = false := by
  have hcode : (Char.ofNat n).toNat = n ∨ (Char.ofNat n).toNat = 0 := by
    by_cases hvalid : n.isValidChar
    · exact .inl (congrArg Char.toNat (dif_pos hvalid))
    · exact .inr (congrArg Char.toNat (dif_neg hvalid))
  exact isSteady_eq_false (by omega)

/-- The lower case of any other character starts with no steady letter. -/
theorem lowerChar_starts {c : Char} (h : 128 ≤ c.toNat) :
    ∃ d more, lowerChar c = d :: more ∧ isSteady d = false := by
  unfold lowerChar
  dsimp only
  split
  · exact ⟨_, _, rfl, rfl⟩
  · split
    · rename_i first last stride distance hfound
      have hrange := List.find?_some hfound
      simp only [Bool.and_eq_true, decide_eq_true_eq] at hrange
      have hruns : ∀ r ∈ upperRuns, r.2.1 < 128 ∨ r = (0x212a, 0x212a, 1, -8383) ∨
          128 ≤ (r.1 : Int) + r.2.2.2 := by decide +kernel
      refine ⟨_, _, rfl, ?_⟩
      rcases hruns _ (List.mem_of_find?_eq_some hfound) with hascii | hkelvin | hlarge
      · simp only at hascii
        omega
      · simp only [Prod.mk.injEq] at hkelvin
        obtain ⟨rfl, rfl, -, rfl⟩ := hkelvin
        have hcode : c.toNat = 0x212a := by omega
        rw [hcode]
        rfl
      · simp only at hlarge
        exact isSteady_ofNat (by omega)
    · exact ⟨c, [], rfl, isSteady_eq_false (by omega)⟩

theorem toLower_of_le {c : Char} (h : 128 ≤ c.toNat) : c.toLower = c := by
  unfold Char.toLower
  split
  · rename_i hcapital
    have hle : c.toNat ≤ 90 := UInt32.le_iff_toNat_le.mp hcapital.2
    omega
  · rfl

theorem lowerAfter_eq_iff {word : List Char} (hword : ∀ d ∈ word, isSteady d = true)
    (before cs : List Char) : lowerAfter before cs = word ↔ cs.map Char.toLower = word := by
  induction cs generalizing before word with
  | nil => rfl
  | cons c rest ih =>
    by_cases hascii : c.toNat < 128
    · have hne : c ≠ 'Σ' := by
        rintro rfl
        exact absurd hascii (by decide)
      rw [lowerAfter, if_neg hne, lowerChar_ascii hascii, List.map_cons]
      cases word with
      | nil => simp
      | cons d word =>
        simp [ih (List.forall_mem_cons.mp hword).2]
    · -- Neither side can be the word, which starts with a steady letter.
      have hlarge : 128 ≤ c.toNat := by omega
      obtain ⟨d, more, hstart, hd⟩ : ∃ d more, lowerAfter before (c :: rest) = d :: more ∧
          isSteady d = false := by
        rw [lowerAfter]
        split
        · refine ⟨lowerSigma before rest, _, rfl, ?_⟩
          unfold lowerSigma
          split <;> rfl
        · obtain ⟨d, more, hchar, hd⟩ := lowerChar_starts hlarge
          exact ⟨d, _, by rw [hchar]; rfl, hd⟩
      have hc : isSteady c = false := isSteady_eq_false (by omega)
      rw [hstart, List.map_cons, toLower_of_le hlarge]
      constructor
      · rintro rfl
        rw [hword d List.mem_cons_self] at hd
        cases hd
      · rintro rfl
        rw [hword c List.mem_cons_self] at hc
        cases hc

theorem lower_eq_iff (word : List Char) (hword : ∀ d ∈ word, isSteady d = true) (cs : List Char) :
    lower cs = word ↔ cs.map Char.toLower = word :=
  lowerAfter_eq_iff hword [] cs

end ScopeMachine.Text
