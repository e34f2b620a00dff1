import ScopeMachine.Proofs.FrontEnd
import ScopeMachine.Proofs.Json.Number
import ScopeMachine.Proofs.Text.LetterCase

/-! What the text of a value is read as, and what is written for it. A truth value has many
spellings and is written in one, and a whole number may have zeros in front that are not written.
Any other text that is not in quotes stands for itself. -/
namespace ScopeMachine

namespace Text

theorem digitValue?_ascii {c : Char} (h : c.toNat < 128) :
    digitValue? c = if isAsciiDigit c then some (asciiDigitValue c) else none :=
  forall_ascii (p := fun c =>
    digitValue? c = if isAsciiDigit c then some (asciiDigitValue c) else none)
    (by decide +kernel) h

theorem lt_of_isAsciiDigit {c : Char} (h : isAsciiDigit c = true) : c.toNat < 128 := by
  have hrange := toNat_of_isAsciiDigit h
  have hzero : '0'.toNat = 48 := rfl
  omega

theorem toLower_of_isAsciiDigit {c : Char} (h : isAsciiDigit c = true) : c.toLower = c := by
  have hrange := toNat_of_isAsciiDigit h
  have hzero : '0'.toNat = 48 := rfl
  rw [toLower_ascii (lt_of_isAsciiDigit h), if_neg]
  simp only [Bool.and_eq_true, decide_eq_true_eq]
  omega

theorem mapM_digitValue? {cs : List Char} (h : ∀ c ∈ cs, c.toNat < 128) :
    cs.mapM digitValue? =
      if cs.all isAsciiDigit then some (cs.map asciiDigitValue) else none := by
  induction cs with
  | nil => rfl
  | cons c cs ih =>
    obtain ⟨hc, hcs⟩ := List.forall_mem_cons.mp h
    rw [List.mapM_cons, digitValue?_ascii hc, ih hcs, List.all_cons]
    cases isAsciiDigit c <;> cases cs.all isAsciiDigit <;> rfl

end Text

namespace Directive

open Json (AsciiDigits)

/-- A whole number with its digits, behind a minus sign if it is negative. -/
inductive Whole : (text : List Char) → (negative : Bool) → (digits : List Char) → Prop
  | positive {digits : List Char} (h : AsciiDigits digits) : Whole digits false digits
  | negative {digits : List Char} (h : AsciiDigits digits) : Whole ('-' :: digits) true digits

/-- A whole number with zeros in front or with a sign before zero. -/
def Padded (negative : Bool) (digits : List Char) : Prop :=
  digits.head? = some '0' ∧ (negative = true ∨ digits ≠ ['0'])

/-- The number that digits spell. -/
def signed (negative : Bool) (digits : List Char) : Int :=
  if negative then -(Json.valueOf digits : Int) else Json.valueOf digits

namespace Whole

variable {text digits : List Char} {negative : Bool}

theorem asciiDigits (h : Whole text negative digits) : AsciiDigits digits := by
  cases h with
  | positive h | negative h => exact h

theorem unique (h : Whole text negative digits) {negative' : Bool} {digits' : List Char}
    (h' : Whole text negative' digits') : negative = negative' ∧ digits = digits' := by
  cases h with
  | positive h =>
    cases h' with
    | positive => exact ⟨rfl, rfl⟩
    | negative => cases h.2 '-' List.mem_cons_self
  | negative =>
    cases h' with
    | positive h => cases h.2 '-' List.mem_cons_self
    | negative => exact ⟨rfl, rfl⟩

/-- A whole number has no other letter cases. -/
theorem lowerAscii_eq (h : Whole text negative digits) : lowerAscii text = text := by
  have hdigits : digits.map Char.toLower = digits := by
    conv_rhs => rw [← List.map_id digits]
    exact List.map_congr_left fun c hc => Text.toLower_of_isAsciiDigit (h.asciiDigits.2 c hc)
  cases h with
  | positive => exact hdigits
  | negative => exact congrArg ('-' :: ·) hdigits

theorem isAsciiDigit_of_mem (h : Whole text negative digits) {c : Char} (hc : c ∈ text)
    (hsign : c ≠ '-') : Text.isAsciiDigit c = true := by
  cases h with
  | positive h => exact h.2 c hc
  | negative h => exact h.2 c (List.mem_of_ne_of_mem hsign hc)

theorem ne_of_letter (h : Whole text negative digits) {c : Char} (hc : Text.isAsciiDigit c = false)
    {rest : List Char} (hsign : c ≠ '-') : text ≠ c :: rest := by
  rintro rfl
  rw [h.isAsciiDigit_of_mem List.mem_cons_self hsign] at hc
  cases hc

theorem wholeNumber?_eq (h : Whole text negative digits) :
    wholeNumber? text = some (negative, digits.map Text.asciiDigitValue) := by
  obtain ⟨hne, hdigits⟩ := h.asciiDigits
  obtain ⟨c, more, rfl⟩ := List.exists_cons_of_ne_nil hne
  have hmapM := Text.mapM_digitValue? fun d hd => Text.lt_of_isAsciiDigit (hdigits d hd)
  rw [if_pos (List.all_eq_true.mpr hdigits)] at hmapM
  cases h with
  | positive =>
    have hsign : c ≠ '-' := by
      rintro rfl
      cases hdigits '-' List.mem_cons_self
    unfold wholeNumber?
    split
    rename_i sign run hrun
    split at hrun
    · rename_i rest hcons
      cases hcons
      exact absurd rfl hsign
    · cases hrun
      simp only [hmapM, Option.map_some]
  | negative => simp only [wholeNumber?, hmapM, Option.map_some]

/-- A whole number is written as it is unless it is padded. -/
theorem ofInt_eq_iff (h : Whole text negative digits) :
    (Numeral.ofInt (signed negative digits)).toList = text ↔ ¬ Padded negative digits := by
  have hdigits := h.asciiDigits
  cases h with
  | positive =>
    have htext : (Numeral.ofInt (signed false text)).toList =
        Nat.toDigits 10 (Json.valueOf text) := by
      have hsigned : signed false text = (Json.valueOf text : Int) := rfl
      rw [Numeral.ofInt, hsigned, if_neg (by omega), Int.natAbs_natCast]
      exact String.toList_ofList
    rw [htext]
    constructor
    · rintro hwritten ⟨hzero, hsign | hmore⟩
      · cases hsign
      · rcases Json.toDigits_leading (Json.valueOf text) with hsingle | hleading
        · exact hmore (hwritten.symm.trans hsingle)
        · exact hleading (hwritten.symm ▸ hzero)
    · intro hplain
      by_cases hzero : text.head? = some '0'
      · have hsingle : text = ['0'] := by
          by_contra hmore
          exact hplain ⟨hzero, .inr hmore⟩
        rw [hsingle]
        rfl
      · exact (Json.toDigits_valueOf hdigits hzero).1
  | negative =>
    have htext (hpositive : 0 < Json.valueOf digits) :
        (Numeral.ofInt (signed true digits)).toList =
          '-' :: Nat.toDigits 10 (Json.valueOf digits) := by
      simp [Numeral.ofInt, signed, Numeral.ofNat, hpositive]
    constructor
    · rintro hwritten ⟨hzero, -⟩
      rcases Nat.eq_zero_or_pos (Json.valueOf digits) with hvalue | hpositive
      · have hnone : (Numeral.ofInt (signed true digits)).toList = ['0'] := by
          rw [signed, hvalue]
          rfl
        rw [hnone] at hwritten
        cases hwritten
      · rw [htext hpositive] at hwritten
        injection hwritten with _ hwritten
        exact Json.head?_toDigits_ne hpositive.ne' (hwritten.symm ▸ hzero)
    · intro hplain
      have hleading : digits.head? ≠ some '0' := fun hzero => hplain ⟨hzero, .inl rfl⟩
      obtain ⟨hwritten, hpositive⟩ := Json.toDigits_valueOf hdigits hleading
      rw [htext hpositive, hwritten]

/-- No whole number is a truth value. -/
theorem lowerAscii_ne (h : Whole text negative digits) :
    lowerAscii text ≠ "true".toList ∧ lowerAscii text ≠ "false".toList := by
  rw [h.lowerAscii_eq]
  exact ⟨h.ne_of_letter rfl (by decide), h.ne_of_letter rfl (by decide)⟩

theorem readValue_eq (h : Whole text negative digits) :
    readValue text =
      if Numeral.digitLimit < digits.length then .error (.numeralTooLong digits.length)
      else .ok (.int (signed negative digits)) := by
  obtain ⟨htrue, hfalse⟩ := h.lowerAscii_ne
  rw [readValue, if_neg htrue, if_neg hfalse]
  simp only [h.wholeNumber?_eq, List.length_map]
  rfl

end Whole

variable {text : List Char}

theorem wholeNumber?_eq_none (hascii : ∀ c ∈ text, c.toNat < 128)
    (h : ∀ negative digits, ¬ Whole text negative digits) : wholeNumber? text = none := by
  unfold wholeNumber?
  split
  rename_i sign run hrun
  split
  · rfl
  · rename_i hne
    have hrunAscii : ∀ c ∈ run, c.toNat < 128 := by
      split at hrun
      · cases hrun
        exact fun c hc => hascii c (List.mem_cons_of_mem '-' hc)
      · cases hrun
        exact hascii
    have hnot : ¬ ∀ c ∈ run, Text.isAsciiDigit c = true := by
      intro hdigits
      split at hrun
      · cases hrun
        exact h _ _ (.negative ⟨hne, hdigits⟩)
      · cases hrun
        exact h _ _ (.positive ⟨hne, hdigits⟩)
    rw [Text.mapM_digitValue? hrunAscii, if_neg fun hall => hnot (List.all_eq_true.mp hall),
      Option.map_none]

/-- Other text is read as itself if it does not begin with a quote. -/
theorem readValue_plain (hascii : ∀ c ∈ text, c.toNat < 128)
    (htrue : lowerAscii text ≠ "true".toList) (hfalse : lowerAscii text ≠ "false".toList)
    (h : ∀ negative digits, ¬ Whole text negative digits)
    (hquote : ∀ c, text.head? = some c → c ≠ '"' ∧ c ≠ '\'') :
    readValue text = .ok (.str (String.ofList text)) := by
  have hunquote : unquote? text = none := by
    cases text with
    | nil => rfl
    | cons c rest =>
      obtain ⟨hdouble, hsingle⟩ := hquote c rfl
      simp [unquote?, hdouble, hsingle]
  rw [readValue, if_neg htrue, if_neg hfalse, wholeNumber?_eq_none hascii h, hunquote,
    Option.getD_none]

end Directive

end ScopeMachine
