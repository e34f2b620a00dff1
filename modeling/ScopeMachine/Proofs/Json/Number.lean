import Mathlib.Tactic.IntervalCases
import ScopeMachine.Json.Writer
import ScopeMachine.Proofs.Json.Reason
import ScopeMachine.Proofs.Number.Shortest

/-! Numbers read back. Whatever way a number is written, its text has a sign, a whole part, and
perhaps a fraction and an exponent, and the reader finds just these parts if what follows cannot
belong to a number. -/
namespace ScopeMachine.Json

/-- What follows a value in a text: the end, or a comma or line feed. -/
def Closes (rest : List Char) : Prop := ∀ c, rest.head? = some c → c = ',' ∨ c = '\n'

/-- The parts of a number. -/
structure Spelling where
  negative : Bool
  whole : List Char
  fraction : Option (List Char)
  /-- Whether the exponent is negative, and its digits. -/
  exponent : Option (Bool × List Char)

/-- At least one digit and nothing else. -/
def AsciiDigits (cs : List Char) : Prop := cs ≠ [] ∧ ∀ c ∈ cs, Text.isAsciiDigit c = true

theorem asciiDigits_zero : AsciiDigits ['0'] := ⟨nofun, List.forall_mem_singleton.mpr rfl⟩

namespace Spelling

def fractionText : Option (List Char) → List Char
  | none => []
  | some digits => '.' :: digits

def exponentText : Option (Bool × List Char) → List Char
  | none => []
  | some (negative, digits) => 'e' :: (if negative then '-' else '+') :: digits

def text (s : Spelling) : List Char :=
  (if s.negative then ['-'] else []) ++ s.whole ++ fractionText s.fraction ++
    exponentText s.exponent

/-- A whole part is zero or does not begin with zero. -/
structure WellFormed (s : Spelling) : Prop where
  whole : AsciiDigits s.whole
  leading : s.whole = ['0'] ∨ s.whole.head? ≠ some '0'
  fraction : ∀ digits, s.fraction = some digits → AsciiDigits digits
  exponent : ∀ negative digits, s.exponent = some (negative, digits) → AsciiDigits digits

def power : Option (Bool × List Char) → Int
  | none => 0
  | some (true, digits) => -(valueOf digits : Int)
  | some (false, digits) => valueOf digits

end Spelling

theorem head?_ne_of_closes {rest : List Char} (h : Closes rest) {c : Char}
    (hc : rest.head? = some c) : Text.isAsciiDigit c = false ∧ c ≠ '.' ∧ c ≠ 'e' ∧ c ≠ 'E' := by
  rcases h c hc with rfl | rfl <;> decide

/-! ### Finding the parts -/

theorem splitWhole_of_digits {whole rest : List Char} (hdigits : AsciiDigits whole)
    (hleading : whole = ['0'] ∨ whole.head? ≠ some '0')
    (hrest : ∀ c, rest.head? = some c → Text.isAsciiDigit c = false) :
    splitWhole (whole ++ rest) = (whole, rest) := by
  rcases hleading with rfl | hleading
  · rfl
  · obtain ⟨htake, hdrop⟩ := span_of_boundary hdigits.2 hrest
    unfold splitWhole
    split
    · rename_i more heq
      obtain ⟨d, ds, rfl⟩ := List.exists_cons_of_ne_nil hdigits.1
      cases heq
      exact absurd rfl hleading
    · rw [htake, hdrop]

theorem splitFraction_of_digits {digits rest : List Char} (hdigits : AsciiDigits digits)
    (hrest : ∀ c, rest.head? = some c → Text.isAsciiDigit c = false) :
    splitFraction ('.' :: (digits ++ rest)) = (some digits, rest) := by
  obtain ⟨htake, hdrop⟩ := span_of_boundary hdigits.2 hrest
  obtain ⟨d, ds, rfl⟩ := List.exists_cons_of_ne_nil hdigits.1
  simp only [splitFraction, htake, hdrop]

theorem splitFraction_of_ne {rest : List Char} (h : ∀ c, rest.head? = some c → c ≠ '.') :
    splitFraction rest = (none, rest) := by
  unfold splitFraction
  split
  · exact absurd rfl (h '.' rfl)
  · rfl

theorem splitExponent_of_digits (negative : Bool) {digits rest : List Char}
    (hdigits : AsciiDigits digits)
    (hrest : ∀ c, rest.head? = some c → Text.isAsciiDigit c = false) :
    splitExponent ('e' :: (if negative then '-' else '+') :: (digits ++ rest)) =
      (some (negative, digits), rest) := by
  obtain ⟨htake, hdrop⟩ := span_of_boundary hdigits.2 hrest
  obtain ⟨d, ds, rfl⟩ := List.exists_cons_of_ne_nil hdigits.1
  cases negative with
  | false =>
    show splitExponent ('e' :: '+' :: (d :: ds ++ rest)) = _
    simp only [splitExponent, htake, hdrop, decide_true, Bool.true_or, ↓reduceIte]
  | true =>
    show splitExponent ('e' :: '-' :: (d :: ds ++ rest)) = _
    simp only [splitExponent, htake, hdrop, decide_true, Bool.true_or, ↓reduceIte]

theorem splitExponent_of_ne {rest : List Char}
    (h : ∀ c, rest.head? = some c → c ≠ 'e' ∧ c ≠ 'E') : splitExponent rest = (none, rest) := by
  unfold splitExponent
  split
  · rename_i mark more
    have hmark := h mark rfl
    rw [if_neg (by simp [hmark])]
  · rfl

/-! ### Reading a spelled number -/

theorem ne_of_isAsciiDigit {c d : Char} (h : Text.isAsciiDigit c = true)
    (hd : Text.isAsciiDigit d = false) : c ≠ d := by
  rintro rfl
  rw [h] at hd
  cases hd

namespace Spelling

/-- The number that a spelling stands for: without fraction and exponent it is whole. -/
def value (s : Spelling) : Value :=
  match s.fraction, s.exponent with
  | none, none => .int (if s.negative then -(valueOf s.whole : Int) else valueOf s.whole)
  | fraction, exponent =>
    .float (.ofDecimal s.negative (valueOf (s.whole ++ fraction.getD []))
      (power exponent - (fraction.getD []).length))

theorem readNumber_text {s : Spelling} (hs : s.WellFormed)
    (hshort : s.fraction = none → s.exponent = none → s.whole.length ≤ Numeral.digitLimit)
    {rest : List Char} (hrest : Closes rest) :
    readNumber (s.text ++ rest) = .ok (s.value, rest) := by
  obtain ⟨negative, whole, fraction, exponent⟩ := s
  have hclose := fun c hc => head?_ne_of_closes hrest (c := c) hc
  have hexponent : splitExponent (exponentText exponent ++ rest) = (exponent, rest) := by
    cases exponent with
    | none => exact splitExponent_of_ne fun c hc => (hclose c hc).2.2
    | some e =>
      exact splitExponent_of_digits e.1 (hs.exponent e.1 e.2 rfl) fun c hc => (hclose c hc).1
  have hbehind : ∀ c, (exponentText exponent ++ rest).head? = some c →
      Text.isAsciiDigit c = false ∧ c ≠ '.' := by
    cases exponent with
    | none => exact fun c hc => ⟨(hclose c hc).1, (hclose c hc).2.1⟩
    | some e =>
      rintro _ ⟨⟩
      decide
  have hfraction : splitFraction (fractionText fraction ++ (exponentText exponent ++ rest)) =
      (fraction, exponentText exponent ++ rest) := by
    cases fraction with
    | none => exact splitFraction_of_ne fun c hc => (hbehind c hc).2
    | some digits =>
      exact splitFraction_of_digits (hs.fraction digits rfl) fun c hc => (hbehind c hc).1
  have hwhole : splitWhole (whole ++ (fractionText fraction ++ (exponentText exponent ++ rest))) =
      (whole, fractionText fraction ++ (exponentText exponent ++ rest)) := by
    refine splitWhole_of_digits hs.whole hs.leading ?_
    cases fraction with
    | none => exact fun c hc => (hbehind c hc).1
    | some digits =>
      rintro _ ⟨⟩
      decide
  have hminus : (whole ++ (fractionText fraction ++ (exponentText exponent ++ rest))).head? ≠
      some '-' := by
    obtain ⟨d, ds, rfl⟩ : ∃ d ds, whole = d :: ds := List.exists_cons_of_ne_nil hs.whole.1
    simpa using ne_of_isAsciiDigit (hs.whole.2 d List.mem_cons_self) (show _ = false from rfl)
  have htext : text ⟨negative, whole, fraction, exponent⟩ ++ rest =
      (if negative then ['-'] else []) ++
        (whole ++ (fractionText fraction ++ (exponentText exponent ++ rest))) := by
    simp [text]
  rw [htext]
  generalize whole ++ (fractionText fraction ++ (exponentText exponent ++ rest)) = unsigned at *
  unfold readNumber
  split
  rename_i sign found hsign
  obtain ⟨rfl, rfl⟩ : negative = sign ∧ unsigned = found := by
    cases negative with
    | true => simpa using hsign
    | false =>
      split at hsign
      · rename_i heq
        exact absurd (by simpa using congrArg List.head? heq) hminus
      · simpa using hsign
  rw [hwhole]
  split
  · rename_i hnil
    exact absurd (congrArg Prod.fst hnil) hs.whole.1
  · rename_i heq
    cases heq
    simp only [hfraction, hexponent]
    cases fraction with
    | none =>
      cases exponent with
      | none =>
        rw [if_neg (Nat.not_lt.mpr (hshort rfl rfl))]
        rfl
      | some e =>
        obtain ⟨sign, digits⟩ := e
        cases sign <;> rfl
    | some digits =>
      cases exponent with
      | none => rfl
      | some e =>
        obtain ⟨sign, digits⟩ := e
        cases sign <;> rfl

/-- A text spells a number. -/
structure Spells (s : Spelling) (text : List Char) (v : Value) : Prop where
  wellFormed : s.WellFormed
  short : s.fraction = none → s.exponent = none → s.whole.length ≤ Numeral.digitLimit
  text_eq : s.text = text
  value_eq : s.value = v

/-- A number begins with a digit, perhaps behind a minus sign. -/
theorem WellFormed.text_cons {s : Spelling} (h : s.WellFormed) :
    ∃ c more, s.text = c :: more ∧
      (Text.isAsciiDigit c = true ∨
        c = '-' ∧ ∃ d rest, more = d :: rest ∧ Text.isAsciiDigit d = true) := by
  obtain ⟨negative, whole, fraction, exponent⟩ := s
  obtain ⟨d, ds, rfl⟩ : ∃ d ds, whole = d :: ds := List.exists_cons_of_ne_nil h.whole.1
  have hd := h.whole.2 d List.mem_cons_self
  cases negative with
  | false => exact ⟨d, _, rfl, .inl hd⟩
  | true => exact ⟨'-', _, rfl, .inr ⟨rfl, d, _, rfl, hd⟩⟩

/-- No word begins like a number. -/
theorem WellFormed.readWord?_eq_none {s : Spelling} (h : s.WellFormed) (rest : List Char) :
    readWord? (s.text ++ rest) = none := by
  have hother {c : Char} (hc : Text.isAsciiDigit c = true) :
      ('n' == c) = false ∧ ('t' == c) = false ∧ ('f' == c) = false ∧ ('N' == c) = false ∧
        ('I' == c) = false ∧ ('-' == c) = false := by
    refine ⟨?_, ?_, ?_, ?_, ?_, ?_⟩ <;>
      exact beq_eq_false_iff_ne.mpr (ne_of_isAsciiDigit hc rfl).symm
  obtain ⟨c, more, htext, hc | ⟨rfl, d, more, rfl, hd⟩⟩ := h.text_cons
  · simp [htext, readWord?, words, List.isPrefixOf, hother hc]
  · simp [htext, readWord?, words, List.isPrefixOf, hother hd]

theorem Spells.readValue_eq {s : Spelling} {text : List Char} {v : Value} (h : s.Spells text v)
    {rest : List Char} (hrest : Closes rest) (steps levels : Nat) :
    readValue (steps + 1) levels (text ++ rest) = .ok (v, rest) := by
  have hnumber := readNumber_text h.wellFormed h.short hrest
  have hword := h.wellFormed.readWord?_eq_none rest
  obtain ⟨c, more, htext, hfirst⟩ := h.wellFormed.text_cons
  have hc : c ≠ '"' ∧ c ≠ '\x7b' ∧ c ≠ '[' := by
    rcases hfirst with hdigit | ⟨rfl, -⟩
    · exact ⟨ne_of_isAsciiDigit hdigit rfl, ne_of_isAsciiDigit hdigit rfl,
        ne_of_isAsciiDigit hdigit rfl⟩
    · decide
  rw [← h.text_eq, ← h.value_eq]
  rw [htext, List.cons_append] at hnumber hword ⊢
  unfold readValue
  rw [if_neg hc.1, if_neg hc.2.1, if_neg hc.2.2, hword]
  exact hnumber

end Spelling

/-! ### Digits -/

theorem asciiDigits_toDigits (n : Nat) : AsciiDigits (Nat.toDigits 10 n) := by
  refine ⟨Nat.toDigits_ne_nil, fun c hc => ?_⟩
  have hdigit := Nat.isDigit_of_mem_toDigits (by decide) (by decide) hc
  simpa [Char.isDigit, Text.isAsciiDigit, Char.le_def] using hdigit

theorem valueOf_toDigits (n : Nat) : valueOf (Nat.toDigits 10 n) = n := by
  rw [valueOf, Numeral.valueOf, List.foldl_map]
  exact Nat.ofDigitChars_ten_toDigits

theorem valueOf_append (xs ys : List Char) :
    valueOf (xs ++ ys) = valueOf xs * 10 ^ ys.length + valueOf ys := by
  simp only [valueOf, Numeral.valueOf_eq_ofDigits, List.map_append, List.reverse_append,
    Nat.ofDigits_append, List.length_reverse, List.length_map]
  ring

theorem valueOf_zeros (n : Nat) : valueOf (List.replicate n '0') = 0 := by
  induction n with
  | zero => rfl
  | succ n ih =>
    rw [List.replicate_succ', valueOf_append, ih]
    rfl

/-- The digits of a number other than zero do not begin with zero. -/
theorem head?_toDigits_ne {n : Nat} (hn : n ≠ 0) : (Nat.toDigits 10 n).head? ≠ some '0' := by
  induction n using Nat.strongRecOn with
  | ind n ih =>
    rw [Nat.toDigits_eq_if (by decide)]
    split
    · rename_i hsmall
      interval_cases n <;> first | exact absurd rfl hn | decide
    · have hfirst := ih (n / 10) (by omega) (by omega)
      rw [List.head?_append_of_ne_nil _ Nat.toDigits_ne_nil]
      exact hfirst

theorem toDigits_leading (n : Nat) :
    Nat.toDigits 10 n = ['0'] ∨ (Nat.toDigits 10 n).head? ≠ some '0' := by
  rcases Nat.eq_zero_or_pos n with rfl | hn
  · exact .inl (Nat.toDigits_zero 10)
  · exact .inr (head?_toDigits_ne hn.ne')

theorem digitChar_asciiDigitValue {c : Char} (h : Text.isAsciiDigit c = true) :
    Nat.digitChar (Text.asciiDigitValue c) = c := by
  have hrange := Text.toNat_of_isAsciiDigit h
  have hzero : '0'.toNat = 48 := rfl
  apply Char.toNat_inj.mp
  rw [Nat.toNat_digitChar_of_lt_ten (Text.asciiDigitValue_lt h), Text.asciiDigitValue]
  omega

/-- Digits without a zero in front are the ones that the number they spell is written with. -/
theorem toDigits_valueOf {digits : List Char} (h : AsciiDigits digits)
    (hleading : digits.head? ≠ some '0') :
    Nat.toDigits 10 (valueOf digits) = digits ∧ 0 < valueOf digits := by
  induction digits using List.reverseRecOn with
  | nil => exact absurd rfl h.1
  | append_singleton front c ih =>
    have hc : Text.isAsciiDigit c = true := h.2 c (by simp)
    have hlt := Text.asciiDigitValue_lt hc
    have hlast : Nat.toDigits 10 (Text.asciiDigitValue c) = [c] := by
      rw [Nat.toDigits_of_lt_base hlt, digitChar_asciiDigitValue hc]
    have hvalue : valueOf (front ++ [c]) = 10 * valueOf front + Text.asciiDigitValue c := by
      rw [valueOf, Numeral.valueOf, List.map_append, List.foldl_append]
      rfl
    by_cases hfront : front = []
    · subst hfront
      have hpositive : Text.asciiDigitValue c ≠ 0 := by
        intro hzero
        have hdigit := digitChar_asciiDigitValue hc
        rw [hzero] at hdigit
        exact hleading (congrArg some hdigit.symm)
      rw [hvalue]
      exact ⟨by simpa [valueOf, Numeral.valueOf] using hlast, by omega⟩
    · rw [List.head?_append_of_ne_nil _ hfront] at hleading
      obtain ⟨hdigits, hpositive⟩ :=
        ih ⟨hfront, fun d hd => h.2 d (List.mem_append_left [c] hd)⟩ hleading
      refine ⟨?_, by omega⟩
      rw [hvalue, ← Nat.toDigits_append_toDigits (by decide) hpositive hlt, hdigits, hlast]

theorem AsciiDigits.append {xs ys : List Char} (hxs : AsciiDigits xs)
    (hys : ∀ c ∈ ys, Text.isAsciiDigit c = true) : AsciiDigits (xs ++ ys) := by
  refine ⟨by simp [hxs.1], fun c hc => ?_⟩
  rcases List.mem_append.mp hc with hc | hc
  · exact hxs.2 c hc
  · exact hys c hc

theorem isAsciiDigit_of_mem_zeros {n : Nat} {c : Char} (h : c ∈ List.replicate n '0') :
    Text.isAsciiDigit c = true := by
  rw [List.eq_of_mem_replicate h]
  decide

/-! ### Whole numbers -/

def wholeSpelling (i : Int) : Spelling := ⟨i < 0, Nat.toDigits 10 i.natAbs, none, none⟩

theorem text_wholeSpelling (i : Int) : (wholeSpelling i).text = (Numeral.ofInt i).toList := by
  unfold Numeral.ofInt
  split <;> rename_i hi <;> simp [wholeSpelling, Spelling.text, Spelling.fractionText,
    Spelling.exponentText, Numeral.ofNat, hi]

theorem value_wholeSpelling (i : Int) : (wholeSpelling i).value = .int i := by
  simp only [wholeSpelling, Spelling.value, valueOf_toDigits, decide_eq_true_eq]
  split <;> congr 2 <;> omega

theorem spells_ofInt {i : Int} (h : i.natAbs < Numeral.tooLong) :
    (wholeSpelling i).Spells (Numeral.ofInt i).toList (.int i) := by
  refine ⟨⟨asciiDigits_toDigits _, toDigits_leading _, ?_, ?_⟩, fun _ _ => ?_,
    text_wholeSpelling i, value_wholeSpelling i⟩
  · exact fun digits h => nomatch h
  · exact fun negative digits h => nomatch h
  · unfold Numeral.tooLong at h
    have hpositive : 0 < Numeral.digitLimit := by decide
    generalize Numeral.digitLimit = limit at h hpositive ⊢
    exact (Nat.length_toDigits_le_iff (by decide) hpositive).mpr h

/-! ### Floats -/

/-- The digits of an exponent, of which there are at least two. -/
def exponentDigits (power : Int) : List Char :=
  if (Nat.toDigits 10 power.natAbs).length < 2 then '0' :: Nat.toDigits 10 power.natAbs
  else Nat.toDigits 10 power.natAbs

theorem asciiDigits_exponentDigits (power : Int) : AsciiDigits (exponentDigits power) := by
  have hdigits := asciiDigits_toDigits power.natAbs
  unfold exponentDigits
  split
  · refine ⟨nofun, fun c hc => ?_⟩
    rcases List.mem_cons.mp hc with rfl | hc
    · decide
    · exact hdigits.2 c hc
  · exact hdigits

theorem power_exponentDigits (power : Int) :
    Spelling.power (some (power < 0, exponentDigits power)) = power := by
  have hvalue : valueOf (exponentDigits power) = power.natAbs := by
    unfold exponentDigits
    split
    · rw [← List.singleton_append, valueOf_append, valueOf_toDigits]
      show 0 * _ + power.natAbs = _
      omega
    · exact valueOf_toDigits _
  by_cases hnegative : power < 0
  · simp only [hnegative, decide_true, Spelling.power, hvalue]
    omega
  · simp only [hnegative, decide_false, Spelling.power, hvalue]
    omega

theorem toList_exponentText (power : Int) :
    (Numeral.exponentText power).toList =
      Spelling.exponentText (some (power < 0, exponentDigits power)) := by
  simp only [Numeral.exponentText, Numeral.ofNat, String.length_ofList, exponentDigits,
    Spelling.exponentText, String.toList_append]
  split <;> split <;> simp_all

/-- A text that is read as `d`, up to zeros at the end of its digits. -/
structure Spelling.Tells (s : Spelling) (negative : Bool) (d : Decimal) : Prop where
  wellFormed : s.WellFormed
  negative_eq : s.negative = negative
  text_eq : s.text = (if negative then ['-'] else []) ++ (Numeral.ofDecimal d).toList
  isFloat : s.fraction = none → s.exponent ≠ none
  value_eq : ∃ m k : Nat, ∃ e : Int, s.value = .float (.ofDecimal negative m e) ∧
    m = d.digits * 10 ^ k ∧ e + k = d.exponent ∧ (e = -1 ∨ e = d.exponent)

theorem value_of_fraction (negative : Bool) (whole fraction : List Char) :
    Spelling.value ⟨negative, whole, some fraction, none⟩ =
      .float (.ofDecimal negative (valueOf (whole ++ fraction)) (-fraction.length)) := by
  simp [Spelling.value, Spelling.power]

theorem value_of_exponent (negative : Bool) (whole : List Char) (fraction : Option (List Char))
    (exponent : Bool × List Char) :
    Spelling.value ⟨negative, whole, fraction, some exponent⟩ =
      .float (.ofDecimal negative (valueOf (whole ++ fraction.getD []))
        (Spelling.power (some exponent) - (fraction.getD []).length)) := by
  cases fraction <;> rfl

section Decimal

variable {d : Decimal} (hd : d.digits ≠ 0) (negative : Bool)
include hd

/-- Written with zeros up to the point and one behind it. -/
theorem exists_tells_of_whole (hpoint : -4 < (Nat.toDigits 10 d.digits).length + d.exponent ∧
      (Nat.toDigits 10 d.digits).length + d.exponent ≤ 16) (hexponent : 0 ≤ d.exponent) :
    ∃ s : Spelling, s.Tells negative d := by
  have hdigits := asciiDigits_toDigits d.digits
  refine ⟨⟨negative, Nat.toDigits 10 d.digits ++ List.replicate d.exponent.toNat '0', some ['0'],
    none⟩, ⟨?_, ?_, ?_, ?_⟩, rfl, ?_, nofun, ?_⟩
  · exact hdigits.append fun c => isAsciiDigit_of_mem_zeros
  · right
    rw [List.head?_append_of_ne_nil _ hdigits.1]
    exact head?_toDigits_ne hd
  · rintro _ ⟨⟩
    exact asciiDigits_zero
  · exact fun _ _ h => nomatch h
  · simp [Numeral.ofDecimal, hpoint, hexponent, Spelling.text, Spelling.fractionText,
      Spelling.exponentText, Numeral.zeros]
  · refine ⟨_, d.exponent.toNat + 1, _, value_of_fraction .., ?_, ?_, .inl rfl⟩
    · rw [valueOf_append, valueOf_append, valueOf_toDigits, valueOf_zeros, List.length_replicate]
      show (d.digits * 10 ^ d.exponent.toNat + 0) * 10 ^ 1 + 0 = _
      ring
    · simp only [List.length_singleton]
      omega

/-- Written with a point among the digits. -/
theorem exists_tells_of_point (hpoint : -4 < (Nat.toDigits 10 d.digits).length + d.exponent ∧
      (Nat.toDigits 10 d.digits).length + d.exponent ≤ 16) (hexponent : ¬ 0 ≤ d.exponent)
    (hinside : 0 < (Nat.toDigits 10 d.digits).length + d.exponent) :
    ∃ s : Spelling, s.Tells negative d := by
  have hdigits := asciiDigits_toDigits d.digits
  generalize hplace : ((Nat.toDigits 10 d.digits).length + d.exponent).toNat = place
  refine ⟨⟨negative, (Nat.toDigits 10 d.digits).take place,
    some ((Nat.toDigits 10 d.digits).drop place), none⟩, ⟨?_, ?_, ?_, ?_⟩, rfl, ?_, nofun, ?_⟩
  · refine ⟨?_, fun c hc => hdigits.2 c (List.mem_of_mem_take hc)⟩
    rw [Ne, List.take_eq_nil_iff]
    rintro (hzero | hnil)
    · omega
    · exact hdigits.1 hnil
  · right
    rw [List.head?_take, if_neg (by omega)]
    exact head?_toDigits_ne hd
  · rintro _ ⟨⟩
    refine ⟨?_, fun c hc => hdigits.2 c (List.mem_of_mem_drop hc)⟩
    rw [Ne, List.drop_eq_nil_iff]
    omega
  · exact fun _ _ h => nomatch h
  · simp [Numeral.ofDecimal, hpoint, hexponent, hinside, Spelling.text, Spelling.fractionText,
      Spelling.exponentText, hplace]
  · refine ⟨_, 0, _, value_of_fraction .., ?_, ?_, ?_⟩
    · rw [List.take_append_drop, valueOf_toDigits, Nat.pow_zero, Nat.mul_one]
    · rw [List.length_drop]
      omega
    · rw [List.length_drop]
      omega

omit hd in
/-- Written with zeros between the point and the digits. -/
theorem exists_tells_of_zeros (hpoint : -4 < (Nat.toDigits 10 d.digits).length + d.exponent ∧
      (Nat.toDigits 10 d.digits).length + d.exponent ≤ 16) (hexponent : ¬ 0 ≤ d.exponent)
    (hbefore : ¬ 0 < (Nat.toDigits 10 d.digits).length + d.exponent) :
    ∃ s : Spelling, s.Tells negative d := by
  have hdigits := asciiDigits_toDigits d.digits
  generalize hzeros : (-((Nat.toDigits 10 d.digits).length + d.exponent)).toNat = zeros
  refine ⟨⟨negative, ['0'], some (List.replicate zeros '0' ++ Nat.toDigits 10 d.digits), none⟩,
    ⟨asciiDigits_zero, .inl rfl, ?_, ?_⟩, rfl, ?_, nofun, ?_⟩
  · rintro _ ⟨⟩
    refine ⟨by simp [hdigits.1], fun c hc => ?_⟩
    rcases List.mem_append.mp hc with hc | hc
    · exact isAsciiDigit_of_mem_zeros hc
    · exact hdigits.2 c hc
  · exact fun _ _ h => nomatch h
  · simp [-neg_add_rev, Numeral.ofDecimal, hpoint, hexponent, hbefore, Spelling.text,
      Spelling.fractionText, Spelling.exponentText, Numeral.zeros, hzeros]
  · refine ⟨_, 0, _, value_of_fraction .., ?_, ?_, ?_⟩
    · rw [valueOf_append, valueOf_append, valueOf_toDigits, valueOf_zeros]
      show 0 * _ + (0 * _ + d.digits) = _
      ring
    · rw [List.length_append, List.length_replicate]
      omega
    · rw [List.length_append, List.length_replicate]
      omega

/-- Written with an exponent. -/
theorem exists_tells_of_exponent
    (hpoint : ¬ (-4 < (Nat.toDigits 10 d.digits).length + d.exponent ∧
      (Nat.toDigits 10 d.digits).length + d.exponent ≤ 16)) :
    ∃ s : Spelling, s.Tells negative d := by
  have hdigits := asciiDigits_toDigits d.digits
  have hlength := Nat.length_toDigits_pos (b := 10) (n := d.digits)
  have hfraction : (if (Nat.toDigits 10 d.digits).length ≤ 1 then none
      else some ((Nat.toDigits 10 d.digits).drop 1)).getD [] =
        (Nat.toDigits 10 d.digits).drop 1 := by
    split
    · rename_i hshort
      exact (List.drop_eq_nil_of_le hshort).symm
    · rfl
  generalize hpower : (Nat.toDigits 10 d.digits).length + d.exponent - 1 = power
  refine ⟨⟨negative, (Nat.toDigits 10 d.digits).take 1,
    if (Nat.toDigits 10 d.digits).length ≤ 1 then none
    else some ((Nat.toDigits 10 d.digits).drop 1),
    some (power < 0, exponentDigits power)⟩, ⟨?_, ?_, ?_, ?_⟩, rfl, ?_, nofun, ?_⟩
  · refine ⟨?_, fun c hc => hdigits.2 c (List.mem_of_mem_take hc)⟩
    simp [hdigits.1]
  · right
    rw [List.head?_take, if_neg (by decide)]
    exact head?_toDigits_ne hd
  · intro digits hfraction
    split at hfraction
    · cases hfraction
    · cases hfraction
      refine ⟨?_, fun c hc => hdigits.2 c (List.mem_of_mem_drop hc)⟩
      rw [Ne, List.drop_eq_nil_iff]
      assumption
  · rintro _ _ ⟨⟩
    exact asciiDigits_exponentDigits power
  · have hnot : (-4 < ((Nat.toDigits 10 d.digits).length : Int) + d.exponent &&
        ((Nat.toDigits 10 d.digits).length : Int) + d.exponent ≤ 16) = false := by
      simpa using hpoint
    simp only [Numeral.ofDecimal, hnot, hpower, Bool.false_eq_true, ↓reduceIte,
      String.toList_append, String.toList_ofList, toList_exponentText, Spelling.text,
      List.append_assoc]
    congr 3
    split <;> simp [Spelling.fractionText]
  · refine ⟨_, 0, _, value_of_exponent .., ?_, ?_, ?_⟩
    · rw [hfraction, List.take_append_drop, valueOf_toDigits, Nat.pow_zero, Nat.mul_one]
    · rw [hfraction, power_exponentDigits, List.length_drop]
      omega
    · rw [hfraction, power_exponentDigits, List.length_drop]
      omega

theorem exists_tells : ∃ s : Spelling, s.Tells negative d := by
  by_cases hpoint : -4 < (Nat.toDigits 10 d.digits).length + d.exponent ∧
      (Nat.toDigits 10 d.digits).length + d.exponent ≤ 16
  · by_cases hexponent : 0 ≤ d.exponent
    · exact exists_tells_of_whole hd negative hpoint hexponent
    by_cases hinside : 0 < (Nat.toDigits 10 d.digits).length + d.exponent
    · exact exists_tells_of_point hd negative hpoint hexponent hinside
    · exact exists_tells_of_zeros negative hpoint hexponent hinside
  · exact exists_tells_of_exponent hd negative hpoint

end Decimal

/-- The text of a decimal in the rounding interval of `x` is read as `x`. -/
theorem exists_spells_of_catches {x : Binary64} (hx : 0 < x.word)
    (hfinite : x.word < Binary64.top) {d : Decimal} (hcatches : x.CatchesDecimal d)
    (hleast : -400 ≤ d.exponent) (hmost : d.exponent ≤ 400) :
    ∃ s : Spelling, s.Spells ((if x.negative then ['-'] else []) ++ (Numeral.ofDecimal d).toList)
      (.float x) := by
  obtain ⟨s, hs⟩ := exists_tells (hcatches.digits_ne_zero hx) x.negative
  obtain ⟨m, k, e, hvalue, rfl, hexponent, hrange⟩ := hs.value_eq
  have hsame : x.CatchesDecimal ⟨d.digits * 10 ^ k, e⟩ := by
    rw [Binary64.CatchesDecimal.of_shifted, hexponent]
    exact hcatches
  refine ⟨s, hs.wellFormed, fun hf he => absurd he (hs.isFloat hf), hs.text_eq, ?_⟩
  rw [hvalue, hsame.ofDecimal hx hfinite.le (by omega) (by omega)]

theorem toList_ofBinary64 {x : Binary64} (hfinite : x.word < Binary64.top) :
    (Numeral.ofBinary64 x).toList = (if x.negative then ['-'] else []) ++
      (if x.isZero then "0.0" else Numeral.ofDecimal x.shortest).toList := by
  have hnumber : x.isNaN = false := decide_eq_false (Nat.not_lt.mpr hfinite.le)
  have hbounded : x.isInfinite = false := by simp [Binary64.isInfinite, hfinite.ne]
  unfold Numeral.ofBinary64
  generalize (if x.isZero then "0.0" else Numeral.ofDecimal x.shortest) = digits
  cases hsign : x.negative <;> simp [hnumber, hbounded]

/-- The text of a finite float spells that float. -/
theorem exists_spells_ofBinary64 {x : Binary64} (hfinite : x.word < Binary64.top) :
    ∃ s : Spelling, s.Spells (Numeral.ofBinary64 x).toList (.float x) := by
  rw [toList_ofBinary64 hfinite]
  rcases Nat.eq_zero_or_pos x.word with hzero | hpositive
  · have hiszero : x.isZero = true := by simp [Binary64.isZero, hzero]
    rw [hiszero, if_pos rfl]
    refine ⟨⟨x.negative, ['0'], some ['0'], none⟩, ⟨asciiDigits_zero, .inl rfl, ?_, ?_⟩, nofun,
      ?_, ?_⟩
    · rintro _ ⟨⟩
      exact asciiDigits_zero
    · exact fun _ _ h => nomatch h
    · cases x.negative <;> rfl
    · have hx : Binary64.ofDecimal x.negative (valueOf ['0', '0']) (-1) = x := by
        show Binary64.zero x.negative = x
        rw [Binary64.zero, ← hzero]
      rw [value_of_fraction]
      exact congrArg Value.float hx
  · have hnonzero : x.isZero = false := by simp [Binary64.isZero, hpositive.ne']
    obtain ⟨hcatches, hleast, hmost⟩ := Binary64.catches_shortest hpositive hfinite
    rw [hnonzero, if_neg Bool.false_ne_true]
    exact exists_spells_of_catches hpositive hfinite hcatches (by omega) (by omega)

end ScopeMachine.Json
