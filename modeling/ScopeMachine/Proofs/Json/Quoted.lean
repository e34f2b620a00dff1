import Mathlib.Data.List.Chain
import ScopeMachine.Json.Writer
import ScopeMachine.Json.Reader
import ScopeMachine.Proofs.Basic

/-! Texts read back. Every code point is written as itself or as an escape, and the reader takes one
for the other. Only a high surrogate looks further: with a low one behind it, it would be read as
one character, so these two may not be neighbours. -/
namespace ScopeMachine

namespace Json

def isHigh (n : Nat) : Bool := 0xd800 ≤ n && n < 0xdc00

def isLow (n : Nat) : Bool := 0xdc00 ≤ n && n < 0xe000

/-- The code points of a text that was read: none is too large, and no high surrogate stands before
a low one. -/
structure Coded (points : List Nat) : Prop where
  bounded : ∀ n ∈ points, n < 0x110000
  unpaired : points.IsChain fun m n => ¬ (isHigh m = true ∧ isLow n = true)

/-- How a code point is written. -/
def escapePoint (n : Nat) : List Char :=
  if n.isValidChar then escape (Char.ofNat n) else escapeCode n

/-- One more code point in front of what is read. -/
def prepend (n : Nat) (x : Except Error (List Nat × List Char)) :
    Except Error (List Nat × List Char) :=
  x.map fun reading => (n :: reading.1, reading.2)

/-! ### Hexadecimal digits -/

theorem hexValue?_hexDigit (n : Nat) : hexValue? (Text.hexDigit n) = some (n % 16) := by
  have hall : ∀ d < 16, hexValue? (Nat.digitChar d) = some d := by decide
  exact hall (n % 16) (Nat.mod_lt n (by decide))

theorem hexCode?_hex {n : Nat} (hn : n < 0x10000) (c : Char) (tail : List Char) :
    hexCode? (Text.hex 4 n ++ c :: tail) = some n := by
  simp only [Text.hex, List.nil_append, List.cons_append, hexCode?, hexValue?_hexDigit,
    Option.bind_eq_bind, Option.bind_some, Option.pure_def, Option.some.injEq]
  omega

@[simp] theorem length_hex (width n : Nat) : (Text.hex width n).length = width := by
  induction width generalizing n with
  | zero => rfl
  | succ width ih => simp [Text.hex, ih]

/-! ### Escapes -/

theorem readText_skip (opening : Nat) (body tail : List Char) :
    readText opening body.length (body ++ tail) = readText opening 0 tail := by
  induction body with
  | nil => rfl
  | cons c body ih => exact ih

theorem readText_escape {opening point : Nat} (body : List Char) {tail : List Char}
    (h : readEscape opening (body ++ tail) = .ok (point, body.length)) :
    readText opening 0 ('\\' :: (body ++ tail)) = prepend point (readText opening 0 tail) := by
  rw [readText, if_neg (by decide), if_pos rfl, bind_of_ok h]
  dsimp only
  rw [readText_skip]
  cases readText opening 0 tail <;> rfl

theorem readText_plain {opening : Nat} {c : Char} (hquote : c ≠ '"') (hslash : c ≠ '\\')
    (hcontrol : 0x20 ≤ c.toNat) (tail : List Char) :
    readText opening 0 (c :: tail) = prepend c.toNat (readText opening 0 tail) := by
  rw [readText, if_neg hquote, if_neg hslash, if_neg (by omega)]
  cases readText opening 0 tail <;> rfl

/-- What is behind a high surrogate does not complete it. -/
def Apart (tail : List Char) : Prop :=
  ∀ rest, tail = '\\' :: 'u' :: rest → ∃ code, hexCode? rest = some code ∧ isLow code = false

theorem readEscape_code {n : Nat} (hn : n < 0x10000) {tail : List Char} (htail : tail ≠ [])
    (hapart : isHigh n = true → Apart tail) (opening : Nat) :
    readEscape opening ('u' :: Text.hex 4 n ++ tail) = .ok (n, 5) := by
  obtain ⟨c, more, rfl⟩ := List.exists_cons_of_ne_nil htail
  have hdrop : (Text.hex 4 n ++ c :: more).drop 4 = c :: more :=
    List.drop_left' (length_hex 4 n)
  simp only [List.cons_append, readEscape, hexCode?_hex hn, hdrop]
  split
  · rename_i hhigh hmore
    obtain ⟨code, hcode, hlow⟩ := hapart hhigh _ hmore
    unfold isLow at hlow
    split
    · rfl
    · rw [hcode]
      simp only [hlow, Bool.false_eq_true, ↓reduceIte]
  · rfl

theorem lt_of_isHigh {n : Nat} (h : isHigh n = true) : n < 0x10000 := by
  simp only [isHigh, Bool.and_eq_true, decide_eq_true_eq] at h
  omega

theorem lt_of_isLow {n : Nat} (h : isLow n = true) : n < 0x10000 := by
  simp only [isLow, Bool.and_eq_true, decide_eq_true_eq] at h
  omega

theorem readEscape_pair {high low : Nat} (hhigh : isHigh high = true) (hlow : isLow low = true)
    {tail : List Char} (htail : tail ≠ []) (opening : Nat) :
    readEscape opening ('u' :: Text.hex 4 high ++ '\\' :: 'u' :: Text.hex 4 low ++ tail) =
      .ok (0x10000 + (high - 0xd800) * 0x400 + (low - 0xdc00), 11) := by
  obtain ⟨c, more, rfl⟩ := List.exists_cons_of_ne_nil htail
  have hdrop : (Text.hex 4 high ++ '\\' :: 'u' :: (Text.hex 4 low ++ c :: more)).drop 4 =
      '\\' :: 'u' :: (Text.hex 4 low ++ c :: more) := List.drop_left' (length_hex 4 high)
  have hlength : ¬ (Text.hex 4 low ++ c :: more).length ≤ 4 := by simp
  have hfirst := hexCode?_hex (lt_of_isHigh hhigh)
  have hsecond := hexCode?_hex (lt_of_isLow hlow)
  unfold isHigh at hhigh
  unfold isLow at hlow
  simp only [List.cons_append, List.append_assoc, readEscape, hfirst, hdrop, hhigh, hlength,
    hsecond, hlow, ↓reduceIte]

theorem readText_pair {high low n : Nat} (hhigh : isHigh high = true) (hlow : isLow low = true)
    (hvalue : 0x10000 + (high - 0xd800) * 0x400 + (low - 0xdc00) = n) {tail : List Char}
    (htail : tail ≠ []) (opening : Nat) :
    readText opening 0 ('\\' :: 'u' :: Text.hex 4 high ++ '\\' :: 'u' :: Text.hex 4 low ++ tail) =
      prepend n (readText opening 0 tail) := by
  have hread := readEscape_pair hhigh hlow htail opening
  rw [hvalue] at hread
  let body := 'u' :: Text.hex 4 high ++ '\\' :: 'u' :: Text.hex 4 low
  have hbody : readEscape opening (body ++ tail) = .ok (n, body.length) := by
    simpa [body] using hread
  simpa [body] using readText_escape body hbody

/-- A code point past 16 bits is the character of its two surrogates. -/
theorem surrogates {n : Nat} (hlarge : 0x10000 ≤ n) (hn : n < 0x110000) :
    ∃ high low, escapeCode n = '\\' :: 'u' :: Text.hex 4 high ++ '\\' :: 'u' :: Text.hex 4 low ∧
      isHigh high = true ∧ isLow low = true ∧
      0x10000 + (high - 0xd800) * 0x400 + (low - 0xdc00) = n := by
  refine ⟨0xd800 + (n - 0x10000) / 0x400, 0xdc00 + (n - 0x10000) % 0x400, ?_, ?_, ?_, ?_⟩
  · rw [escapeCode, if_neg (by omega)]
  · simp only [isHigh, Bool.and_eq_true, decide_eq_true_eq]
    omega
  · simp only [isLow, Bool.and_eq_true, decide_eq_true_eq]
    omega
  · omega

/-! ### Texts -/

/-- A code point that is written is read back, if the text goes on and does not complete it. -/
theorem readText_escapePoint {n : Nat} (hn : n < 0x110000) {tail : List Char} (htail : tail ≠ [])
    (hapart : isHigh n = true → Apart tail) (opening : Nat) :
    readText opening 0 (escapePoint n ++ tail) = prepend n (readText opening 0 tail) := by
  have hcode : readText opening 0 (escapeCode n ++ tail) =
      prepend n (readText opening 0 tail) := by
    rcases Nat.lt_or_ge n 0x10000 with hsmall | hlarge
    · have hread := readEscape_code hsmall htail hapart opening
      rw [escapeCode, if_pos hsmall]
      exact readText_escape ('u' :: Text.hex 4 n) (by simpa using hread)
    · obtain ⟨high, low, hescape, hhigh, hlow, hvalue⟩ := surrogates hlarge hn
      rw [hescape]
      exact readText_pair hhigh hlow hvalue htail opening
  unfold escapePoint
  split
  · rename_i hvalid
    have hpoint : (Char.ofNat n).toNat = n := by
      rw [Char.ofNat, dif_pos hvalid]
      rfl
    generalize Char.ofNat n = c at hpoint
    subst hpoint
    unfold escape
    split
    · rename_i hc
      subst hc
      exact readText_escape ['"'] rfl
    split
    · rename_i hc
      subst hc
      exact readText_escape ['\\'] rfl
    split
    · rename_i hc
      subst hc
      exact readText_escape ['n'] rfl
    split
    · rename_i hc
      subst hc
      exact readText_escape ['r'] rfl
    split
    · rename_i hc
      subst hc
      exact readText_escape ['t'] rfl
    split
    · rename_i hc
      subst hc
      exact readText_escape ['b'] rfl
    split
    · rename_i hc
      subst hc
      exact readText_escape ['f'] rfl
    split
    · rename_i hquote hslash _ _ _ _ _ hprintable
      simp only [Bool.and_eq_true, decide_eq_true_eq] at hprintable
      exact readText_plain hquote hslash hprintable.1 tail
    · exact hcode
  · exact hcode

theorem isHigh_eq_false_of_isLow {n : Nat} (h : isLow n = true) : isHigh n = false := by
  simp only [isLow, isHigh, Bool.and_eq_true, decide_eq_true_eq, Bool.and_eq_false_iff,
    decide_eq_false_iff_not] at h ⊢
  omega

theorem isLow_eq_false_of_isHigh {n : Nat} (h : isHigh n = true) : isLow n = false := by
  cases hlow : isLow n with
  | false => rfl
  | true => simp [isHigh_eq_false_of_isLow hlow] at h

/-- A code point is written by its code or that of a high surrogate, or without any code. -/
theorem escapePoint_cases {n : Nat} (hn : n < 0x110000) :
    (∃ code more, escapePoint n = '\\' :: 'u' :: (Text.hex 4 code ++ more) ∧ code < 0x10000 ∧
      (code = n ∨ isHigh code = true)) ∨
    (∃ c, escapePoint n = [c] ∧ c ≠ '\\') ∨ ∃ c, escapePoint n = ['\\', c] ∧ c ≠ 'u' := by
  have hcode : ∃ code more, escapeCode n = '\\' :: 'u' :: (Text.hex 4 code ++ more) ∧
      code < 0x10000 ∧ (code = n ∨ isHigh code = true) := by
    rcases Nat.lt_or_ge n 0x10000 with hsmall | hlarge
    · refine ⟨n, [], ?_, hsmall, .inl rfl⟩
      rw [escapeCode, if_pos hsmall, List.append_nil]
    · obtain ⟨high, low, hescape, hhigh, -, -⟩ := surrogates hlarge hn
      exact ⟨high, _, hescape, lt_of_isHigh hhigh, .inr hhigh⟩
  unfold escapePoint
  split
  · rename_i hvalid
    have hpoint : (Char.ofNat n).toNat = n := by
      rw [Char.ofNat, dif_pos hvalid]
      rfl
    unfold escape
    repeat' split
    all_goals first
      | exact .inr (.inr ⟨_, rfl, by decide⟩)
      | exact .inr (.inl ⟨_, rfl, by assumption⟩)
      | exact .inl (by rwa [hpoint])
  · exact .inl hcode

/-- Code points of which the first is no low surrogate, and the closing quote, do not complete a
high one. -/
theorem apart_escapePoints {points : List Nat} (hpoints : ∀ n ∈ points, n < 0x110000)
    (hfirst : ∀ n ∈ points.head?, isLow n = false) (rest : List Char) :
    Apart (points.flatMap escapePoint ++ '"' :: rest) := by
  intro text htext
  cases points with
  | nil => cases htext
  | cons n points =>
    have hn := hpoints n List.mem_cons_self
    rw [List.flatMap_cons, List.append_assoc] at htext
    rcases escapePoint_cases hn with ⟨code, more, hescape, hcode, hkind⟩ | ⟨d, hescape, hd⟩ |
      ⟨d, hescape, hd⟩
    · obtain ⟨e, behind, hbehind⟩ := List.exists_cons_of_ne_nil
        (show more ++ (points.flatMap escapePoint ++ '"' :: rest) ≠ [] by simp)
      have hrest : text = Text.hex 4 code ++ e :: behind := by
        rw [hescape, List.cons_append, List.cons_append, List.append_assoc, hbehind] at htext
        cases htext
        rfl
      refine ⟨code, by rw [hrest, hexCode?_hex hcode], ?_⟩
      rcases hkind with rfl | hhigh
      · exact hfirst code rfl
      · exact isLow_eq_false_of_isHigh hhigh
    · rw [hescape] at htext
      exact absurd (List.cons.inj htext).1 hd
    · rw [hescape] at htext
      exact absurd (List.cons.inj (List.cons.inj htext).2).1 hd

/-- The code points of a text are read back, up to the closing quote. -/
theorem readText_escapePoints {points : List Nat} (h : Coded points) (opening : Nat)
    (rest : List Char) :
    readText opening 0 (points.flatMap escapePoint ++ '"' :: rest) = .ok (points, rest) := by
  induction points with
  | nil => rfl
  | cons n points ih =>
    obtain ⟨hbounded, hunpaired⟩ := h
    obtain ⟨hn, hpoints⟩ := List.forall_mem_cons.mp hbounded
    obtain ⟨hnext, hchain⟩ := List.isChain_cons.mp hunpaired
    have hapart (hhigh : isHigh n = true) :
        Apart (points.flatMap escapePoint ++ '"' :: rest) := by
      apply apart_escapePoints hpoints
      intro m hm
      have hnot := hnext m hm
      cases hlow : isLow m with
      | false => rfl
      | true => exact absurd ⟨hhigh, hlow⟩ hnot
    rw [List.flatMap_cons, List.append_assoc,
      readText_escapePoint hn (by simp) hapart, ih ⟨hpoints, hchain⟩]
    rfl

/-! ### Atoms of texts -/

theorem coded_of_isValidChar {points : List Nat} (h : ∀ n ∈ points, n.isValidChar) :
    Coded points := by
  constructor
  · intro n hn
    rcases h n hn with hlow | hhigh <;> omega
  · apply List.Pairwise.isChain
    apply List.pairwise_of_forall_mem_list
    rintro m hm n - ⟨hhigh, -⟩
    simp only [isHigh, Bool.and_eq_true, decide_eq_true_eq] at hhigh
    rcases h m hm with hlow | hlarge <;> omega

theorem isValidChar_of_mem_toList {s : String} {n : Nat} (h : n ∈ s.toList.map Char.toNat) :
    n.isValidChar := by
  obtain ⟨c, -, rfl⟩ := List.mem_map.mp h
  exact c.valid

theorem escapePoint_toNat (c : Char) : escapePoint c.toNat = escape c := by
  have hvalid : c.toNat.isValidChar := c.valid
  rw [escapePoint, if_pos hvalid, Char.ofNat_toNat]

theorem toList_quoted (s : String) :
    (quoted s).toList = '"' :: ((s.toList.map Char.toNat).flatMap escapePoint ++ ['"']) := by
  have hescape : escapePoint ∘ Char.toNat = escape := funext escapePoint_toNat
  rw [quoted, String.toList_ofList, List.flatMap_map, List.cons_append]
  rw [show (fun c => escapePoint (Char.toNat c)) = escape from hescape]

theorem toList_quotedCodes (points : List Nat) :
    (quotedCodes points).toList = '"' :: (points.flatMap escapePoint ++ ['"']) := by
  rw [quotedCodes, String.toList_ofList, List.cons_append]
  rfl

theorem ofCodes_toList (s : String) : Atom.ofCodes (s.toList.map Char.toNat) = .str s := by
  have hvalid : (s.toList.map Char.toNat).all (fun n => n.isValidChar) = true := by
    rw [List.all_eq_true]
    intro n hn
    exact decide_eq_true (isValidChar_of_mem_toList hn)
  have hchars : (s.toList.map Char.toNat).map Char.ofNat = s.toList := by
    rw [List.map_map, show Char.ofNat ∘ Char.toNat = id from funext Char.ofNat_toNat, List.map_id]
  rw [Atom.ofCodes, if_pos hvalid, hchars, String.ofList_toList]

/-! ### What is read is coded -/

/-- What an escape tells about its code point, where `rest` is behind the backslash. -/
structure Escaped (rest : List Char) (n used : Nat) : Prop where
  bounded : n < 0x110000
  used_le : used ≤ rest.length
  /-- A high surrogate has no low one behind it. -/
  apart : isHigh n = true → ∀ text, rest.drop used = '\\' :: 'u' :: text →
    ∀ code, hexCode? text = some code → isLow code = false
  /-- A low surrogate was given by its code. -/
  low : isLow n = true → ∃ text, rest = 'u' :: text ∧ hexCode? text = some n

theorem hexValue?_lt {c : Char} {v : Nat} (h : hexValue? c = some v) : v < 16 := by
  have hle (lower upper : Char) : (lower ≤ c && c ≤ upper) = true → c.toNat ≤ upper.toNat := by
    intro hc
    have hrange : lower ≤ c ∧ c ≤ upper := by simpa using hc
    exact hrange.2
  unfold hexValue? at h
  split at h
  · rename_i hc
    have hc := hle _ _ hc
    cases h
    simp only [Char.reduceToNat] at hc ⊢
    omega
  split at h
  · rename_i hc
    have hc := hle _ _ hc
    cases h
    simp only [Char.reduceToNat] at hc ⊢
    omega
  split at h
  · rename_i hc
    have hc := hle _ _ hc
    cases h
    simp only [Char.reduceToNat] at hc ⊢
    omega
  · cases h

theorem length_of_hexCode? {cs : List Char} {n : Nat} (h : hexCode? cs = some n) :
    5 ≤ cs.length ∧ n < 0x10000 := by
  unfold hexCode? at h
  split at h
  · obtain ⟨a, ha, h⟩ := Option.bind_eq_some_iff.mp h
    obtain ⟨b, hb, h⟩ := Option.bind_eq_some_iff.mp h
    obtain ⟨c, hc, h⟩ := Option.bind_eq_some_iff.mp h
    obtain ⟨d, hd, h⟩ := Option.bind_eq_some_iff.mp h
    have ha := hexValue?_lt ha
    have hb := hexValue?_lt hb
    have hc := hexValue?_lt hc
    have hd := hexValue?_lt hd
    cases h
    refine ⟨by simp, by omega⟩
  · cases h

theorem escaped_letter (c : Char) (rest : List Char) {n : Nat} (hn : n < 0xd800) :
    Escaped (c :: rest) n 1 := by
  refine ⟨by omega, by simp, ?_, ?_⟩
  · intro hhigh
    simp only [isHigh, Bool.and_eq_true, decide_eq_true_eq] at hhigh
    omega
  · intro hlow
    simp only [isLow, Bool.and_eq_true, decide_eq_true_eq] at hlow
    omega

theorem escaped_of_readEscape {opening n used : Nat} {rest : List Char}
    (h : readEscape opening rest = .ok (n, used)) : Escaped rest n used := by
  unfold readEscape at h
  split at h
  · cases h
  · rename_i text
    split at h
    · cases h
    · rename_i high hcode
      obtain ⟨hlength, hhigh⟩ := length_of_hexCode? hcode
      have hused : 5 ≤ ('u' :: text).length := by
        rw [List.length_cons]
        omega
      have hlow : isLow high = true → ∃ rest, 'u' :: text = 'u' :: rest ∧
          hexCode? rest = some high := fun _ => ⟨text, rfl, hcode⟩
      split at h
      · rename_i tail hpair hdrop
        split at h
        · rename_i hshort
          cases h
          refine ⟨by omega, hused, ?_, hlow⟩
          intro _ after hafter code hmore
          cases hdrop.symm.trans hafter
          have hlong := (length_of_hexCode? hmore).1
          omega
        · split at h
          · cases h
          · rename_i low hmore
            have hbehind := congrArg List.length hdrop
            simp only [List.length_drop, List.length_cons] at hbehind
            split at h
            · rename_i hlong hrange
              simp only [Bool.and_eq_true, decide_eq_true_eq] at hpair hrange
              simp only [Except.ok.injEq, Prod.mk.injEq] at h
              obtain ⟨hvalue, rfl⟩ := h
              refine ⟨by omega, by rw [List.length_cons]; omega, ?_, ?_⟩
              · intro hhigh
                have hsmall := lt_of_isHigh hhigh
                omega
              · intro hlow
                have hsmall := lt_of_isLow hlow
                omega
            · rename_i hrange
              cases h
              refine ⟨by omega, hused, ?_, hlow⟩
              intro _ after hafter code hother
              cases hdrop.symm.trans hafter
              cases hmore.symm.trans hother
              simpa [isLow] using hrange
      · rename_i hnone
        cases h
        refine ⟨by omega, hused, ?_, hlow⟩
        intro hhigh after hafter
        exact absurd hafter (hnone after hhigh)
  all_goals cases h
  all_goals exact escaped_letter _ _ (by decide)

theorem readText_drop {opening used : Nat} {rest : List Char} (h : used ≤ rest.length) :
    readText opening used rest = readText opening 0 (rest.drop used) := by
  have hskip := readText_skip opening (rest.take used) (rest.drop used)
  rwa [List.length_take, Nat.min_eq_left h, List.take_append_drop] at hskip

/-- What is read of a text: nothing, or a character, or an escape with its code point. -/
theorem readText_cases {opening : Nat} {cs rest : List Char} {points : List Nat}
    (h : readText opening 0 cs = .ok (points, rest)) :
    points = [] ∨
      (∃ c tail more, cs = c :: tail ∧ points = c.toNat :: more ∧
        readText opening 0 tail = .ok (more, rest)) ∨
      ∃ tail n used more, cs = '\\' :: tail ∧ points = n :: more ∧ Escaped tail n used ∧
        readText opening 0 (tail.drop used) = .ok (more, rest) := by
  cases cs with
  | nil => cases h
  | cons c tail =>
    unfold readText at h
    dsimp only at h
    split at h
    · cases h
      exact .inl rfl
    split at h
    · rename_i hc
      subst hc
      obtain ⟨⟨n, used⟩, hescape, h⟩ := bind_eq_ok h
      obtain ⟨⟨more, after⟩, hmore, h⟩ := bind_eq_ok h
      have hescaped := escaped_of_readEscape hescape
      cases h
      exact .inr (.inr ⟨tail, n, used, more, rfl, rfl, hescaped,
        by rwa [← readText_drop hescaped.used_le]⟩)
    split at h
    · cases h
    · obtain ⟨⟨more, after⟩, hmore, h⟩ := bind_eq_ok h
      cases h
      exact .inr (.inl ⟨c, tail, more, rfl, rfl, hmore⟩)

theorem not_surrogate (c : Char) : isHigh c.toNat = false ∧ isLow c.toNat = false := by
  have hvalid : c.toNat.isValidChar := c.valid
  simp only [isHigh, isLow, Bool.and_eq_false_iff, decide_eq_false_iff_not]
  rcases hvalid with hlow | hhigh <;> omega

/-- A text that begins with a low surrogate gives its code. -/
theorem exists_code_of_isLow {opening m : Nat} {cs rest : List Char} {points : List Nat}
    (h : readText opening 0 cs = .ok (points, rest)) (hm : points.head? = some m)
    (hlow : isLow m = true) : ∃ text, cs = '\\' :: 'u' :: text ∧ hexCode? text = some m := by
  rcases readText_cases h with rfl | ⟨c, tail, more, rfl, rfl, -⟩ |
    ⟨tail, n, used, more, rfl, rfl, hescaped, -⟩
  · cases hm
  · cases hm
    rw [(not_surrogate c).2] at hlow
    cases hlow
  · cases hm
    obtain ⟨text, rfl, hcode⟩ := hescaped.low hlow
    exact ⟨text, rfl, hcode⟩

theorem coded_of_readText {opening : Nat} {cs rest : List Char} {points : List Nat}
    (h : readText opening 0 cs = .ok (points, rest)) : Coded points := by
  induction points generalizing cs with
  | nil => exact ⟨by simp, .nil⟩
  | cons n more ih =>
    rcases readText_cases h with hnil | ⟨c, tail, more', rfl, hcons, hmore⟩ |
      ⟨tail, n', used, more', rfl, hcons, hescaped, hmore⟩
    · cases hnil
    · cases hcons
      obtain ⟨hbounded, hchain⟩ := ih hmore
      have hvalid : c.toNat.isValidChar := c.valid
      refine ⟨List.forall_mem_cons.mpr ⟨?_, hbounded⟩, List.isChain_cons.mpr ⟨?_, hchain⟩⟩
      · rcases hvalid with hlow | hhigh <;> omega
      · rintro m - ⟨hhigh, -⟩
        rw [(not_surrogate c).1] at hhigh
        cases hhigh
    · cases hcons
      obtain ⟨hbounded, hchain⟩ := ih hmore
      refine ⟨List.forall_mem_cons.mpr ⟨hescaped.bounded, hbounded⟩,
        List.isChain_cons.mpr ⟨?_, hchain⟩⟩
      rintro m hm ⟨hhigh, hlow⟩
      obtain ⟨text, htext, hcode⟩ := exists_code_of_isLow hmore hm hlow
      rw [hescaped.apart hhigh text htext m hcode] at hlow
      cases hlow

/-- A part of coded points is coded. -/
theorem Coded.of_infix {part points : List Nat} (h : Coded points) (hpart : part <:+: points) :
    Coded part :=
  ⟨fun n hn => h.bounded n (hpart.subset hn), h.unpaired.infix hpart⟩

end Json

/-- A text given by code points is coded and cannot be given by characters. -/
def Atom.WellCoded (a : Atom) : Prop :=
  ∀ points, a = .codes points → Json.Coded points ∧ Atom.ofCodes points = .codes points

theorem Atom.wellCoded_str (s : String) : (Atom.str s).WellCoded := nofun

theorem Atom.wellCoded_ofCodes {points : List Nat} (h : Json.Coded points) :
    (Atom.ofCodes points).WellCoded := by
  intro found hfound
  have hcodes : Atom.ofCodes points = .codes points := by
    unfold Atom.ofCodes at hfound ⊢
    split at hfound
    · cases hfound
    · rename_i hvalid
      rw [if_neg hvalid]
  rw [hcodes] at hfound
  cases hfound
  exact ⟨h, hcodes⟩

/-- A text whose code points are well coded. -/
def Atom.CodedText (k : Atom) : Prop := k.kind = .str ∧ k.WellCoded

theorem Atom.codedText_str (s : String) : (Atom.str s).CodedText := ⟨rfl, wellCoded_str s⟩

theorem Atom.codedText_ofCodes {points : List Nat} (h : Json.Coded points) :
    (Atom.ofCodes points).CodedText := by
  refine ⟨?_, wellCoded_ofCodes h⟩
  unfold Atom.ofCodes
  split <;> rfl

end ScopeMachine
