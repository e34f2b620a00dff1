import Mathlib.Data.List.TakeWhile
import ScopeMachine.Proofs.Basic
import ScopeMachine.Proofs.Source.Layout

/-! Tokens by the longest match. Every class of tokens is given by its spellings, and the token that
the lexer reads is the longest one of any class that could stand in its place. Conversely the
longest token is the one that is read. -/
namespace ScopeMachine

/-! ### The classes of tokens -/

/-- At least one digit and nothing else. -/
def IsDigits (cs : List Char) : Prop := cs ≠ [] ∧ ∀ c ∈ cs, Lexer.isDigit c = true

/-- What a token of each class may be spelled like. -/
def Lexeme.WellSpelled : Lexeme → Prop
  | .identifier name => ∃ c cs, name.toList = c :: cs ∧ Lexer.isLetter c = true ∧
      ∀ d ∈ cs, Lexer.isLetter d = true ∨ Lexer.isDigit d = true
  | .constant (.number whole none) => IsDigits whole.toList
  | .constant (.number whole (some fraction)) =>
    IsDigits whole.toList ∧ IsDigits fraction.toList
  | .constant (.text quote body) => quote.char ∉ body.toList
  | .operator _ => True
  | .punctuation _ => True

/-- In front of `behind` no token of any class could spell more than `l` does. -/
def Lexeme.Longest (l : Lexeme) (behind : List Char) : Prop :=
  ∀ l' : Lexeme, l'.WellSpelled → l'.literal.toList <+: l.literal.toList ++ behind →
    l'.literal.toList.length ≤ l.literal.toList.length

/-- The classes that differ in the character with which a token starts. -/
inductive TokenClass
  | text
  | number
  | word
  | operator
  | mark
  deriving DecidableEq

def Lexeme.tokenClass : Lexeme → TokenClass
  | .identifier _ => .word
  | .constant (.number ..) => .number
  | .constant (.text ..) => .text
  | .operator _ => .operator
  | .punctuation _ => .mark

namespace Lexer

/-- The class of a token that starts with `c`. -/
def tokenClass? (c : Char) : Option TokenClass :=
  if (quote? c).isSome then some .text
  else if isDigit c then some .number
  else if isLetter c then some .word
  else if c ∈ ['&', '|', '=', '!', '<', '>', '+', '-', '*', '/'] then some .operator
  else if c ∈ ['(', ')', ',', '$'] then some .mark
  else none

theorem quote?_eq_none_of_isDigit {c : Char} (h : isDigit c = true) : quote? c = none := by
  unfold quote?
  split
  · exact absurd h (by decide)
  · exact absurd h (by decide)
  · rfl

theorem quote?_eq_none_of_isLetter {c : Char} (h : isLetter c = true) : quote? c = none := by
  unfold quote?
  split
  · exact absurd h (by decide)
  · exact absurd h (by decide)
  · rfl

theorem quote?_of_char (quote : Quote) : quote? quote.char = some quote := by
  cases quote <;> rfl

theorem isDigit_eq_false_of_isLetter {c : Char} (h : isLetter c = true) : isDigit c = false := by
  simp only [isLetter, isDigit, Text.isAsciiDigit, Bool.or_eq_true, Bool.and_eq_true,
    decide_eq_true_eq, Char.le_def, UInt32.le_iff_toNat_le, Bool.and_eq_false_iff,
    decide_eq_false_iff_not] at h ⊢
  rcases h with (h | h) | rfl
  · right
    have h1 : 'a'.val.toNat = 97 := rfl
    have h2 : '9'.val.toNat = 57 := rfl
    omega
  · right
    have h1 : 'A'.val.toNat = 65 := rfl
    have h2 : '9'.val.toNat = 57 := rfl
    omega
  · decide

theorem tokenClass?_eq_none_of_startsLayout {c : Char} (h : startsLayout c = true) :
    tokenClass? c = none := by
  simp only [startsLayout, isSpace, Bool.or_eq_true, decide_eq_true_eq] at h
  rcases h with (((rfl | rfl) | rfl) | rfl) | rfl <;> decide

/-- No token starts the way layout does. -/
theorem startsLayout_eq_false {c : Char} {kind : TokenClass}
    (h : tokenClass? c = some kind) : startsLayout c = false := by
  cases hstarts : startsLayout c with
  | false => rfl
  | true => simp [tokenClass?_eq_none_of_startsLayout hstarts] at h

theorem tokenClass?_of_isDigit {c : Char} (h : isDigit c = true) :
    tokenClass? c = some .number := by
  simp [tokenClass?, quote?_eq_none_of_isDigit h, h]

end Lexer

open Lexer

/-- The first character of a token tells its class. -/
theorem Lexeme.WellSpelled.exists_cons {l : Lexeme} (h : l.WellSpelled) :
    ∃ c cs, l.literal.toList = c :: cs ∧ tokenClass? c = some l.tokenClass := by
  have hdigits {cs : List Char} (hcs : IsDigits cs) :
      ∃ c more, cs = c :: more ∧ tokenClass? c = some .number := by
    obtain ⟨c, more, rfl⟩ := List.exists_cons_of_ne_nil hcs.1
    exact ⟨c, more, rfl, tokenClass?_of_isDigit (hcs.2 c List.mem_cons_self)⟩
  cases l with
  | identifier name =>
    obtain ⟨c, cs, hname, hc, -⟩ := h
    refine ⟨c, cs, hname, ?_⟩
    simp [tokenClass?, quote?_eq_none_of_isLetter hc, isDigit_eq_false_of_isLetter hc, hc,
      tokenClass]
  | constant k =>
    cases k with
    | number whole fraction =>
      cases fraction with
      | none => exact hdigits h
      | some fraction =>
        obtain ⟨c, more, hwhole, hc⟩ := hdigits h.1
        exact ⟨c, _, by simp [Lexeme.literal, Constant.literal, hwhole]; rfl, hc⟩
    | text quote body =>
      refine ⟨quote.char, _, by simp [Lexeme.literal, Constant.literal]; rfl, ?_⟩
      cases quote <;> rfl
  | operator op => cases op <;> exact ⟨_, _, rfl, by decide⟩
  | punctuation mark => cases mark <;> exact ⟨_, _, rfl, by decide⟩

/-! ### Tokens that are read are the longest -/

namespace Lexer

theorem length_le_takeWhile {p : Char → Bool} {w cs : List Char} (hw : ∀ c ∈ w, p c = true)
    (h : w <+: cs) : w.length ≤ (cs.takeWhile p).length := by
  obtain ⟨rest, rfl⟩ := h
  rw [List.takeWhile_append_of_pos hw, List.length_append]
  omega

/-- Digits end at a point. -/
theorem span_of_point {w : List Char} (hw : ∀ c ∈ w, isDigit c = true) (rest : List Char) :
    (w ++ '.' :: rest).takeWhile isDigit = w ∧
      (w ++ '.' :: rest).dropWhile isDigit = '.' :: rest := by
  refine span_of_boundary hw fun c hc => ?_
  cases hc
  decide

/-- A number has a fraction exactly if a point and a digit follow its first digits. -/
theorem readNumber_cases (cs : List Char) :
    (∃ d rest, cs.dropWhile isDigit = '.' :: d :: rest ∧ isDigit d = true ∧
      readNumber cs = (.number (String.ofList (cs.takeWhile isDigit))
        (some (String.ofList ((d :: rest).takeWhile isDigit))), (d :: rest).dropWhile isDigit)) ∨
    (∀ d rest, cs.dropWhile isDigit = '.' :: d :: rest → isDigit d = false) ∧
      readNumber cs = (.number (String.ofList (cs.takeWhile isDigit)) none,
        cs.dropWhile isDigit) := by
  unfold readNumber
  split
  · rename_i d rest hrest
    by_cases hd : isDigit d = true
    · exact .inl ⟨d, rest, hrest, hd, by simp [hd]⟩
    · refine .inr ⟨fun d' rest' h => ?_, by simp [hd, hrest]⟩
      rw [hrest] at h
      cases h
      simpa using hd
  · rename_i hrest
    exact .inr ⟨fun d rest h => absurd h (hrest d rest), rfl⟩

theorem readNumber_of_digits {w behind : List Char} (hw : ∀ c ∈ w, isDigit c = true)
    (hbehind : ∀ c, behind.head? = some c → isDigit c = false ∧ c ≠ '.') :
    readNumber (w ++ behind) = (.number (String.ofList w) none, behind) := by
  obtain ⟨htake, hdrop⟩ := span_of_boundary hw fun c hc => (hbehind c hc).1
  rcases readNumber_cases (w ++ behind) with ⟨d, rest, hpoint, -, -⟩ | ⟨-, hread⟩
  · rw [hdrop] at hpoint
    exact absurd rfl (hbehind '.' (by rw [hpoint]; rfl)).2
  · rw [hread, htake, hdrop]

theorem readNumber_number {cs after : List Char} {number : Constant}
    (h : readNumber cs = (number, after)) : ∃ whole fraction, number = .number whole fraction := by
  rcases readNumber_cases cs with ⟨d, rest, -, -, hread⟩ | ⟨-, hread⟩ <;> rw [hread] at h <;>
    cases h <;> exact ⟨_, _, rfl⟩

theorem isDigits_takeWhile {c : Char} (hc : isDigit c = true) (rest : List Char) :
    IsDigits ((c :: rest).takeWhile isDigit) :=
  ⟨by simp [hc], fun _ hd => List.mem_takeWhile_imp hd⟩

theorem readNumber_wellSpelled {c : Char} (hc : isDigit c = true) (rest : List Char) :
    (Lexeme.constant (readNumber (c :: rest)).1).WellSpelled := by
  have hwhole := isDigits_takeWhile hc rest
  rcases readNumber_cases (c :: rest) with ⟨d, rest', -, hd, hread⟩ | ⟨-, hread⟩
  · have hfraction := isDigits_takeWhile hd rest'
    rw [hread]
    simpa only [Lexeme.WellSpelled, String.toList_ofList] using And.intro hwhole hfraction
  · rw [hread]
    simpa only [Lexeme.WellSpelled, String.toList_ofList] using hwhole

theorem length_number_le {whole : String} {fraction : Option String} {cs : List Char}
    (h : (Lexeme.constant (.number whole fraction)).WellSpelled)
    (hfront : (Constant.number whole fraction).literal.toList <+: cs) :
    (Constant.number whole fraction).literal.toList.length ≤
      (readNumber cs).1.literal.toList.length := by
  cases fraction with
  | none =>
    have hle := length_le_takeWhile h.2 hfront
    rcases readNumber_cases cs with ⟨d, rest, -, -, hread⟩ | ⟨-, hread⟩ <;> rw [hread] <;>
      simp only [Constant.literal, String.toList_append, String.toList_ofList,
        List.length_append] at hle ⊢ <;> omega
  | some fraction =>
    obtain ⟨hwhole, hfraction⟩ := h
    obtain ⟨tail, rfl⟩ := hfront
    -- Digits and a point: the first digits of the text are just these.
    have htext : (Constant.number whole (some fraction)).literal.toList ++ tail =
        whole.toList ++ '.' :: (fraction.toList ++ tail) := by simp [Constant.literal]
    obtain ⟨htake, hdrop⟩ := span_of_point hwhole.2 (fraction.toList ++ tail)
    rw [htext]
    rcases readNumber_cases (whole.toList ++ '.' :: (fraction.toList ++ tail)) with
      ⟨d, rest, hrest, -, hread⟩ | ⟨hnone, -⟩
    · rw [hdrop] at hrest
      have hfront : fraction.toList <+: d :: rest := ⟨tail, (List.cons.inj hrest).2⟩
      have hle := length_le_takeWhile hfraction.2 hfront
      rw [hread, htake]
      simp only [Constant.literal, String.toList_append, String.toList_ofList,
        List.length_append]
      omega
    · obtain ⟨d, more, hfraction'⟩ := List.exists_cons_of_ne_nil hfraction.1
      have hd : isDigit d = true := hfraction.2 d (by simp [hfraction'])
      rw [hdrop, hfraction'] at hnone
      simp [hnone d (more ++ tail) rfl] at hd

theorem length_spelling_le {op op' : BinaryOp} {cs after : List Char}
    (h : readOperator? cs = some (op, after)) (hfront : op'.spelling.toList <+: cs) :
    op'.spelling.toList.length ≤ op.spelling.toList.length := by
  -- Two characters that make up an operator are read as such; one character is never too many.
  obtain ⟨rest, rfl⟩ := hfront
  cases op' with
  | and | or | eq | notEq | le | ge =>
    cases h
    exact Nat.le_refl _
  | add | sub | mul | div | lt | gt => cases op <;> decide

theorem readText?_eq_some {quote : Quote} {body : List Char} (hbody : quote.char ∉ body)
    (rest : List Char) :
    readText? quote (body ++ quote.char :: rest) =
      some (.text quote (String.ofList body), rest) := by
  have hall : ∀ c ∈ body, (c != quote.char) = true := by
    intro c hc
    simp only [bne_iff_ne]
    rintro rfl
    exact hbody hc
  have hquote : ∀ c, (quote.char :: rest).head? = some c → (c != quote.char) = false := by simp
  obtain ⟨htake, hdrop⟩ := span_of_boundary hall hquote
  simp [readText?, htake, hdrop]

theorem readText?_sound {quote : Quote} {cs : List Char} {text : Constant} {after : List Char}
    (h : readText? quote cs = some (text, after)) :
    ∃ body : String, text = .text quote body ∧ quote.char ∉ body.toList := by
  unfold readText? at h
  split at h
  · cases h
  · cases h
    refine ⟨_, rfl, ?_⟩
    rw [String.toList_ofList]
    intro hmem
    have := List.mem_takeWhile_imp hmem
    simp at this

/-- A whole number is read if it is not too long. -/
theorem readLexeme_of_digits {c : Char} {w behind : List Char}
    (hw : ∀ d ∈ c :: w, isDigit d = true)
    (hbehind : ∀ d, behind.head? = some d → isDigit d = false ∧ d ≠ '.') (position : Position) :
    readLexeme position c (w ++ behind) =
      if Numeral.digitLimit < (c :: w).length then .error (.numeralTooLong (c :: w).length)
      else .ok (.constant (.number (String.ofList (c :: w)) none), behind) := by
  have hc : isDigit c = true := hw c List.mem_cons_self
  have hread : readNumber (c :: (w ++ behind)) = (.number (String.ofList (c :: w)) none, behind) :=
    readNumber_of_digits hw hbehind
  simp only [readLexeme, quote?_eq_none_of_isDigit hc, hc, ↓reduceIte, hread,
    String.length_ofList]

/-- What a token that was read is, by the reader of its class. -/
inductive Reads (c : Char) (rest : List Char) : Lexeme → List Char → Prop
  | text {quote : Quote} {body : String} {after : List Char} (hquote : quote? c = some quote)
      (hread : readText? quote rest = some (.text quote body, after)) :
      Reads c rest (.constant (.text quote body)) after
  | number {whole : String} {fraction : Option String} {after : List Char}
      (hc : isDigit c = true) (hread : readNumber (c :: rest) = (.number whole fraction, after))
      (hlimit : fraction = none → whole.length ≤ Numeral.digitLimit) :
      Reads c rest (.constant (.number whole fraction)) after
  | word (hc : isLetter c = true) :
      Reads c rest (readIdentifier (c :: rest)).1 (readIdentifier (c :: rest)).2
  | operator {op : BinaryOp} {after : List Char}
      (hread : readOperator? (c :: rest) = some (op, after)) : Reads c rest (.operator op) after
  | mark {mark : Punctuation} {after : List Char}
      (hread : readPunctuation? (c :: rest) = some (mark, after)) :
      Reads c rest (.punctuation mark) after

theorem reads_of_readLexeme {position : Position} {c : Char} {rest : List Char} {l : Lexeme}
    {after : List Char} (h : readLexeme position c rest = .ok (l, after)) :
    Reads c rest l after := by
  unfold readLexeme at h
  split at h
  · rename_i quote hquote
    split at h
    · rename_i hread
      cases h
      obtain ⟨body, rfl, -⟩ := readText?_sound hread
      exact .text hquote hread
    · cases h
  · split at h
    · rename_i hc
      split at h
      · rename_i whole after' hread
        split at h
        · cases h
        · rename_i hlength
          cases h
          exact .number hc hread fun _ => Nat.le_of_not_lt hlength
      · rename_i hnone hread
        cases h
        obtain ⟨whole, fraction, rfl⟩ := readNumber_number hread
        refine .number hc hread ?_
        rintro rfl
        exact absurd rfl (hnone whole)
    · split at h
      · rename_i hc
        cases h
        exact .word hc
      · split at h
        · rename_i hread
          cases h
          exact .operator hread
        · split at h
          · rename_i hread
            cases h
            exact .mark hread
          · cases h

theorem Reads.wellSpelled {c : Char} {rest : List Char} {l : Lexeme} {after : List Char}
    (h : Reads c rest l after) : l.WellSpelled := by
  cases h with
  | text _ hread =>
    obtain ⟨body, hbody, hquote⟩ := readText?_sound hread
    cases hbody
    exact hquote
  | number hc hread _ =>
    have hspelled := readNumber_wellSpelled hc rest
    rw [hread] at hspelled
    exact hspelled
  | word hc =>
    have hword : isWordChar c = true := by simp [isWordChar, hc]
    refine ⟨c, rest.takeWhile isWordChar, by simp [hword], hc, fun d hd => ?_⟩
    simpa [isWordChar] using List.mem_takeWhile_imp hd
  | operator _ => trivial
  | mark _ => trivial

end Lexer

namespace Lexeme

/-- Tokens that could stand in the same place belong to one class. -/
theorem tokenClass_eq_of_prefix {l l' : Lexeme} {behind : List Char} (h : l.WellSpelled)
    (h' : l'.WellSpelled) (hfront : l'.literal.toList <+: l.literal.toList ++ behind) :
    l'.tokenClass = l.tokenClass := by
  obtain ⟨c, cs, hl, hc⟩ := h.exists_cons
  obtain ⟨c', cs', hl', hc'⟩ := h'.exists_cons
  obtain ⟨rest, hrest⟩ := hfront
  rw [hl, hl'] at hrest
  cases (List.cons.inj hrest).1
  rw [hc] at hc'
  exact (Option.some.inj hc').symm

end Lexeme

namespace Lexer

/-- The reader of each class reads as much as any token of the class could spell. -/
theorem Reads.longest {c : Char} {rest : List Char} {l : Lexeme} {after : List Char}
    (h : Reads c rest l after) (htext : l.literal.toList ++ after = c :: rest) :
    l.Longest after := by
  intro l' hspelled hfront
  have hclass := Lexeme.tokenClass_eq_of_prefix h.wellSpelled hspelled hfront
  rw [htext] at hfront
  cases h with
  | text hquote hread =>
    rcases l' with name | (⟨whole, fraction⟩ | ⟨quote', body'⟩) | op | mark <;> cases hclass
    obtain ⟨tail, htail⟩ := hfront
    simp only [Lexeme.literal, Constant.literal, String.toList_ofList, List.cons_append,
      List.append_assoc, List.cons.injEq, List.nil_append] at htail
    obtain ⟨hchar, rfl⟩ := htail
    rw [← hchar, quote?_of_char] at hquote
    cases hquote
    rw [readText?_eq_some hspelled] at hread
    cases hread
    simp [Lexeme.literal]
  | number hc hread _ =>
    rcases l' with name | (⟨whole, fraction⟩ | ⟨quote', body'⟩) | op | mark <;> cases hclass
    have hle := length_number_le hspelled hfront
    rw [hread] at hle
    exact hle
  | word hc =>
    rcases l' with name | (⟨whole, fraction⟩ | ⟨quote', body'⟩) | op | mark <;> cases hclass
    obtain ⟨d, ds, hname, hd, hds⟩ := hspelled
    have hall : ∀ e ∈ name.toList, isWordChar e = true := by
      rw [hname]
      simpa [isWordChar, hd] using hds
    simpa [readIdentifier, Lexeme.literal] using length_le_takeWhile hall hfront
  | operator hread =>
    rcases l' with name | (⟨whole, fraction⟩ | ⟨quote', body'⟩) | op | mark <;> cases hclass
    exact length_spelling_le hread hfront
  | mark hread =>
    rcases l' with name | (⟨whole, fraction⟩ | ⟨quote', body'⟩) | op | mark <;> cases hclass
    simp [Lexeme.literal]

theorem readOperator?_start {c : Char} {rest : List Char} {op : BinaryOp} {after : List Char}
    (h : readOperator? (c :: rest) = some (op, after)) :
    quote? c = none ∧ isDigit c = false ∧ isLetter c = false := by
  have hliteral := readOperator?_literal h
  cases op <;> cases hliteral <;> decide

theorem readLexeme_of_reads {c : Char} {rest : List Char} {l : Lexeme} {after : List Char}
    (h : Reads c rest l after) (position : Position) :
    readLexeme position c rest = .ok (l, after) := by
  cases h with
  | text hquote hread => simp [readLexeme, hquote, hread]
  | @number whole fraction after hc hread hlimit =>
    cases fraction with
    | none => simp [readLexeme, quote?_eq_none_of_isDigit hc, hc, hread, hlimit rfl]
    | some fraction => simp [readLexeme, quote?_eq_none_of_isDigit hc, hc, hread]
  | word hc =>
    simp [readLexeme, quote?_eq_none_of_isLetter hc, isDigit_eq_false_of_isLetter hc, hc]
  | operator hread =>
    obtain ⟨hquote, hdigit, hletter⟩ := readOperator?_start hread
    simp [readLexeme, hquote, hdigit, hletter, hread]
  | @mark mark after hread =>
    obtain ⟨rfl, rfl⟩ := List.cons.inj (readPunctuation?_literal hread)
    cases mark <;> rfl

end Lexer

/-! ### The longest token is the one that is read -/

namespace Lexeme

/-- A longer token does not stand in the same place. -/
theorem Longest.not_prefix {l : Lexeme} {behind : List Char} (h : l.Longest behind) {l' : Lexeme}
    (hspelled : l'.WellSpelled) {more : List Char} (hne : more ≠ [])
    (hliteral : l'.literal.toList = l.literal.toList ++ more) : ¬ more <+: behind := by
  rintro ⟨rest, rfl⟩
  have hle := h l' hspelled ⟨rest, by rw [hliteral, List.append_assoc]⟩
  have hpos := List.length_pos_iff.mpr hne
  rw [hliteral, List.length_append] at hle
  omega

theorem Longest.head_behind {l : Lexeme} {behind : List Char} (h : l.Longest behind)
    {p : Char → Bool} (hextend : ∀ c, p c = true → ∃ l' : Lexeme, l'.WellSpelled ∧
      l'.literal.toList = l.literal.toList ++ [c]) (c : Char) (hc : behind.head? = some c) :
    p c = false := by
  cases hp : p c with
  | false => rfl
  | true =>
    obtain ⟨l', hspelled, hliteral⟩ := hextend c hp
    obtain ⟨rest, rfl⟩ : ∃ rest, behind = c :: rest := by
      cases behind with
      | nil => cases hc
      | cons d rest =>
        cases hc
        exact ⟨rest, rfl⟩
    exact absurd ⟨rest, rfl⟩ (h.not_prefix hspelled (List.cons_ne_nil c []) hliteral)

end Lexeme

namespace Lexer

theorem isDigits_append_singleton {cs : List Char} (h : IsDigits cs) {c : Char}
    (hc : isDigit c = true) : IsDigits (cs ++ [c]) := by
  refine ⟨by simp, fun d hd => ?_⟩
  rcases List.mem_append.mp hd with hd | hd
  · exact h.2 d hd
  · rw [List.mem_singleton.mp hd]
    exact hc

theorem reads_word {name : String} {behind : List Char}
    (hspelled : (Lexeme.identifier name).WellSpelled)
    (hlongest : (Lexeme.identifier name).Longest behind) {c : Char} {rest : List Char}
    (htext : name.toList ++ behind = c :: rest) : Reads c rest (.identifier name) behind := by
  obtain ⟨d, ds, hname, hd, hds⟩ := hspelled
  have hall : ∀ e ∈ name.toList, isWordChar e = true := by
    rw [hname]
    simpa [isWordChar, hd] using hds
  have hbehind : ∀ e, behind.head? = some e → isWordChar e = false := by
    refine hlongest.head_behind fun e he => ⟨.identifier (name ++ String.ofList [e]), ?_, ?_⟩
    · refine ⟨d, ds ++ [e], by simp [hname], hd, fun x hx => ?_⟩
      rcases List.mem_append.mp hx with hx | hx
      · exact hds x hx
      · rw [List.mem_singleton.mp hx]
        simpa [isWordChar] using he
    · simp [Lexeme.literal]
  obtain ⟨htake, hdrop⟩ := span_of_boundary hall hbehind
  have hc : isLetter c = true := by
    rw [hname] at htext
    rwa [← (List.cons.inj htext).1]
  have hread : Reads c rest (readIdentifier (c :: rest)).1 (readIdentifier (c :: rest)).2 :=
    .word hc
  rw [← htext] at hread
  simpa [readIdentifier, htake, hdrop] using hread

theorem isDigit_of_append {cs behind rest : List Char} {c : Char} (h : IsDigits cs)
    (htext : cs ++ behind = c :: rest) : isDigit c = true := by
  obtain ⟨d, ds, rfl⟩ := List.exists_cons_of_ne_nil h.1
  rw [← (List.cons.inj htext).1]
  exact h.2 d List.mem_cons_self

theorem reads_whole {whole : String} {behind : List Char} (hspelled : IsDigits whole.toList)
    (hlongest : (Lexeme.constant (.number whole none)).Longest behind)
    (hlimit : whole.length ≤ Numeral.digitLimit) {c : Char} {rest : List Char}
    (htext : whole.toList ++ behind = c :: rest) :
    Reads c rest (.constant (.number whole none)) behind := by
  have hbehind : ∀ e, behind.head? = some e → isDigit e = false := by
    refine hlongest.head_behind fun e he =>
      ⟨.constant (.number (whole ++ String.ofList [e]) none), ?_, ?_⟩
    · simpa [Lexeme.WellSpelled] using isDigits_append_singleton hspelled he
    · simp [Lexeme.literal, Constant.literal]
  obtain ⟨htake, hdrop⟩ := span_of_boundary hspelled.2 hbehind
  refine .number (isDigit_of_append hspelled htext) ?_ fun _ => hlimit
  rw [← htext]
  rcases readNumber_cases (whole.toList ++ behind) with ⟨d, more, hpoint, hd, -⟩ | ⟨-, hread⟩
  · -- With a point and a digit behind it, the number would not be the longest.
    rw [hdrop] at hpoint
    have hfraction : (Lexeme.constant (.number whole (some (String.ofList [d])))).WellSpelled := by
      refine ⟨hspelled, ?_⟩
      simp [IsDigits, hd]
    refine absurd ⟨more, ?_⟩ (hlongest.not_prefix hfraction (List.cons_ne_nil '.' [d]) ?_)
    · simp [Lexeme.literal, Constant.literal]
    · rw [hpoint]
      rfl
  · rw [hread, htake, hdrop, String.ofList_toList]

theorem reads_fraction {whole fraction : String} {behind : List Char}
    (hwhole : IsDigits whole.toList) (hfraction : IsDigits fraction.toList)
    (hlongest : (Lexeme.constant (.number whole (some fraction))).Longest behind) {c : Char}
    {rest : List Char}
    (htext : whole.toList ++ '.' :: (fraction.toList ++ behind) = c :: rest) :
    Reads c rest (.constant (.number whole (some fraction))) behind := by
  have hbehind : ∀ e, behind.head? = some e → isDigit e = false := by
    refine hlongest.head_behind fun e he =>
      ⟨.constant (.number whole (some (fraction ++ String.ofList [e]))), ⟨hwhole, ?_⟩, ?_⟩
    · simpa using isDigits_append_singleton hfraction he
    · simp [Lexeme.literal, Constant.literal]
  obtain ⟨htake, hdrop⟩ := span_of_point hwhole.2 (fraction.toList ++ behind)
  obtain ⟨htake', hdrop'⟩ := span_of_boundary hfraction.2 hbehind
  refine .number (isDigit_of_append hwhole htext) ?_ (by simp)
  rw [← htext]
  rcases readNumber_cases (whole.toList ++ '.' :: (fraction.toList ++ behind)) with
    ⟨d, more, hpoint, -, hread⟩ | ⟨hnone, -⟩
  · rw [hdrop] at hpoint
    rw [hread, htake, ← (List.cons.inj hpoint).2, htake', hdrop', String.ofList_toList,
      String.ofList_toList]
  · obtain ⟨d, ds, hcons⟩ := List.exists_cons_of_ne_nil hfraction.1
    have hd : isDigit d = true := hfraction.2 d (by simp [hcons])
    rw [hdrop, hcons] at hnone
    simp [hnone d (ds ++ behind) rfl] at hd

theorem reads_operator {op : BinaryOp} {behind : List Char}
    (hlongest : (Lexeme.operator op).Longest behind) {c : Char} {rest : List Char}
    (htext : op.spelling.toList ++ behind = c :: rest) : Reads c rest (.operator op) behind := by
  refine .operator ?_
  rw [← htext]
  -- Only the two operators that an equals sign could follow depend on what stands behind.
  have hequals (op' : BinaryOp) (h : op'.spelling.toList = op.spelling.toList ++ ['=']) :
      ∀ tail, behind ≠ '=' :: tail := by
    rintro tail rfl
    have hspelled : (Lexeme.operator op').WellSpelled := trivial
    exact hlongest.not_prefix hspelled (List.cons_ne_nil '=' []) h ⟨tail, rfl⟩
  cases op with
  | lt =>
    have hbehind := hequals .le rfl
    simp [BinaryOp.spelling, readOperator?]
  | gt =>
    have hbehind := hequals .ge rfl
    simp [BinaryOp.spelling, readOperator?]
  | _ => rfl

/-- A token that is the longest in its place is read there, unless it is a whole number with more
digits than can be read. -/
theorem readLexeme_of_longest {l : Lexeme} {behind : List Char} (hspelled : l.WellSpelled)
    (hlongest : l.Longest behind)
    (hlimit : ∀ whole, l = .constant (.number whole none) → whole.length ≤ Numeral.digitLimit)
    {c : Char} {rest : List Char} (htext : l.literal.toList ++ behind = c :: rest)
    (position : Position) : readLexeme position c rest = .ok (l, behind) := by
  refine readLexeme_of_reads ?_ position
  cases l with
  | identifier name => exact reads_word hspelled hlongest htext
  | constant k =>
    cases k with
    | number whole fraction =>
      cases fraction with
      | none => exact reads_whole hspelled hlongest (hlimit whole rfl) htext
      | some fraction =>
        refine reads_fraction hspelled.1 hspelled.2 hlongest ?_
        simpa [Lexeme.literal, Constant.literal] using htext
    | text quote body =>
      simp only [Lexeme.literal, Constant.literal, String.toList_ofList, List.cons_append,
        List.append_assoc, List.nil_append] at htext
      cases htext
      have hread := readText?_eq_some hspelled behind
      rw [String.ofList_toList] at hread
      exact .text (quote?_of_char quote) hread
  | operator op => exact reads_operator hlongest htext
  | punctuation mark =>
    refine .mark ?_
    rw [← htext]
    cases mark <;> rfl

end Lexer

end ScopeMachine
