import ScopeMachine.Proofs.Source.LongestMatch

/-! Cutting a whole text into tokens. The lexer succeeds exactly on the texts that can be written as
tokens with layout around them such that every token is the longest that could stand in its place.
There is only one way to write a text like that. -/
namespace ScopeMachine

/-- The value of a text in quotes is what stands between them, as it is written. -/
theorem Lexeme.value_of_string {l : Lexeme} (h : l.className = "STRING") :
    l.value = .str (String.ofList (l.literal.toList.drop 1).dropLast) := by
  rcases l with name | (⟨whole, fraction⟩ | ⟨quote, body⟩) | op | mark
  · simp [className] at h
  · simp [className] at h
  · simp [value, Constant.value, literal, Constant.literal]
  · simp [className] at h
  · cases mark <;> simp [className, Punctuation.char] at h

/-- A text written as tokens with layout in front of each of them and behind the last. -/
inductive Cutting
  | done (layout : List Char)
  | token (layout : List Char) (lexeme : Lexeme) (rest : Cutting)

namespace Cutting

/-- The text that was cut. -/
def text : Cutting → List Char
  | .done layout => layout
  | .token layout lexeme rest => layout ++ (lexeme.literal.toList ++ rest.text)

/-- What stands between the tokens is layout, and every token is spelled as its class demands and
is the longest in its place. -/
def Legal : Cutting → Prop
  | .done layout => Layout [] layout
  | .token layout lexeme rest =>
    Layout (lexeme.literal.toList ++ rest.text) layout ∧ lexeme.WellSpelled ∧
      lexeme.Longest rest.text ∧ rest.Legal

/-- The tokens of a text that starts at `position`. -/
def tokens (position : Position) : Cutting → List Token
  | .done _ => []
  | .token layout lexeme rest =>
    ⟨lexeme, position.after layout⟩ ::
      rest.tokens ((position.after layout).after lexeme.literal.toList)

end Cutting

/-- No run of digits is longer than a whole number may be. -/
def ShortRuns (cs : List Char) : Prop :=
  ∀ run : List Char, run <:+: cs → (∀ c ∈ run, Lexer.isDigit c = true) →
    run.length ≤ Numeral.digitLimit

theorem ShortRuns.of_part {cs part : List Char} (h : ShortRuns cs) (hpart : part <:+: cs) :
    ShortRuns part := fun run hrun => h run (hrun.trans hpart)

theorem ShortRuns.of_length_le {cs : List Char} (h : cs.length ≤ Numeral.digitLimit) :
    ShortRuns cs := fun _ hrun _ => hrun.length_le.trans h

namespace Scan

open Lexer

theorem ofCharsAt_of_end {position : Position} {cs layout : List Char}
    (hsplit : splitLayout false cs = (layout, [])) :
    ofCharsAt position cs = ⟨[], .ok (position.after layout)⟩ := by
  rw [ofCharsAt]
  split
  · rename_i hsplit'
    rw [hsplit] at hsplit'
    cases hsplit'
    rfl
  · rename_i hsplit'
    rw [hsplit] at hsplit'
    cases hsplit'

theorem ofCharsAt_of_split {position : Position} {cs layout tail : List Char} {c : Char}
    (hsplit : splitLayout false cs = (layout, c :: tail)) :
    ofCharsAt position cs =
      match readLexeme (position.after layout) c tail with
      | .error e => ⟨[], .error e⟩
      | .ok (lexeme, text) =>
        let more := ofCharsAt ((position.after layout).after lexeme.literal.toList) text
        ⟨⟨lexeme, position.after layout⟩ :: more.tokens, more.ending⟩ := by
  rw [ofCharsAt]
  split
  · rename_i hsplit'
    rw [hsplit] at hsplit'
    cases hsplit'
  · rename_i hsplit'
    rw [hsplit] at hsplit'
    cases hsplit'
    dsimp only
    split <;> simp only [*]

theorem ofCharsAt_of_token {position : Position} {cs layout tail text : List Char} {c : Char}
    {lexeme : Lexeme} (hsplit : splitLayout false cs = (layout, c :: tail))
    (hread : readLexeme (position.after layout) c tail = .ok (lexeme, text)) :
    ofCharsAt position cs =
      ⟨⟨lexeme, position.after layout⟩ ::
          (ofCharsAt ((position.after layout).after lexeme.literal.toList) text).tokens,
        (ofCharsAt ((position.after layout).after lexeme.literal.toList) text).ending⟩ := by
  rw [ofCharsAt_of_split hsplit, hread]

theorem ofCharsAt_of_error {position : Position} {cs layout tail : List Char} {c : Char}
    {e : SourceError} (hsplit : splitLayout false cs = (layout, c :: tail))
    (hread : readLexeme (position.after layout) c tail = .error e) :
    ofCharsAt position cs = ⟨[], .error e⟩ := by
  rw [ofCharsAt_of_split hsplit, hread]

/-- What is cut into tokens to the end makes up the whole text. -/
theorem exists_cutting_of_ofCharsAt {position : Position} {cs : List Char} {stop : Position}
    (h : (ofCharsAt position cs).ending = .ok stop) :
    ∃ cut : Cutting, cut.text = cs ∧ cut.Legal ∧
      (ofCharsAt position cs).tokens = cut.tokens position ∧ stop = position.after cs := by
  fun_induction ofCharsAt position cs with
  | case1 position cs layout hsplit =>
    have happend := splitLayout_append false cs
    have hlayout := (splitLayout_sound cs).1
    rw [hsplit] at happend hlayout
    rw [List.append_nil] at happend
    cases h
    exact ⟨.done layout, happend, hlayout, rfl, by rw [← happend]⟩
  | case2 => cases h
  | case3 position cs layout c rest hsplit start lexeme text hread more ih =>
    obtain ⟨cut, htext, hlegal, htokens, hstop⟩ := ih h
    have happend := splitLayout_append false cs
    have hlayout := (splitLayout_sound cs).1
    rw [hsplit] at happend hlayout
    have hliteral := readLexeme_literal hread
    have hreads := reads_of_readLexeme hread
    have hlongest := hreads.longest hliteral
    refine ⟨.token layout lexeme cut, ?_, ⟨?_, hreads.wellSpelled, ?_, hlegal⟩, ?_, ?_⟩
    · rw [Cutting.text, htext, hliteral, happend]
    · rw [htext, hliteral]
      exact hlayout
    · rw [htext]
      exact hlongest
    · rw [Cutting.tokens, ← htokens]
    · rw [hstop, ← happend, ← hliteral, Position.after_append, Position.after_append]

end Scan

namespace Cutting

open Lexer

theorem splitLayout_of_done {layout : List Char} (h : (Cutting.done layout).Legal) :
    splitLayout false layout = (layout, []) := by
  have hsplit := splitLayout_of_layout h (by simp)
  rwa [List.append_nil] at hsplit

/-- The first token of a legal cutting is what the lexer reads first. -/
theorem read_of_token {layout : List Char} {lexeme : Lexeme} {rest : Cutting}
    (h : (Cutting.token layout lexeme rest).Legal)
    (hruns : ShortRuns (Cutting.token layout lexeme rest).text) :
    ∃ c tail, splitLayout false (Cutting.token layout lexeme rest).text = (layout, c :: tail) ∧
      ∀ position, readLexeme position c tail = .ok (lexeme, rest.text) := by
  obtain ⟨hlayout, hspelled, hlongest, -⟩ := h
  obtain ⟨c, cs, hliteral, hclass⟩ := hspelled.exists_cons
  have htext : lexeme.literal.toList ++ rest.text = c :: (cs ++ rest.text) := by
    rw [hliteral]
    rfl
  refine ⟨c, cs ++ rest.text, ?_, ?_⟩
  · rw [text, ← htext]
    refine splitLayout_of_layout hlayout fun d hd => ?_
    rw [htext] at hd
    cases hd
    exact startsLayout_eq_false hclass
  · refine readLexeme_of_longest hspelled hlongest ?_ htext
    rintro whole rfl
    rw [← String.length_toList]
    refine hruns whole.toList ⟨layout, rest.text, ?_⟩ hspelled.2
    simp [text, Lexeme.literal, Constant.literal]

theorem shortRuns_rest {layout : List Char} {lexeme : Lexeme} {rest : Cutting}
    (h : ShortRuns (Cutting.token layout lexeme rest).text) : ShortRuns rest.text :=
  h.of_part ⟨layout ++ lexeme.literal.toList, [], by simp [text]⟩

/-- A text is cut the way it is written. -/
theorem ofCharsAt_text {cut : Cutting} (h : cut.Legal) (hruns : ShortRuns cut.text)
    (position : Position) :
    Scan.ofCharsAt position cut.text = ⟨cut.tokens position, .ok (position.after cut.text)⟩ := by
  induction cut generalizing position with
  | done layout => exact Scan.ofCharsAt_of_end (splitLayout_of_done h)
  | token layout lexeme rest ih =>
    obtain ⟨c, tail, hfront, hread⟩ := read_of_token h hruns
    have hrest := ih h.2.2.2 (shortRuns_rest hruns)
    rw [Scan.ofCharsAt_of_token hfront (hread _), hrest]
    simp only [tokens, text, Position.after_append]

/-- A text is written in only one way. -/
theorem unique {cut cut' : Cutting} (h : cut.Legal) (h' : cut'.Legal)
    (hruns : ShortRuns cut.text) (htext : cut'.text = cut.text) : cut' = cut := by
  induction cut generalizing cut' with
  | done layout =>
    have hsplit := splitLayout_of_done h
    cases cut' with
    | done layout' =>
      cases htext
      rfl
    | token layout' lexeme' rest' =>
      obtain ⟨c, tail, hfront, -⟩ := read_of_token h' (htext ▸ hruns)
      rw [htext, text, hsplit] at hfront
      cases hfront
  | token layout lexeme rest ih =>
    obtain ⟨c, tail, hfront, hread⟩ := read_of_token h hruns
    cases cut' with
    | done layout' =>
      have hsplit : splitLayout false (Cutting.done layout').text = (layout', []) :=
        splitLayout_of_done h'
      rw [htext, hfront] at hsplit
      cases hsplit
    | token layout' lexeme' rest' =>
      obtain ⟨c', tail', hfront', hread'⟩ := read_of_token h' (htext ▸ hruns)
      rw [htext, hfront] at hfront'
      cases hfront'
      have hsame := (hread .start).symm.trans (hread' .start)
      simp only [Except.ok.injEq, Prod.mk.injEq] at hsame
      obtain ⟨rfl, hrest⟩ := hsame
      rw [ih h.2.2.2 h'.2.2.2 (shortRuns_rest hruns) hrest.symm]

end Cutting

namespace Scan

theorem result_eq_ok_iff {s : Scan} {tokens : List Token} {stop : Position} :
    s.result = .ok (tokens, stop) ↔ s.tokens = tokens ∧ s.ending = .ok stop := by
  obtain ⟨found, ending⟩ := s
  cases ending <;> simp [result, Except.map]

/-- A text without overlong runs of digits can be cut into tokens exactly if it is written as
tokens with layout around them, each the longest in its place. It is written in one way only, and
the value of a text in quotes is what stands between them. -/
theorem result_exact {source : String} (hruns : ShortRuns source.toList) :
    (∀ tokens stop, (ofChars source.toList).result = .ok (tokens, stop) ↔
      ∃ cut : Cutting, cut.text = source.toList ∧ cut.Legal ∧ tokens = cut.tokens .start ∧
        stop = Position.start.after source.toList) ∧
    (∀ cut cut' : Cutting, cut.Legal → cut'.Legal → cut.text = source.toList →
      cut'.text = source.toList → cut' = cut) ∧
    ∀ tokens stop, (ofChars source.toList).result = .ok (tokens, stop) →
      ∀ token ∈ tokens, token.lexeme.className = "STRING" →
        token.lexeme.value =
          .str (String.ofList (token.lexeme.literal.toList.drop 1).dropLast) := by
  refine ⟨fun tokens stop => ?_, ?_, ?_⟩
  · rw [result_eq_ok_iff]
    constructor
    · rintro ⟨rfl, hending⟩
      exact exists_cutting_of_ofCharsAt hending
    · rintro ⟨cut, htext, hlegal, rfl, rfl⟩
      rw [← htext] at hruns ⊢
      rw [ofChars, Cutting.ofCharsAt_text hlegal hruns]
      exact ⟨rfl, rfl⟩
  · intro cut cut' h h' htext htext'
    rw [← htext] at hruns htext'
    exact Cutting.unique h h' hruns htext'
  · intro tokens stop _ token _ hclass
    exact Lexeme.value_of_string hclass

/-- A backslash does not keep a quote from closing a text, and a comment ends with its line. -/
theorem result_exact_backslash :
    let source := "1.5<='a\\'#'\n,"
    let tokens : List Token := [⟨.constant (.number "1" (some "5")), ⟨1, 1⟩⟩,
      ⟨.operator .le, ⟨1, 4⟩⟩, ⟨.constant (.text .single "a\\"), ⟨1, 6⟩⟩,
      ⟨.punctuation .comma, ⟨2, 1⟩⟩]
    ShortRuns source.toList ∧ (ofChars source.toList).result = .ok (tokens, ⟨2, 2⟩) ∧
      ∃ cut : Cutting, cut.text = source.toList ∧ cut.Legal ∧ tokens = cut.tokens .start := by
  intro source tokens
  have hruns : ShortRuns source.toList := .of_length_le (by decide)
  have hresult : (ofChars source.toList).result = .ok (tokens, ⟨2, 2⟩) := by
    simp only [source, tokens]
    cbv
  obtain ⟨cut, htext, hlegal, htokens, -⟩ := ((result_exact hruns).1 tokens ⟨2, 2⟩).mp hresult
  exact ⟨hruns, hresult, cut, htext, hlegal, htokens⟩

end Scan

end ScopeMachine
