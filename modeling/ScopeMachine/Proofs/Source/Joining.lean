import ScopeMachine.Machine.Execute
import ScopeMachine.Proofs.Source.Compiled

/-! Two texts joined by a line feed. A line feed ends every comment, and no token but a text in
quotes could go on over it, so the lexer cuts the joined text as it cuts the two texts alone. No
expression starts with a parenthesis, so the parser does not take the start of the second text for
the end of the first. The program of the joined text is therefore the one program followed by the
other. -/
namespace ScopeMachine

/-! ### Layout in front of a line feed -/

/-- Layout in front of a token is layout in front of any text. -/
theorem Layout.of_ne_nil {behind layout : List Char} (h : Layout behind layout)
    (hne : behind ≠ []) (behind' : List Char) : Layout behind' layout := by
  induction h with
  | nil => exact .nil
  | blank hc _ ih => exact .blank hc ih
  | comment hbody _ ih => exact .comment hbody ih
  | lastComment _ hend => exact absurd hend hne

/-- A comment at the end of a text ends at a line feed put behind it. -/
theorem Layout.append_newline {layout : List Char} (h : Layout [] layout)
    {behind more : List Char} (hmore : Layout behind more) :
    Layout behind (layout ++ '\n' :: more) := by
  induction h with
  | nil => exact .blank (by simp) hmore
  | blank hc _ ih => exact .blank hc ih
  | comment hbody _ ih =>
    rw [List.cons_append, List.append_assoc]
    exact .comment hbody ih
  | lastComment hbody _ => exact .comment hbody hmore

namespace Lexer

theorem startsLayout_splitLayout {inComment : Bool} {cs : List Char} {c : Char}
    (h : (splitLayout inComment cs).2.head? = some c) : startsLayout c = false := by
  induction cs generalizing inComment with
  | nil => cases inComment <;> simp [splitLayout] at h
  | cons d rest ih =>
    cases inComment with
    | true =>
      rw [splitLayout_true_cons] at h
      exact ih h
    | false =>
      rw [splitLayout_false_cons] at h
      split at h
      · exact ih h
      · rename_i hd
        simp only [List.head?_cons, Option.some.injEq] at h
        rw [← h]
        simpa using hd

/-- Where layout stops in front of a token, it stops whatever follows. -/
theorem splitLayout_append_of_token {cs layout rest : List Char} {c : Char}
    (h : splitLayout false cs = (layout, c :: rest)) (more : List Char) :
    splitLayout false (cs ++ more) = (layout, c :: (rest ++ more)) := by
  have happend := splitLayout_append false cs
  have hlayout := (splitLayout_sound cs).1
  have hstart (hc : (splitLayout false cs).2.head? = some c) : startsLayout c = false :=
    startsLayout_splitLayout hc
  rw [h] at happend hlayout hstart
  rw [← happend, List.append_assoc]
  apply splitLayout_of_layout (hlayout.of_ne_nil (List.cons_ne_nil c rest) _)
  intro d hd
  simp only [List.cons_append, List.head?_cons, Option.some.injEq] at hd
  rw [← hd]
  exact hstart rfl

/-- Layout that reaches to the end goes on behind a line feed. -/
theorem splitLayout_append_of_end {cs layout : List Char}
    (h : splitLayout false cs = (layout, [])) (more : List Char) :
    splitLayout false (cs ++ '\n' :: more) =
      (cs ++ '\n' :: (splitLayout false more).1, (splitLayout false more).2) := by
  have happend := splitLayout_append false cs
  have hlayout := (splitLayout_sound cs).1
  have hmore := (splitLayout_sound more).1
  rw [h] at happend hlayout
  simp only [List.append_nil] at happend
  subst happend
  have hjoined := splitLayout_of_layout (hlayout.append_newline hmore)
    fun c hc => startsLayout_splitLayout hc
  rwa [List.append_assoc, List.cons_append, splitLayout_append] at hjoined

end Lexer

/-! ### Tokens in front of a line feed -/

open Lexer

namespace Lexeme

/-- Only a text in quotes can hold a line feed. -/
theorem WellSpelled.tokenClass_of_newline {l : Lexeme} (h : l.WellSpelled)
    (hmem : '\n' ∈ l.literal.toList) : l.tokenClass = .text := by
  have hletter : isLetter '\n' = false := by decide
  have hdigit : isDigit '\n' = false := by decide
  rcases l with name | (⟨whole, _ | fraction⟩ | ⟨quote, body⟩) | op | mark
  · obtain ⟨c, cs, hname, hc, hcs⟩ := h
    simp only [literal, hname, List.mem_cons] at hmem
    rcases hmem with rfl | hmem
    · simp [hletter] at hc
    · simpa [hletter, hdigit] using hcs '\n' hmem
  · have := h.2 '\n' hmem
    simp [hdigit] at this
  · simp only [literal, Constant.literal, String.toList_append, List.mem_append] at hmem
    rcases hmem with (hmem | hmem) | hmem
    · simpa [hdigit] using h.1.2 '\n' hmem
    · simp at hmem
    · simpa [hdigit] using h.2.2 '\n' hmem
  · rfl
  · cases op <;> simp [literal, BinaryOp.spelling] at hmem
  · cases mark <;> simp [literal, Punctuation.char] at hmem

/-- A text in quotes ends at its quote, whatever stands behind. -/
theorem longest_text {quote : Quote} {body : String}
    (h : (Lexeme.constant (.text quote body)).WellSpelled) (behind : List Char) :
    (Lexeme.constant (.text quote body)).Longest behind := by
  have hread := readText?_eq_some h behind
  rw [String.ofList_toList] at hread
  apply (Reads.text (quote?_of_char quote) hread).longest
  simp [literal, Constant.literal]

/-- A token that is the longest in its place remains so when a line feed is put behind the text. -/
theorem Longest.append_newline {l : Lexeme} {behind : List Char} (hspelled : l.WellSpelled)
    (h : l.Longest behind) (more : List Char) : l.Longest (behind ++ '\n' :: more) := by
  intro l' hspelled' hfront
  have hclass := tokenClass_eq_of_prefix hspelled hspelled' hfront
  have hcut : l.literal.toList ++ behind ++ ['\n'] <+:
      l.literal.toList ++ (behind ++ '\n' :: more) := ⟨more, by simp⟩
  -- The longer token would reach over the line feed, as only a text in quotes can.
  have hover (hmem : '\n' ∈ l'.literal.toList) :
      l'.literal.toList.length ≤ l.literal.toList.length := by
    rw [hspelled'.tokenClass_of_newline hmem] at hclass
    rcases l with name | (⟨whole, fraction⟩ | ⟨quote, body⟩) | op | mark <;> cases hclass
    exact longest_text hspelled _ l' hspelled' hfront
  rcases List.prefix_or_prefix_of_prefix hfront hcut with hwithin | hbeyond
  · rcases List.prefix_concat_iff.mp hwithin with heq | hwithin
    · apply hover
      simp [heq]
    · exact h l' hspelled' hwithin
  · apply hover
    apply hbeyond.subset
    simp

end Lexeme

namespace Lexer

theorem Reads.length_le {c : Char} {rest after : List Char} {l : Lexeme}
    (h : Reads c rest l after) {whole : String} (hl : l = .constant (.number whole none)) :
    whole.length ≤ Numeral.digitLimit := by
  cases h with
  | number _ _ hlimit =>
    cases hl
    exact hlimit rfl
  | text _ _ | word _ | operator _ | mark _ => cases hl

/-- A token is read in the same way when a line feed is put behind the text. -/
theorem readLexeme_append_newline {position : Position} {c : Char} {rest after : List Char}
    {l : Lexeme} (h : readLexeme position c rest = .ok (l, after)) (more : List Char)
    (position' : Position) :
    readLexeme position' c (rest ++ '\n' :: more) = .ok (l, after ++ '\n' :: more) := by
  have hreads := reads_of_readLexeme h
  have hliteral := readLexeme_literal h
  have hlongest := (hreads.longest hliteral).append_newline hreads.wellSpelled more
  apply readLexeme_of_longest hreads.wellSpelled hlongest
  · intro whole hl
    exact hreads.length_le hl
  · rw [← List.append_assoc, hliteral, List.cons_append]

end Lexer

/-! ### Whole texts -/

namespace Scan

/-- Layout at the front of a text only moves its tokens. -/
theorem ofCharsAt_append_layout {front cs : List Char}
    (h : splitLayout false (front ++ cs) =
      (front ++ (splitLayout false cs).1, (splitLayout false cs).2)) (position : Position) :
    ofCharsAt position (front ++ cs) = ofCharsAt (position.after front) cs := by
  rcases hsplit : splitLayout false cs with ⟨layout, _ | ⟨c, rest⟩⟩
  · rw [hsplit] at h
    rw [ofCharsAt_of_end h, ofCharsAt_of_end hsplit, Position.after_append]
  · rw [hsplit] at h
    rw [ofCharsAt_of_split h, ofCharsAt_of_split hsplit, Position.after_append]

/-- Where a text is cut to its end, it is so wherever it stands. -/
theorem yields_of_ending {position stop : Position} {cs : List Char}
    (h : (ofCharsAt position cs).ending = .ok stop) :
    Yields cs ((ofCharsAt position cs).tokens.map Token.lexeme) := by
  fun_induction ofCharsAt position cs with
  | case1 position cs layout hsplit => exact .nil hsplit
  | case2 => cases h
  | case3 position cs layout c rest hsplit start lexeme text hread more ih =>
    exact .cons hsplit (readLexeme_of_reads (reads_of_readLexeme hread)) (ih h)

/-- The tokens of two texts joined by a line feed are those of the one and of the other. -/
theorem yields_append_newline {position stop : Position} {cs : List Char}
    (h : (ofCharsAt position cs).ending = .ok stop) {more : List Char} {ls : List Lexeme}
    (hmore : Yields more ls) :
    Yields (cs ++ '\n' :: more) ((ofCharsAt position cs).tokens.map Token.lexeme ++ ls) := by
  fun_induction ofCharsAt position cs with
  | case1 position cs layout hsplit =>
    have hfront : splitLayout false ((cs ++ ['\n']) ++ more) =
        ((cs ++ ['\n']) ++ (splitLayout false more).1, (splitLayout false more).2) := by
      simpa using splitLayout_append_of_end hsplit more
    intro position'
    obtain ⟨tokens, stop, hscan, hlexemes⟩ := hmore (position'.after (cs ++ ['\n']))
    have hjoined := ofCharsAt_append_layout hfront position'
    rw [hscan, List.append_assoc] at hjoined
    exact ⟨tokens, stop, hjoined, hlexemes⟩
  | case2 => cases h
  | case3 position cs layout c rest hsplit start lexeme text hread tail ih =>
    have hsplit' := splitLayout_append_of_token hsplit ('\n' :: more)
    exact .cons hsplit' (readLexeme_append_newline hread more) (ih h)

end Scan

/-- A text that compiles is cut into the tokens of expressions that stand for its program. -/
theorem exists_exprs_of_compile {strict : Bool} {source : String} {program : List Instr}
    (h : compile strict source = .ok program) :
    ∃ (exprs : List Expr) (stop : Position), exprs ≠ [] ∧
      (Scan.ofCharsAt .start source.toList).ending = .ok stop ∧
      (Scan.ofCharsAt .start source.toList).tokens.map Token.lexeme =
        exprs.flatMap Expr.lexemes ∧
      List.Forall₂ (fun e i => e.instr strict = .ok i) exprs program := by
  obtain ⟨tokens, stop, hlex⟩ := exists_tokens_of_compile h
  obtain ⟨exprs, hne, hspells, hall⟩ := (compile_eq_ok_iff hlex).mp h
  obtain ⟨rfl, hending⟩ := Scan.result_eq_ok_iff.mp hlex
  exact ⟨exprs, stop, hne, hending, Spells.end_iff.mp hspells, hall⟩

/-- Two texts that compile do so when they are joined by a line feed, to the one program followed
by the other, and the joined program runs as the two would in turn. -/
theorem compile_joined [MemoryLimit] {strict : Bool} {first second : String} {p q : List Instr}
    (hfirst : compile strict first = .ok p) (hsecond : compile strict second = .ok q) :
    compile strict (first ++ "\n" ++ second) = .ok (p ++ q) ∧
      ∀ m : Machine, m.run (p ++ q) = m.run p >>= fun next => next.run q := by
  obtain ⟨exprs, stop, hne, hending, hlexemes, hall⟩ := exists_exprs_of_compile hfirst
  obtain ⟨exprs', stop', -, hending', hlexemes', hall'⟩ := exists_exprs_of_compile hsecond
  have hyields := Scan.yields_append_newline hending (Scan.yields_of_ending hending')
  have htext : (first ++ "\n" ++ second).toList = first.toList ++ '\n' :: second.toList := by
    simp
  rw [hlexemes, hlexemes', ← List.flatMap_append, ← htext] at hyields
  constructor
  · apply compile_of_yields _ hyields (List.rel_append hall hall')
    simp [hne]
  · intro m
    exact m.run_append p q

/-- A comment that would hide the second text, and a name that could take a list of arguments. -/
theorem compile_joined_comment :
    compile true "7 enter #" = .ok [.push (.int 7), .enter (.str "<frame>")] ∧
      compile true "bind('(')" = .ok [.bind (.str "(")] ∧
      compile true ("7 enter #" ++ "\n" ++ "bind('(')") =
        .ok [.push (.int 7), .enter (.str "<frame>"), .bind (.str "(")] := by
  have hfirst : compile true "7 enter #" = .ok [.push (.int 7), .enter (.str "<frame>")] := by
    cbv
  have hsecond : compile true "bind('(')" = .ok [.bind (.str "(")] := by cbv
  exact ⟨hfirst, hsecond, (compile_joined hfirst hsecond).1⟩

end ScopeMachine
