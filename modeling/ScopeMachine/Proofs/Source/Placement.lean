import ScopeMachine.Proofs.Source.Joining
import ScopeMachine.Proofs.Source.Leniency
import ScopeMachine.Proofs.Source.Rejection

/-! Where tokens and complaints are placed. The lexer counts lines and columns along with the
characters that it reads. What it counts is told by the text alone: the position of every token, of
the end, and of every complaint is that of an offset into the text. -/
namespace ScopeMachine

/-! ### Positions and offsets -/

namespace Position

/-- The position of the character at `offset`. Its line is found by the line feeds before it, and
its column by the characters between it and the last of them. -/
def ofOffset (cs : List Char) (offset : Nat) : Position :=
  ⟨1 + (cs.take offset).count '\n', 1 + ((cs.take offset).reverse.takeWhile (· != '\n')).length⟩

/-- What is counted along a text is what can be told from its line feeds. -/
theorem start_after (cs : List Char) :
    start.after cs = ⟨1 + cs.count '\n', 1 + (cs.reverse.takeWhile (· != '\n')).length⟩ := by
  induction cs using List.reverseRecOn with
  | nil => rfl
  | append_singleton cs c ih =>
    rw [after_append, ih, after_cons, after_nil, next]
    by_cases hc : c = '\n'
    · simp [hc, Nat.add_assoc]
    · simp [hc, Nat.add_comm 1]

theorem ofOffset_append (front behind : List Char) :
    ofOffset (front ++ behind) front.length = start.after front := by
  rw [start_after, ofOffset, List.take_left]

end Position

/-! ### Cutting the front of a text -/

namespace Cutting

/-- The tokens may stand in front of `behind`: what is between them is layout, and every token is
spelled as its class demands and is the longest in its place. -/
def Leads (behind : List Char) : Cutting → Prop
  | .done layout => Layout behind layout
  | .token layout lexeme rest =>
    Layout (lexeme.literal.toList ++ (rest.text ++ behind)) layout ∧ lexeme.WellSpelled ∧
      lexeme.Longest (rest.text ++ behind) ∧ rest.Leads behind

/-- The lexemes of a text that starts at `offset`, with the offsets of their first characters. -/
def placed (offset : Nat) : Cutting → List (Lexeme × Nat)
  | .done _ => []
  | .token layout lexeme rest =>
    (lexeme, offset + layout.length) ::
      rest.placed (offset + layout.length + lexeme.literal.toList.length)

/-- A lexeme at an offset of a text. -/
def tokenAt (cs : List Char) (p : Lexeme × Nat) : Token := ⟨p.1, .ofOffset cs p.2⟩

theorem tokens_eq_placed (cut : Cutting) (front behind : List Char) :
    cut.tokens (Position.start.after front) =
      (cut.placed front.length).map (tokenAt (front ++ (cut.text ++ behind))) := by
  induction cut generalizing front with
  | done layout => rfl
  | token layout lexeme rest ih =>
    have hstart := Position.ofOffset_append (front ++ layout)
      (lexeme.literal.toList ++ (rest.text ++ behind))
    have hrest := ih (front ++ layout ++ lexeme.literal.toList)
    simp only [tokens, placed, text, tokenAt, List.map_cons, Position.after_append,
      List.length_append, List.append_assoc, Nat.add_assoc] at hstart hrest ⊢
    rw [hstart, hrest]

/-- Every lexeme stands at its offset. -/
theorem prefix_of_placed (cut : Cutting) (front behind : List Char) {lexeme : Lexeme}
    {offset : Nat} (h : (lexeme, offset) ∈ cut.placed front.length) :
    lexeme.literal.toList <+: (front ++ (cut.text ++ behind)).drop offset := by
  induction cut generalizing front with
  | done layout => cases h
  | token layout lexeme' rest ih =>
    rcases List.mem_cons.mp h with heq | hrest
    · cases heq
      refine ⟨rest.text ++ behind, ?_⟩
      rw [← List.length_append, text, List.append_assoc, ← List.append_assoc front,
        List.drop_left, List.append_assoc]
    · rw [← List.length_append, ← List.length_append] at hrest
      have hprefix := ih _ hrest
      simp only [text, List.append_assoc] at hprefix ⊢
      exact hprefix

end Cutting

/-- The tokens at the front of a text, and what comes behind them. -/
structure Reading (cs : List Char) where
  cut : Cutting
  behind : List Char
  text_append : cut.text ++ behind = cs
  leads : cut.Leads behind

namespace Reading

variable {cs : List Char}

/-- The lexemes, with the offsets at which they start. -/
def placed (r : Reading cs) : List (Lexeme × Nat) := r.cut.placed 0

/-- The offset at which reading stopped. -/
def stop (r : Reading cs) : Nat := r.cut.text.length

theorem stop_le (r : Reading cs) : r.stop ≤ cs.length := by
  have hlength := congrArg List.length r.text_append
  rw [List.length_append] at hlength
  exact Nat.le.intro hlength

theorem drop_stop (r : Reading cs) : cs.drop r.stop = r.behind := by
  have hdrop := congrArg (List.drop r.stop) r.text_append
  rw [stop, List.drop_left] at hdrop
  exact hdrop.symm

theorem stop_eq_length (r : Reading cs) (h : r.behind = []) : r.stop = cs.length := by
  have htext := r.text_append
  rw [h, List.append_nil] at htext
  exact congrArg List.length htext

theorem ofOffset_stop (r : Reading cs) :
    Position.ofOffset cs r.stop = Position.start.after r.cut.text := by
  rw [← Position.ofOffset_append r.cut.text r.behind, r.text_append]
  rfl

theorem tokens_eq (r : Reading cs) :
    r.cut.tokens .start = r.placed.map (Cutting.tokenAt cs) := by
  have htokens := r.cut.tokens_eq_placed [] r.behind
  rw [List.nil_append, r.text_append] at htokens
  exact htokens

/-- A lexeme stands at its offset. -/
theorem prefix_drop (r : Reading cs) {lexeme : Lexeme} {offset : Nat}
    (h : (lexeme, offset) ∈ r.placed) : lexeme.literal.toList <+: cs.drop offset := by
  have hprefix := r.cut.prefix_of_placed [] r.behind h
  rwa [List.nil_append, r.text_append] at hprefix

end Reading

/-! ### What cannot be read -/

/-- What is wrong at the front of a text: a quote that opens a text without closing it, or a
character with which no token starts and no layout. -/
def Complaint.Offends (behind : List Char) : Complaint → Prop
  | .unterminated quote => ∃ rest, behind = quote.char :: rest ∧ quote.char ∉ rest
  | .unexpectedCharacter c =>
    ∃ rest, behind = c :: rest ∧ Lexer.startsLayout c = false ∧
      ∀ l : Lexeme, l.WellSpelled → ¬ l.literal.toList <+: behind
  | _ => False

namespace Lexer

theorem not_mem_of_readText? {quote : Quote} {cs : List Char} (h : readText? quote cs = none) :
    quote.char ∉ cs := by
  unfold readText? at h
  split at h
  · rename_i hdrop
    rw [List.dropWhile_eq_nil_iff] at hdrop
    intro hmem
    simpa using hdrop _ hmem
  · cases h

theorem readOperator?_of_prefix {op : BinaryOp} {cs : List Char}
    (h : op.spelling.toList <+: cs) : readOperator? cs ≠ none := by
  obtain ⟨rest, rfl⟩ := h
  cases op with
  | lt | gt =>
    -- A second character can only make up another operator.
    unfold readOperator?
    split <;> try exact Option.some_ne_none _
    rename_i hlt hgt
    first | exact absurd rfl (hlt rest) | exact absurd rfl (hgt rest)
  | _ => exact Option.some_ne_none _

theorem readPunctuation?_of_prefix {mark : Punctuation} (rest : List Char) :
    readPunctuation? (mark.char :: rest) ≠ none := by
  cases mark <;> nofun

/-- No token starts with a character that the lexer did not expect. -/
theorem not_prefix_of_unexpected {c : Char} {rest : List Char} (hquote : quote? c = none)
    (hdigit : isDigit c = false) (hletter : isLetter c = false)
    (hop : readOperator? (c :: rest) = none) (hmark : readPunctuation? (c :: rest) = none)
    {l : Lexeme} (hspelled : l.WellSpelled) : ¬ l.literal.toList <+: c :: rest := by
  intro hprefix
  obtain ⟨d, ds, hliteral, hclass⟩ := hspelled.exists_cons
  obtain rfl : d = c := by
    obtain ⟨tail, htail⟩ := hprefix
    rw [hliteral] at htail
    exact (List.cons.inj htail).1
  have hkind : l.tokenClass = .operator ∨ l.tokenClass = .mark := by
    simp only [tokenClass?, hquote, hdigit, hletter, Option.isSome_none, Bool.false_eq_true,
      if_false] at hclass
    split at hclass
    · exact .inl (Option.some.inj hclass).symm
    · split at hclass
      · exact .inr (Option.some.inj hclass).symm
      · cases hclass
  rcases l with name | (⟨whole, fraction⟩ | ⟨quote, body⟩) | op | mark <;>
    rcases hkind with hkind | hkind <;> cases hkind
  · exact readOperator?_of_prefix hprefix hop
  · obtain ⟨rfl, -⟩ : mark.char = d ∧ [] = ds := by simpa [Lexeme.literal] using hliteral
    exact readPunctuation?_of_prefix rest hmark

/-- The lexer complains where the token starts that it could not read. -/
theorem offends_of_readLexeme {position place : Position} {c : Char} {rest : List Char}
    {what : Complaint} (hstarts : startsLayout c = false)
    (h : readLexeme position c rest = .error (.complaint what place)) :
    place = position ∧ what.Offends (c :: rest) := by
  unfold readLexeme at h
  split at h
  · rename_i quote hquote
    split at h
    · cases h
    · rename_i hread
      cases h
      exact ⟨rfl, rest, by rw [quote?_char hquote], not_mem_of_readText? hread⟩
  · rename_i hquote
    split at h
    · split at h
      · split at h <;> cases h
      · cases h
    · split at h
      · cases h
      · split at h
        · cases h
        · split at h
          · cases h
          · rename_i hdigit hletter _ hop _ hmark
            cases h
            refine ⟨rfl, rest, rfl, hstarts, fun l hspelled => ?_⟩
            exact not_prefix_of_unexpected hquote (by simpa using hdigit) (by simpa using hletter)
              hop hmark hspelled

end Lexer

namespace Scan

/-- How the tokens of a text end at `position`: with the text, or in front of something that cannot
be read. -/
def EndsAt (position : Position) (behind : List Char) : Except SourceError Position → Prop
  | .ok stop => behind = [] ∧ stop = position
  | .error e => ∃ c rest, behind = c :: rest ∧ Lexer.startsLayout c = false ∧
      Lexer.readLexeme position c rest = .error e

theorem exists_cutting (position : Position) (cs : List Char) :
    ∃ (cut : Cutting) (behind : List Char), cut.text ++ behind = cs ∧ cut.Leads behind ∧
      (ofCharsAt position cs).tokens = cut.tokens position ∧
      EndsAt (position.after cut.text) behind (ofCharsAt position cs).ending := by
  fun_induction ofCharsAt position cs with
  | case1 position cs layout hsplit =>
    have happend := Lexer.splitLayout_append false cs
    have hlayout := (Lexer.splitLayout_sound cs).1
    rw [hsplit] at happend hlayout
    exact ⟨.done layout, [], happend, hlayout, rfl, rfl, rfl⟩
  | case2 position cs layout c rest hsplit start e hread =>
    have happend := Lexer.splitLayout_append false cs
    have hlayout := (Lexer.splitLayout_sound cs).1
    have hhead : (Lexer.splitLayout false cs).2.head? = some c := by
      rw [hsplit]
      rfl
    have hstarts := Lexer.startsLayout_splitLayout hhead
    rw [hsplit] at happend hlayout
    exact ⟨.done layout, c :: rest, happend, hlayout, rfl, c, rest, rfl, hstarts, hread⟩
  | case3 position cs layout c rest hsplit start lexeme text hread more ih =>
    obtain ⟨cut, behind, htext, hleads, htokens, hends⟩ := ih
    have happend := Lexer.splitLayout_append false cs
    have hlayout := (Lexer.splitLayout_sound cs).1
    have hliteral := Lexer.readLexeme_literal hread
    have hreads := Lexer.reads_of_readLexeme hread
    have hlongest := hreads.longest hliteral
    rw [hsplit] at happend hlayout
    refine ⟨.token layout lexeme cut, behind, ?_, ⟨?_, hreads.wellSpelled, ?_, hleads⟩, ?_, ?_⟩
    · rw [Cutting.text, List.append_assoc, List.append_assoc, htext, hliteral, happend]
    · rw [htext, hliteral]
      exact hlayout
    · rw [htext]
      exact hlongest
    · rw [Cutting.tokens, ← htokens]
    · rw [Cutting.text, Position.after_append, Position.after_append]
      exact hends

/-- Every text has a reading: its tokens, and a position at which they end. -/
theorem exists_reading (cs : List Char) :
    ∃ r : Reading cs, (ofChars cs).tokens = r.placed.map (Cutting.tokenAt cs) ∧
      EndsAt (.ofOffset cs r.stop) r.behind (ofChars cs).ending := by
  obtain ⟨cut, behind, htext, hleads, htokens, hends⟩ := exists_cutting .start cs
  refine ⟨⟨cut, behind, htext, hleads⟩, ?_, ?_⟩
  · rw [← Reading.tokens_eq]
    exact htokens
  · rw [Reading.ofOffset_stop]
    exact hends

end Scan

/-- A complaint about the compilation of tokens is placed at one of them, or behind the last. -/
theorem exists_rejected {strict : Bool} {cs : List Char} {placed : List (Lexeme × Nat)} {stop : Nat}
    {what : Complaint} {position : Position}
    (h : (Listing.ofTokens strict (.ofOffset cs stop) (placed.map (Cutting.tokenAt cs))).error =
      some (.complaint what position)) :
    ∃ front rest, placed = front ++ rest ∧
      what.Rejects strict (front.map Prod.fst) (rest.map Prod.fst) ∧
      position = .ofOffset cs ((rest.head?.map Prod.snd).getD stop) := by
  obtain ⟨front, rest, what', hplaced, he, hrejects⟩ := Listing.rejects_of_ofTokens h
  obtain ⟨front, rest, rfl, rfl, rfl⟩ := List.map_eq_append_iff.mp hplaced
  cases he
  rw [List.map_map, List.map_map] at hrejects
  refine ⟨front, rest, rfl, hrejects, ?_⟩
  cases rest <;> rfl

/-- Positions are exact. Every token is placed at the offset at which its lexeme stands in the text,
and the end of the text behind its last character. A complaint of the lexer is placed at the offset
at which its tokens stop, in front of the character that starts no token or the quote that is not
closed. Any other complaint is placed at the offset of the token that is rejected: the first one
that no sequence of expressions has in its place, or else a name that has no instruction. -/
theorem compile_positions (source : String) :
    ∃ r : Reading source.toList,
      (Scan.ofChars source.toList).tokens = r.placed.map (Cutting.tokenAt source.toList) ∧
      (∀ lexeme offset, (lexeme, offset) ∈ r.placed →
        lexeme.literal.toList <+: source.toList.drop offset) ∧
      r.stop ≤ source.toList.length ∧
      (∀ stop, (Scan.ofChars source.toList).ending = .ok stop →
        r.stop = source.toList.length ∧ stop = .ofOffset source.toList r.stop) ∧
      (∀ what position, (Scan.ofChars source.toList).ending = .error (.complaint what position) →
        position = .ofOffset source.toList r.stop ∧
          what.Offends (source.toList.drop r.stop)) ∧
      ∀ strict what position, compile strict source = .error (.complaint what position) →
        (Scan.ofChars source.toList).ending = .error (.complaint what position) ∨
        r.stop = source.toList.length ∧
          ((what = .noExpression ∧ r.placed = [] ∧ position = .ofOffset source.toList r.stop) ∨
          ∃ front rest, r.placed = front ++ rest ∧
            what.Rejects strict (front.map Prod.fst) (rest.map Prod.fst) ∧
            position = .ofOffset source.toList ((rest.head?.map Prod.snd).getD r.stop)) := by
  obtain ⟨r, htokens, hends⟩ := Scan.exists_reading source.toList
  have hstop (stop : Position) (h : (Scan.ofChars source.toList).ending = .ok stop) :
      r.stop = source.toList.length ∧ stop = .ofOffset source.toList r.stop := by
    rw [h] at hends
    exact ⟨r.stop_eq_length hends.1, hends.2⟩
  refine ⟨r, htokens, fun _ _ h => r.prefix_drop h, r.stop_le, hstop, ?_, ?_⟩
  · intro what position h
    rw [h] at hends
    obtain ⟨c, rest, hbehind, hstarts, hread⟩ := hends
    rw [r.drop_stop, hbehind]
    exact Lexer.offends_of_readLexeme hstarts hread
  · intro strict what position h
    cases hending : (Scan.ofChars source.toList).ending with
    | error e =>
      left
      have hresult := Scan.result_eq_error_iff.mpr hending
      rw [compile, Listing.ofSource, hresult] at h
      cases h
      rfl
    | ok stop =>
      right
      obtain ⟨hlength, rfl⟩ := hstop stop hending
      refine ⟨hlength, ?_⟩
      have hresult := Scan.result_eq_ok_iff.mpr ⟨htokens, hending⟩
      rw [compile_eq_ofTokens hresult] at h
      split at h
      · rename_i hnil
        cases h
        exact .inl ⟨rfl, List.map_eq_nil_iff.mp hnil, rfl⟩
      · exact .inr (exists_rejected (Listing.result_eq_error_iff.mp h))

/-- A list of arguments that starts with a comma, behind a text of two lines. -/
theorem compile_positions_comma :
    let source := "pop\n\"a\nb\" bind(,"
    let what := Complaint.expectedArgument (some (.punctuation .comma))
    compile true source = .error (.complaint what ⟨3, 9⟩) ∧
      ∃ r : Reading source.toList, ∃ front rest, r.placed = front ++ rest ∧
        what.Rejects true (front.map Prod.fst) (rest.map Prod.fst) ∧
        ⟨3, 9⟩ = Position.ofOffset source.toList ((rest.head?.map Prod.snd).getD r.stop) := by
  intro source what
  have hcompile : compile true source = .error (.complaint what ⟨3, 9⟩) := by
    simp only [source, what]
    cbv
  have hending : (Scan.ofChars source.toList).ending = .ok ⟨3, 10⟩ := by
    simp only [source]
    cbv
  obtain ⟨r, -, -, -, -, -, hcomplaint⟩ := compile_positions source
  refine ⟨hcompile, r, ?_⟩
  rcases hcomplaint true what ⟨3, 9⟩ hcompile with hlexical | ⟨-, ⟨hnothing, -⟩ | hrejected⟩
  · rw [hending] at hlexical
    cases hlexical
  · simp [what] at hnothing
  · exact hrejected

end ScopeMachine
