import ScopeMachine.Source.Error

/-! Cutting a source text into tokens. Between tokens stand blanks and comments, which run from a
`#` to the end of the line. A token takes as many characters as its class allows. -/
namespace ScopeMachine

namespace Lexer

def isSpace (c : Char) : Bool := c = ' ' || c = '\t' || c = '\n' || c = '\r'

def isLetter (c : Char) : Bool := ('a' ≤ c && c ≤ 'z') || ('A' ≤ c && c ≤ 'Z') || c = '_'

def isDigit (c : Char) : Bool := Text.isAsciiDigit c

def isWordChar (c : Char) : Bool := isLetter c || isDigit c

/-- Splits off the layout at the front of a text: blanks and comments. -/
def splitLayout : (inComment : Bool) → List Char → List Char × List Char
  | _, [] => ([], [])
  | true, c :: rest =>
    let (layout, text) := splitLayout (c != '\n') rest
    (c :: layout, text)
  | false, c :: rest =>
    if isSpace c || c = '#' then
      let (layout, text) := splitLayout (c = '#') rest
      (c :: layout, text)
    else ([], c :: rest)

/-- A number, whose text starts with a digit. A point belongs to it only before another digit. -/
def readNumber (cs : List Char) : Constant × List Char :=
  let whole := String.ofList (cs.takeWhile isDigit)
  match cs.dropWhile isDigit with
  | '.' :: d :: rest =>
    if isDigit d then
      (.number whole (some (String.ofList ((d :: rest).takeWhile isDigit))),
        (d :: rest).dropWhile isDigit)
    else (.number whole none, '.' :: d :: rest)
  | rest => (.number whole none, rest)

def readIdentifier (cs : List Char) : Lexeme × List Char :=
  (.identifier (String.ofList (cs.takeWhile isWordChar)), cs.dropWhile isWordChar)

/-- A text, of which the opening quote has been read. It has no escapes and may span lines. -/
def readText? (quote : Quote) (cs : List Char) : Option (Constant × List Char) :=
  match cs.dropWhile (· != quote.char) with
  | [] => none
  | _ :: rest => some (.text quote (String.ofList (cs.takeWhile (· != quote.char))), rest)

/-- The operator at the front of a text; two characters are preferred to one. -/
def readOperator? : List Char → Option (BinaryOp × List Char)
  | '&' :: '&' :: rest => some (.and, rest)
  | '|' :: '|' :: rest => some (.or, rest)
  | '=' :: '=' :: rest => some (.eq, rest)
  | '!' :: '=' :: rest => some (.notEq, rest)
  | '<' :: '=' :: rest => some (.le, rest)
  | '>' :: '=' :: rest => some (.ge, rest)
  | '+' :: rest => some (.add, rest)
  | '-' :: rest => some (.sub, rest)
  | '*' :: rest => some (.mul, rest)
  | '/' :: rest => some (.div, rest)
  | '<' :: rest => some (.lt, rest)
  | '>' :: rest => some (.gt, rest)
  | _ => none

def readPunctuation? : List Char → Option (Punctuation × List Char)
  | '(' :: rest => some (.leftParen, rest)
  | ')' :: rest => some (.rightParen, rest)
  | ',' :: rest => some (.comma, rest)
  | '$' :: rest => some (.dollar, rest)
  | _ => none

def quote? : Char → Option Quote
  | '\'' => some .single
  | '"' => some .double
  | _ => none

/-- The token that starts at `position` with `c`, and the text behind it. -/
def readLexeme (position : Position) (c : Char) (rest : List Char) :
    Except SourceError (Lexeme × List Char) :=
  match quote? c with
  | some quote =>
    match readText? quote rest with
    | some (text, after) => .ok (.constant text, after)
    | none => .error (.complaint (.unterminated quote) position)
  | none =>
    if isDigit c then
      match readNumber (c :: rest) with
      | (.number whole none, after) =>
        if Numeral.digitLimit < whole.length then .error (.numeralTooLong whole.length)
        else .ok (.constant (.number whole none), after)
      | (number, after) => .ok (.constant number, after)
    else if isLetter c then .ok (readIdentifier (c :: rest))
    else
      match readOperator? (c :: rest) with
      | some (op, after) => .ok (.operator op, after)
      | none =>
        match readPunctuation? (c :: rest) with
        | some (mark, after) => .ok (.punctuation mark, after)
        | none => .error (.complaint (.unexpectedCharacter c) position)

/-! ### Nothing is lost -/

theorem splitLayout_append (inComment : Bool) (cs : List Char) :
    (splitLayout inComment cs).1 ++ (splitLayout inComment cs).2 = cs := by
  induction cs generalizing inComment with
  | nil => cases inComment <;> rfl
  | cons c rest ih =>
    cases inComment with
    | true => simp [splitLayout, ih]
    | false =>
      unfold splitLayout
      split
      · simp [ih]
      · rfl

theorem readNumber_literal (cs : List Char) :
    (readNumber cs).1.literal.toList ++ (readNumber cs).2 = cs := by
  unfold readNumber
  have hsplit := List.takeWhile_append_dropWhile (p := isDigit) (l := cs)
  split
  · rename_i d rest hrest
    rw [hrest] at hsplit
    split
    · have hfrac := List.takeWhile_append_dropWhile (p := isDigit) (l := d :: rest)
      simp only [Constant.literal, String.toList_append, String.toList_ofList, List.append_assoc]
      rw [hfrac]
      exact hsplit
    · simpa [Constant.literal] using hsplit
  · simp [Constant.literal]

theorem readIdentifier_literal (cs : List Char) :
    (readIdentifier cs).1.literal.toList ++ (readIdentifier cs).2 = cs := by
  simp [readIdentifier, Lexeme.literal, List.takeWhile_append_dropWhile]

theorem readText?_literal {quote : Quote} {cs : List Char} {reading : Constant × List Char}
    (h : readText? quote cs = some reading) :
    reading.1.literal.toList ++ reading.2 = quote.char :: cs := by
  unfold readText? at h
  have hsplit := List.takeWhile_append_dropWhile (p := (· != quote.char)) (l := cs)
  have hhead := List.head?_dropWhile_not (fun c => c != quote.char) cs
  split at h
  · cases h
  · rename_i q rest hrest
    cases h
    rw [hrest] at hsplit hhead
    have hq : q = quote.char := by simpa using hhead
    subst hq
    simpa [Constant.literal] using hsplit

theorem readOperator?_literal {cs : List Char} {op : BinaryOp} {after : List Char}
    (h : readOperator? cs = some (op, after)) : op.spelling.toList ++ after = cs := by
  unfold readOperator? at h
  split at h <;> cases h <;> simp [BinaryOp.spelling]

theorem readPunctuation?_literal {cs : List Char} {mark : Punctuation} {after : List Char}
    (h : readPunctuation? cs = some (mark, after)) : mark.char :: after = cs := by
  unfold readPunctuation? at h
  split at h <;> cases h <;> rfl

theorem quote?_char {c : Char} {quote : Quote} (h : quote? c = some quote) : quote.char = c := by
  unfold quote? at h
  split at h <;> cases h <;> rfl

/-- A token and the text behind it make up the text they were read from. -/
theorem readLexeme_literal {position : Position} {c : Char} {rest : List Char} {lexeme : Lexeme}
    {after : List Char} (h : readLexeme position c rest = .ok (lexeme, after)) :
    lexeme.literal.toList ++ after = c :: rest := by
  unfold readLexeme at h
  split at h
  · rename_i quote hquote
    split at h
    · rename_i text after' hreading
      cases h
      rw [← quote?_char hquote]
      exact readText?_literal hreading
    · cases h
  · have hnumber := readNumber_literal (c :: rest)
    have hidentifier := readIdentifier_literal (c :: rest)
    split at h
    · split at h
      · rename_i hreading
        rw [hreading] at hnumber
        split at h <;> cases h
        exact hnumber
      · rename_i hreading
        rw [hreading] at hnumber
        cases h
        exact hnumber
    · split at h
      · cases h
        exact hidentifier
      · split at h
        · rename_i hop
          cases h
          exact readOperator?_literal hop
        · split at h
          · rename_i hmark
            cases h
            simpa [Lexeme.literal] using readPunctuation?_literal hmark
          · cases h

theorem readLexeme_literal_ne_nil {position : Position} {c : Char} {rest : List Char}
    {lexeme : Lexeme} {after : List Char}
    (h : readLexeme position c rest = .ok (lexeme, after)) : lexeme.literal.toList ≠ [] := by
  unfold readLexeme at h
  split at h
  · split at h
    · rename_i hreading
      cases h
      unfold readText? at hreading
      split at hreading <;> cases hreading
      simp [Lexeme.literal, Constant.literal]
    · cases h
  · split at h
    · rename_i hdigit
      have hwhole : (readNumber (c :: rest)).1.literal.toList ≠ [] := by
        unfold readNumber
        have htake : (c :: rest).takeWhile isDigit ≠ [] := by simp [hdigit]
        split
        · split
          · simp only [Constant.literal, String.toList_append, String.toList_ofList]
            exact List.append_ne_nil_of_left_ne_nil
              (List.append_ne_nil_of_left_ne_nil htake _) _
          · simpa only [Constant.literal, String.toList_ofList] using htake
        · simpa only [Constant.literal, String.toList_ofList] using htake
      split at h
      · rename_i hreading
        rw [hreading] at hwhole
        split at h <;> cases h
        exact hwhole
      · rename_i hreading
        rw [hreading] at hwhole
        cases h
        exact hwhole
    · split at h
      · rename_i hletter
        cases h
        simp [Lexeme.literal, isWordChar, hletter]
      · split at h
        · rename_i op after _
          cases h
          cases op <;> simp [Lexeme.literal, BinaryOp.spelling]
        · split at h
          · cases h
            simp [Lexeme.literal]
          · cases h

theorem length_splitLayout_le (inComment : Bool) (cs : List Char) :
    (splitLayout inComment cs).2.length ≤ cs.length := by
  have h := congrArg List.length (splitLayout_append inComment cs)
  rw [List.length_append] at h
  omega

theorem readLexeme_length_lt {position : Position} {c : Char} {rest : List Char} {lexeme : Lexeme}
    {after : List Char} (h : readLexeme position c rest = .ok (lexeme, after)) :
    after.length < (c :: rest).length := by
  have happend := congrArg List.length (readLexeme_literal h)
  have hpos := List.length_pos_iff.2 (readLexeme_literal_ne_nil h)
  rw [List.length_append] at happend
  omega

end Lexer

/-- The tokens of a text, and how the text ends: with the position behind its last character, or
with an error after the tokens before it. -/
structure Scan where
  tokens : List Token
  ending : Except SourceError Position

namespace Scan

/-- Reads tokens from a text that starts at `position`. -/
def ofCharsAt (position : Position) (cs : List Char) : Scan :=
  match _hsplit : Lexer.splitLayout false cs with
  | (layout, []) => ⟨[], .ok (position.after layout)⟩
  | (layout, c :: rest) =>
    let start := position.after layout
    match _hread : Lexer.readLexeme start c rest with
    | .error e => ⟨[], .error e⟩
    | .ok (lexeme, text) =>
      let more := ofCharsAt (start.after lexeme.literal.toList) text
      ⟨⟨lexeme, start⟩ :: more.tokens, more.ending⟩
termination_by cs.length
decreasing_by
  have hle := Lexer.length_splitLayout_le false cs
  rw [_hsplit] at hle
  exact Nat.lt_of_lt_of_le (Lexer.readLexeme_length_lt _hread) hle

def ofChars (cs : List Char) : Scan := ofCharsAt .start cs

/-- All tokens and the position of the end, or the first error. -/
def result (s : Scan) : Except SourceError (List Token × Position) :=
  s.ending.map fun position => (s.tokens, position)

end Scan

end ScopeMachine
