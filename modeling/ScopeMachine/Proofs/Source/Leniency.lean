import ScopeMachine.Proofs.Source.Compiled

/-! Names that no mnemonic has. Compilation refuses them if names are strict, and else puts an
instruction in their place that does nothing. Up to the first such name the two ways to compile do
the same. Behind it the lenient one goes on, so whatever it complains about comes later in the text,
because tokens are placed in the order in which they are read. -/
namespace ScopeMachine

/-! ### Places in the order of the text -/

namespace Position

/-- `p` comes before `q` in a text. -/
def Before (p q : Position) : Prop := p.line < q.line ∨ p.line = q.line ∧ p.column < q.column

theorem Before.trans {p q r : Position} (hpq : p.Before q) (hqr : q.Before r) : p.Before r := by
  unfold Before at *
  omega

theorem before_next (p : Position) (c : Char) : p.Before (p.next c) := by
  unfold Before next
  split <;> simp

theorem after_eq_or_before (p : Position) (cs : List Char) :
    p.after cs = p ∨ p.Before (p.after cs) := by
  induction cs generalizing p with
  | nil => exact .inl rfl
  | cons c rest ih =>
    have hnext := p.before_next c
    rw [after_cons]
    rcases ih (p.next c) with heq | hbefore
    · rw [heq]
      exact .inr hnext
    · exact .inr (hnext.trans hbefore)

theorem before_after (p : Position) {cs : List Char} (h : cs ≠ []) : p.Before (p.after cs) := by
  obtain ⟨c, rest, rfl⟩ := List.exists_cons_of_ne_nil h
  have hnext := p.before_next c
  rw [after_cons]
  rcases (p.next c).after_eq_or_before rest with heq | hbefore
  · rwa [heq]
  · exact hnext.trans hbefore

end Position

namespace Parser

/-- The places of which a complaint can speak: those of the tokens, and the end of the text. -/
def places (stop : Position) (tokens : List Token) : List Position :=
  tokens.map Token.position ++ [stop]

theorem places_cons (stop : Position) (token : Token) (tail : List Token) :
    places stop (token :: tail) = token.position :: places stop tail := rfl

theorem places_suffix {stop : Position} {rest tokens : List Token} (h : rest <:+ tokens) :
    places stop rest <:+ places stop tokens := by
  obtain ⟨front, rfl⟩ := h
  exact ⟨front.map Token.position, by simp [places]⟩

end Parser

/-- Tokens are read in the order in which they stand in the text. -/
theorem Scan.places_ordered {position stop : Position} {cs : List Char}
    (h : (ofCharsAt position cs).ending = .ok stop) :
    (Parser.places stop (ofCharsAt position cs).tokens).Pairwise Position.Before ∧
      ∀ p ∈ Parser.places stop (ofCharsAt position cs).tokens,
        p = position ∨ position.Before p := by
  fun_induction ofCharsAt position cs with
  | case1 position cs layout hsplit =>
    simp only [Except.ok.injEq] at h
    subst h
    simpa [Parser.places] using position.after_eq_or_before layout
  | case2 => cases h
  | case3 position cs layout c rest hsplit start lexeme text hread more ih =>
    obtain ⟨hordered, hbehind⟩ := ih h
    have hstart : start = position ∨ position.Before start := position.after_eq_or_before layout
    have hnext := start.before_after (Lexer.readLexeme_literal_ne_nil hread)
    have hlater : ∀ p ∈ Parser.places stop more.tokens, start.Before p := by
      intro p hp
      rcases hbehind p hp with rfl | hbefore
      · exact hnext
      · exact hnext.trans hbefore
    rw [Parser.places_cons]
    refine ⟨List.pairwise_cons.mpr ⟨hlater, hordered⟩, ?_⟩
    intro p hp
    rcases List.mem_cons.mp hp with rfl | hp
    · exact hstart
    · rcases hstart with heq | hbefore
      · exact .inr (heq ▸ hlater p hp)
      · exact .inr (hbefore.trans (hlater p hp))

/-! ### Complaints -/

/-- The complaint is that a name is unknown. -/
def SourceError.IsUnknownName (e : SourceError) : Prop :=
  ∃ name position, e = .complaint (.unknownInstruction name) position

/-- A complaint about one of the places, but not that a name there is unknown. -/
def SourceError.PlacedIn (places : List Position) : SourceError → Prop
  | .complaint what position => position ∈ places ∧ ∀ name, what ≠ .unknownInstruction name
  | .numeralTooLong _ => False

theorem SourceError.PlacedIn.mono {front places : List Position} {e : SourceError}
    (h : e.PlacedIn front) (hsub : front ⊆ places) : e.PlacedIn places := by
  cases e with
  | complaint what position => exact ⟨hsub h.1, h.2⟩
  | numeralTooLong n => exact h

theorem SourceError.PlacedIn.not_isUnknownName {places : List Position} {e : SourceError}
    (h : e.PlacedIn places) : ¬ e.IsUnknownName := by
  rintro ⟨name, position, rfl⟩
  exact h.2 name rfl

namespace Parser

variable {stop : Position} {tokens rest : List Token}

/-- What is read leaves the end of the tokens behind, or is complained about at one of them. -/
def Within (stop : Position) (tokens : List Token) {α : Type}
    (read : Except SourceError (α × List Token)) : Prop :=
  Meets (fun found => found.2 <:+ tokens) (SourceError.PlacedIn (places stop tokens)) read

theorem Within.of_suffix {α : Type} {read : Except SourceError (α × List Token)}
    (h : Within stop rest read) (hsuffix : rest <:+ tokens) : Within stop tokens read := by
  apply Meets.imp h
  · intro found hfound
    exact hfound.trans hsuffix
  · intro e he
    exact he.mono (places_suffix hsuffix).subset

theorem Within.map {α β : Type} {read : Except SourceError (α × List Token)}
    (h : Within stop tokens read) (f : α → β) :
    Within stop tokens (do let (a, rest) ← read; pure (f a, rest)) :=
  Meets.bind h fun _ hfound => hfound

theorem within_complain {α : Type} (what : Option Lexeme → Complaint)
    (hwhat : ∀ found name, what found ≠ .unknownInstruction name) (stop : Position)
    (tokens : List Token) :
    Within stop tokens (.error (complain stop what tokens) :
      Except SourceError (α × List Token)) := by
  cases tokens with
  | nil => exact ⟨List.mem_singleton_self stop, hwhat none⟩
  | cons token tail => exact ⟨List.mem_cons_self, hwhat (some token.lexeme)⟩

theorem within_readArguments (stop : Position) (tokens : List Token) :
    Within stop tokens (readArguments stop tokens) := by
  fun_induction readArguments stop tokens with
  | case1 => exact within_complain .expectedArgument (by simp) stop []
  | case2 token tail => exact within_complain .expectedArgument (by simp) stop (token :: tail)
  | case3 token argument _ position tail ih =>
    have hsuffix : tail <:+ token :: ⟨.punctuation .comma, position⟩ :: tail :=
      ⟨[token, ⟨.punctuation .comma, position⟩], rfl⟩
    exact (ih.of_suffix hsuffix).map (argument :: ·)
  | case4 token argument _ position tail =>
    exact ⟨[token, ⟨.punctuation .rightParen, position⟩], rfl⟩
  | case5 token argument _ tail =>
    have hcomplain := within_complain (α := List Argument) .expectedListEnd (by simp) stop tail
    exact hcomplain.of_suffix (List.suffix_cons token tail)

theorem within_readList (stop : Position) (tokens : List Token) :
    Within stop tokens (readList stop tokens) := by
  unfold readList
  split
  · rename_i first second tail
    exact ⟨[⟨.punctuation .leftParen, first⟩, ⟨.punctuation .rightParen, second⟩], rfl⟩
  · rename_i position tail _
    have harguments := within_readArguments stop tail
    exact (harguments.of_suffix (List.suffix_cons _ tail)).map some
  · exact List.suffix_refl tokens

/-- An expression takes at least its first token. -/
theorem meets_readExpr (stop : Position) (token : Token) (tail : List Token) :
    Meets (fun found => found.2 <:+ tail) (SourceError.PlacedIn (places stop (token :: tail)))
      (readExpr stop token tail) := by
  -- Complaints about the tokens behind the first are complaints about all of them.
  have hbehind {read : Except SourceError (Expr × List Token)} (h : Within stop tail read) :
      Meets (fun found => found.2 <:+ tail)
        (SourceError.PlacedIn (places stop (token :: tail))) read :=
    Meets.imp h (fun _ hfound => hfound) fun _ he => he.mono (List.subset_cons_self _ _)
  unfold readExpr
  split
  · rename_i name _
    exact hbehind ((within_readList stop tail).map (Expr.call name))
  · exact List.suffix_refl tail
  · exact List.suffix_refl tail
  · split
    · exact List.suffix_cons _ _
    · exact hbehind (within_complain .expectedName (by simp) stop tail)
  · exact within_complain (α := Expr) .unexpected (by simp) stop (token :: tail)

end Parser

/-! ### Expressions with an unknown name -/

namespace Expr

/-- The instruction that an expression stands for when names are not strict. -/
inductive DenotesLeniently : Expr → Instr → Prop
  | known {e : Expr} {i : Instr} (h : e.Denotes i) : DenotesLeniently e i
  | unknown {name : String} (h : ∀ m : Mnemonic, m.name ≠ name)
      (list : Option (List Argument)) : DenotesLeniently (.call name list) .nop

theorem exists_call_of_unknownName? {e : Expr} {name : String} (h : e.unknownName? = some name) :
    (∀ m : Mnemonic, m.name ≠ name) ∧ ∃ list, e = .call name list := by
  cases e with
  | call name' list =>
    simp only [unknownName?, Option.isNone_iff_eq_none, Option.ite_none_right_eq_some,
      Option.some.injEq] at h
    obtain ⟨hnone, rfl⟩ := h
    refine ⟨?_, list, rfl⟩
    intro m hm
    rw [Mnemonic.ofName?_eq_some_iff.mpr hm] at hnone
    cases hnone
  | operator op | constant c | lookup name' => cases h

theorem instr_of_unknownName? {e : Expr} {name : String} (h : e.unknownName? = some name) :
    e.instr true = .error (.unknownInstruction name) ∧ e.instr false = .ok .nop := by
  obtain ⟨hname, list, rfl⟩ := exists_call_of_unknownName? h
  have hnone : Mnemonic.ofName? name = none := by
    rw [Option.eq_none_iff_forall_ne_some]
    intro m hm
    exact hname m (Mnemonic.ofName?_eq_some_iff.mp hm)
  simp [instr, hnone]

/-- Whether names are strict does not matter to an expression without an unknown name. -/
theorem instr_of_unknownName?_eq_none {e : Expr} (h : e.unknownName? = none) :
    e.instr false = e.instr true ∧ ∀ name, e.instr true ≠ .error (.unknownInstruction name) := by
  cases e with
  | call name' list =>
    simp only [unknownName?, Option.isNone_iff_eq_none, ite_eq_right_iff, reduceCtorEq] at h
    obtain ⟨m, hm⟩ := Option.ne_none_iff_exists'.mp h
    simp only [instr, hm]
    refine ⟨trivial, ?_⟩
    intro name hname
    split at hname <;> cases hname
  | operator op | constant c | lookup name' => simp [instr]

theorem unknownName?_of_instr {e : Expr} {i : Instr} (h : e.instr true = .ok i) :
    e.unknownName? = none := by
  cases hname : e.unknownName? with
  | none => rfl
  | some name =>
    rw [(instr_of_unknownName? hname).1] at h
    cases h

theorem denotesLeniently_of_instr {e : Expr} {i : Instr} (h : e.instr false = .ok i) :
    e.DenotesLeniently i := by
  cases hname : e.unknownName? with
  | none =>
    rw [(instr_of_unknownName?_eq_none hname).1] at h
    exact .known (denotes_of_instr h)
  | some name =>
    rw [(instr_of_unknownName? hname).2] at h
    obtain ⟨hunknown, list, rfl⟩ := exists_call_of_unknownName? hname
    cases h
    exact .unknown hunknown list

end Expr

/-! ### The two ways to compile -/

namespace Listing

variable {stop : Position} {tokens tail rest : List Token} {token : Token}

theorem result_eq_error_iff {l : Listing} {e : SourceError} :
    l.result = .error e ↔ l.error = some e := by
  obtain ⟨phrases, program, error⟩ := l
  cases error <;> simp [result]

theorem ofTokens_of_error {e : SourceError} (h : Parser.readExpr stop token tail = .error e)
    (strict : Bool) : ofTokens strict stop (token :: tail) = stopped (some e) := by
  rw [ofTokens]
  split <;> simp_all

theorem ofTokens_of_read {expr : Expr} (h : Parser.readExpr stop token tail = .ok (expr, rest))
    (strict : Bool) :
    ofTokens strict stop (token :: tail) =
      match expr.instr strict with
      | .error what => stopped (some (.complaint what token.position))
      | .ok instr =>
        ⟨⟨expr, token.position⟩ :: (ofTokens strict stop rest).phrases,
          instr :: (ofTokens strict stop rest).program, (ofTokens strict stop rest).error⟩ := by
  rw [ofTokens]
  split
  · simp_all
  · rename_i hread
    rw [h] at hread
    cases hread
    rfl

theorem placedIn_of_read_error {e : SourceError}
    (h : Parser.readExpr stop token tail = .error e) :
    e.PlacedIn (Parser.places stop (token :: tail)) := by
  have hmeets := Parser.meets_readExpr stop token tail
  rwa [h] at hmeets

theorem places_of_read {expr : Expr} (h : Parser.readExpr stop token tail = .ok (expr, rest)) :
    Parser.places stop rest <:+ Parser.places stop tail := by
  have hmeets := Parser.meets_readExpr stop token tail
  rw [h] at hmeets
  exact Parser.places_suffix hmeets

/-- Without an unknown name it makes no difference whether names are strict. -/
theorem ofTokens_eq_of_known
    (h : ∀ e, (ofTokens true stop tokens).error = some e → ¬ e.IsUnknownName) :
    ofTokens false stop tokens = ofTokens true stop tokens := by
  fun_induction ofTokens true stop tokens with
  | case1 => rw [ofTokens]
  | case2 token tail e hread => exact ofTokens_of_error hread false
  | case3 token tail expr rest hread what hinstr =>
    cases hname : expr.unknownName? with
    | none => rw [ofTokens_of_read hread, (Expr.instr_of_unknownName?_eq_none hname).1, hinstr]
    | some name =>
      rw [(Expr.instr_of_unknownName? hname).1] at hinstr
      cases hinstr
      exact absurd ⟨name, token.position, rfl⟩ (h _ rfl)
  | case4 token tail expr rest hread instr hinstr more ih =>
    have hname := Expr.unknownName?_of_instr hinstr
    rw [ofTokens_of_read hread, (Expr.instr_of_unknownName?_eq_none hname).1, hinstr, ih h]

/-- Strictly compiled phrases have no unknown names. -/
theorem unknownName?_of_mem_phrases {phrase : Phrase}
    (h : phrase ∈ (ofTokens true stop tokens).phrases) : phrase.expr.unknownName? = none := by
  fun_induction ofTokens true stop tokens with
  | case1 | case2 | case3 => cases h
  | case4 token tail expr rest hread instr hinstr more ih =>
    rcases List.mem_cons.mp h with rfl | hmore
    · exact Expr.unknownName?_of_instr hinstr
    · exact ih hmore

/-- What is compiled leniently is complained about for its grammar only. -/
theorem placedIn_of_lenient {e : SourceError} (h : (ofTokens false stop tokens).error = some e) :
    e.PlacedIn (Parser.places stop tokens) := by
  fun_induction ofTokens false stop tokens with
  | case1 => cases h
  | case2 token tail error hread =>
    cases h
    exact placedIn_of_read_error hread
  | case3 token tail expr rest hread what hinstr =>
    cases h
    refine ⟨List.mem_cons_self, ?_⟩
    rintro name rfl
    cases hname : expr.unknownName? with
    | none =>
      obtain ⟨hsame, hne⟩ := Expr.instr_of_unknownName?_eq_none hname
      exact hne name (hsame ▸ hinstr)
    | some unknown =>
      rw [(Expr.instr_of_unknownName? hname).2] at hinstr
      cases hinstr
  | case4 token tail expr rest hread instr hinstr more ih =>
    exact (ih h).mono (List.Subset.trans (places_of_read hread).subset (List.subset_cons_self _ _))

/-- Whatever is complained about leniently comes behind the first unknown name. -/
theorem before_of_unknown (hordered : (Parser.places stop tokens).Pairwise Position.Before)
    {name : String} {position : Position} {e : SourceError}
    (h : (ofTokens true stop tokens).error =
      some (.complaint (.unknownInstruction name) position))
    (he : (ofTokens false stop tokens).error = some e) :
    ∃ what later, e = .complaint what later ∧ position.Before later := by
  fun_induction ofTokens true stop tokens with
  | case1 => cases h
  | case2 token tail error hread =>
    cases h
    exact absurd ⟨name, position, rfl⟩ (placedIn_of_read_error hread).not_isUnknownName
  | case3 token tail expr rest hread what hinstr =>
    rw [Parser.places_cons, List.pairwise_cons] at hordered
    cases h
    cases hname : expr.unknownName? with
    | none => exact absurd hinstr ((Expr.instr_of_unknownName?_eq_none hname).2 name)
    | some unknown =>
      -- The lenient way goes on behind the expression with the unknown name.
      rw [ofTokens_of_read hread, (Expr.instr_of_unknownName? hname).2] at he
      have hplaced := placedIn_of_lenient he
      cases e with
      | complaint what later =>
        have hlater := (places_of_read hread).subset hplaced.1
        exact ⟨what, later, rfl, hordered.1 later hlater⟩
      | numeralTooLong n => cases hplaced
  | case4 token tail expr rest hread instr hinstr more ih =>
    rw [Parser.places_cons, List.pairwise_cons] at hordered
    have hrest := hordered.2.sublist (places_of_read hread).sublist
    have hname := Expr.unknownName?_of_instr hinstr
    rw [ofTokens_of_read hread, (Expr.instr_of_unknownName?_eq_none hname).1, hinstr] at he
    exact ih hrest h he

end Listing

namespace Scan

theorem result_eq_error_iff {s : Scan} {e : SourceError} :
    s.result = .error e ↔ s.ending = .error e := by
  obtain ⟨tokens, ending⟩ := s
  cases ending <;> simp [result, Except.map]

/-- The lexer knows nothing of names. -/
theorem not_isUnknownName {position : Position} {cs : List Char} {e : SourceError}
    (h : (ofCharsAt position cs).ending = .error e) : ¬ e.IsUnknownName := by
  fun_induction ofCharsAt position cs with
  | case1 => cases h
  | case2 position cs layout c rest hsplit start error hread =>
    cases h
    rintro ⟨name, place, rfl⟩
    unfold Lexer.readLexeme at hread
    repeat' split at hread
    all_goals cases hread
  | case3 position cs layout c rest hsplit start lexeme text hread more ih => exact ih h

end Scan

/-- A text that the parser does not get to see is refused whether or not names are strict. -/
theorem Listing.ofSource_cases (source : String) :
    (∃ e : SourceError, ¬ e.IsUnknownName ∧
      ∀ strict, ofSource strict source = stopped (some e)) ∨
    ∃ tokens stop, (Scan.ofChars source.toList).result = .ok (tokens, stop) ∧
      ∀ strict, ofSource strict source = ofTokens strict stop tokens := by
  rcases hresult : (Scan.ofChars source.toList).result with e | ⟨tokens, stop⟩
  · left
    have hending := Scan.result_eq_error_iff.mp hresult
    exact ⟨e, Scan.not_isUnknownName hending, by simp [ofSource, hresult]⟩
  · cases tokens with
    | nil =>
      left
      refine ⟨.complaint .noExpression stop, ?_, by simp [ofSource, hresult]⟩
      rintro ⟨name, position, h⟩
      cases h
    | cons token tail =>
      right
      exact ⟨token :: tail, stop, rfl, by simp [ofSource, hresult]⟩

theorem compile_eq_error_iff {strict : Bool} {source : String} {e : SourceError} :
    compile strict source = .error e ↔ (Listing.ofSource strict source).error = some e :=
  Listing.result_eq_error_iff

/-- Whether names are strict makes a difference only to a text with an unknown name. -/
theorem ofSource_eq_of_known {source : String}
    (h : ∀ e, compile true source = .error e → ¬ e.IsUnknownName) :
    Listing.ofSource false source = Listing.ofSource true source := by
  rcases Listing.ofSource_cases source with ⟨e, -, hsource⟩ | ⟨tokens, stop, -, hsource⟩
  · rw [hsource, hsource]
  · rw [hsource, hsource]
    apply Listing.ofTokens_eq_of_known
    intro e he
    apply h e
    rw [compile_eq_error_iff, hsource, he]

/-- A text that compiles strictly is compiled without a warning. -/
theorem atLeast_warning_of_compile {source : String} {program : List Instr}
    (h : compile true source = .ok program) (filename : String) :
    Notice.atLeast .warning ((Listing.ofSource true source).notices filename) = [] := by
  obtain ⟨herror, -⟩ := Listing.result_eq_ok_iff.mp h
  rcases Listing.ofSource_cases source with ⟨e, -, hsource⟩ | ⟨tokens, stop, -, hsource⟩
  · rw [hsource] at herror
    cases herror
  · rw [hsource] at herror ⊢
    have hphrases : ∀ phrase ∈ (Listing.ofTokens true stop tokens).phrases,
        phrase.expr.unknownName? = none := fun _ => Listing.unknownName?_of_mem_phrases
    have hnotices : (Listing.ofTokens true stop tokens).notices filename =
        [⟨.debug, .compiler, "compiled " ++
          Numeral.ofNat (Listing.ofTokens true stop tokens).program.length ++
          " instructions from " ++ filename⟩] := by
      simp only [Listing.notices, herror]
      rw [List.filterMap_eq_nil_iff.mpr, List.nil_append]
      intro phrase hphrase
      rw [hphrases phrase hphrase, Option.map_none]
    rw [hnotices]
    simp [Notice.atLeast, Level.rank]

theorem not_isUnknownName_of_lenient {source : String} {e : SourceError}
    (h : compile false source = .error e) : ¬ e.IsUnknownName := by
  rw [compile_eq_error_iff] at h
  rcases Listing.ofSource_cases source with ⟨e', he', hsource⟩ | ⟨tokens, stop, -, hsource⟩
  · rw [hsource] at h
    cases h
    exact he'
  · rw [hsource] at h
    exact (Listing.placedIn_of_lenient h).not_isUnknownName

theorem exists_later_of_unknown {source name : String} {position : Position} {e : SourceError}
    (h : compile true source = .error (.complaint (.unknownInstruction name) position))
    (he : compile false source = .error e) :
    ∃ what later, e = .complaint what later ∧ position.Before later := by
  rw [compile_eq_error_iff] at h he
  rcases Listing.ofSource_cases source with ⟨e', he', hsource⟩ | ⟨tokens, stop, hlex, hsource⟩
  · rw [hsource] at h
    cases h
    exact absurd ⟨name, position, rfl⟩ he'
  · obtain ⟨rfl, hending⟩ := Scan.result_eq_ok_iff.mp hlex
    rw [hsource] at h he
    exact Listing.before_of_unknown (Scan.places_ordered hending).1 h he

/-- How strict and lenient compilation differ. What compiles strictly compiles leniently to the
same, without a warning. What is refused, but not for an unknown name, is refused leniently for the
same reason. Behind the first unknown name a text is compiled further, to an instruction that does
nothing for each unknown name and to what the other expressions stand for, or it is complained about
further on. Unknown names are never complained about leniently. -/
theorem compile_lenient (source : String) :
    (∀ program, compile true source = .ok program →
      compile false source = .ok program ∧
        ∀ filename,
          Notice.atLeast .warning ((Listing.ofSource false source).notices filename) = []) ∧
    (∀ e, compile true source = .error e →
      (∀ name position, e ≠ .complaint (.unknownInstruction name) position) →
        compile false source = .error e) ∧
    (∀ name position,
      compile true source = .error (.complaint (.unknownInstruction name) position) →
        (∃ tokens stop exprs program,
          (Scan.ofChars source.toList).result = .ok (tokens, stop) ∧
          tokens.map Token.lexeme = exprs.flatMap Expr.lexemes ∧
          compile false source = .ok program ∧
          List.Forall₂ Expr.DenotesLeniently exprs program) ∨
        ∃ what later, compile false source = .error (.complaint what later) ∧
          position.Before later) ∧
    ∀ name position,
      compile false source ≠ .error (.complaint (.unknownInstruction name) position) := by
  have hsame (h : ∀ e, compile true source = .error e → ¬ e.IsUnknownName) :
      compile false source = compile true source := by
    rw [compile, ofSource_eq_of_known h, compile]
  refine ⟨?_, ?_, ?_, ?_⟩
  · intro program h
    have hknown : ∀ e, compile true source = .error e → ¬ e.IsUnknownName := by
      intro e he
      rw [h] at he
      cases he
    constructor
    · rw [hsame hknown, h]
    · intro filename
      rw [ofSource_eq_of_known hknown]
      exact atLeast_warning_of_compile h filename
  · intro e h hknown
    rw [hsame, h]
    intro e' he'
    rw [h] at he'
    cases he'
    rintro ⟨name, position, hname⟩
    exact hknown name position hname
  · intro name position h
    cases hlenient : compile false source with
    | ok program =>
      left
      obtain ⟨tokens, stop, hlex⟩ := exists_tokens_of_compile hlenient
      obtain ⟨exprs, -, hspells, hall⟩ := (compile_eq_ok_iff hlex).mp hlenient
      refine ⟨tokens, stop, exprs, program, hlex, Spells.end_iff.mp hspells, rfl, ?_⟩
      exact hall.imp fun _ _ => Expr.denotesLeniently_of_instr
    | error e =>
      right
      obtain ⟨what, later, rfl, hbefore⟩ := exists_later_of_unknown h hlenient
      exact ⟨what, later, rfl, hbefore⟩
  · intro name position h
    exact not_isUnknownName_of_lenient h ⟨name, position, rfl⟩

/-- An unknown name with arguments, in front of a list that is not closed. -/
theorem compile_lenient_unclosed :
    compile true "frob(1) pop(" = .error (.complaint (.unknownInstruction "frob") ⟨1, 1⟩) ∧
      compile false "frob(1) pop(" = .error (.complaint (.expectedArgument none) ⟨1, 13⟩) ∧
      Position.Before ⟨1, 1⟩ ⟨1, 13⟩ := by
  have hstrict : compile true "frob(1) pop(" =
      .error (.complaint (.unknownInstruction "frob") ⟨1, 1⟩) := by cbv
  have hlenient : compile false "frob(1) pop(" =
      .error (.complaint (.expectedArgument none) ⟨1, 13⟩) := by cbv
  refine ⟨hstrict, hlenient, ?_⟩
  rcases (compile_lenient "frob(1) pop(").2.2.1 "frob" ⟨1, 1⟩ hstrict with
    ⟨_, _, _, program, -, -, hprogram, -⟩ | ⟨what, later, hlater, hbefore⟩
  · rw [hlenient] at hprogram
    cases hprogram
  · rw [hlenient] at hlater
    cases hlater
    exact hbefore

end ScopeMachine
