import ScopeMachine.Proofs.Source.Cutting
import ScopeMachine.Proofs.Source.Grammar
import ScopeMachine.Proofs.Value.Writable

/-! What compilation yields: at least one instruction, of the kinds that the language can ask for.
Their operands come from tokens, and the value of a token can be written, because a longer numeral
could not have been read. -/
namespace ScopeMachine

/-- The instructions of compiled programs. None of them selects a scope or a stack, and only
`leaveAt` names a scope. A name that a message may have to report can be written. -/
inductive Instr.Compiled : Instr → Prop
  | nop : Compiled .nop
  | pop : Compiled .pop
  | push (a : Atom) : Compiled (.push (.atom a))
  | line (a : Atom) : Compiled (.setProp Mnemonic.lineProp (.atom a))
  | setFrameTitle : Compiled .setFrameTitle
  | addFrameNote : Compiled .addFrameNote
  | bind {name : Atom} (h : name.Writable) : Compiled (.bind (.atom name))
  | rebind (name : Atom) : Compiled (.rebind (.atom name))
  | enter (name : Atom) : Compiled (.enter (.atom name))
  | leave : Compiled .leave
  | find {name : Atom} (h : name.Writable) : Compiled (.find (.atom name))
  | leaveAt {key : Atom} (h : key.Writable) : Compiled (.leaveAt (.atom key))
  | binary (op : BinaryOp) : Compiled (.binary op)
  | unary (op : UnaryOp) : Compiled (.unary op)

theorem Constant.writable_of_digits {whole : String} (hdigits : IsDigits whole.toList)
    (hlength : whole.length ≤ Numeral.digitLimit) : (number whole none).value.Writable := by
  rw [Atom.writable_iff]
  rintro _ ⟨⟩
  rw [Int.natAbs_natCast]
  exact Numeral.valueOf_asciiDigits_lt hdigits.2 (by rwa [String.length_toList])

theorem Lexer.Reads.writable {c : Char} {rest : List Char} {l : Lexeme} {after : List Char}
    (h : Reads c rest l after) : l.value.Writable := by
  have hspelled := h.wellSpelled
  cases h with
  | @number whole fraction after hc hread hlimit =>
    cases fraction with
    | none => exact Constant.writable_of_digits hspelled (hlimit rfl)
    | some fraction => rfl
  | text _ _ | word _ | operator _ | mark _ => exact Atom.writable_str _

theorem Scan.writable_of_mem_tokens {position : Position} {cs : List Char} {token : Token}
    (h : token ∈ (ofCharsAt position cs).tokens) : token.lexeme.value.Writable := by
  fun_induction ofCharsAt position cs with
  | case1 => cases h
  | case2 => cases h
  | case3 position cs layout c rest _ start lexeme text hread more ih =>
    rcases List.mem_cons.mp h with rfl | hmore
    · exact (Lexer.reads_of_readLexeme hread).writable
    · exact ih hmore

theorem Argument.value_eq (a : Argument) : a.value = .atom a.lexeme.value := by cases a <;> rfl

namespace Expr

/-- Names that are not strict make a difference only to a name that is unknown. -/
theorem instr_lenient {e : Expr} {i : Instr} (h : e.instr false = .ok i) :
    i = .nop ∨ e.instr true = .ok i := by
  cases e with
  | operator op => exact .inr h
  | constant c => exact .inr h
  | lookup name => exact .inr h
  | call name list =>
    simp only [instr] at h ⊢
    cases hname : Mnemonic.ofName? name with
    | none =>
      rw [hname] at h
      cases h
      exact .inl rfl
    | some mnemonic =>
      rw [hname] at h
      exact .inr h

theorem Denotes.compiled {e : Expr} {i : Instr} (h : e.Denotes i)
    (hwritable : ∀ l ∈ e.lexemes, l.value.Writable) : i.Compiled := by
  -- The argument of a name is one of its lexemes.
  have hargument {name : String} {a : Argument} (he : e = .call name (some [a])) :
      a.lexeme.value.Writable := hwritable _ (by simp [he, lexemes, argumentLexemes])
  cases h with
  | operator op => exact .binary op
  | constant c => exact .push c.value
  | lookup name => exact .find (Atom.writable_str name)
  | nop _ => exact .nop
  | pop _ => exact .pop
  | push a => exact a.value_eq ▸ .push _
  | line a => exact a.value_eq ▸ .line _
  | setFrameTitle _ => exact .setFrameTitle
  | addFrameNote _ => exact .addFrameNote
  | bind a => exact a.value_eq ▸ .bind (hargument rfl)
  | rebind a => exact a.value_eq ▸ .rebind _
  | enter _ => exact .enter _
  | enterNamed a => exact a.value_eq ▸ .enter _
  | leave _ => exact .leave
  | find a => exact a.value_eq ▸ .find (hargument rfl)
  | leaveAt a => exact a.value_eq ▸ .leaveAt (hargument rfl)
  | not _ => exact .unary .not
  | neg _ => exact .unary .neg

theorem instr_compiled {strict : Bool} {e : Expr} {i : Instr} (h : e.instr strict = .ok i)
    (hwritable : ∀ l ∈ e.lexemes, l.value.Writable) : i.Compiled := by
  cases strict with
  | true => exact (denotes_of_instr h).compiled hwritable
  | false =>
    rcases instr_lenient h with rfl | h
    · exact .nop
    · exact (denotes_of_instr h).compiled hwritable

/-- To leave a scope by name takes the mnemonic for it. -/
theorem eq_call_of_leaveAt {strict : Bool} {e : Expr} {key : Value}
    (h : e.instr strict = .ok (.leaveAt key)) :
    ∃ a : Argument, e = .call "leaveAt" (some [a]) ∧ a.value = key := by
  have hstrict : e.instr true = .ok (.leaveAt key) := by
    cases strict with
    | true => exact h
    | false => exact (instr_lenient h).resolve_left nofun
  generalize hi : Instr.leaveAt key = i at hstrict
  cases denotes_of_instr hstrict with
  | leaveAt a =>
    cases hi
    exact ⟨a, rfl, rfl⟩
  | _ => cases hi

end Expr

/-- Every expression that was read stands for one instruction, in the same order. -/
theorem Listing.forall₂_phrases (strict : Bool) (source : String) :
    List.Forall₂ (fun phrase i => phrase.expr.instr strict = .ok i)
      (ofSource strict source).phrases (ofSource strict source).program := by
  have htokens (stop : Position) (tokens : List Token) :
      List.Forall₂ (fun phrase i => phrase.expr.instr strict = .ok i)
        (ofTokens strict stop tokens).phrases (ofTokens strict stop tokens).program := by
    fun_induction ofTokens strict stop tokens with
    | case1 => exact .nil
    | case2 => exact .nil
    | case3 => exact .nil
    | case4 token tail expr rest hread instr hinstr more ih => exact .cons hinstr ih
  unfold ofSource
  split
  · exact .nil
  · exact .nil
  · exact htokens _ _

/-- A text that compiles can be cut into tokens. -/
theorem exists_tokens_of_compile {strict : Bool} {source : String} {program : List Instr}
    (h : compile strict source = .ok program) :
    ∃ tokens stop, (Scan.ofChars source.toList).result = .ok (tokens, stop) := by
  cases hresult : (Scan.ofChars source.toList).result with
  | error e => simp [compile, Listing.ofSource, hresult, Listing.stopped, Listing.result] at h
  | ok found => exact ⟨found.1, found.2, rfl⟩

theorem compiled_of_compile {strict : Bool} {source : String} {program : List Instr}
    (h : compile strict source = .ok program) :
    program ≠ [] ∧ ∀ i ∈ program, i.Compiled := by
  obtain ⟨tokens, stop, hlex⟩ := exists_tokens_of_compile h
  obtain ⟨exprs, hne, hspells, hall⟩ := (compile_eq_ok_iff hlex).mp h
  have hlexemes := Spells.end_iff.mp hspells
  have htokens : ∀ l ∈ exprs.flatMap Expr.lexemes, l.value.Writable := by
    intro l hl
    rw [← hlexemes] at hl
    obtain ⟨token, htoken, rfl⟩ := List.mem_map.mp hl
    rw [← (Scan.result_eq_ok_iff.mp hlex).1] at htoken
    exact Scan.writable_of_mem_tokens htoken
  refine ⟨?_, ?_⟩
  · rintro rfl
    exact hne (List.forall₂_nil_right_iff.mp hall)
  · intro i hi
    obtain ⟨e, he, hinstr⟩ := forall₂_right hall hi
    refine Expr.instr_compiled hinstr fun l hl => htokens l ?_
    exact List.mem_flatMap.mpr ⟨e, he, hl⟩

/-! ### Operands of compiled programs -/

/-- The atoms that a source text can spell: no negative number and none without a place on the
number line. -/
inductive Atom.Literal : Atom → Prop
  | int (n : Nat) : Literal (.int n)
  | float {x : Binary64} (h : x.isNaN = false) : Literal (.float x)
  | str (s : String) : Literal (.str s)

theorem Lexeme.literal_value (l : Lexeme) : l.value.Literal := by
  cases l with
  | constant c =>
    cases c with
    | number whole fraction =>
      cases fraction with
      | none => exact .int _
      | some fraction => exact .float (Binary64.isNaN_ofDecimal ..)
    | text quote body => exact .str body
  | identifier name => exact .str _
  | operator op => exact .str _
  | punctuation mark => exact .str _

/-- All operands are spelled in the source text. -/
def Instr.Spelled (i : Instr) : Prop := ∀ v ∈ i.operands, ∃ a : Atom, v = .atom a ∧ a.Literal

theorem Expr.Denotes.spelled {e : Expr} {i : Instr} (h : e.Denotes i) : i.Spelled := by
  have hargument (a : Argument) : ∃ b : Atom, a.value = .atom b ∧ b.Literal :=
    ⟨_, a.value_eq, a.lexeme.literal_value⟩
  cases h with
  | constant c =>
    rintro v hv
    exact ⟨_, List.mem_singleton.mp hv, (Lexeme.constant c).literal_value⟩
  | lookup name =>
    rintro v hv
    exact ⟨_, List.mem_singleton.mp hv, .str name⟩
  | enter _ =>
    rintro v hv
    exact ⟨_, List.mem_singleton.mp hv, .str _⟩
  | push a | bind a | rebind a | enterNamed a | find a | leaveAt a =>
    rintro v hv
    rw [List.mem_singleton.mp hv]
    exact hargument a
  | line a =>
    rintro v hv
    rcases List.mem_cons.mp hv with rfl | hv
    · exact ⟨_, rfl, .str "l"⟩
    · rw [List.mem_singleton.mp hv]
      exact hargument a
  | operator _ | nop _ | pop _ | setFrameTitle _ | addFrameNote _ | leave _ | not _ | neg _ =>
    exact fun v hv => nomatch hv

theorem spelled_of_compile {strict : Bool} {source : String} {program : List Instr}
    (h : compile strict source = .ok program) : ∀ i ∈ program, i.Spelled := by
  have hall := Listing.forall₂_phrases strict source
  rw [(Listing.result_eq_ok_iff.mp h).2] at hall
  intro i hi
  obtain ⟨phrase, -, hinstr⟩ := forall₂_right hall hi
  cases strict with
  | true => exact (Expr.denotes_of_instr hinstr).spelled
  | false =>
    rcases Expr.instr_lenient hinstr with rfl | hstrict
    · exact fun v hv => nomatch hv
    · exact (Expr.denotes_of_instr hstrict).spelled

/-! ### Compiling a text token by token -/

/-- A text is cut to its end into tokens that spell `ls`, wherever it stands. -/
def Scan.Yields (cs : List Char) (ls : List Lexeme) : Prop :=
  ∀ position, ∃ tokens stop, ofCharsAt position cs = ⟨tokens, .ok stop⟩ ∧
    tokens.map Token.lexeme = ls

namespace Scan.Yields

theorem nil {cs layout : List Char} (hsplit : Lexer.splitLayout false cs = (layout, [])) :
    Yields cs [] :=
  fun _ => ⟨[], _, ofCharsAt_of_end hsplit, rfl⟩

theorem cons {cs layout tail text : List Char} {c : Char} {l : Lexeme} {ls : List Lexeme}
    (hsplit : Lexer.splitLayout false cs = (layout, c :: tail))
    (hread : ∀ position, Lexer.readLexeme position c tail = .ok (l, text)) (h : Yields text ls) :
    Yields cs (l :: ls) := by
  intro position
  obtain ⟨tokens, stop, hmore, hlexemes⟩ := h ((position.after layout).after l.literal.toList)
  refine ⟨⟨l, position.after layout⟩ :: tokens, stop, ?_, ?_⟩
  · rw [ofCharsAt_of_token hsplit (hread _), hmore]
  · rw [List.map_cons, hlexemes]

end Scan.Yields

theorem compile_of_lexemes {strict : Bool} {source : String} {exprs : List Expr}
    {program : List Instr} (hne : exprs ≠ [])
    (h : (Scan.ofChars source.toList).result.map (fun found => found.1.map Token.lexeme) =
      .ok (exprs.flatMap Expr.lexemes))
    (hall : List.Forall₂ (fun e i => e.instr strict = .ok i) exprs program) :
    compile strict source = .ok program := by
  cases hlex : (Scan.ofChars source.toList).result with
  | error e => simp [hlex, Except.map] at h
  | ok found =>
    have hlexemes : found.1.map Token.lexeme = exprs.flatMap Expr.lexemes := by
      simpa [hlex, Except.map] using h
    exact (compile_eq_ok_iff hlex).mpr ⟨exprs, hne, Spells.end_iff.mpr hlexemes, hall⟩

theorem compile_of_yields {strict : Bool} {source : String} {exprs : List Expr}
    {program : List Instr} (hne : exprs ≠ [])
    (h : Scan.Yields source.toList (exprs.flatMap Expr.lexemes))
    (hall : List.Forall₂ (fun e i => e.instr strict = .ok i) exprs program) :
    compile strict source = .ok program := by
  obtain ⟨tokens, stop, hscan, hlexemes⟩ := h .start
  refine compile_of_lexemes hne ?_ hall
  rw [Scan.ofChars, hscan, ← hlexemes]
  rfl

end ScopeMachine
