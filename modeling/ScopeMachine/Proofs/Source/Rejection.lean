import ScopeMachine.Proofs.Source.Grammar

/-! Where compilation of a sequence of tokens stops. The grammar can be read with one token ahead,
so the parser complains about the first token that no sequence of expressions has in its place. A
name that cannot be compiled is complained about where it stands. -/
namespace ScopeMachine

/-! ### The first token that does not fit -/

/-- Some text of the language begins with `front` and has `next` behind it, or ends there if that is
none. -/
def Continues (language : List Lexeme → Prop) (front : List Lexeme) (next : Option Lexeme) : Prop :=
  ∃ ls, language (front ++ ls) ∧ ls.head? = next

/-- What comes first in `rest`, or that nothing comes, is the first thing by which the lexemes
differ from all texts of the language. -/
structure FirstMisfit (language : List Lexeme → Prop) (front rest : List Lexeme) : Prop where
  front_fits : ∃ ls, language (front ++ ls)
  not_continues : ¬ Continues language front rest.head?

/-- What does not fit behind lexemes that were read does not fit into the whole. -/
theorem FirstMisfit.behind {language language' : List Lexeme → Prop} {front rest : List Lexeme}
    (h : FirstMisfit language front rest) (read : List Lexeme)
    (hinto : ∀ ls, language ls → language' (read ++ ls))
    (hback : ∀ ls, ls.head? = (front ++ rest).head? → language' (read ++ ls) → language ls) :
    FirstMisfit language' (read ++ front) rest where
  front_fits := by
    obtain ⟨ls, hls⟩ := h.front_fits
    exact ⟨ls, by rw [List.append_assoc]; exact hinto _ hls⟩
  not_continues := by
    rintro ⟨ls, hls, hnext⟩
    rw [List.append_assoc] at hls
    refine h.not_continues ⟨ls, hback _ ?_ hls, hnext⟩
    rw [List.head?_append, List.head?_append, hnext]

/-- Lexemes that are spelled by a sequence of expressions. -/
def IsSequence (ls : List Lexeme) : Prop := ∃ exprs : List Expr, ls = exprs.flatMap Expr.lexemes

/-- The complaints about a token in a place where something else must stand. -/
def Complaint.grammatical : List (Option Lexeme → Complaint) :=
  [.unexpected, .expectedName, .expectedArgument, .expectedListEnd]

/-- The tokens that are spelled are the front of all tokens. -/
theorem Spells.iff_front {ls : List Lexeme} {tokens rest : List Token} :
    Spells ls tokens rest ↔ ∃ front, tokens = front ++ rest ∧ front.map Token.lexeme = ls := by
  constructor
  · intro h
    induction ls generalizing tokens with
    | nil => exact ⟨[], h, rfl⟩
    | cons l ls ih =>
      obtain ⟨position, tail, rfl, htail⟩ := Spells.cons_iff.mp h
      obtain ⟨front, rfl, rfl⟩ := ih htail
      exact ⟨⟨l, position⟩ :: front, rfl, rfl⟩
  · rintro ⟨front, rfl, rfl⟩
    induction front with
    | nil => rfl
    | cons token front ih => exact ⟨rfl, ih⟩

namespace Parser

variable {stop : Position} {tokens : List Token} {e : SourceError}
variable {language language' : List Lexeme → Prop}

/-- The place of the first token, or the end of the text at `stop`. -/
def place (stop : Position) (tokens : List Token) : Position :=
  (tokens.head?.map Token.position).getD stop

theorem complain_eq (stop : Position) (what : Option Lexeme → Complaint) (tokens : List Token) :
    complain stop what tokens =
      .complaint (what (tokens.map Token.lexeme).head?) (place stop tokens) := by
  cases tokens <;> rfl

/-- The complaint is about the first token that does not fit into the language. -/
def Blames (language : List Lexeme → Prop) (stop : Position) (tokens : List Token)
    (e : SourceError) : Prop :=
  ∃ front rest, tokens = front ++ rest ∧
    (∃ what ∈ Complaint.grammatical, e = complain stop what rest) ∧
    FirstMisfit language (front.map Token.lexeme) (rest.map Token.lexeme)

/-- The token behind `front` is to blame if no text of the language that begins with `front` has it
there. -/
theorem blames_at (front : List Token) {what : Option Lexeme → Complaint}
    (hwhat : what ∈ Complaint.grammatical) (hfront : ∃ ls, language (front.map Token.lexeme ++ ls))
    (hnext : ∀ ls, language (front.map Token.lexeme ++ ls) →
      ls.head? ≠ (tokens.map Token.lexeme).head?) :
    Blames language stop (front ++ tokens) (complain stop what tokens) := by
  refine ⟨front, tokens, rfl, ⟨what, hwhat, rfl⟩, hfront, ?_⟩
  rintro ⟨ls, hls, hhead⟩
  exact hnext ls hls hhead

theorem Blames.behind (h : Blames language stop tokens e) (read : List Token)
    (hinto : ∀ ls, language ls → language' (read.map Token.lexeme ++ ls))
    (hback : ∀ ls, ls.head? = (tokens.map Token.lexeme).head? →
      language' (read.map Token.lexeme ++ ls) → language ls) :
    Blames language' stop (read ++ tokens) e := by
  obtain ⟨front, rest, rfl, hcomplain, hmisfit⟩ := h
  refine ⟨read ++ front, rest, (List.append_assoc ..).symm, hcomplain, ?_⟩
  rw [List.map_append] at hback ⊢
  exact hmisfit.behind _ hinto hback

/-! ### Arguments -/

/-- What may stand behind an opening parenthesis, if the list is not empty. -/
def IsArgumentsTail (ls : List Lexeme) : Prop :=
  ∃ arguments exprs, arguments ≠ [] ∧
    ls = Expr.argumentLexemes arguments ++ .punctuation .rightParen ::
      List.flatMap Expr.lexemes exprs

/-- What may stand behind an argument: a comma and more arguments, or the end of the list. -/
theorem isArgumentsTail_iff {ls : List Lexeme} :
    IsArgumentsTail ls ↔ ∃ (a : Argument) (behind : List Lexeme), ls = a.lexeme :: behind ∧
      ((∃ more, IsArgumentsTail more ∧ behind = .punctuation .comma :: more) ∨
        ∃ exprs, behind = .punctuation .rightParen :: List.flatMap Expr.lexemes exprs) := by
  constructor
  · rintro ⟨arguments, exprs, hne, rfl⟩
    obtain ⟨a, more, rfl⟩ := List.exists_cons_of_ne_nil hne
    by_cases hmore : more = []
    · subst hmore
      exact ⟨a, _, rfl, .inr ⟨exprs, rfl⟩⟩
    · rw [argumentLexemes_cons a hmore]
      exact ⟨a, _, rfl, .inl ⟨_, ⟨more, exprs, hmore, rfl⟩, rfl⟩⟩
  · rintro ⟨a, _, rfl, ⟨_, ⟨more, exprs, hmore, rfl⟩, rfl⟩ | ⟨exprs, rfl⟩⟩
    · refine ⟨a :: more, exprs, List.cons_ne_nil _ _, ?_⟩
      rw [argumentLexemes_cons a hmore]
      rfl
    · exact ⟨[a], exprs, List.cons_ne_nil _ _, rfl⟩

theorem blames_readArguments (h : readArguments stop tokens = .error e) :
    Blames IsArgumentsTail stop tokens e := by
  have hone : ∃ ls, IsArgumentsTail ls := ⟨_, [.word ""], [], List.cons_ne_nil _ _, rfl⟩
  fun_induction readArguments stop tokens with
  | case1 =>
    cases h
    refine blames_at [] (by simp [Complaint.grammatical]) hone fun ls hls => ?_
    obtain ⟨a, behind, rfl, -⟩ := isArgumentsTail_iff.mp hls
    exact Option.some_ne_none _
  | case2 token tail hargument =>
    cases h
    refine blames_at [] (by simp [Complaint.grammatical]) hone fun ls hls hhead => ?_
    obtain ⟨a, behind, rfl, -⟩ := isArgumentsTail_iff.mp hls
    rw [argument?_eq_some_iff.mpr (Option.some.inj hhead).symm] at hargument
    cases hargument
  | case3 token a hargument position tail ih =>
    have hlexeme := argument?_eq_some_iff.mp hargument
    cases hmore : readArguments stop tail with
    | ok more =>
      rw [hmore] at h
      cases h
    | error e' =>
      rw [hmore] at h
      cases h
      refine (ih hmore).behind [token, ⟨.punctuation .comma, position⟩] ?_ ?_
      · intro ls hls
        exact isArgumentsTail_iff.mpr ⟨a, _, by rw [← hlexeme]; rfl, .inl ⟨ls, hls, rfl⟩⟩
      · intro ls _ hls
        obtain ⟨b, behind, heq, hbehind⟩ := isArgumentsTail_iff.mp hls
        cases (List.cons.inj heq).2
        rcases hbehind with ⟨more, hmore, heq⟩ | ⟨exprs, heq⟩ <;> cases heq
        exact hmore
  | case4 => cases h
  | case5 token a hargument tail hcomma hright =>
    cases h
    have hlexeme := argument?_eq_some_iff.mp hargument
    refine blames_at [token] (by simp [Complaint.grammatical]) ?_ fun ls hls hhead => ?_
    · exact ⟨_, isArgumentsTail_iff.mpr ⟨a, _, by rw [← hlexeme]; rfl, .inr ⟨[], rfl⟩⟩⟩
    · obtain ⟨b, behind, heq, hbehind⟩ := isArgumentsTail_iff.mp hls
      cases (List.cons.inj heq).2
      rcases tail with _ | ⟨⟨lexeme, position⟩, tail⟩ <;>
        rcases hbehind with ⟨more, -, rfl⟩ | ⟨exprs, rfl⟩ <;> cases hhead
      · exact hcomma position tail rfl
      · exact hright position tail rfl

/-- What may stand behind a name that is called with arguments. -/
def IsListTail (ls : List Lexeme) : Prop :=
  ∃ arguments exprs, ls = listLexemes (some arguments) ++ List.flatMap Expr.lexemes exprs

theorem blames_readList (h : readList stop tokens = .error e) :
    OpensList tokens ∧ Blames IsListTail stop tokens e := by
  unfold readList at h
  split at h
  · cases h
  · rename_i position tail hright
    refine ⟨rfl, ?_⟩
    cases hmore : readArguments stop tail with
    | ok more =>
      rw [hmore] at h
      cases h
    | error e' =>
      rw [hmore] at h
      cases h
      refine (blames_readArguments hmore).behind [⟨.punctuation .leftParen, position⟩] ?_ ?_
      · rintro _ ⟨arguments, exprs, -, rfl⟩
        exact ⟨arguments, exprs, by simp [listLexemes]⟩
      · rintro ls hhead ⟨arguments, exprs, heq⟩
        simp only [List.map_cons, List.map_nil, List.cons_append, List.nil_append, listLexemes,
          List.cons.injEq, true_and, List.append_assoc] at heq
        cases arguments with
        | nil =>
          rw [heq] at hhead
          rcases tail with _ | ⟨⟨lexeme, position'⟩, tail⟩ <;> cases hhead
          exact absurd rfl (hright position' tail)
        | cons a more => exact ⟨a :: more, exprs, List.cons_ne_nil _ _, heq⟩
  · cases h

/-! ### Expressions -/

/-- No expression starts with a parenthesis or a comma. -/
theorem head_of_isSequence {ls : List Lexeme} (h : IsSequence ls) {mark : Punctuation}
    (hmark : ls.head? = some (.punctuation mark)) : mark = .dollar := by
  obtain ⟨exprs, rfl⟩ := h
  cases exprs with
  | nil => cases hmark
  | cons expr exprs =>
    cases expr with
    | call name list =>
      rw [List.flatMap_cons, lexemes_call] at hmark
      cases hmark
    | operator op | constant c => cases hmark
    | lookup name =>
      cases hmark
      rfl

theorem isSequence_call_iff {name : String} {ls : List Lexeme}
    (hopen : ls.head? = some (.punctuation .leftParen)) :
    IsSequence (.identifier name :: ls) ↔ IsListTail ls := by
  constructor
  · rintro ⟨exprs, heq⟩
    cases exprs with
    | nil => cases heq
    | cons expr exprs =>
      cases expr with
      | call name' list =>
        rw [List.flatMap_cons, lexemes_call] at heq
        cases heq
        cases list with
        | none => cases head_of_isSequence ⟨exprs, rfl⟩ hopen
        | some arguments => exact ⟨arguments, exprs, rfl⟩
      | operator op | constant c | lookup name' => cases heq
  · rintro ⟨arguments, exprs, rfl⟩
    refine ⟨.call name (some arguments) :: exprs, ?_⟩
    rw [List.flatMap_cons, lexemes_call]
    rfl

theorem blames_readExpr {token : Token} {tail : List Token}
    (h : readExpr stop token tail = .error e) : Blames IsSequence stop (token :: tail) e := by
  obtain ⟨lexeme, position⟩ := token
  unfold readExpr at h
  split at h
  · rename_i name hname
    cases hname
    cases hlist : readList stop tail with
    | ok read =>
      rw [hlist] at h
      cases h
    | error e' =>
      rw [hlist] at h
      cases h
      obtain ⟨hopen, hblames⟩ := blames_readList hlist
      refine hblames.behind [⟨.identifier name, position⟩] ?_ ?_
      · intro ls hls
        refine (isSequence_call_iff ?_).mpr hls
        obtain ⟨arguments, exprs, rfl⟩ := hls
        rfl
      · intro ls hhead hls
        rw [List.head?_map, hopen] at hhead
        exact (isSequence_call_iff hhead).mp hls
  · cases h
  · cases h
  · rename_i hdollar
    cases hdollar
    split at h
    · cases h
    · rename_i hname
      cases h
      refine blames_at [⟨.punctuation .dollar, position⟩] (by simp [Complaint.grammatical]) ?_
        fun ls hls hhead => ?_
      · exact ⟨_, [.lookup ""], rfl⟩
      · obtain ⟨_ | ⟨_ | _ | name | ⟨_, _ | _⟩, exprs⟩, heq⟩ := hls <;> cases heq
        rcases tail with _ | ⟨⟨lexeme, position'⟩, tail⟩ <;> cases hhead
        exact hname name position' tail rfl
  · rename_i mark hdollar hmark
    cases hmark
    cases h
    refine blames_at [] (by simp [Complaint.grammatical]) ⟨[], [], rfl⟩ fun ls hls hhead => ?_
    cases head_of_isSequence hls hhead
    exact hdollar rfl

theorem exists_tokens (ls : List Lexeme) : ∃ tokens : List Token, tokens.map Token.lexeme = ls :=
  ⟨ls.map (⟨·, .start⟩), by rw [List.map_map]; exact List.map_id ls⟩

/-- Behind an expression there are expressions, if it was read to its end. -/
theorem isSequence_of_append {expr : Expr} {ls : List Lexeme} (h : IsSequence (expr.lexemes ++ ls))
    (hopen : isBare expr = true → ls.head? ≠ some (.punctuation .leftParen)) : IsSequence ls := by
  obtain ⟨exprs, hexprs⟩ := h
  obtain ⟨read, hread⟩ := exists_tokens expr.lexemes
  obtain ⟨tail, rfl⟩ := exists_tokens ls
  have hspells : Spells (exprs.flatMap Expr.lexemes) (read ++ tail) [] := by
    rw [Spells.end_iff, List.map_append, hread, hexprs]
  have hexpr : Spells expr.lexemes (read ++ tail) tail := Spells.iff_front.mpr ⟨read, rfl, hread⟩
  rw [List.head?_map] at hopen
  -- The parser reads the first expression of the sequence, and it also reads `expr`.
  obtain ⟨first, tail', htokens, hread⟩ := readExpr_of_spells .start hexpr hopen
  rw [htokens] at hspells
  cases exprs with
  | nil => cases hspells
  | cons expr' exprs =>
    obtain ⟨_, _, rest, heq, hread', hrest⟩ := readExpr_of_spells_cons .start hspells
    cases heq
    rw [hread] at hread'
    cases hread'
    exact ⟨exprs, Spells.end_iff.mp hrest⟩

end Parser

/-! ### The complaint of the compiler -/

/-- Why lexemes cannot be compiled from `rest` on, with `front` before them. -/
inductive Complaint.Rejects (strict : Bool) (front rest : List Lexeme) : Complaint → Prop
  /-- What comes next is the first that does not fit into any sequence of expressions. -/
  | misfit {what : Option Lexeme → Complaint} (hwhat : what ∈ grammatical)
      (hmisfit : FirstMisfit IsSequence front rest) : Rejects strict front rest (what rest.head?)
  /-- Behind expressions that have instructions there stands a name, with its list of arguments if
  there is one, that has none. -/
  | call {exprs : List Expr} {name : String} {list : Option (List Argument)}
      {behind : List Lexeme} {what : Complaint}
      (hfront : front = exprs.flatMap Expr.lexemes)
      (hexprs : ∀ expr ∈ exprs, ∃ i, expr.instr strict = .ok i)
      (hrest : rest = (Expr.call name list).lexemes ++ behind)
      (hopen : list = none → behind.head? ≠ some (.punctuation .leftParen))
      (hwhat : (Expr.call name list).instr strict = .error what) : Rejects strict front rest what

theorem Expr.exists_call_of_error {strict : Bool} {expr : Expr} {what : Complaint}
    (h : expr.instr strict = .error what) : ∃ name list, expr = .call name list := by
  cases expr with
  | call name list => exact ⟨name, list, rfl⟩
  | operator op | constant c | lookup name => cases h

/-- Behind an expression that was compiled, lexemes are rejected as if they stood alone. -/
theorem Complaint.Rejects.behind {strict : Bool} {front rest : List Lexeme} {what : Complaint}
    (h : what.Rejects strict front rest) {expr : Expr} {i : Instr}
    (hinstr : expr.instr strict = .ok i)
    (hopen : Parser.isBare expr = true → (front ++ rest).head? ≠ some (.punctuation .leftParen)) :
    what.Rejects strict (expr.lexemes ++ front) rest := by
  cases h with
  | misfit hwhat hmisfit =>
    refine .misfit hwhat (hmisfit.behind expr.lexemes ?_ ?_)
    · rintro _ ⟨exprs, rfl⟩
      exact ⟨expr :: exprs, rfl⟩
    · intro ls hhead hls
      refine Parser.isSequence_of_append hls fun hbare => ?_
      rw [hhead]
      exact hopen hbare
  | @call exprs name list behind _ hfront hexprs hrest hlist hwhat =>
    have hall : ∀ e ∈ expr :: exprs, ∃ i, e.instr strict = .ok i :=
      List.forall_mem_cons.mpr ⟨⟨i, hinstr⟩, hexprs⟩
    exact .call (by rw [hfront, List.flatMap_cons]) hall hrest hlist hwhat

/-- What is complained about, and where. -/
theorem Listing.rejects_of_ofTokens {strict : Bool} {stop : Position} {tokens : List Token}
    {e : SourceError} (h : (ofTokens strict stop tokens).error = some e) :
    ∃ front rest what, tokens = front ++ rest ∧ e = .complaint what (Parser.place stop rest) ∧
      what.Rejects strict (front.map Token.lexeme) (rest.map Token.lexeme) := by
  fun_induction ofTokens strict stop tokens with
  | case1 => cases h
  | case2 token tail e' hread =>
    cases h
    obtain ⟨front, rest, htokens, ⟨what, hwhat, rfl⟩, hmisfit⟩ := Parser.blames_readExpr hread
    exact ⟨front, rest, _, htokens, Parser.complain_eq .., .misfit hwhat hmisfit⟩
  | case3 token tail expr rest hread what hinstr =>
    cases h
    obtain ⟨name, list, rfl⟩ := Expr.exists_call_of_error hinstr
    obtain ⟨hspells, hopen⟩ := Parser.spells_of_readExpr hread
    obtain ⟨read, htokens, hlexemes⟩ := Spells.iff_front.mp hspells
    have hrest : (token :: tail).map Token.lexeme =
        (Expr.call name list).lexemes ++ rest.map Token.lexeme := by
      rw [htokens, List.map_append, hlexemes]
    refine ⟨[], token :: tail, what, rfl, rfl, ?_⟩
    refine .call List.flatMap_nil.symm (fun _ hmem => absurd hmem List.not_mem_nil) hrest ?_ hinstr
    rintro rfl
    rw [List.head?_map]
    exact hopen rfl
  | case4 token tail expr rest hread instr hinstr more ih =>
    obtain ⟨front, rest', what, rfl, rfl, hrejects⟩ := ih h
    obtain ⟨hspells, hopen⟩ := Parser.spells_of_readExpr hread
    obtain ⟨read, htokens, hlexemes⟩ := Spells.iff_front.mp hspells
    refine ⟨read ++ front, rest', what, by rw [htokens, List.append_assoc], rfl, ?_⟩
    rw [List.map_append, hlexemes]
    refine hrejects.behind hinstr fun hbare => ?_
    rw [← List.map_append, List.head?_map]
    exact hopen hbare

end ScopeMachine
