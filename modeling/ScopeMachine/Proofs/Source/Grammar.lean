import ScopeMachine.Proofs.Basic
import ScopeMachine.Source.Program

/-! The grammar of programs. The parser reads an expression off the front of the tokens exactly if
they spell it; where a name could go on with a list of arguments, it does. A text therefore
compiles exactly if its tokens are spelled by a sequence of expressions, of which there is then only
one, and its instructions are those the expressions denote. -/
namespace ScopeMachine

/-- The tokens begin with the lexemes `ls`, behind which `rest` stands. -/
def Spells : List Lexeme → List Token → List Token → Prop
  | [], tokens, rest => tokens = rest
  | l :: ls, token :: tail, rest => token.lexeme = l ∧ Spells ls tail rest
  | _ :: _, [], _ => False

namespace Spells

@[simp] theorem nil_iff {tokens rest : List Token} : Spells [] tokens rest ↔ tokens = rest := by
  simp [Spells]

theorem cons_iff {l : Lexeme} {ls : List Lexeme} {tokens rest : List Token} :
    Spells (l :: ls) tokens rest ↔
      ∃ position tail, tokens = ⟨l, position⟩ :: tail ∧ Spells ls tail rest := by
  cases tokens with
  | nil => simp [Spells]
  | cons token tail =>
    obtain ⟨lexeme, position⟩ := token
    simp only [Spells, List.cons.injEq, Token.mk.injEq]
    constructor
    · rintro ⟨rfl, h⟩
      exact ⟨position, tail, ⟨⟨rfl, rfl⟩, rfl⟩, h⟩
    · rintro ⟨_, _, ⟨⟨rfl, rfl⟩, rfl⟩, h⟩
      exact ⟨rfl, h⟩

theorem append_iff {ls ls' : List Lexeme} {tokens rest : List Token} :
    Spells (ls ++ ls') tokens rest ↔ ∃ mid, Spells ls tokens mid ∧ Spells ls' mid rest := by
  induction ls generalizing tokens with
  | nil => simp
  | cons l ls ih =>
    simp only [List.cons_append, cons_iff, ih]
    constructor
    · rintro ⟨position, tail, rfl, mid, hfront, hback⟩
      exact ⟨mid, ⟨position, tail, rfl, hfront⟩, hback⟩
    · rintro ⟨mid, ⟨position, tail, rfl, hfront⟩, hback⟩
      exact ⟨position, tail, rfl, mid, hfront, hback⟩

theorem end_iff {ls : List Lexeme} {tokens : List Token} :
    Spells ls tokens [] ↔ tokens.map Token.lexeme = ls := by
  induction ls generalizing tokens with
  | nil => simp
  | cons l ls ih => cases tokens <;> simp [Spells, ih]

end Spells

namespace Parser

/-! ### Arguments -/

theorem argument?_eq_some_iff {lexeme : Lexeme} {a : Argument} :
    argument? lexeme = some a ↔ lexeme = a.lexeme := by
  cases lexeme <;> cases a <;> simp [argument?, Argument.lexeme, eq_comm]

theorem argumentLexemes_cons (a : Argument) {rest : List Argument} (h : rest ≠ []) :
    Expr.argumentLexemes (a :: rest) =
      a.lexeme :: .punctuation .comma :: Expr.argumentLexemes rest := by
  cases rest with
  | nil => exact absurd rfl h
  | cons b rest => rfl

theorem spells_of_readArguments {stop : Position} {tokens rest : List Token}
    {arguments : List Argument} (h : readArguments stop tokens = .ok (arguments, rest)) :
    arguments ≠ [] ∧
      Spells (Expr.argumentLexemes arguments ++ [.punctuation .rightParen]) tokens rest := by
  fun_induction readArguments stop tokens generalizing arguments rest with
  | case1 => cases h
  | case2 => cases h
  | case3 token argument hargument position tail ih =>
    obtain ⟨⟨more, rest'⟩, hmore, h⟩ := bind_eq_ok h
    obtain ⟨hne, hspells⟩ := ih hmore
    cases h
    refine ⟨List.cons_ne_nil _ _, ?_⟩
    rw [argumentLexemes_cons argument hne]
    exact ⟨argument?_eq_some_iff.mp hargument, rfl, hspells⟩
  | case4 token argument hargument position tail =>
    cases h
    exact ⟨List.cons_ne_nil _ _, argument?_eq_some_iff.mp hargument, rfl, rfl⟩
  | case5 => cases h

theorem readArguments_of_spells (stop : Position) {arguments : List Argument}
    {tokens rest : List Token} (hne : arguments ≠ [])
    (h : Spells (Expr.argumentLexemes arguments ++ [.punctuation .rightParen]) tokens rest) :
    readArguments stop tokens = .ok (arguments, rest) := by
  induction arguments generalizing tokens with
  | nil => exact absurd rfl hne
  | cons a more ih =>
    by_cases hmore : more = []
    · subst hmore
      simp only [Expr.argumentLexemes, List.cons_append, List.nil_append, Spells.cons_iff,
        Spells.nil_iff] at h
      obtain ⟨position, _, rfl, position', _, rfl, rfl⟩ := h
      simp [readArguments, argument?_eq_some_iff.mpr rfl]
    · rw [argumentLexemes_cons a hmore] at h
      simp only [List.cons_append, Spells.cons_iff] at h
      obtain ⟨position, _, rfl, position', tail, rfl, hspells⟩ := h
      have htail := ih hmore hspells
      simp [readArguments, argument?_eq_some_iff.mpr rfl, htail, bind, Except.bind, pure,
        Except.pure]

/-! ### Expressions -/

/-- Whether an opening parenthesis is at the front. -/
def OpensList (tokens : List Token) : Prop :=
  tokens.head?.map Token.lexeme = some (.punctuation .leftParen)

/-- How the list of arguments behind a name is written. -/
def listLexemes : Option (List Argument) → List Lexeme
  | none => []
  | some arguments =>
    .punctuation .leftParen :: (Expr.argumentLexemes arguments ++ [.punctuation .rightParen])

theorem lexemes_call (name : String) (list : Option (List Argument)) :
    (Expr.call name list).lexemes = .identifier name :: listLexemes list := by
  cases list <;> rfl

theorem spells_of_readList {stop : Position} {tokens rest : List Token}
    {list : Option (List Argument)} (h : readList stop tokens = .ok (list, rest)) :
    Spells (listLexemes list) tokens rest ∧ (list = none → ¬ OpensList rest) := by
  unfold readList at h
  split at h
  · cases h
    exact ⟨⟨rfl, rfl, rfl⟩, fun hnone => nomatch hnone⟩
  · obtain ⟨⟨arguments, rest'⟩, harguments, h⟩ := bind_eq_ok h
    cases h
    exact ⟨⟨rfl, (spells_of_readArguments harguments).2⟩, fun hnone => nomatch hnone⟩
  · rename_i hopen
    cases h
    refine ⟨rfl, fun _ hopens => ?_⟩
    cases tokens with
    | nil => cases hopens
    | cons token tail =>
      obtain ⟨lexeme, position⟩ := token
      cases hopens
      exact hopen position tail rfl

theorem readList_of_spells (stop : Position) {tokens rest : List Token}
    {list : Option (List Argument)} (h : Spells (listLexemes list) tokens rest)
    (hopen : list = none → ¬ OpensList rest) : readList stop tokens = .ok (list, rest) := by
  cases list with
  | none =>
    cases h
    unfold readList
    split
    · exact absurd rfl (hopen rfl)
    · exact absurd rfl (hopen rfl)
    · rfl
  | some arguments =>
    obtain ⟨position, tail, rfl, htail⟩ := Spells.cons_iff.mp h
    cases arguments with
    | nil =>
      obtain ⟨position', _, rfl, hrest⟩ := Spells.cons_iff.mp htail
      cases hrest
      rfl
    | cons a more =>
      have hread := readArguments_of_spells stop (List.cons_ne_nil a more) htail
      -- The list is not empty, so what follows the parenthesis is no closing one.
      obtain ⟨ls, hls⟩ : ∃ ls, Expr.argumentLexemes (a :: more) = a.lexeme :: ls := by
        cases more <;> exact ⟨_, rfl⟩
      rw [hls, List.cons_append] at htail
      obtain ⟨position', tail, rfl, -⟩ := Spells.cons_iff.mp htail
      cases a <;> simp only [readList, Argument.lexeme] at hread ⊢ <;> rw [hread] <;> rfl

/-- An expression that more arguments could follow. -/
def isBare : Expr → Bool
  | .call _ none => true
  | _ => false

theorem spells_of_readExpr {stop : Position} {token : Token} {tail rest : List Token} {expr : Expr}
    (h : readExpr stop token tail = .ok (expr, rest)) :
    Spells expr.lexemes (token :: tail) rest ∧ (isBare expr = true → ¬ OpensList rest) := by
  obtain ⟨lexeme, position⟩ := token
  unfold readExpr at h
  split at h
  · rename_i name hname
    obtain ⟨⟨list, rest'⟩, hlist, h⟩ := bind_eq_ok h
    obtain ⟨hspells, hopen⟩ := spells_of_readList hlist
    cases h
    rw [lexemes_call]
    refine ⟨⟨hname, hspells⟩, fun hbare => hopen ?_⟩
    cases list with
    | none => rfl
    | some arguments => cases hbare
  · rename_i op hop
    cases h
    exact ⟨⟨hop, rfl⟩, fun hbare => nomatch hbare⟩
  · rename_i c hc
    cases h
    exact ⟨⟨hc, rfl⟩, fun hbare => nomatch hbare⟩
  · rename_i hdollar
    split at h
    · cases h
      exact ⟨⟨hdollar, rfl, rfl⟩, fun hbare => nomatch hbare⟩
    · cases h
  · cases h

theorem readExpr_of_spells (stop : Position) {tokens rest : List Token} {expr : Expr}
    (h : Spells expr.lexemes tokens rest) (hopen : isBare expr = true → ¬ OpensList rest) :
    ∃ token tail, tokens = token :: tail ∧ readExpr stop token tail = .ok (expr, rest) := by
  cases expr with
  | operator op =>
    obtain ⟨position, tail, rfl, hrest⟩ := Spells.cons_iff.mp h
    cases hrest
    exact ⟨_, _, rfl, rfl⟩
  | constant c =>
    obtain ⟨position, tail, rfl, hrest⟩ := Spells.cons_iff.mp h
    cases hrest
    exact ⟨_, _, rfl, rfl⟩
  | lookup name =>
    obtain ⟨position, tail, rfl, hname⟩ := Spells.cons_iff.mp h
    obtain ⟨position', tail, rfl, hrest⟩ := Spells.cons_iff.mp hname
    cases hrest
    exact ⟨_, _, rfl, rfl⟩
  | call name list =>
    rw [lexemes_call] at h
    obtain ⟨position, tail, rfl, hlist⟩ := Spells.cons_iff.mp h
    have hread : readList stop tail = .ok (list, rest) := by
      refine readList_of_spells stop hlist fun hnone => hopen ?_
      rw [hnone]
      rfl
    refine ⟨_, _, rfl, ?_⟩
    simp only [readExpr, hread]
    rfl

/-- No expression starts with a parenthesis, so none can be taken for a list of arguments. -/
theorem not_opensList_of_spells {exprs : List Expr} {tokens : List Token}
    (h : Spells (exprs.flatMap Expr.lexemes) tokens []) : ¬ OpensList tokens := by
  cases exprs with
  | nil =>
    cases h
    exact fun hopens => nomatch hopens
  | cons expr exprs =>
    rw [List.flatMap_cons, Spells.append_iff] at h
    obtain ⟨rest, hexpr, -⟩ := h
    intro hopens
    cases expr with
    | call name list =>
      rw [lexemes_call] at hexpr
      obtain ⟨position, tail, rfl, -⟩ := Spells.cons_iff.mp hexpr
      cases hopens
    | operator op | constant c | lookup name =>
      obtain ⟨position, tail, rfl, -⟩ := Spells.cons_iff.mp hexpr
      cases hopens

/-- The first expression of a sequence is what the parser reads first. -/
theorem readExpr_of_spells_cons (stop : Position) {expr : Expr} {exprs : List Expr}
    {tokens : List Token} (h : Spells ((expr :: exprs).flatMap Expr.lexemes) tokens []) :
    ∃ token tail rest, tokens = token :: tail ∧ readExpr stop token tail = .ok (expr, rest) ∧
      Spells (exprs.flatMap Expr.lexemes) rest [] := by
  rw [List.flatMap_cons, Spells.append_iff] at h
  obtain ⟨rest, hexpr, hrest⟩ := h
  obtain ⟨token, tail, htokens, hread⟩ :=
    readExpr_of_spells stop hexpr fun _ => not_opensList_of_spells hrest
  exact ⟨token, tail, rest, htokens, hread, hrest⟩

end Parser

namespace Listing

theorem result_eq_ok_iff {l : Listing} {program : List Instr} :
    l.result = .ok program ↔ l.error = none ∧ l.program = program := by
  obtain ⟨phrases, instrs, error⟩ := l
  cases error <;> simp [result]

/-- What is read to the end was spelled by the expressions read. -/
theorem spells_of_ofTokens {strict : Bool} {stop : Position} {tokens : List Token}
    (h : (ofTokens strict stop tokens).error = none) :
    ∃ exprs : List Expr, Spells (exprs.flatMap Expr.lexemes) tokens [] ∧
      List.Forall₂ (fun e i => e.instr strict = .ok i) exprs
        (ofTokens strict stop tokens).program := by
  fun_induction ofTokens strict stop tokens with
  | case1 => exact ⟨[], rfl, .nil⟩
  | case2 => cases h
  | case3 => cases h
  | case4 token tail expr rest hread instr hinstr more ih =>
    obtain ⟨exprs, hspells, hall⟩ := ih h
    refine ⟨expr :: exprs, ?_, .cons hinstr hall⟩
    rw [List.flatMap_cons, Spells.append_iff]
    exact ⟨rest, (Parser.spells_of_readExpr hread).1, hspells⟩

/-- Whatever a sequence of expressions spells is read to the end. -/
theorem ofTokens_of_spells {strict : Bool} (stop : Position) {exprs : List Expr}
    {program : List Instr} (hall : List.Forall₂ (fun e i => e.instr strict = .ok i) exprs program)
    {tokens : List Token} (h : Spells (exprs.flatMap Expr.lexemes) tokens []) :
    (ofTokens strict stop tokens).error = none ∧
      (ofTokens strict stop tokens).program = program := by
  induction hall generalizing tokens with
  | nil =>
    cases h
    rw [ofTokens]
    exact ⟨rfl, rfl⟩
  | @cons expr i exprs program hinstr _ ih =>
    obtain ⟨token, tail, rest, rfl, hread, hrest⟩ := Parser.readExpr_of_spells_cons stop h
    obtain ⟨herror, hprogram⟩ := ih hrest
    rw [ofTokens]
    split
    · rename_i e he
      rw [hread] at he
      cases he
    · rename_i expr' rest' hread'
      rw [hread] at hread'
      cases hread'
      rw [hinstr]
      exact ⟨herror, by simp [hprogram]⟩

end Listing

/-- Tokens are spelled by at most one sequence of expressions. -/
theorem Spells.exprs_unique {exprs exprs' : List Expr} {tokens : List Token}
    (h : Spells (exprs.flatMap Expr.lexemes) tokens [])
    (h' : Spells (exprs'.flatMap Expr.lexemes) tokens []) : exprs = exprs' := by
  induction exprs generalizing exprs' tokens with
  | nil =>
    cases h
    cases exprs' with
    | nil => rfl
    | cons expr' exprs' =>
      obtain ⟨token, tail, rest, htokens, -⟩ := Parser.readExpr_of_spells_cons .start h'
      cases htokens
  | cons expr exprs ih =>
    obtain ⟨token, tail, rest, rfl, hread, hrest⟩ := Parser.readExpr_of_spells_cons .start h
    cases exprs' with
    | nil => cases h'
    | cons expr' exprs' =>
      obtain ⟨token', tail', rest', htokens, hread', hrest'⟩ :=
        Parser.readExpr_of_spells_cons .start h'
      cases htokens
      rw [hread] at hread'
      cases hread'
      rw [ih hrest hrest']

/-! ### What expressions denote -/

namespace Expr

/-- The expressions of the grammar: a name must be that of a mnemonic, and have a number of
arguments that it accepts. -/
def Admissible : Expr → Prop
  | .call name list => ∃ m : Mnemonic, m.name = name ∧ (list.getD []).length ∈ m.arities
  | _ => True

/-- The instruction that each expression stands for. A name without arguments may be written with
an empty list or without one. -/
inductive Denotes : Expr → Instr → Prop
  | operator (op : BinaryOp) : Denotes (.operator op) (.binary op)
  | constant (c : Constant) : Denotes (.constant c) (.push (.atom c.value))
  | lookup (name : String) : Denotes (.lookup name) (.find (.str name))
  | nop {list : Option (List Argument)} (h : list.getD [] = []) : Denotes (.call "nop" list) .nop
  | pop {list : Option (List Argument)} (h : list.getD [] = []) : Denotes (.call "pop" list) .pop
  | push (a : Argument) : Denotes (.call "push" (some [a])) (.push a.value)
  | line (a : Argument) : Denotes (.call "line" (some [a])) (.setProp (.str "l") a.value)
  | setFrameTitle {list : Option (List Argument)} (h : list.getD [] = []) :
      Denotes (.call "setFrameTitle" list) .setFrameTitle
  | addFrameNote {list : Option (List Argument)} (h : list.getD [] = []) :
      Denotes (.call "addFrameNote" list) .addFrameNote
  | bind (a : Argument) : Denotes (.call "bind" (some [a])) (.bind a.value)
  | rebind (a : Argument) : Denotes (.call "rebind" (some [a])) (.rebind a.value)
  | enter {list : Option (List Argument)} (h : list.getD [] = []) :
      Denotes (.call "enter" list) (.enter (.str "<frame>"))
  | enterNamed (a : Argument) : Denotes (.call "enter" (some [a])) (.enter a.value)
  | leave {list : Option (List Argument)} (h : list.getD [] = []) :
      Denotes (.call "leave" list) .leave
  | find (a : Argument) : Denotes (.call "find" (some [a])) (.find a.value)
  | leaveAt (a : Argument) : Denotes (.call "leaveAt" (some [a])) (.leaveAt a.value)
  | not {list : Option (List Argument)} (h : list.getD [] = []) :
      Denotes (.call "not" list) (.unary .not)
  | neg {list : Option (List Argument)} (h : list.getD [] = []) :
      Denotes (.call "neg" list) (.unary .neg)

end Expr

theorem Mnemonic.ofName?_eq_some_iff {name : String} {m : Mnemonic} :
    ofName? name = some m ↔ m.name = name := by
  constructor
  · intro h
    simpa using List.find?_some h
  · rintro rfl
    cases m <;> rfl

namespace Expr

theorem instr_call_eq_ok_iff {name : String} {list : Option (List Argument)} {i : Instr} :
    (Expr.call name list).instr true = .ok i ↔
      ∃ m : Mnemonic, m.name = name ∧ m.instr? ((list.getD []).map Argument.value) = some i := by
  simp only [instr]
  split
  · rename_i hnone
    simp only [↓reduceIte, reduceCtorEq, false_iff, not_exists, not_and]
    intro m hm
    rw [← Mnemonic.ofName?_eq_some_iff, hnone] at hm
    cases hm
  · rename_i m hm
    constructor
    · intro h
      split at h
      · rename_i instr hinstr
        cases h
        exact ⟨m, Mnemonic.ofName?_eq_some_iff.mp hm, hinstr⟩
      · cases h
    · rintro ⟨m', hm', hinstr⟩
      rw [← Mnemonic.ofName?_eq_some_iff, hm] at hm'
      cases hm'
      rw [hinstr]

theorem Denotes.instr {e : Expr} {i : Instr} (h : e.Denotes i) : e.instr true = .ok i := by
  -- A mnemonic of the table, for the arguments it is listed with.
  have hcall (m : Mnemonic) {list : Option (List Argument)} {i : Instr}
      (hi : m.instr? ((list.getD []).map Argument.value) = some i) :
      (Expr.call m.name list).instr true = .ok i := instr_call_eq_ok_iff.mpr ⟨m, rfl, hi⟩
  cases h with
  | operator op => rfl
  | constant c => rfl
  | lookup name => rfl
  | nop h => exact hcall .nop (by rw [h]; rfl)
  | pop h => exact hcall .pop (by rw [h]; rfl)
  | push a => exact hcall .push rfl
  | line a => exact hcall .line rfl
  | setFrameTitle h => exact hcall .setFrameTitle (by rw [h]; rfl)
  | addFrameNote h => exact hcall .addFrameNote (by rw [h]; rfl)
  | bind a => exact hcall .bind rfl
  | rebind a => exact hcall .rebind rfl
  | enter h => exact hcall .enter (by rw [h]; rfl)
  | enterNamed a => exact hcall .enter rfl
  | leave h => exact hcall .leave (by rw [h]; rfl)
  | find a => exact hcall .find rfl
  | leaveAt a => exact hcall .leaveAt rfl
  | not h => exact hcall .not (by rw [h]; rfl)
  | neg h => exact hcall .neg (by rw [h]; rfl)

theorem denotes_of_instr {e : Expr} {i : Instr} (h : e.instr true = .ok i) : e.Denotes i := by
  cases e with
  | operator op =>
    cases h
    exact .operator op
  | constant c =>
    cases h
    exact .constant c
  | lookup name =>
    cases h
    exact .lookup name
  | call name list =>
    obtain ⟨m, rfl, hinstr⟩ := instr_call_eq_ok_iff.mp h
    -- Two arguments are too many for every mnemonic.
    rcases list with _ | _ | ⟨a, _ | ⟨b, rest⟩⟩ <;> cases m <;> cases hinstr <;> constructor <;> rfl

/-- An expression denotes an instruction exactly if it belongs to the grammar. -/
theorem exists_denotes_iff {e : Expr} : (∃ i, e.Denotes i) ↔ e.Admissible := by
  cases e with
  | operator op => exact ⟨fun _ => trivial, fun _ => ⟨_, .operator op⟩⟩
  | constant c => exact ⟨fun _ => trivial, fun _ => ⟨_, .constant c⟩⟩
  | lookup name => exact ⟨fun _ => trivial, fun _ => ⟨_, .lookup name⟩⟩
  | call name list =>
    constructor
    · rintro ⟨i, hi⟩
      obtain ⟨m, hm, hinstr⟩ := instr_call_eq_ok_iff.mp hi.instr
      refine ⟨m, hm, ?_⟩
      have hsome := (m.isSome_instr?_iff _).mp (Option.isSome_of_eq_some hinstr)
      simpa using hsome
    · rintro ⟨m, hm, harity⟩
      have hsome := (m.isSome_instr?_iff ((list.getD []).map Argument.value)).mpr
        (by simpa using harity)
      obtain ⟨i, hi⟩ := Option.isSome_iff_exists.mp hsome
      exact ⟨i, denotes_of_instr (instr_call_eq_ok_iff.mpr ⟨m, hm, hi⟩)⟩

theorem exists_program_iff {exprs : List Expr} :
    (∃ program, List.Forall₂ Denotes exprs program) ↔ ∀ e ∈ exprs, e.Admissible := by
  induction exprs with
  | nil =>
    constructor
    · intro _ e he
      cases he
    · intro _
      exact ⟨[], .nil⟩
  | cons e exprs ih =>
    rw [List.forall_mem_cons, ← ih, ← exists_denotes_iff]
    constructor
    · rintro ⟨program, hall⟩
      cases hall with
      | cons hi hrest => exact ⟨⟨_, hi⟩, _, hrest⟩
    · rintro ⟨⟨i, hi⟩, program, hall⟩
      exact ⟨i :: program, .cons hi hall⟩

end Expr

/-- The tokens of a text decide whether and to what it compiles. -/
theorem compile_eq_ofTokens {strict : Bool} {source : String} {tokens : List Token}
    {stop : Position} (hlex : (Scan.ofChars source.toList).result = .ok (tokens, stop)) :
    compile strict source =
      if tokens = [] then .error (.complaint .noExpression stop)
      else (Listing.ofTokens strict stop tokens).result := by
  simp only [compile, Listing.ofSource, hlex]
  cases tokens <;> rfl

theorem compile_eq_ok_iff {strict : Bool} {source : String} {tokens : List Token}
    {stop : Position} (hlex : (Scan.ofChars source.toList).result = .ok (tokens, stop))
    {program : List Instr} :
    compile strict source = .ok program ↔
      ∃ exprs : List Expr, exprs ≠ [] ∧ Spells (exprs.flatMap Expr.lexemes) tokens [] ∧
        List.Forall₂ (fun e i => e.instr strict = .ok i) exprs program := by
  rw [compile_eq_ofTokens hlex]
  by_cases hnil : tokens = []
  · rw [if_pos hnil]
    constructor
    · intro h
      cases h
    · rintro ⟨exprs, hne, hspells, -⟩
      obtain ⟨expr, exprs, rfl⟩ := List.exists_cons_of_ne_nil hne
      obtain ⟨token, tail, rest, htokens, -⟩ := Parser.readExpr_of_spells_cons stop hspells
      rw [hnil] at htokens
      cases htokens
  · rw [if_neg hnil, Listing.result_eq_ok_iff]
    constructor
    · rintro ⟨herror, rfl⟩
      obtain ⟨exprs, hspells, hall⟩ := Listing.spells_of_ofTokens herror
      refine ⟨exprs, ?_, hspells, hall⟩
      rintro rfl
      exact hnil (Spells.nil_iff.mp hspells)
    · rintro ⟨exprs, -, hspells, hall⟩
      exact Listing.ofTokens_of_spells stop hall hspells

/-- A text that can be cut into tokens compiles exactly if they are spelled by a sequence of
expressions of the grammar, at least one. There is only one such sequence, and the program lists
what its expressions denote. -/
theorem compile_strict_exact {source : String} {tokens : List Token} {stop : Position}
    (hlex : (Scan.ofChars source.toList).result = .ok (tokens, stop)) :
    (∀ program, compile true source = .ok program ↔
      ∃ exprs : List Expr, exprs ≠ [] ∧
        tokens.map Token.lexeme = exprs.flatMap Expr.lexemes ∧
        List.Forall₂ Expr.Denotes exprs program) ∧
    ((∃ program, compile true source = .ok program) ↔
      ∃ exprs : List Expr, exprs ≠ [] ∧ (∀ e ∈ exprs, e.Admissible) ∧
        tokens.map Token.lexeme = exprs.flatMap Expr.lexemes) ∧
    ∀ exprs exprs' : List Expr, tokens.map Token.lexeme = exprs.flatMap Expr.lexemes →
      tokens.map Token.lexeme = exprs'.flatMap Expr.lexemes → exprs = exprs' := by
  have hdenotes (e : Expr) (i : Instr) : e.instr true = .ok i ↔ e.Denotes i :=
    ⟨Expr.denotes_of_instr, Expr.Denotes.instr⟩
  have hcompile (program : List Instr) : compile true source = .ok program ↔
      ∃ exprs : List Expr, exprs ≠ [] ∧
        tokens.map Token.lexeme = exprs.flatMap Expr.lexemes ∧
        List.Forall₂ Expr.Denotes exprs program := by
    simp only [compile_eq_ok_iff hlex, hdenotes, Spells.end_iff]
  refine ⟨hcompile, ?_, ?_⟩
  · simp only [hcompile]
    constructor
    · rintro ⟨program, exprs, hne, hlexemes, hall⟩
      exact ⟨exprs, hne, Expr.exists_program_iff.mp ⟨program, hall⟩, hlexemes⟩
    · rintro ⟨exprs, hne, hadmissible, hlexemes⟩
      obtain ⟨program, hall⟩ := Expr.exists_program_iff.mpr hadmissible
      exact ⟨program, exprs, hne, hlexemes, hall⟩
  · intro exprs exprs' h h'
    exact Spells.exprs_unique (Spells.end_iff.mpr h) (Spells.end_iff.mpr h')

theorem compile_strict_exact_bindings :
    ∃ tokens stop, (Scan.ofChars "enter 3 bind(x) $x".toList).result = .ok (tokens, stop) ∧
      compile true "enter 3 bind(x) $x" =
        .ok [.enter (.str "<frame>"), .push (.int 3), .bind (.str "x"), .find (.str "x")] := by
  have hlex : (Scan.ofChars "enter 3 bind(x) $x".toList).result =
      .ok ([⟨.identifier "enter", ⟨1, 1⟩⟩, ⟨.constant (.number "3" none), ⟨1, 7⟩⟩,
        ⟨.identifier "bind", ⟨1, 9⟩⟩, ⟨.punctuation .leftParen, ⟨1, 13⟩⟩,
        ⟨.identifier "x", ⟨1, 14⟩⟩, ⟨.punctuation .rightParen, ⟨1, 15⟩⟩,
        ⟨.punctuation .dollar, ⟨1, 17⟩⟩, ⟨.identifier "x", ⟨1, 18⟩⟩], ⟨1, 19⟩) := by cbv
  have hthree : (Constant.number "3" none).value = .int 3 := by cbv
  refine ⟨_, _, hlex, ((compile_strict_exact hlex).1 _).mpr ?_⟩
  refine ⟨[.call "enter" none, .constant (.number "3" none), .call "bind" (some [.word "x"]),
    .lookup "x"], List.cons_ne_nil _ _, rfl, ?_⟩
  refine .cons (.enter rfl) (.cons ?_ (.cons (.bind (.word "x")) (.cons (.lookup "x") .nil)))
  have hpush := Expr.Denotes.constant (.number "3" none)
  rwa [hthree] at hpush

end ScopeMachine
