import ScopeMachine.Notice
import ScopeMachine.Source.Expr
import ScopeMachine.Source.Lexer

/-! Compilation of a source text, one instruction for each expression from left to right. The whole
text is cut into tokens before the first expression is read. -/
namespace ScopeMachine

/-- An expression and the place where it starts. -/
structure Phrase where
  expr : Expr
  position : Position
  deriving DecidableEq, Repr

namespace Parser

/-- A complaint about the token at the front, or about the end of the text at `stop`. -/
def complain (stop : Position) (what : Option Lexeme → Complaint) : List Token → SourceError
  | [] => .complaint (what none) stop
  | token :: _ => .complaint (what (some token.lexeme)) token.position

def argument? : Lexeme → Option Argument
  | .constant c => some (.constant c)
  | .identifier name => some (.word name)
  | _ => none

/-- The arguments up to the closing parenthesis, at least one, and the tokens behind it. -/
def readArguments (stop : Position) : List Token → Except SourceError (List Argument × List Token)
  | [] => .error (complain stop .expectedArgument [])
  | token :: rest =>
    match argument? token.lexeme with
    | none => .error (complain stop .expectedArgument (token :: rest))
    | some argument =>
      match rest with
      | ⟨.punctuation .comma, _⟩ :: rest => do
        let (arguments, rest) ← readArguments stop rest
        pure (argument :: arguments, rest)
      | ⟨.punctuation .rightParen, _⟩ :: rest => .ok ([argument], rest)
      | rest => .error (complain stop .expectedListEnd rest)

/-- The list of arguments behind a name, if there is one. -/
def readList (stop : Position) :
    List Token → Except SourceError (Option (List Argument) × List Token)
  | ⟨.punctuation .leftParen, _⟩ :: ⟨.punctuation .rightParen, _⟩ :: rest => .ok (some [], rest)
  | ⟨.punctuation .leftParen, _⟩ :: rest => do
    let (arguments, rest) ← readArguments stop rest
    pure (some arguments, rest)
  | tokens => .ok (none, tokens)

/-- The expression that starts with `token`, and the tokens behind it. -/
def readExpr (stop : Position) (token : Token) (rest : List Token) :
    Except SourceError (Expr × List Token) :=
  match token.lexeme with
  | .identifier name => do
    let (arguments, rest) ← readList stop rest
    pure (.call name arguments, rest)
  | .operator op => .ok (.operator op, rest)
  | .constant c => .ok (.constant c, rest)
  | .punctuation .dollar =>
    match rest with
    | ⟨.identifier name, _⟩ :: rest => .ok (.lookup name, rest)
    | rest => .error (complain stop .expectedName rest)
  | .punctuation _ => .error (complain stop .unexpected (token :: rest))

theorem readArguments_length_lt {stop : Position} {tokens rest : List Token}
    {arguments : List Argument} (h : readArguments stop tokens = .ok (arguments, rest)) :
    rest.length < tokens.length := by
  fun_induction readArguments stop tokens generalizing arguments rest with
  | case1 => cases h
  | case2 => cases h
  | case3 token argument _ position tail ih =>
    cases hmore : readArguments stop tail with
    | error e => simp [hmore, bind, Except.bind] at h
    | ok more =>
      obtain ⟨arguments', rest'⟩ := more
      have hlt := ih hmore
      simp only [hmore, bind, Except.bind, pure, Except.pure, Except.ok.injEq,
        Prod.mk.injEq] at h
      obtain ⟨-, rfl⟩ := h
      simp only [List.length_cons]
      omega
  | case4 token argument _ position tail =>
    cases h
    simp only [List.length_cons]
    omega
  | case5 => cases h

theorem readList_length_le {stop : Position} {tokens rest : List Token}
    {arguments : Option (List Argument)} (h : readList stop tokens = .ok (arguments, rest)) :
    rest.length ≤ tokens.length := by
  unfold readList at h
  split at h
  · cases h
    simp only [List.length_cons]
    omega
  · rename_i position tail _
    cases hmore : readArguments stop tail with
    | error e => simp [hmore, bind, Except.bind] at h
    | ok more =>
      obtain ⟨arguments', rest'⟩ := more
      have hlt := readArguments_length_lt hmore
      simp only [hmore, bind, Except.bind, pure, Except.pure, Except.ok.injEq,
        Prod.mk.injEq] at h
      obtain ⟨-, rfl⟩ := h
      simp only [List.length_cons]
      omega
  · cases h
    exact Nat.le_refl _

theorem readExpr_length_le {stop : Position} {token : Token} {tokens rest : List Token}
    {expr : Expr} (h : readExpr stop token tokens = .ok (expr, rest)) :
    rest.length ≤ tokens.length := by
  unfold readExpr at h
  split at h
  · cases hmore : readList stop tokens with
    | error e => simp [hmore, bind, Except.bind] at h
    | ok more =>
      obtain ⟨arguments', rest'⟩ := more
      have hle := readList_length_le hmore
      simp only [hmore, bind, Except.bind, pure, Except.pure, Except.ok.injEq,
        Prod.mk.injEq] at h
      obtain ⟨-, rfl⟩ := h
      exact hle
  · cases h
    exact Nat.le_refl _
  · cases h
    exact Nat.le_refl _
  · split at h
    · cases h
      simp only [List.length_cons]
      omega
    · cases h
  · cases h

end Parser

/-- How far a text could be compiled: the expressions read, their instructions, and the error at
which reading stopped, if any. -/
structure Listing where
  phrases : List Phrase
  program : List Instr
  error : Option SourceError

namespace Listing

def stopped (error : Option SourceError) : Listing := ⟨[], [], error⟩

/-- Reads expressions up to the end of the tokens, where the text ends at `stop`. -/
def ofTokens (strict : Bool) (stop : Position) (tokens : List Token) : Listing :=
  match tokens with
  | [] => stopped none
  | token :: tail =>
    match _hread : Parser.readExpr stop token tail with
    | .error e => stopped (some e)
    | .ok (expr, rest) =>
      match expr.instr strict with
      | .error what => stopped (some (.complaint what token.position))
      | .ok instr =>
        let more := ofTokens strict stop rest
        ⟨⟨expr, token.position⟩ :: more.phrases, instr :: more.program, more.error⟩
termination_by tokens.length
decreasing_by
  exact Nat.lt_succ_of_le (Parser.readExpr_length_le _hread)

/-- Compiles a text, which needs at least one expression. -/
def ofSource (strict : Bool) (source : String) : Listing :=
  match (Scan.ofChars source.toList).result with
  | .error e => stopped (some e)
  | .ok ([], stop) => stopped (some (.complaint .noExpression stop))
  | .ok (tokens, stop) => ofTokens strict stop tokens

def result (l : Listing) : Except SourceError (List Instr) :=
  match l.error with
  | some e => .error e
  | none => .ok l.program

/-- What compiling reports: names that were passed over, and the size of a finished program. -/
def notices (l : Listing) (filename : String) : List Notice :=
  (l.phrases.filterMap fun phrase =>
    phrase.expr.unknownName?.map fun name =>
      ⟨.warning, .compiler, filename ++ ":" ++ Numeral.ofNat phrase.position.line ++ ":" ++
        Numeral.ofNat phrase.position.column ++ ": unknown instruction '" ++ name ++
        "' compiled as Nop"⟩) ++
  match l.error with
  | some _ => []
  | none =>
    [⟨.debug, .compiler, "compiled " ++ Numeral.ofNat l.program.length ++ " instructions from " ++
      filename⟩]

end Listing

/-- The program of a source text. -/
def compile (strict : Bool) (source : String) : Except SourceError (List Instr) :=
  (Listing.ofSource strict source).result

end ScopeMachine
