import ScopeMachine.Config
import ScopeMachine.Proofs.Json.Reason
import ScopeMachine.Proofs.Source.Compiled

/-! What can go wrong before a program runs. Whatever the source, its configuration is read and it
is compiled or complained about with a place, unless it has a numeral too long to be read or, in a
flag, too many levels of brackets. The containers that a configuration names have texts for keys. -/
namespace ScopeMachine

/-! ### Flags -/

/-- The decimal digits of all scripts. -/
def Text.isDecimal (c : Char) : Bool := (digitValue? c).isSome

/-- What a source must have for its flags to be refused. -/
def FlagError.Reason [Json.DepthLimit] (cs : List Char) : FlagError → Prop
  | .numeralTooLong n => LongRun Text.isDecimal cs n
  | .digitLimit => False
  | .tooDeep _ => Json.DepthLimit.brackets < cs.countP Json.isOpening

theorem FlagError.Reason.of_part [Json.DepthLimit] {part cs : List Char} {e : FlagError}
    (h : e.Reason part) (hpart : part <:+: cs) : e.Reason cs := by
  cases e with
  | numeralTooLong n => exact LongRun.of_part h hpart
  | digitLimit => exact h
  | tooDeep bracket => exact lt_of_lt_of_le h hpart.sublist.countP_le

namespace Directive

theorem body?_infix {line directive : List Char} (h : body? line = some directive) :
    directive <:+: line := by
  unfold body? at h
  dsimp only at h
  split at h
  · cases h
  · have hdirective : Text.trim ((Text.trim line).dropWhile (· = '#')) <:+: line :=
      (Text.trim_infix _).trans ((List.dropWhile_suffix _).isInfix.trans (Text.trim_infix line))
    generalize Text.trim ((Text.trim line).dropWhile (· = '#')) = found at h hdirective
    have hmarked : (if marker.isPrefixOf (lowerAscii found) then
        Text.trim (found.drop marker.length) else found) <:+: line := by
      split
      · exact (Text.trim_infix _).trans ((List.drop_suffix _ found).isInfix.trans hdirective)
      · exact hdirective
    split at h
    · rename_i rest hrest
      cases h
      rw [hrest] at hmarked
      exact (Text.trim_infix rest).trans ((List.suffix_cons ':' rest).isInfix.trans hmarked)
    · cases h
      exact hmarked

theorem wholeNumber?_digits {cs : List Char} {negative : Bool} {digits : List Nat}
    (h : wholeNumber? cs = some (negative, digits)) :
    ∃ run : List Char, run <:+: cs ∧
      List.Forall₂ (fun c d => Text.digitValue? c = some d) run digits := by
  unfold wholeNumber? at h
  split at h
  rename_i sign run hsign
  have hrun : run <:+: cs := by
    split at hsign <;> cases hsign
    · exact (List.suffix_cons '-' run).isInfix
    · exact List.infix_rfl
  split at h
  · cases h
  · obtain ⟨found, hfound, heq⟩ := Option.map_eq_some_iff.mp h
    cases heq
    exact ⟨run, hrun, forall₂_of_mapM hfound⟩

theorem readValue_meets [Json.DepthLimit] (cs : List Char) :
    Meets (Value.Every Atom.Sound) (FlagError.Reason cs) (readValue cs) := by
  unfold readValue
  split
  · exact .atom ⟨rfl, nofun⟩
  split
  · exact .atom ⟨rfl, nofun⟩
  split
  · rename_i negative digits hnumber
    obtain ⟨run, hrun, hdigits⟩ := wholeNumber?_digits hnumber
    split
    · rename_i hlong
      refine ⟨hlong, run, hrun, hdigits.length_eq, fun c hc => ?_⟩
      obtain ⟨d, -, hd⟩ := forall₂_left hdigits hc
      exact Option.isSome_of_eq_some hd
    · rename_i hshort
      refine Value.sound_int (Atom.writable_signed negative ?_)
      refine Numeral.valueOf_lt_tooLong (fun d hd => ?_) (Nat.le_of_not_lt hshort)
      obtain ⟨c, -, hc⟩ := forall₂_right hdigits hd
      exact Text.digitValue?_lt hc
  · exact .atom (Atom.sound_str _)

/-- All atoms in the values of assignments are sound. -/
def SoundValues (assignments : List (Atom × Value)) : Prop :=
  ∀ e ∈ assignments, e.2.Every Atom.Sound

theorem soundValues_nil : SoundValues [] := by simp [SoundValues]

theorem SoundValues.append {xs ys : List (Atom × Value)} (hxs : SoundValues xs)
    (hys : SoundValues ys) : SoundValues (xs ++ ys) := by
  intro e he
  rcases List.mem_append.mp he with he | he
  · exact hxs e he
  · exact hys e he

theorem readAssignment?_meets [Json.DepthLimit] (part : List Char) :
    Meets (fun assignment => SoundValues assignment.toList) (FlagError.Reason part)
      (readAssignment? part) := by
  have htrim := Text.trim_infix part
  unfold readAssignment?
  dsimp only
  split
  · exact soundValues_nil
  · rename_i sign raw hraw
    have hvalue : Text.trim raw <:+: part := by
      have hdrop := List.dropWhile_suffix (· != '=') (l := Text.trim part)
      rw [hraw] at hdrop
      exact (Text.trim_infix raw).trans
        (((List.suffix_cons sign raw).trans hdrop).isInfix.trans htrim)
    refine Meets.bind ((readValue_meets (Text.trim raw)).imp (fun _ h => h)
      fun e he => he.of_part hvalue) fun value hvalue => ?_
    intro e he
    cases List.mem_singleton.mp he
    exact hvalue

theorem readAssignments_meets [Json.DepthLimit] {parts : List (List Char)} {cs : List Char}
    (h : ∀ part ∈ parts, part <:+: cs) :
    Meets SoundValues (FlagError.Reason cs) (readAssignments parts) := by
  induction parts with
  | nil => exact soundValues_nil
  | cons part parts ih =>
    obtain ⟨hpart, hparts⟩ := List.forall_mem_cons.mp h
    refine Meets.bind ((readAssignment?_meets part).imp (fun _ h => h)
      fun e he => he.of_part hpart) fun assignment hassignment => ?_
    exact Meets.bind (ih hparts) fun more hmore => hassignment.append hmore

theorem readLine_meets [Json.DepthLimit] (line : List Char) :
    Meets (fun found => SoundValues found.1) (FlagError.Reason line) (readLine line) := by
  unfold readLine
  split
  · exact soundValues_nil
  · rename_i directive hbody
    have hdirective := body?_infix hbody
    split
    · refine Meets.bind (readAssignments_meets fun part hpart => ?_) fun found hfound => hfound
      exact (Text.infix_of_mem_splitBy hpart).trans hdirective
    · have hobject : Text.trim (directive.dropWhile (· != '\x7b')) <:+: line :=
        (Text.trim_infix _).trans ((List.dropWhile_suffix _).isInfix.trans hdirective)
      generalize Text.trim (directive.dropWhile (· != '\x7b')) = object at hobject
      have hread := Json.read_meets object
      dsimp only
      split
      · rename_i entries hentries
        rw [hentries] at hread
        cases hread with
        | dict _ hvalues => exact hvalues
      · exact soundValues_nil
      · rename_i digits hdigits
        rw [hdigits] at hread
        have hrun : LongRun Text.isAsciiDigit object digits := hread
        exact (hrun.imp fun _ => Text.isSome_digitValue?_of_isAsciiDigit).of_part hobject
      · rename_i bracket hbracket
        rw [hbracket] at hread
        have hcount : Json.DepthLimit.brackets < object.countP Json.isOpening := hread
        exact lt_of_lt_of_le hcount hobject.sublist.countP_le
      · exact soundValues_nil

theorem readLines_meets [Json.DepthLimit] {lines : List (List Char)} {cs : List Char}
    (h : ∀ line ∈ lines, line <:+: cs) :
    SoundValues (readLines lines).1 ∧
      ∀ e, (readLines lines).2.2 = some e → e.Reason cs := by
  induction lines with
  | nil => exact ⟨soundValues_nil, by simp [readLines]⟩
  | cons line rest ih =>
    obtain ⟨hline, hrest⟩ := List.forall_mem_cons.mp h
    obtain ⟨hvalues, herror⟩ := ih hrest
    have hmeets := readLine_meets line
    unfold readLines
    split
    · rename_i e he
      rw [he] at hmeets
      refine ⟨soundValues_nil, ?_⟩
      rintro _ ⟨⟩
      exact FlagError.Reason.of_part hmeets hline
    · rename_i assignments notices hfound
      rw [hfound] at hmeets
      exact ⟨hmeets.append hvalues, herror⟩

end Directive

namespace Config

theorem isSome_asText? {v : Value} (h : v.Writable) : v.asText?.isSome = true := by
  unfold Value.asText?
  split
  · rfl
  · rw [Option.isSome_map]
    exact h.plain?

theorem isSome_keys? {v : Value} (h : v.Writable) : (keys? v).isSome = true := by
  unfold keys?
  split
  · rfl
  · rfl
  · exact isSome_mapM fun item hitem => isSome_asText? (Value.writable_list.mp h item hitem)
  · rw [Option.isSome_map]
    exact isSome_asText? h

/-- A flag whose value can be written can be taken over. -/
theorem exists_assign (c : Config) (key : Atom) {value : Value} (h : value.Writable) :
    ∃ c', c.assign key value = .ok c' := by
  obtain ⟨found, hfound⟩ := Option.isSome_iff_exists.mp (isSome_keys? h)
  unfold assign
  split
  · exact ⟨_, rfl⟩
  · exact ⟨_, rfl⟩
  · exact ⟨_, rfl⟩
  · rw [hfound]
    exact ⟨_, rfl⟩
  · rw [hfound]
    exact ⟨_, rfl⟩

theorem exists_assignAll (c : Config) {assignments : List (Atom × Value)}
    (h : Directive.SoundValues assignments) : ∃ c', c.assignAll assignments = .ok c' := by
  induction assignments generalizing c with
  | nil => exact ⟨c, rfl⟩
  | cons assignment rest ih =>
    obtain ⟨hfirst, hrest⟩ := List.forall_mem_cons.mp h
    obtain ⟨c', hc'⟩ := c.exists_assign assignment.1 hfirst.writable_of_sound
    obtain ⟨last, hlast⟩ := ih c' hrest
    exact ⟨last, (bind_of_ok hc').trans hlast⟩

/-- The flags of a source have sound values, or are refused for a reason. -/
theorem ofSource_meets [Json.DepthLimit] (source : String) :
    Meets (fun flags : Flags => Directive.SoundValues flags.entries)
      (FlagError.Reason source.toList) (Flags.ofSource source) := by
  have hcandidates : ∀ line ∈ Directive.candidates source, line <:+: source.toList :=
    fun line hline => (Text.lines_parts source.toList).2 line (List.mem_of_mem_take hline)
  obtain ⟨hvalues, herror⟩ := Directive.readLines_meets hcandidates
  unfold Flags.ofSource
  split
  · rename_i assignments notices e hlines
    rw [hlines] at herror
    exact herror e rfl
  · rename_i assignments notices hlines
    rw [hlines] at hvalues
    have hholds : (OrderedMap.ofList assignments).Holds (fun _ => True)
        (Value.Every Atom.Sound) :=
      OrderedMap.Holds.ofList fun e he => ⟨trivial, hvalues e he⟩
    exact fun e he => (hholds e he).2

/-- A source has a configuration, whatever the overrides, or its flags are refused for a reason. -/
theorem load_meets_overrides [Json.DepthLimit] {overrides : List (Atom × Value)}
    (h : Directive.SoundValues overrides) (source : String) :
    Meets (fun _ => True) (FlagError.Reason source.toList) (load source overrides) := by
  refine Meets.bind (ofSource_meets source) fun flags hflags => ?_
  obtain ⟨flagged, hflagged⟩ := ({} : Config).exists_assignAll hflags
  have hset : Directive.SoundValues (setOverrides overrides) :=
    fun e he => h e (List.mem_of_mem_filter he)
  obtain ⟨c, hc⟩ := flagged.exists_assignAll hset
  exact .of_ok (by rw [withFlags, bind_of_ok hflagged, hc]) trivial

theorem load_meets [Json.DepthLimit] (source : String) :
    Meets (fun _ => True) (FlagError.Reason source.toList) (load source []) :=
  load_meets_overrides Directive.soundValues_nil source

/-- The containers that a configuration names have well-coded texts for keys. -/
structure NamesTexts (c : Config) : Prop where
  scopeKeys : ∀ k ∈ c.scopeKeys, k.CodedText
  stackKeys : ∀ k ∈ c.stackKeys, k.CodedText

theorem codedText_of_asText? {v : Value} (h : v.Every Atom.Sound) {k : Atom}
    (hk : v.asText? = some k) : k.CodedText := by
  unfold Value.asText? at hk
  split at hk
  · cases hk
    cases h with
    | atom h => exact ⟨rfl, h.wellCoded⟩
  · obtain ⟨text, -, rfl⟩ := Option.map_eq_some_iff.mp hk
    exact Atom.codedText_str text

theorem infix_of_mem_cutKeys {α : Type} {isBar isBlank : α → Bool} {text part : List α}
    (h : part ∈ cutKeys isBar isBlank text) : part <:+: text := by
  obtain ⟨piece, hpiece, rfl⟩ := List.mem_map.mp (List.mem_filter.mp h).1
  exact (Text.trimBy_infix isBlank piece).trans (Text.infix_of_mem_splitBy hpiece)

theorem codedText_of_keys? {v : Value} (h : v.Every Atom.Sound) {keys : List Atom}
    (hkeys : keys? v = some keys) : ∀ k ∈ keys, k.CodedText := by
  unfold keys? at hkeys
  split at hkeys
  · cases hkeys
    intro k hk
    obtain ⟨part, -, rfl⟩ := List.mem_map.mp hk
    exact Atom.codedText_str _
  · rename_i points
    cases hkeys
    cases h with
    | atom h =>
      intro k hk
      obtain ⟨part, hpart, rfl⟩ := List.mem_map.mp hk
      have hcoded := (h.wellCoded points rfl).1
      exact Atom.codedText_ofCodes (hcoded.of_infix (infix_of_mem_cutKeys hpart))
  · rename_i items
    cases h with
    | list h =>
      intro k hk
      obtain ⟨item, hitem, hitemText⟩ := forall₂_right (forall₂_of_mapM hkeys) hk
      exact codedText_of_asText? (h item hitem) hitemText
  · obtain ⟨k, hk, rfl⟩ := Option.map_eq_some_iff.mp hkeys
    intro k' hk'
    rw [List.mem_singleton.mp hk']
    exact codedText_of_asText? h hk

theorem NamesTexts.assign {c c' : Config} (h : c.NamesTexts) {key : Atom} {value : Value}
    (hvalue : value.Every Atom.Sound) (hok : c.assign key value = .ok c') : c'.NamesTexts := by
  unfold Config.assign at hok
  split at hok
  · cases hok
    exact h
  · cases hok
    exact ⟨h.scopeKeys, h.stackKeys⟩
  · cases hok
    exact ⟨h.scopeKeys, h.stackKeys⟩
  · split at hok
    · rename_i keys hkeys
      cases hok
      exact ⟨codedText_of_keys? hvalue hkeys, h.stackKeys⟩
    · cases hok
  · split at hok
    · rename_i keys hkeys
      cases hok
      exact ⟨h.scopeKeys, codedText_of_keys? hvalue hkeys⟩
    · cases hok

theorem NamesTexts.assignAll {c c' : Config} (h : c.NamesTexts)
    {assignments : List (Atom × Value)} (hvalues : Directive.SoundValues assignments)
    (hok : c.assignAll assignments = .ok c') : c'.NamesTexts := by
  induction assignments generalizing c with
  | nil =>
    cases hok
    exact h
  | cons assignment rest ih =>
    obtain ⟨hfirst, hrest⟩ := List.forall_mem_cons.mp hvalues
    obtain ⟨next, hnext, hok⟩ := bind_eq_ok hok
    exact ih (h.assign hfirst hnext) hrest hok

theorem namesTexts_of_load [Json.DepthLimit] {source : String} {overrides : List (Atom × Value)}
    {c : Config} (hoverrides : Directive.SoundValues overrides)
    (h : load source overrides = .ok c) : c.NamesTexts := by
  obtain ⟨flags, hflags, h⟩ := bind_eq_ok h
  obtain ⟨flagged, hflagged, h⟩ := bind_eq_ok h
  have hmeets := ofSource_meets source
  rw [hflags] at hmeets
  have hnone : ({} : Config).NamesTexts := ⟨nofun, nofun⟩
  refine (hnone.assignAll hmeets hflagged).assignAll (fun e he => ?_) h
  exact hoverrides e (List.mem_of_mem_filter he)

end Config

/-! ### Programs -/

/-- What a source must have for an error that is no complaint about a place in it. -/
def SourceError.Reason (cs : List Char) : SourceError → Prop
  | .complaint .. => True
  | .numeralTooLong n => LongRun Lexer.isDigit cs n

theorem SourceError.Reason.of_part {part cs : List Char} {e : SourceError} (h : e.Reason part)
    (hpart : part <:+: cs) : e.Reason cs := by
  cases e with
  | complaint what position => trivial
  | numeralTooLong n => exact LongRun.of_part h hpart

theorem Lexer.readLexeme_reason {position : Position} {c : Char} {rest : List Char}
    {e : SourceError} (h : readLexeme position c rest = .error e) : e.Reason (c :: rest) := by
  unfold readLexeme at h
  split at h
  · split at h
    · cases h
    · cases h
      trivial
  split at h
  · rename_i hc
    split at h
    · rename_i whole after hread
      split at h
      · rename_i hlong
        cases h
        have hliteral := readNumber_literal (c :: rest)
        have hspelled := readNumber_wellSpelled hc rest
        rw [hread] at hliteral hspelled
        exact ⟨hlong, whole.toList, ⟨[], after, hliteral⟩, String.length_toList, hspelled.2⟩
      · cases h
    · cases h
  split at h
  · cases h
  split at h
  · cases h
  split at h
  · cases h
  · cases h
    trivial

theorem Scan.ofCharsAt_reason {position : Position} {cs : List Char} {e : SourceError}
    (h : (ofCharsAt position cs).ending = .error e) : e.Reason cs := by
  fun_induction ofCharsAt position cs with
  | case1 => cases h
  | case2 position cs layout c rest hsplit start error hread =>
    have hbehind : c :: rest <:+: cs := by
      have happend := Lexer.splitLayout_append false cs
      rw [hsplit] at happend
      exact ⟨layout, [], by simpa using happend⟩
    cases h
    exact (Lexer.readLexeme_reason hread).of_part hbehind
  | case3 position cs layout c rest hsplit start lexeme text hread more ih =>
    have hbehind : text <:+: cs := by
      have happend := Lexer.splitLayout_append false cs
      rw [hsplit] at happend
      rw [← happend, ← Lexer.readLexeme_literal hread]
      exact ⟨layout ++ lexeme.literal.toList, [], by simp⟩
    exact (ih h).of_part hbehind

namespace Parser

variable (cs : List Char) (stop : Position)

/-- The parser does nothing but complain. -/
theorem meets_complain {α : Type} (what : Option Lexeme → Complaint) (tokens : List Token) :
    Meets (fun _ : α => True) (SourceError.Reason cs) (.error (complain stop what tokens)) := by
  cases tokens <;> trivial

theorem readArguments_meets (tokens : List Token) :
    Meets (fun _ => True) (SourceError.Reason cs) (readArguments stop tokens) := by
  fun_induction readArguments stop tokens with
  | case1 => exact meets_complain cs stop _ _
  | case2 => exact meets_complain cs stop _ _
  | case3 _ _ _ _ _ ih => exact Meets.bind ih fun _ _ => trivial
  | case4 => trivial
  | case5 => exact meets_complain cs stop _ _

theorem readList_meets (tokens : List Token) :
    Meets (fun _ => True) (SourceError.Reason cs) (readList stop tokens) := by
  unfold readList
  split
  · trivial
  · exact Meets.bind (readArguments_meets cs stop _) fun _ _ => trivial
  · trivial

theorem readExpr_meets (token : Token) (rest : List Token) :
    Meets (fun _ => True) (SourceError.Reason cs) (readExpr stop token rest) := by
  unfold readExpr
  split
  · exact Meets.bind (readList_meets cs stop rest) fun _ _ => trivial
  · trivial
  · trivial
  · split
    · trivial
    · exact meets_complain cs stop _ _
  · exact meets_complain cs stop _ _

end Parser

theorem Listing.ofTokens_reason (cs : List Char) {strict : Bool} {stop : Position}
    {tokens : List Token} {e : SourceError} (h : (ofTokens strict stop tokens).error = some e) :
    e.Reason cs := by
  fun_induction ofTokens strict stop tokens with
  | case1 => cases h
  | case2 token tail error hread =>
    have hmeets := Parser.readExpr_meets cs stop token tail
    rw [hread] at hmeets
    cases h
    exact hmeets
  | case3 =>
    cases h
    trivial
  | case4 token tail expr rest hread instr hinstr more ih => exact ih h

theorem reason_of_compile {strict : Bool} {source : String} {e : SourceError}
    (h : compile strict source = .error e) : e.Reason source.toList := by
  cases hresult : (Scan.ofChars source.toList).result with
  | error error =>
    have heq : error = e := by
      simpa [compile, Listing.ofSource, hresult, Listing.stopped, Listing.result] using h
    subst heq
    cases hending : (Scan.ofChars source.toList).ending with
    | error found =>
      rw [Scan.result, hending] at hresult
      cases hresult
      exact Scan.ofCharsAt_reason hending
    | ok stop =>
      rw [Scan.result, hending] at hresult
      cases hresult
  | ok found =>
    obtain ⟨tokens, stop⟩ := found
    rw [compile_eq_ofTokens hresult] at h
    split at h
    · cases h
      trivial
    · unfold Listing.result at h
      split at h
      · rename_i error herror
        cases h
        exact Listing.ofTokens_reason _ herror
      · cases h

/-- Every source has a configuration, unless a flag in it has a numeral too long to be read or more
levels of brackets than there may be. Every source compiles to at least one instruction or is
complained about at a place, unless it has a numeral too long to be read. -/
theorem front_end_outcome [Json.DepthLimit] (source : String) :
    ((∃ c, Config.load source [] = .ok c) ∨
      (∃ n, Config.load source [] = .error (.numeralTooLong n) ∧
        LongRun Text.isDecimal source.toList n) ∨
      ∃ bracket, Config.load source [] = .error (.tooDeep bracket) ∧
        Json.DepthLimit.brackets < source.toList.countP Json.isOpening) ∧
    ∀ strict,
      (∃ program, compile strict source = .ok program ∧ program ≠ []) ∨
      (∃ what position, compile strict source = .error (.complaint what position)) ∨
      ∃ n, compile strict source = .error (.numeralTooLong n) ∧
        LongRun Lexer.isDigit source.toList n := by
  constructor
  · have hmeets := Config.load_meets source
    cases hload : Config.load source [] with
    | ok c => exact .inl ⟨c, rfl⟩
    | error e =>
      rw [hload] at hmeets
      cases e with
      | numeralTooLong n => exact .inr (.inl ⟨n, rfl, hmeets⟩)
      | digitLimit => cases hmeets
      | tooDeep bracket => exact .inr (.inr ⟨bracket, rfl, hmeets⟩)
  · intro strict
    cases hcompile : compile strict source with
    | ok program => exact .inl ⟨program, rfl, (compiled_of_compile hcompile).1⟩
    | error e =>
      have hreason := reason_of_compile hcompile
      cases e with
      | complaint what position => exact .inr (.inl ⟨what, position, rfl⟩)
      | numeralTooLong n => exact .inr (.inr ⟨n, rfl, hreason⟩)

/-- A whole number that is too long is refused without a place. -/
theorem compile_of_digits {strict : Bool} {source : String} {c : Char} {w : List Char}
    (hsource : source.toList = c :: w) (hdigits : ∀ d ∈ c :: w, Lexer.isDigit d = true)
    (hlong : Numeral.digitLimit < (c :: w).length) :
    compile strict source = .error (.numeralTooLong (c :: w).length) := by
  have hclass := Lexer.tokenClass?_of_isDigit (hdigits c List.mem_cons_self)
  have hsplit : Lexer.splitLayout false (c :: w) = ([], c :: w) := by
    refine Lexer.splitLayout_of_layout .nil fun d hd => ?_
    cases hd
    exact Lexer.startsLayout_eq_false hclass
  have hread : Lexer.readLexeme (Position.start.after []) c w =
      .error (.numeralTooLong (c :: w).length) := by
    have hend : ∀ d, ([] : List Char).head? = some d → Lexer.isDigit d = false ∧ d ≠ '.' := by
      rintro d ⟨⟩
    have hread := Lexer.readLexeme_of_digits hdigits hend (Position.start.after [])
    rwa [List.append_nil, if_pos hlong] at hread
  have hscan : (Scan.ofChars source.toList).result = .error (.numeralTooLong (c :: w).length) := by
    rw [Scan.ofChars, hsource, Scan.ofCharsAt_of_error hsplit hread]
    rfl
  simp only [compile, Listing.ofSource, hscan, Listing.stopped, Listing.result]

/-- A source that is neither compiled nor complained about at a place. -/
theorem long_numeral_refused :
    compile true (String.ofList (List.replicate (Numeral.digitLimit + 1) '1')) =
      .error (.numeralTooLong (Numeral.digitLimit + 1)) := by
  have hcons : List.replicate (Numeral.digitLimit + 1) '1' =
      '1' :: List.replicate Numeral.digitLimit '1' := List.replicate_succ
  have hdigits : ∀ d ∈ '1' :: List.replicate Numeral.digitLimit '1', Lexer.isDigit d = true := by
    intro d hd
    rw [← hcons] at hd
    rw [List.eq_of_mem_replicate hd]
    rfl
  have hlength : ('1' :: List.replicate Numeral.digitLimit '1').length =
      Numeral.digitLimit + 1 := by
    rw [← hcons, List.length_replicate]
  have hlong : Numeral.digitLimit < ('1' :: List.replicate Numeral.digitLimit '1').length := by
    rw [hlength]
    exact Nat.lt_succ_self _
  rw [compile_of_digits (String.toList_ofList.trans hcons) hdigits hlong, hlength]

end ScopeMachine
