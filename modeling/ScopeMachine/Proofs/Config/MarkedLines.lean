import ScopeMachine.Proofs.FrontEnd
import ScopeMachine.Proofs.Text.Trim

/-! Which lines of a source bear on its configuration. Among the first lines these are the ones that
hold the marker of directives together with an equals sign or an opening brace, and no other text of
the source matters. Whether such a line is a comment is not looked at: without a sign for comments
in front it is read as if it had one. -/
namespace ScopeMachine

namespace Directive

/-- Whether a line holds the marker as it is spelled. -/
def isMarked (line : List Char) : Bool := Text.hasPart marker (Text.trim line)

/-- Whether a line holds one of the signs that no flag can be set without. -/
def hasSign (line : List Char) : Bool := line.any fun c => c = '=' || c = '\x7b'

/-- Whether a line can set a flag. -/
def isDirective (line : List Char) : Bool := isMarked line && hasSign line

/-- A line as a comment. -/
def commented (line : List Char) : List Char :=
  if (Text.trim line).head? = some '#' then line else '#' :: line

/-- The directives of a source: what the ones among its first lines say behind the marker. -/
def ofSource (source : String) : List (Option (List Char)) :=
  ((candidates source).filter isDirective).map body?

theorem body?_eq_none {line : List Char} (h : isMarked line = false) : body? line = none := by
  unfold isMarked at h
  simp [body?, h]

theorem ne_of_not_hasSign {line : List Char} (h : hasSign line = false) {c : Char}
    (hc : c ∈ line) : c ≠ '=' ∧ c ≠ '\x7b' := by
  have hnone := List.any_eq_false.mp h c hc
  simpa using hnone

theorem readAssignments_of_not_hasSign {parts : List (List Char)}
    (h : ∀ part ∈ parts, ∀ c ∈ part, c ≠ '=') : readAssignments parts = .ok [] := by
  induction parts with
  | nil => rfl
  | cons part parts ih =>
    obtain ⟨hpart, hparts⟩ := List.forall_mem_cons.mp h
    have hnone : (Text.trim part).dropWhile (· != '=') = [] := by
      rw [List.dropWhile_eq_nil_iff]
      intro c hc
      simpa using hpart c ((Text.trim_infix part).subset hc)
    have hfirst : readAssignment? part = .ok none := by
      simp only [readAssignment?, hnone]
    rw [readAssignments, bind_of_ok hfirst, bind_of_ok (ih hparts)]
    rfl

/-- A line that is no directive may as well be empty. -/
theorem readLine_of_not_directive [Json.DepthLimit] {line : List Char}
    (h : isDirective line = false) :
    readLine line = .ok ([], []) := by
  unfold readLine
  split
  · rfl
  · rename_i directive hbody
    have hmarked : isMarked line = true := by
      rw [← Bool.not_eq_false]
      intro hnot
      rw [body?_eq_none hnot] at hbody
      cases hbody
    have hsign : hasSign line = false := by
      rwa [isDirective, hmarked, Bool.true_and] at h
    have hdirective := body?_infix hbody
    have hobject : directive.dropWhile (· != '\x7b') = [] := by
      rw [List.dropWhile_eq_nil_iff]
      intro c hc
      simpa using (ne_of_not_hasSign hsign (hdirective.subset hc)).2
    have hparts : readAssignments (Text.splitBy (fun c => c = ';' || c = ',') directive) =
        .ok [] := by
      refine readAssignments_of_not_hasSign fun part hpart c hc => ?_
      have hline := (Text.infix_of_mem_splitBy hpart).trans hdirective
      exact (ne_of_not_hasSign hsign (hline.subset hc)).1
    rw [hobject]
    exact bind_of_ok hparts

/-- Lines that are no directives may as well be absent. -/
theorem readLines_filter [Json.DepthLimit] (lines : List (List Char)) :
    readLines (lines.filter isDirective) = readLines lines := by
  induction lines with
  | nil => rfl
  | cons line rest ih =>
    cases hline : isDirective line with
    | true =>
      rw [List.filter_cons_of_pos hline, readLines, readLines, ih]
    | false =>
      rw [List.filter_cons_of_neg (by simp [hline]), ih]
      conv_rhs => rw [readLines, readLine_of_not_directive hline]
      rfl

/-! ### Signs for comments -/

theorem hasPart_cons_of_ne {c d : Char} (h : c ≠ d) (needle rest : List Char) :
    Text.hasPart (d :: needle) (c :: rest) = Text.hasPart (d :: needle) rest := by
  simp [Text.hasPart, List.isPrefixOf, Ne.symm h]

/-- The marker does not begin within text that its first character does not occur in. -/
theorem hasPart_marker_append {front : List Char} (h : ∀ c ∈ front, c ≠ '@') (rest : List Char) :
    Text.hasPart marker (front ++ rest) = Text.hasPart marker rest := by
  induction front with
  | nil => rfl
  | cons c front ih =>
    obtain ⟨hc, hfront⟩ := List.forall_mem_cons.mp h
    rw [List.cons_append, ← ih hfront]
    exact hasPart_cons_of_ne hc "semtutor".toList (front ++ rest)

theorem body?_congr {line other : List Char} (hmarked : isMarked line = isMarked other)
    (hrest : Text.trim ((Text.trim line).dropWhile (· = '#')) =
      Text.trim ((Text.trim other).dropWhile (· = '#'))) : body? line = body? other := by
  unfold isMarked at hmarked
  simp only [body?, hmarked, hrest]

/-- A line says the same with a sign for comments in front of it and without. -/
theorem body?_hash {line : List Char} (h : (Text.trim line).head? ≠ some '#') :
    body? ('#' :: line) = body? line := by
  obtain ⟨front, hfront, htrim⟩ := Text.exists_trimBy_cons (by rfl : Text.isBlank '#' = false) line
  change Text.trim ('#' :: line) = '#' :: (front ++ Text.trim line) at htrim
  have hne {d : Char} (hd : Text.isBlank d = false) : ∀ c ∈ front, c ≠ d := by
    rintro c hc rfl
    rw [hfront c hc] at hd
    cases hd
  have hkept : (Text.trim line).dropWhile (· = '#') = Text.trim line := by
    refine Text.dropWhile_eq_self fun c hc => decide_eq_false ?_
    rintro rfl
    exact h hc
  have hbehind : (front ++ Text.trim line).dropWhile (· = '#') = front ++ Text.trim line := by
    cases front with
    | nil => exact hkept
    | cons c front =>
      exact List.dropWhile_cons_of_neg (by simpa using hne (by rfl) c List.mem_cons_self)
  apply body?_congr
  · have hother : ∀ c ∈ '#' :: front, c ≠ '@' :=
      List.forall_mem_cons.mpr ⟨by decide, hne (by rfl)⟩
    rw [isMarked, isMarked, htrim, ← List.cons_append]
    exact hasPart_marker_append hother (Text.trim line)
  · rw [htrim, hkept, List.dropWhile_cons_of_pos (by rfl), hbehind]
    exact Text.trimBy_append_left hfront (Text.trim line)

theorem body?_commented (line : List Char) : body? (commented line) = body? line := by
  unfold commented
  split
  · rfl
  · rename_i h
    exact body?_hash h

/-- Lines that say the same make the same assignments; only a notice quotes the line itself. -/
theorem readLine_congr [Json.DepthLimit] {line other : List Char} (h : body? line = body? other) :
    (readLine line).map Prod.fst = (readLine other).map Prod.fst := by
  unfold readLine
  rw [h]
  split
  · rfl
  · split
    · rfl
    · dsimp only
      split <;> simp only [Except.map]

/-- The assignments of lines, and whether they are refused, depend on what the lines say alone. -/
theorem readLines_congr [Json.DepthLimit] {lines others : List (List Char)}
    (h : lines.map body? = others.map body?) :
    (readLines lines).1 = (readLines others).1 ∧
      (readLines lines).2.2 = (readLines others).2.2 := by
  induction lines generalizing others with
  | nil =>
    rw [List.map_nil, eq_comm, List.map_eq_nil_iff] at h
    subst h
    exact ⟨rfl, rfl⟩
  | cons line rest ih =>
    obtain ⟨other, others, rfl, hbody, hrest⟩ := List.map_eq_cons_iff.mp h.symm
    obtain ⟨hassignments, herror⟩ := ih hrest.symm
    have hline := readLine_congr hbody
    rw [readLines, readLines]
    cases hother : readLine other <;> cases hfound : readLine line <;> rw [hother, hfound] at hline
    · cases hline
      exact ⟨rfl, rfl⟩
    · cases hline
    · cases hline
    · injection hline with hfst
      exact ⟨congrArg₂ (· ++ ·) hfst.symm hassignments, herror⟩

end Directive

namespace Config

/-- The configuration depends on what the first lines say, but on nothing more of them. -/
theorem load_congr [Json.DepthLimit] {source other : String} {lines others : List (List Char)}
    (hsource : Directive.readLines (Directive.candidates source) = Directive.readLines lines)
    (hother : Directive.readLines (Directive.candidates other) = Directive.readLines others)
    (h : lines.map Directive.body? = others.map Directive.body?)
    (overrides : List (Atom × Value)) : load source overrides = load other overrides := by
  obtain ⟨hassignments, herror⟩ := Directive.readLines_congr h
  have hflags : Flags.ofSource source = Flags.ofSource other := by
    rw [Flags.ofSource, Flags.ofSource, hsource, hother]
    generalize Directive.readLines lines = found at hassignments herror
    generalize Directive.readLines others = found' at hassignments herror
    obtain ⟨assignments, notices, error⟩ := found
    obtain ⟨assignments', notices', error'⟩ := found'
    cases hassignments
    cases herror
    cases error <;> rfl
  rw [load, load, hflags]

/-- Only directives configure. A source without one has the default configuration, and sources with
the same directives have the same configuration, whatever their other lines say. Whether the lines
are comments makes no difference, though. -/
theorem only_directives_configure [Json.DepthLimit] (source : String) :
    ((∀ line ∈ Directive.candidates source, Directive.isDirective line = false) →
      load source [] = .ok {}) ∧
    ∀ other overrides,
      (Directive.ofSource source = Directive.ofSource other →
        load source overrides = load other overrides) ∧
      (Directive.candidates other = (Directive.candidates source).map Directive.commented →
        load source overrides = load other overrides) := by
  have hcongr (other : String) (overrides : List (Atom × Value))
      (h : Directive.ofSource source = Directive.ofSource other) :
      load source overrides = load other overrides :=
    load_congr (Directive.readLines_filter _).symm (Directive.readLines_filter _).symm h overrides
  refine ⟨fun hnone => ?_, fun other overrides => ⟨hcongr other overrides, fun hother => ?_⟩⟩
  · have hfilter : (Directive.candidates source).filter Directive.isDirective = [] :=
      List.filter_eq_nil_iff.mpr fun line hline => by simp [hnone line hline]
    have hempty : Directive.ofSource source = Directive.ofSource "" := by
      rw [Directive.ofSource, hfilter]
      rfl
    exact hcongr "" [] hempty
  · refine load_congr rfl rfl ?_ overrides
    rw [hother, List.map_map]
    exact List.map_congr_left fun line _ => (Directive.body?_commented line).symm

/-- A program that only speaks of flags, a comment elsewhere, and one that is no comment. -/
theorem only_directives_configure_elsewhere :
    load "'strict_names=false';\nprint('@semtutor');" [] = .ok {} ∧
      load "halt;\n# @semtutor: stop_on_error=false" [] =
        load "# @semtutor: stop_on_error=false\nprint('strict_names=false');" [] ∧
      load "@semtutor stop_on_error=false" [] = load "#@semtutor stop_on_error=false" [] := by
  refine ⟨(only_directives_configure _).1 (by decide +kernel), ?_, ?_⟩
  · exact ((only_directives_configure _).2 _ []).1 (by decide +kernel)
  · exact ((only_directives_configure _).2 _ []).2 (by decide +kernel)

/-- A string of a program turns a switch off, although no line of the program is a comment. -/
theorem string_configures :
    (∀ line ∈ Directive.candidates "'@semtutor; strict_names=false;'",
        (Text.trim line).head? ≠ some '#') ∧
      compile true "'@semtutor; strict_names=false;'" =
        .ok [.push (.str "@semtutor; strict_names=false;")] ∧
      load "'@semtutor; strict_names=false;'" [] = .ok { strictNames := false } := by
  exact ⟨by decide +kernel, by cbv, by rfl⟩

end Config

end ScopeMachine
