import ScopeMachine.Proofs.Config.MarkedLines
import ScopeMachine.Proofs.Text.Pieces

/-! A source that consists of one directive in a comment. What stands behind the marker is all that
is read of it, and a single assignment gives the configuration. -/
namespace ScopeMachine

namespace Directive

/-- A directive in a comment on a line of its own. -/
def comment (directive : String) : String := "# @semtutor: " ++ directive

theorem toList_comment (directive : String) :
    (comment directive).toList = '#' :: ' ' :: (marker ++ ':' :: ' ' :: directive.toList) := by
  rw [comment, String.toList_append]
  rfl

theorem body?_comment {directive : String} (h : Text.Trimmed directive.toList) :
    body? (comment directive).toList = some directive.toList := by
  have hspace : Text.trim (' ' :: directive.toList) = directive.toList :=
    (Text.trimBy_append_left (List.forall_mem_singleton.mpr (by rfl)) _).trans h.trim_eq
  have hcolon : Text.trim (':' :: ' ' :: directive.toList) = ':' :: ' ' :: directive.toList :=
    (h.cons_append (by rfl) [' ']).trim_eq
  have hmarker : Text.Trimmed (marker ++ ':' :: ' ' :: directive.toList) :=
    (h.cons_append (by rfl) [' ']).cons_append (by rfl) "semtutor".toList
  have hmarked : Text.trim (' ' :: (marker ++ ':' :: ' ' :: directive.toList)) =
      marker ++ ':' :: ' ' :: directive.toList :=
    (Text.trimBy_append_left (List.forall_mem_singleton.mpr (by rfl)) _).trans hmarker.trim_eq
  have hline : Text.trim (comment directive).toList = (comment directive).toList := by
    rw [toList_comment]
    exact (hmarker.cons_append (by rfl) [' ']).trim_eq
  have hpart : Text.hasPart marker (comment directive).toList = true := by
    rw [toList_comment]
    rfl
  have hdrop : (comment directive).toList.dropWhile (· = '#') =
      ' ' :: (marker ++ ':' :: ' ' :: directive.toList) := by
    rw [toList_comment]
    rfl
  have hprefix :
      marker.isPrefixOf (lowerAscii (marker ++ ':' :: ' ' :: directive.toList)) = true := by
    rfl
  have hbehind : (marker ++ ':' :: ' ' :: directive.toList).drop marker.length =
      ':' :: ' ' :: directive.toList := List.drop_left
  simp only [body?, hline, hpart, hdrop, hmarked, hprefix, hbehind, hcolon, hspace, Bool.not_true,
    Bool.false_eq_true, if_false, if_true]

theorem candidates_comment {directive : String}
    (h : ∀ c ∈ directive.toList, Text.isLineBreak c = false) :
    candidates (comment directive) = [(comment directive).toList] := by
  have hbreaks : ∀ c ∈ (comment directive).toList, Text.isLineBreak c = false := by
    have hfront : ∀ c ∈ "# @semtutor: ".toList, Text.isLineBreak c = false :=
      Text.forall_mem_eq_false (by decide)
    rw [comment, String.toList_append]
    exact List.forall_mem_append.mpr ⟨hfront, h⟩
  have hne : (comment directive).toList ≠ [] := by
    rw [toList_comment]
    exact List.cons_ne_nil _ _
  rw [candidates, Text.lines_eq_singleton hne hbreaks]
  rfl

/-! ### Assignments -/

/-- Whether a character separates assignments or begins an object. -/
def endsAssignment (c : Char) : Bool := c = ';' || c = ',' || c = '\x7b'

variable {name text : List Char}

theorem readAssignment?_eq (hname : Text.Trimmed name) (hequals : ∀ c ∈ name, c ≠ '=')
    (htext : Text.Trimmed text) :
    readAssignment? (name ++ '=' :: text) =
      (readValue text).map fun value => some (.str (String.ofList name), value) := by
  obtain ⟨c, more, rfl⟩ := List.exists_cons_of_ne_nil hname.ne_nil
  have hpart : Text.trim (c :: more ++ '=' :: text) = c :: more ++ '=' :: text :=
    ((htext.cons_append (by rfl) []).cons_append (hname.first c rfl) more).trim_eq
  have hkey : ∀ d ∈ c :: more, (d != '=') = true := fun d hd => by simpa using hequals d hd
  have hbehind : (c :: more ++ '=' :: text).dropWhile (· != '=') = '=' :: text := by
    rw [List.dropWhile_append_of_pos hkey]
    rfl
  have hbefore : (c :: more ++ '=' :: text).takeWhile (· != '=') = c :: more := by
    rw [List.takeWhile_append_of_pos hkey]
    exact List.append_nil _
  simp only [readAssignment?, hpart, hbehind, hbefore, htext.trim_eq, hname.trim_eq]
  cases readValue text <;> rfl

/-- A comment with one assignment assigns what its text is read as. -/
theorem readLine_assignment [Json.DepthLimit] {directive : String}
    (hdirective : directive.toList = name ++ '=' :: text)
    (hends : ∀ c ∈ directive.toList, endsAssignment c = false) (hname : Text.Trimmed name)
    (hequals : ∀ c ∈ name, c ≠ '=') (htext : Text.Trimmed text) :
    readLine (comment directive).toList =
      (readValue text).map fun value => ([(.str (String.ofList name), value)], []) := by
  obtain ⟨c, more, rfl⟩ := List.exists_cons_of_ne_nil hname.ne_nil
  have htrimmed : Text.Trimmed directive.toList := by
    rw [hdirective]
    exact (htext.cons_append (by rfl) []).cons_append (hname.first c rfl) more
  have hobject : directive.toList.dropWhile (· != '\x7b') = [] := by
    rw [List.dropWhile_eq_nil_iff]
    intro d hd
    have hd := hends d hd
    simp only [endsAssignment, Bool.or_eq_false_iff, decide_eq_false_iff_not] at hd
    simpa using hd.2
  have hwhole : Text.splitBy (fun c => c = ';' || c = ',') directive.toList =
      [directive.toList] := by
    refine Text.splitBy_eq_singleton fun d hd => ?_
    have hd := hends d hd
    rw [endsAssignment, Bool.or_eq_false_iff] at hd
    exact hd.1
  simp only [readLine, body?_comment htrimmed, hobject, hwhole, readAssignments]
  rw [hdirective, readAssignment?_eq hname hequals htext]
  cases readValue text <;> rfl

end Directive

namespace Config

variable {directive : String} (hbreaks : ∀ c ∈ directive.toList, Text.isLineBreak c = false)
include hbreaks

/-- A comment with one assignment makes just this assignment to the default configuration. -/
theorem load_comment [Json.DepthLimit] {key : Atom} {value : Value}
    (h : Directive.readLine (Directive.comment directive).toList = .ok ([(key, value)], [])) :
    load (Directive.comment directive) [] = ({} : Config).assign key value := by
  have hflags : Flags.ofSource (Directive.comment directive) = .ok ⟨[(key, value)]⟩ := by
    simp only [Flags.ofSource, Directive.candidates_comment hbreaks, Directive.readLines, h]
    rfl
  rw [load, bind_of_ok hflags, withFlags, assignAll]
  cases ({} : Config).assign key value <;> rfl

theorem load_comment_error [Json.DepthLimit] {e : FlagError}
    (h : Directive.readLine (Directive.comment directive).toList = .error e) :
    load (Directive.comment directive) [] = .error e := by
  have hflags : Flags.ofSource (Directive.comment directive) = .error e := by
    simp only [Flags.ofSource, Directive.candidates_comment hbreaks, Directive.readLines, h]
  rw [load, bind_of_error hflags]

end Config

end ScopeMachine
