import ScopeMachine.Source.Lexer

/-! Layout: the blanks and comments between tokens. What the lexer splits off the front of a text
is layout and stops where a token could start, and no other split does both. -/
namespace ScopeMachine

/-- Blanks and comments in front of `behind`. A comment runs to a line feed or to the end of the
text. -/
inductive Layout (behind : List Char) : List Char → Prop
  | nil : Layout behind []
  | blank {c : Char} {cs : List Char} (hc : c ∈ [' ', '\t', '\n', '\r'])
      (more : Layout behind cs) : Layout behind (c :: cs)
  | comment {body cs : List Char} (hbody : '\n' ∉ body) (more : Layout behind cs) :
      Layout behind ('#' :: (body ++ '\n' :: cs))
  | lastComment {body : List Char} (hbody : '\n' ∉ body) (hend : behind = []) :
      Layout behind ('#' :: body)

/-- A character with which layout starts. -/
def Lexer.startsLayout (c : Char) : Bool := isSpace c || c = '#'

namespace Lexer

theorem isSpace_iff {c : Char} : isSpace c = true ↔ c ∈ [' ', '\t', '\n', '\r'] := by
  simp [isSpace, or_assoc]

theorem splitLayout_true_cons (c : Char) (rest : List Char) :
    splitLayout true (c :: rest) =
      (c :: (splitLayout (c != '\n') rest).1, (splitLayout (c != '\n') rest).2) := rfl

theorem splitLayout_false_cons (c : Char) (rest : List Char) :
    splitLayout false (c :: rest) =
      if startsLayout c then
        (c :: (splitLayout (c = '#') rest).1, (splitLayout (c = '#') rest).2)
      else ([], c :: rest) := rfl

/-- Inside a comment, what is split off is the rest of the comment and, unless the text ends there,
a line feed and further layout. -/
def CommentSplit (behind layout : List Char) : Prop :=
  ∃ body, '\n' ∉ body ∧
    ((∃ more, layout = body ++ '\n' :: more ∧ Layout behind more) ∨ layout = body ∧ behind = [])

theorem CommentSplit.layout {behind layout : List Char} (h : CommentSplit behind layout) :
    Layout behind ('#' :: layout) := by
  obtain ⟨body, hbody, ⟨more, rfl, hmore⟩ | ⟨rfl, hend⟩⟩ := h
  · exact .comment hbody hmore
  · exact .lastComment hbody hend

theorem CommentSplit.cons {behind layout : List Char} {c : Char} (hc : c ≠ '\n')
    (h : CommentSplit behind layout) : CommentSplit behind (c :: layout) := by
  obtain ⟨body, hbody, hlayout⟩ := h
  refine ⟨c :: body, by simp [hbody, hc.symm], ?_⟩
  rcases hlayout with ⟨more, rfl, hmore⟩ | ⟨rfl, hend⟩
  · exact .inl ⟨more, rfl, hmore⟩
  · exact .inr ⟨rfl, hend⟩

theorem splitLayout_sound (cs : List Char) :
    Layout (splitLayout false cs).2 (splitLayout false cs).1 ∧
      CommentSplit (splitLayout true cs).2 (splitLayout true cs).1 := by
  induction cs with
  | nil => exact ⟨.nil, [], by simp, .inr ⟨rfl, rfl⟩⟩
  | cons c rest ih =>
    obtain ⟨hplain, hcomment⟩ := ih
    rw [splitLayout_false_cons, splitLayout_true_cons]
    constructor
    · split
      · rename_i hc
        by_cases hhash : c = '#'
        · simpa [hhash] using hcomment.layout
        · have hspace : isSpace c = true := by simpa [startsLayout, hhash] using hc
          simpa [hhash] using Layout.blank (isSpace_iff.mp hspace) hplain
      · exact .nil
    · by_cases hc : c = '\n'
      · refine ⟨[], by simp, .inl ⟨(splitLayout false rest).1, ?_, ?_⟩⟩
        · simp [hc]
        · simpa [hc] using hplain
      · have hne : (c != '\n') = true := by simpa using hc
        rw [hne]
        exact hcomment.cons hc

theorem splitLayout_comment {body : List Char} (hbody : '\n' ∉ body) (cs : List Char) :
    splitLayout true (body ++ '\n' :: cs) =
      (body ++ '\n' :: (splitLayout false cs).1, (splitLayout false cs).2) := by
  induction body with
  | nil => simp [splitLayout]
  | cons c body ih =>
    simp only [List.mem_cons, not_or] at hbody
    have hc : (c != '\n') = true := by simpa using fun h => hbody.1 h.symm
    simp [splitLayout_true_cons, hc, ih hbody.2]

theorem splitLayout_lastComment {body : List Char} (hbody : '\n' ∉ body) :
    splitLayout true body = (body, []) := by
  induction body with
  | nil => rfl
  | cons c body ih =>
    simp only [List.mem_cons, not_or] at hbody
    have hc : (c != '\n') = true := by simpa using fun h => hbody.1 h.symm
    simp [splitLayout_true_cons, hc, ih hbody.2]

theorem splitLayout_of_layout {behind layout : List Char} (h : Layout behind layout)
    (hbehind : ∀ c, behind.head? = some c → startsLayout c = false) :
    splitLayout false (layout ++ behind) = (layout, behind) := by
  induction h with
  | nil =>
    cases behind with
    | nil => rfl
    | cons c rest =>
      simp [splitLayout_false_cons, hbehind c rfl]
  | @blank c cs hc _ ih =>
    have hhash : c ≠ '#' := by
      rintro rfl
      simp at hc
    simp [splitLayout_false_cons, startsLayout, isSpace_iff.mpr hc, hhash, ih]
  | comment hbody _ ih =>
    simp [splitLayout_false_cons, startsLayout, splitLayout_comment hbody, ih]
  | lastComment hbody hend =>
    subst hend
    simp [splitLayout_false_cons, startsLayout, splitLayout_lastComment hbody]

end Lexer

end ScopeMachine
