import ScopeMachine.Proofs.Json.RoundTrip
import ScopeMachine.Proofs.Text.Pieces

/-! Lists of texts on one line. Texts that need no escapes are read as they stand between the
quotes, and an object with such a list for its only member as a table with the list for its only
entry. -/
namespace ScopeMachine.Json

/-- No character of a text need be escaped between quotes. -/
def Unescaped (text : String) : Prop := ∀ c ∈ text.toList, c ≠ '"' ∧ c ≠ '\\' ∧ 0x20 ≤ c.toNat

def inQuotes (text : String) : String := "\"" ++ text ++ "\""

/-- Texts in quotes with commas between them. -/
def textItems (texts : List String) : String := Text.join ", " (texts.map inQuotes)

/-- An object with a list of texts for its only member. -/
def textObject (key : String) (texts : List String) : String :=
  "\x7b" ++ inQuotes key ++ ": [" ++ textItems texts ++ "]\x7d"

variable {texts : List String}

theorem toList_inQuotes (text : String) :
    (inQuotes text).toList = '"' :: (text.toList ++ ['"']) := by
  simp [inQuotes]

theorem toList_textItems_cons (text next : String) (rest : List String) :
    (textItems (text :: next :: rest)).toList =
      (inQuotes text).toList ++ ',' :: ' ' :: (textItems (next :: rest)).toList := by
  rw [textItems, List.map_cons, List.map_cons, toList_join_cons]
  simp [textItems]

theorem toList_textObject (key : String) (texts : List String) :
    (textObject key texts).toList =
      '\x7b' :: ((inQuotes key).toList ++
        ':' :: ' ' :: '[' :: ((textItems texts).toList ++ [']', '\x7d'])) := by
  simp [textObject]

theorem textItems_starts (hne : texts ≠ []) :
    ∃ tail, (textItems texts).toList = '"' :: tail := by
  obtain ⟨text, rest, rfl⟩ := List.exists_cons_of_ne_nil hne
  obtain ⟨tail, hjoined⟩ := join_starts ", " (inQuotes text) (rest.map inQuotes)
  rw [toList_inQuotes] at hjoined
  exact ⟨text.toList ++ ['"'] ++ tail, hjoined⟩

theorem skipSpace_textItems (hne : texts ≠ []) (rest : List Char) :
    skipSpace (' ' :: ((textItems texts).toList ++ rest)) = (textItems texts).toList ++ rest ∧
      skipSpace ((textItems texts).toList ++ rest) = (textItems texts).toList ++ rest := by
  obtain ⟨tail, htail⟩ := textItems_starts hne
  rw [htail]
  exact ⟨rfl, rfl⟩

/-- What holds of the characters of all texts, and of those between them, holds of an object. -/
theorem forall_mem_textObject {p : Char → Prop} {key : String}
    (hmarks : ∀ c ∈ ['\x7b', '"', ':', ' ', '[', ',', ']', '\x7d'], p c)
    (hkey : ∀ c ∈ key.toList, p c) (htexts : ∀ text ∈ texts, ∀ c ∈ text.toList, p c) :
    ∀ c ∈ (textObject key texts).toList, p c := by
  simp only [List.forall_mem_cons] at hmarks
  obtain ⟨hopen, hquote, hcolon, hspace, hbracket, hcomma, hend, hclose, -⟩ := hmarks
  have hquoted {text : String} (h : ∀ c ∈ text.toList, p c) :
      ∀ c ∈ (inQuotes text).toList, p c := by
    rw [toList_inQuotes, List.forall_mem_cons, List.forall_mem_append]
    exact ⟨hquote, h, List.forall_mem_singleton.mpr hquote⟩
  have hitems : ∀ c ∈ (textItems texts).toList, p c := by
    intro c hc
    rcases Text.mem_join hc with hc | ⟨quoted, hmem, hc⟩
    · have hseparator : ∀ d ∈ ", ".toList, p d :=
        List.forall_mem_cons.mpr ⟨hcomma, List.forall_mem_singleton.mpr hspace⟩
      exact hseparator c hc
    · obtain ⟨text, htext, rfl⟩ := List.mem_map.mp hmem
      exact hquoted (htexts text htext) c hc
  rw [toList_textObject]
  simp only [List.forall_mem_cons, List.forall_mem_append]
  exact ⟨hopen, hquoted hkey, hcolon, hspace, hbracket, hitems, hend, hclose, by simp⟩

/-! ### Reading -/

theorem readText_unescaped {text : String} (h : Unescaped text) (opening : Nat)
    (rest : List Char) :
    readText opening 0 (text.toList ++ '"' :: rest) =
      .ok (text.toList.map Char.toNat, rest) := by
  unfold Unescaped at h
  generalize text.toList = cs at h ⊢
  induction cs with
  | nil => rfl
  | cons c cs ih =>
    obtain ⟨⟨hquote, hslash, hcontrol⟩, hcs⟩ := List.forall_mem_cons.mp h
    rw [List.cons_append, readText_plain hquote hslash hcontrol, ih hcs]
    rfl

theorem readValue_inQuotes {text : String} (h : Unescaped text) (steps levels : Nat)
    (rest : List Char) :
    readValue (steps + 1) levels ((inQuotes text).toList ++ rest) = .ok (.str text, rest) := by
  have htext (opening : Nat) := readText_unescaped h opening rest
  have hcons : (inQuotes text).toList ++ rest = '"' :: (text.toList ++ '"' :: rest) := by
    simp [toList_inQuotes]
  rw [hcons]
  simp [readValue, htext, ofCodes_toList]

theorem readItems_textItems (hne : texts ≠ []) (h : ∀ text ∈ texts, Unescaped text)
    (levels : Nat) (rest : List Char) {steps : Nat}
    (hsteps : (textItems texts).toList.length < steps) :
    readItems steps levels ((textItems texts).toList ++ ']' :: rest) =
      .ok (texts.map .str, rest) := by
  induction texts generalizing steps with
  | nil => exact absurd rfl hne
  | cons text more ih =>
    obtain ⟨htext, hmore⟩ := List.forall_mem_cons.mp h
    cases more with
    | nil =>
      have hlength : (inQuotes text).toList.length < steps := hsteps
      rw [toList_inQuotes, List.length_cons] at hlength
      obtain ⟨steps, rfl⟩ : ∃ s, steps = s + 2 := ⟨steps - 2, by omega⟩
      change readItems (steps + 2) levels ((inQuotes text).toList ++ ']' :: rest) = _
      rw [readItems, bind_of_ok (readValue_inQuotes htext steps levels (']' :: rest))]
      rfl
    | cons next more =>
      rw [toList_textItems_cons] at hsteps ⊢
      rw [List.length_append, List.length_cons, List.length_cons] at hsteps
      obtain ⟨steps, rfl⟩ : ∃ s, steps = s + 2 := ⟨steps - 2, by omega⟩
      have hne := List.cons_ne_nil next more
      have hitems := ih hne hmore (by omega : _ < steps + 1)
      have hcomma (behind : List Char) : skipSpace (',' :: behind) = ',' :: behind :=
        skipSpace_cons (by decide) behind
      rw [List.append_assoc, List.cons_append, List.cons_append, readItems,
        bind_of_ok (readValue_inQuotes htext steps levels _)]
      simp only [hcomma, (skipSpace_textItems hne (']' :: rest)).1]
      rw [bind_of_ok hitems]
      rfl

theorem readValue_textItems (hne : texts ≠ []) (h : ∀ text ∈ texts, Unescaped text)
    (levels : Nat) (rest : List Char) {steps : Nat}
    (hsteps : (textItems texts).toList.length < steps) :
    readValue (steps + 1) (levels + 1) ('[' :: ((textItems texts).toList ++ ']' :: rest)) =
      .ok (.list (texts.map .str), rest) := by
  have hitems := readItems_textItems hne h levels rest hsteps
  obtain ⟨-, hskip⟩ := skipSpace_textItems hne (']' :: rest)
  obtain ⟨tail, htail⟩ := textItems_starts hne
  rw [htail, List.cons_append] at hitems hskip ⊢
  simp [readValue, hskip, hitems]

theorem readMembers_textObject {key : String} (hkey : Unescaped key) (hne : texts ≠ [])
    (h : ∀ text ∈ texts, Unescaped text) (levels : Nat) (rest : List Char) {steps : Nat}
    (hsteps : (textItems texts).toList.length < steps) :
    readMembers (steps + 2) (levels + 1)
        ((inQuotes key).toList ++
          ':' :: ' ' :: '[' :: ((textItems texts).toList ++ ']' :: '\x7d' :: rest)) =
      .ok ([(.str key, .list (texts.map .str))], rest) := by
  have hlist := readValue_textItems hne h levels ('\x7d' :: rest) hsteps
  have htext (opening : Nat) := readText_unescaped hkey opening
    (':' :: ' ' :: '[' :: ((textItems texts).toList ++ ']' :: '\x7d' :: rest))
  have hcolon (behind : List Char) : skipSpace (':' :: behind) = ':' :: behind :=
    skipSpace_cons (by decide) behind
  have hspace (behind : List Char) : skipSpace (' ' :: '[' :: behind) = '[' :: behind := rfl
  rw [toList_inQuotes, List.cons_append, List.append_assoc, List.singleton_append, readMembers,
    bind_of_ok (htext _)]
  simp only [hcolon, hspace]
  rw [bind_of_ok hlist, ofCodes_toList]
  rfl

/-- An object on one line is read as a table with one entry. -/
theorem read_textObject [DepthLimit] (hdepth : 2 ≤ DepthLimit.brackets) {key : String}
    (hkey : Unescaped key) (hne : texts ≠ []) (h : ∀ text ∈ texts, Unescaped text) :
    read (textObject key texts).toList = .ok (.dict [(.str key, .list (texts.map .str))]) := by
  have hlength := congrArg List.length (toList_textObject key texts)
  simp only [List.length_cons, List.length_append] at hlength
  obtain ⟨steps, hsteps, hlong⟩ : ∃ s, 2 * (textObject key texts).toList.length + 2 = s + 3 ∧
      (textItems texts).toList.length < s :=
    ⟨2 * (textObject key texts).toList.length - 1, by omega, by omega⟩
  obtain ⟨levels, hlevels⟩ := Nat.exists_eq_add_of_le' hdepth
  have hmembers := readMembers_textObject hkey hne h levels [] hlong
  have hstart : skipSpace (textObject key texts).toList = (textObject key texts).toList := by
    rw [toList_textObject]
    rfl
  have hobject : readValue (steps + 3) DepthLimit.brackets (textObject key texts).toList =
      .ok (.dict [(.str key, .list (texts.map .str))], []) := by
    rw [toList_inQuotes, List.cons_append] at hmembers
    rw [toList_textObject, hlevels, toList_inQuotes, List.cons_append]
    generalize key.toList ++ ['"'] ++ ':' :: ' ' :: '[' ::
      ((textItems texts).toList ++ [']', '\x7d']) = members at hmembers ⊢
    have hquote : skipSpace ('"' :: members) = '"' :: members := rfl
    simp [readValue, hquote, hmembers]
    rfl
  rw [read, hsteps, hstart, bind_of_ok hobject]
  rfl

end ScopeMachine.Json
