import ScopeMachine.Proofs.Json.Number
import ScopeMachine.Proofs.Json.Quoted

/-! Values read back. What is written is read as the value it was written for, but every key comes
back as a text: a table with keys that are written alike keeps the last of their values only. -/
namespace ScopeMachine

/-- Neither an integer too long to be written nor a float that is not a number. -/
def Atom.Ordinary (a : Atom) : Prop := a.Writable ∧ (Value.atom a).isNaN = false

theorem Atom.ordinary_str (s : String) : (Atom.str s).Ordinary := ⟨writable_str s, rfl⟩

/-- An atom that is read back as itself. -/
structure Atom.Readable (a : Atom) : Prop extends a.Sound where
  isNaN_eq : (Value.atom a).isNaN = false

/-- Every atom in a value satisfies `p`, and its brackets open at most so many levels. -/
inductive Value.Within (p : Atom → Prop) : (levels : Nat) → Value → Prop
  | atom {levels : Nat} {a : Atom} (h : p a) : Within p levels (.atom a)
  | list {levels : Nat} {items : List Value} (h : ∀ v ∈ items, Within p levels v) :
      Within p (levels + 1) (.list items)
  | dict {levels : Nat} {entries : List (Atom × Value)} (hkeys : ∀ e ∈ entries, p e.1)
      (hvalues : ∀ e ∈ entries, Within p levels e.2) : Within p (levels + 1) (.dict entries)

namespace Json

/-- What a key is read back as. -/
def keyText : Atom → Atom
  | .codes points => .codes points
  | a => .str ((bareAtom? a).getD "")

end Json

mutual

/-- A value with texts for keys. Of keys with the same text the last one counts. -/
def Value.withTextKeys : Value → Value
  | .atom a => .atom a
  | .list items => .list (Value.itemsWithTextKeys items)
  | .dict entries => .dict (OrderedMap.ofList (Value.entriesWithTextKeys entries)).entries

def Value.itemsWithTextKeys : List Value → List Value
  | [] => []
  | v :: rest => v.withTextKeys :: Value.itemsWithTextKeys rest

def Value.entriesWithTextKeys : List (Atom × Value) → List (Atom × Value)
  | [] => []
  | (k, v) :: rest => (Json.keyText k, v.withTextKeys) :: Value.entriesWithTextKeys rest

end

theorem Value.itemsWithTextKeys_eq (items : List Value) :
    itemsWithTextKeys items = items.map withTextKeys := by
  induction items with
  | nil => rfl
  | cons v rest ih => rw [itemsWithTextKeys, ih, List.map_cons]

theorem Value.entriesWithTextKeys_eq (entries : List (Atom × Value)) :
    entriesWithTextKeys entries = entries.map fun e => (Json.keyText e.1, e.2.withTextKeys) := by
  induction entries with
  | nil => rfl
  | cons e rest ih => rw [entriesWithTextKeys, ih, List.map_cons]

namespace Json

/-! ### Atoms -/

/-- A text is read as a value wherever it stands, if there are steps enough. -/
structure ReadBack (levels : Nat) (text : List Char) (v : Value) : Prop where
  starts : ∃ c tail, text = c :: tail ∧ isSpace c = false ∧ c ≠ ']'
  readValue_eq {steps : Nat} {rest : List Char} (hsteps : text.length < steps)
    (hrest : Closes rest) : readValue steps levels (text ++ rest) = .ok (v, rest)

theorem readBack_word {word : List Char} {v : Value} (h : (word, v) ∈ words) (levels : Nat) :
    ReadBack levels word v := by
  simp only [words, List.mem_cons, Prod.mk.injEq, List.not_mem_nil, or_false] at h
  constructor
  · rcases h with ⟨rfl, -⟩ | ⟨rfl, -⟩ | ⟨rfl, -⟩ | ⟨rfl, -⟩ | ⟨rfl, -⟩ | ⟨rfl, -⟩ <;>
      exact ⟨_, _, rfl, by decide, by decide⟩
  · intro steps rest hsteps hrest
    obtain ⟨steps, rfl⟩ := Nat.exists_eq_succ_of_ne_zero (Nat.ne_zero_of_lt hsteps)
    rcases h with ⟨rfl, rfl⟩ | ⟨rfl, rfl⟩ | ⟨rfl, rfl⟩ | ⟨rfl, rfl⟩ | ⟨rfl, rfl⟩ | ⟨rfl, rfl⟩ <;>
      simp [readValue, readWord?, words, List.isPrefixOf]

theorem Spelling.Spells.readBack {s : Spelling} {text : List Char} {v : Value}
    (h : s.Spells text v) (levels : Nat) : ReadBack levels text v := by
  constructor
  · obtain ⟨c, more, htext, hfirst⟩ := h.wellFormed.text_cons
    refine ⟨c, more, h.text_eq ▸ htext, ?_⟩
    rcases hfirst with hdigit | ⟨rfl, -⟩
    · have hne (d : Char) (hd : Text.isAsciiDigit d = false) : c ≠ d :=
        ne_of_isAsciiDigit hdigit hd
      refine ⟨?_, hne ']' rfl⟩
      simp [isSpace, hne ' ' rfl, hne '\t' rfl, hne '\n' rfl, hne '\r' rfl]
    · decide
  · intro steps rest hsteps hrest
    obtain ⟨steps, rfl⟩ := Nat.exists_eq_succ_of_ne_zero (Nat.ne_zero_of_lt hsteps)
    exact h.readValue_eq hrest steps levels

/-- Code points between quotes. -/
def quotedPoints (points : List Nat) : List Char := '"' :: (points.flatMap escapePoint ++ ['"'])

theorem readBack_quotedPoints {points : List Nat} (h : Coded points) (levels : Nat) :
    ReadBack levels (quotedPoints points) (.atom (.ofCodes points)) := by
  constructor
  · exact ⟨_, _, rfl, by decide, by decide⟩
  · intro steps rest hsteps hrest
    obtain ⟨steps, rfl⟩ := Nat.exists_eq_succ_of_ne_zero (Nat.ne_zero_of_lt hsteps)
    have htext (opening : Nat) := readText_escapePoints h opening rest
    simp [quotedPoints, readValue, htext]

theorem readBack_atom? {a : Atom} (ha : a.Readable) {text : String} (h : atom? a = some text)
    (levels : Nat) : ReadBack levels text.toList (.atom a) := by
  cases a with
  | null =>
    cases h
    exact readBack_word (by simp [words]) levels
  | bool b =>
    cases b <;> cases h <;> exact readBack_word (by simp [words]) levels
  | int i =>
    have hshort := Atom.writable_iff.mp ha.writable i rfl
    have htext : Numeral.ofInt i = text := by
      simpa [atom?, bareAtom?, Numeral.ofInt?, hshort] using h
    rw [← htext]
    exact (spells_ofInt hshort).readBack levels
  | float x =>
    have hnumber : x.isNaN = false := ha.isNaN_eq
    have htext : ofBinary64 x = text := by simpa [atom?, bareAtom?] using h
    rw [← htext, ofBinary64, hnumber, if_neg Bool.false_ne_true]
    have hle : x.word ≤ Binary64.top := by simpa [Binary64.isNaN] using hnumber
    rcases Nat.lt_or_eq_of_le hle with hfinite | htop
    · have hbounded : x.isInfinite = false := by simp [Binary64.isInfinite, hfinite.ne]
      obtain ⟨s, hs⟩ := exists_spells_ofBinary64 hfinite
      rw [hbounded, if_neg Bool.false_ne_true]
      exact hs.readBack levels
    · have hbounded : x.isInfinite = true := by simp [Binary64.isInfinite, htop]
      have hx : x = .infinity x.negative := by rw [Binary64.infinity, ← htop]
      rw [hbounded, if_pos rfl]
      cases hsign : x.negative with
      | true =>
        rw [hsign] at hx
        rw [hx]
        exact readBack_word (by simp [words]) levels
      | false =>
        rw [hsign] at hx
        rw [hx]
        exact readBack_word (by simp [words]) levels
  | str s =>
    cases h
    have hcoded := coded_of_isValidChar fun n hn => isValidChar_of_mem_toList (s := s) hn
    have hread := readBack_quotedPoints hcoded levels
    rwa [ofCodes_toList, quotedPoints, ← toList_quoted] at hread
  | codes points =>
    cases h
    obtain ⟨hcoded, hcodes⟩ := ha.wellCoded points rfl
    have hread := readBack_quotedPoints hcoded levels
    rwa [hcodes, quotedPoints, ← toList_quotedCodes] at hread

/-- The code points that a key is read as. -/
theorem exists_points_of_key? {k : Atom} (hk : k.Sound) {text : String}
    (h : key? k = some text) :
    ∃ points, Coded points ∧ Atom.ofCodes points = keyText k ∧
      text.toList = quotedPoints points := by
  by_cases hcodes : ∃ points, k = .codes points
  · obtain ⟨points, rfl⟩ := hcodes
    cases h
    obtain ⟨hcoded, hcodes⟩ := hk.wellCoded points rfl
    exact ⟨points, hcoded, hcodes, toList_quotedCodes points⟩
  · have hbare : key? k = (bareAtom? k).map quoted ∧ keyText k = .str ((bareAtom? k).getD "") := by
      cases k with
      | codes points => exact absurd ⟨points, rfl⟩ hcodes
      | _ => exact ⟨rfl, rfl⟩
    rw [hbare.1] at h
    obtain ⟨s, hs, rfl⟩ := Option.map_eq_some_iff.mp h
    have hcoded := coded_of_isValidChar fun n hn => isValidChar_of_mem_toList (s := s) hn
    refine ⟨s.toList.map Char.toNat, hcoded, ?_, toList_quoted s⟩
    rw [ofCodes_toList, hbare.2, hs]
    rfl

/-! ### Layout -/

/-- What stands between two items. -/
def separator (level : Nat) : String := "," ++ newline level

theorem toList_newline (level : Nat) :
    (newline level).toList = '\n' :: List.replicate (2 * level) ' ' :=
  String.toList_ofList

theorem toList_separator (level : Nat) :
    (separator level).toList = ',' :: (newline level).toList := by
  rw [separator, String.toList_append]
  rfl

theorem closes_newline (level : Nat) (rest : List Char) :
    Closes ((newline level).toList ++ rest) := by
  rw [toList_newline]
  rintro c ⟨⟩
  exact .inr rfl

theorem closes_separator (level : Nat) (rest : List Char) :
    Closes ((separator level).toList ++ rest) := by
  rw [toList_separator]
  rintro c ⟨⟩
  exact .inl rfl

theorem skipSpace_cons {c : Char} (hc : isSpace c = false) (tail : List Char) :
    skipSpace (c :: tail) = c :: tail := by
  simp [skipSpace, hc]

theorem skipSpace_newline (level : Nat) {c : Char} (hc : isSpace c = false) (tail : List Char) :
    skipSpace ((newline level).toList ++ c :: tail) = c :: tail := by
  rw [skipSpace, List.dropWhile_append_of_pos, ← skipSpace, skipSpace_cons hc]
  intro d hd
  rw [toList_newline] at hd
  rcases List.mem_cons.mp hd with rfl | hd
  · decide
  · rw [List.eq_of_mem_replicate hd]
    decide

theorem toList_join_cons (separator s t : String) (rest : List String) :
    (Text.join separator (s :: t :: rest)).toList =
      s.toList ++ (separator.toList ++ (Text.join separator (t :: rest)).toList) := by
  simp [Text.join]

theorem toList_block {left right : String} (level : Nat) {texts : List String}
    (hne : texts ≠ []) :
    (block left level texts right).toList =
      left.toList ++ ((newline (level + 1)).toList ++
        ((Text.join (separator (level + 1)) texts).toList ++
          ((newline level).toList ++ right.toList))) := by
  unfold block
  split
  · exact absurd rfl hne
  · simp [separator]

/-- Joined texts begin as the first of them does. -/
theorem join_starts (separator text : String) (texts : List String) :
    ∃ tail, (Text.join separator (text :: texts)).toList = text.toList ++ tail := by
  cases texts with
  | nil => exact ⟨[], by simp [Text.join]⟩
  | cons t rest => exact ⟨_, toList_join_cons separator text t rest⟩

/-! ### Sequences -/

section Sequences

variable {α : Type} {read : Nat → List Char → Except Error (List α × List Char)} {close : Char}
  {back : List Char → α → Prop}

/-- A reader takes texts with commas between them, each as what `back` says, up to a bracket. -/
structure ReadsSequence (read : Nat → List Char → Except Error (List α × List Char))
    (close : Char) (back : List Char → α → Prop) : Prop where
  isSpace_close : isSpace close = false
  starts {text : List Char} {a : α} (h : back text a) :
    ∃ c tail, text = c :: tail ∧ isSpace c = false ∧ c ≠ close
  read_last {steps : Nat} {text behind after : List Char} {a : α} (h : back text a)
    (hsteps : text.length < steps) (hbehind : Closes behind)
    (hskip : skipSpace behind = close :: after) :
    read (steps + 1) (text ++ behind) = .ok ([a], after)
  read_more {steps : Nat} {text behind after rest : List Char} {a : α} {more : List α}
    (h : back text a) (hsteps : text.length < steps) (hbehind : Closes behind)
    (hskip : skipSpace behind = ',' :: after)
    (hmore : read steps (skipSpace after) = .ok (more, rest)) :
    read (steps + 1) (text ++ behind) = .ok (a :: more, rest)

theorem ReadsSequence.read_join (hseq : ReadsSequence read close back) (level inner : Nat)
    {texts : List String} {as : List α}
    (h : List.Forall₂ (fun a text => back text.toList a) as texts) (hne : texts ≠ [])
    (steps : Nat) (hsteps : (Text.join (separator inner) texts).toList.length + 1 < steps)
    (rest : List Char) :
    read steps ((Text.join (separator inner) texts).toList ++
      ((newline level).toList ++ close :: rest)) = .ok (as, rest) := by
  induction h generalizing steps with
  | nil => exact absurd rfl hne
  | @cons a text as texts hfirst hmore ih =>
    obtain ⟨steps, rfl⟩ := Nat.exists_eq_succ_of_ne_zero (Nat.ne_zero_of_lt hsteps)
    cases hmore with
    | nil =>
      simp only [Text.join] at hsteps ⊢
      exact hseq.read_last hfirst (by omega) (closes_newline level _)
        (skipSpace_newline level hseq.isSpace_close rest)
    | @cons b t as texts hsecond hmore =>
      rw [toList_join_cons] at hsteps ⊢
      simp only [List.length_append, toList_separator, List.length_cons] at hsteps
      have hrest := ih (by simp) steps (by omega)
      obtain ⟨c, tail, htail, hc, -⟩ := hseq.starts hsecond
      obtain ⟨more, hjoin⟩ := join_starts (separator inner) t texts
      rw [List.append_assoc, List.append_assoc]
      apply hseq.read_more hfirst (by omega) (closes_separator inner _)
      · rw [toList_separator, List.cons_append, skipSpace_cons (by decide)]
      · rw [hjoin, htail] at hrest ⊢
        simp only [List.cons_append] at hrest ⊢
        rwa [skipSpace_newline inner hc]

/-- What stands in a block is read from its first character that is no space. -/
theorem ReadsSequence.read_block (hseq : ReadsSequence read close back) (left : String)
    {right : String} (hright : right.toList = [close]) (level : Nat) {texts : List String}
    {as : List α} (h : List.Forall₂ (fun a text => back text.toList a) as texts)
    (hne : texts ≠ []) :
    ∃ c tail, isSpace c = false ∧ c ≠ close ∧
      (block left level texts right).toList =
        left.toList ++ ((newline (level + 1)).toList ++ c :: tail) ∧
      ∀ steps rest, (c :: tail).length < steps →
        read steps (c :: tail ++ rest) = .ok (as, rest) := by
  cases h with
  | nil => exact absurd rfl hne
  | @cons a text as texts hfirst hmore =>
    obtain ⟨c, tail, htail, hc, hclose⟩ := hseq.starts hfirst
    obtain ⟨more, hjoin⟩ := join_starts (separator (level + 1)) text texts
    have hread := hseq.read_join level (level + 1) (.cons hfirst hmore) hne
    rw [htail] at hjoin
    refine ⟨c, tail ++ more ++ ((newline level).toList ++ [close]), hc, hclose, ?_, ?_⟩
    · rw [toList_block level hne, hjoin, hright]
      simp
    · intro steps rest hsteps
      rw [hjoin] at hread
      simp only [List.length_append, List.length_cons] at hread hsteps
      simpa using hread steps (by omega) rest

end Sequences

theorem readsSequence_readItems (levels : Nat) :
    ReadsSequence (fun steps cs => readItems steps levels cs) ']' (ReadBack levels) where
  isSpace_close := by decide
  starts h := h.starts
  read_last h hsteps hbehind hskip := by
    rw [readItems, bind_of_ok (h.readValue_eq hsteps hbehind)]
    simp only [hskip]
    rfl
  read_more h hsteps hbehind hskip hmore := by
    rw [readItems, bind_of_ok (h.readValue_eq hsteps hbehind)]
    simp only [hskip, hmore]
    rfl

theorem readBack_list {levels level : Nat} {texts : List String} {values : List Value}
    (h : List.Forall₂ (fun v text => ReadBack levels text.toList v) values texts) :
    ReadBack (levels + 1) (block "[" level texts "]").toList (.list values) := by
  by_cases hne : texts = []
  · subst hne
    cases h
    have hempty : (block "[" level [] "]").toList = ['[', ']'] := by simp [block]
    rw [hempty]
    refine ⟨⟨'[', [']'], rfl, by decide, by decide⟩, fun {steps rest} hsteps _ => ?_⟩
    obtain ⟨steps, rfl⟩ := Nat.exists_eq_succ_of_ne_zero (Nat.ne_zero_of_lt hsteps)
    rfl
  · obtain ⟨c, tail, hc, hend, htext, hitems⟩ :=
      (readsSequence_readItems levels).read_block "[" (by simp : "]".toList = [']']) level h hne
    rw [htext]
    refine ⟨⟨'[', _, rfl, by decide, by decide⟩, fun {steps rest} hsteps _ => ?_⟩
    obtain ⟨steps, rfl⟩ := Nat.exists_eq_succ_of_ne_zero (Nat.ne_zero_of_lt hsteps)
    simp only [List.length_append, toList_newline, List.length_cons] at hsteps
    have hread := hitems steps rest (by rw [List.length_cons]; omega)
    rw [List.cons_append] at hread
    simp only [List.cons_append, List.append_assoc, List.nil_append, String.reduceToList, readValue,
      skipSpace_newline (level + 1) hc]
    simp [hread, hend]

/-- A text is read as an entry of a table. -/
def EntryBack (levels : Nat) (text : List Char) (e : Atom × Value) : Prop :=
  ∃ points value, text = quotedPoints points ++ ':' :: ' ' :: value ∧ Coded points ∧
    Atom.ofCodes points = e.1 ∧ ReadBack levels value e.2

/-- What a member is read as, up to what stands behind its value. -/
theorem readMembers_entry {levels steps : Nat} {text behind : List Char} {e : Atom × Value}
    (h : EntryBack levels text e) (hsteps : text.length < steps) (hbehind : Closes behind) :
    readMembers (steps + 1) levels (text ++ behind) =
      match skipSpace behind with
      | '\x7d' :: after => .ok ([e], after)
      | ',' :: after => do
        let (entries, after) ← readMembers steps levels (skipSpace after)
        .ok (e :: entries, after)
      | rest => .error (.malformed .comma rest.length) := by
  obtain ⟨points, value, rfl, hcoded, hkey, hvalue⟩ := h
  obtain ⟨c, tail, rfl, hc, -⟩ := hvalue.starts
  have htext (opening : Nat) :=
    readText_escapePoints hcoded opening (':' :: ' ' :: (c :: tail ++ behind))
  have hlength : (c :: tail).length < steps := by
    simp only [quotedPoints, List.length_append, List.length_cons] at hsteps ⊢
    omega
  have hread := hvalue.readValue_eq hlength hbehind
  have hblank : isSpace ' ' = true := by decide
  have hskip : skipSpace (' ' :: (c :: tail ++ behind)) = c :: tail ++ behind := by
    simp [skipSpace, hblank, hc]
  have hcolon := skipSpace_cons (by decide : isSpace ':' = false) (' ' :: (c :: tail ++ behind))
  simp only [quotedPoints, List.cons_append, List.append_assoc, List.nil_append]
    at htext hread hskip hcolon ⊢
  rw [readMembers, bind_of_ok (htext _)]
  simp only [hcolon, hskip]
  rw [bind_of_ok hread, hkey]
  rfl

theorem readsSequence_readMembers (levels : Nat) :
    ReadsSequence (fun steps cs => readMembers steps levels cs) '\x7d' (EntryBack levels) where
  isSpace_close := by decide
  starts := by
    rintro text e ⟨points, value, rfl, -⟩
    exact ⟨'"', _, rfl, by decide, by decide⟩
  read_last h hsteps hbehind hskip := by
    rw [readMembers_entry h hsteps hbehind]
    simp only [hskip]
  read_more h hsteps hbehind hskip hmore := by
    rw [readMembers_entry h hsteps hbehind]
    simp only [hskip, hmore]
    rfl

theorem readBack_dict {levels level : Nat} {texts : List String} {entries : List (Atom × Value)}
    (h : List.Forall₂ (fun e text => EntryBack levels text.toList e) entries texts) :
    ReadBack (levels + 1) (block "\x7b" level texts "\x7d").toList
      (.dict (OrderedMap.ofList entries).entries) := by
  by_cases hne : texts = []
  · subst hne
    cases h
    have hempty : (block "\x7b" level [] "\x7d").toList = ['\x7b', '\x7d'] := by simp [block]
    rw [hempty]
    refine ⟨⟨'\x7b', ['\x7d'], rfl, by decide, by decide⟩, fun {steps rest} hsteps _ => ?_⟩
    obtain ⟨steps, rfl⟩ := Nat.exists_eq_succ_of_ne_zero (Nat.ne_zero_of_lt hsteps)
    rfl
  · have hbrace : "\x7d".toList = ['\x7d'] := by simp
    obtain ⟨c, tail, hc, hend, htext, hmembers⟩ :=
      (readsSequence_readMembers levels).read_block "\x7b" hbrace level h hne
    rw [htext]
    refine ⟨⟨'\x7b', _, rfl, by decide, by decide⟩, fun {steps rest} hsteps _ => ?_⟩
    obtain ⟨steps, rfl⟩ := Nat.exists_eq_succ_of_ne_zero (Nat.ne_zero_of_lt hsteps)
    simp only [List.length_append, toList_newline, List.length_cons] at hsteps
    have hread := hmembers steps rest (by rw [List.length_cons]; omega)
    rw [List.cons_append] at hread
    simp only [List.cons_append, List.append_assoc, List.nil_append, String.reduceToList, readValue,
      skipSpace_newline (level + 1) hc]
    simp [hread, hend]

/-! ### Values -/

theorem forall₂_of_writeItems? {level : Nat} {items : List Value} {texts : List String}
    (h : writeItems? level items = some texts) :
    List.Forall₂ (fun v text => write? level v = some text) items texts := by
  induction items generalizing texts with
  | nil =>
    cases h
    exact .nil
  | cons v rest ih =>
    obtain ⟨text, htext, h⟩ := Option.bind_eq_some_iff.mp h
    obtain ⟨more, hmore, h⟩ := Option.bind_eq_some_iff.mp h
    cases h
    exact .cons htext (ih hmore)

theorem forall₂_of_writeEntries? {level : Nat} {entries : List (Atom × Value)}
    {texts : List String} (h : writeEntries? level entries = some texts) :
    List.Forall₂ (fun e text => ∃ key value, key? e.1 = some key ∧ write? level e.2 = some value ∧
      text = key ++ ": " ++ value) entries texts := by
  induction entries generalizing texts with
  | nil =>
    cases h
    exact .nil
  | cons e rest ih =>
    obtain ⟨key, hkey, h⟩ := Option.bind_eq_some_iff.mp h
    obtain ⟨value, hvalue, h⟩ := Option.bind_eq_some_iff.mp h
    obtain ⟨more, hmore, h⟩ := Option.bind_eq_some_iff.mp h
    cases h
    exact .cons ⟨key, value, hkey, hvalue, rfl⟩ (ih hmore)

/-- What is written is read back, with texts for keys. -/
theorem readBack_write? {levels : Nat} {v : Value} (hv : v.Within Atom.Readable levels)
    {level : Nat} {text : String} (h : write? level v = some text) :
    ReadBack levels text.toList v.withTextKeys := by
  induction hv generalizing level text with
  | atom ha =>
    rw [Value.withTextKeys]
    exact readBack_atom? ha h _
  | @list levels items _ ih =>
    obtain ⟨texts, htexts, rfl⟩ := Option.map_eq_some_iff.mp h
    rw [Value.withTextKeys, Value.itemsWithTextKeys_eq]
    apply readBack_list
    have hitems := (List.forall₂_and_left _ _).mpr ⟨fun v hv => @ih v hv (level + 1),
      forall₂_of_writeItems? htexts⟩
    exact List.forall₂_map_left_iff.mpr (hitems.imp fun v text hv => hv.1 hv.2)
  | @dict levels entries hkeys _ ih =>
    obtain ⟨texts, htexts, rfl⟩ := Option.map_eq_some_iff.mp h
    rw [Value.withTextKeys, Value.entriesWithTextKeys_eq]
    apply readBack_dict
    have hentries := (List.forall₂_and_left _ _).mpr
      ⟨fun e he => And.intro (hkeys e he) (@ih e he (level + 1)), forall₂_of_writeEntries? htexts⟩
    refine List.forall₂_map_left_iff.mpr (hentries.imp ?_)
    rintro e text ⟨⟨hkey, hvalue⟩, key, value, hk, hv, rfl⟩
    obtain ⟨points, hcoded, hpoints, htext⟩ := exists_points_of_key? hkey.toSound hk
    exact ⟨points, value.toList, by simp [htext], hcoded, hpoints, hvalue hv⟩

theorem exists_bareAtom? {a : Atom} (h : a.Writable) : ∃ text, bareAtom? a = some text := by
  cases a with
  | int i =>
    have hsome : (Numeral.ofInt? i).isSome = true := h
    exact Option.isSome_iff_exists.mp hsome
  | bool b => cases b <;> exact ⟨_, rfl⟩
  | null | float x | str s | codes points => exact ⟨_, rfl⟩

theorem exists_atom? {a : Atom} (h : a.Writable) : ∃ text, atom? a = some text := by
  obtain ⟨text, htext⟩ := exists_bareAtom? h
  cases a with
  | str s | codes points => exact ⟨_, rfl⟩
  | null | bool b | int i | float x => exact ⟨text, by rw [atom?, htext] <;> nofun⟩

theorem exists_key? {a : Atom} (h : a.Writable) : ∃ text, key? a = some text := by
  obtain ⟨text, htext⟩ := exists_bareAtom? h
  cases a with
  | codes points => exact ⟨_, rfl⟩
  | null | bool b | int i | float x | str s => exact ⟨quoted text, by simp [key?, htext]⟩

theorem exists_writeItems? {level : Nat} {items : List Value}
    (h : ∀ v ∈ items, ∃ text, write? level v = some text) :
    ∃ texts, writeItems? level items = some texts := by
  induction items with
  | nil => exact ⟨[], rfl⟩
  | cons v rest ih =>
    obtain ⟨⟨text, htext⟩, hrest⟩ := List.forall_mem_cons.mp h
    obtain ⟨more, hmore⟩ := ih hrest
    exact ⟨text :: more, by simp [writeItems?, htext, hmore]⟩

theorem exists_writeEntries? {level : Nat} {entries : List (Atom × Value)}
    (h : ∀ e ∈ entries, e.1.Writable ∧ ∃ text, write? level e.2 = some text) :
    ∃ texts, writeEntries? level entries = some texts := by
  induction entries with
  | nil => exact ⟨[], rfl⟩
  | cons e rest ih =>
    obtain ⟨⟨hwritable, text, htext⟩, hrest⟩ := List.forall_mem_cons.mp h
    obtain ⟨key, hkey⟩ := exists_key? hwritable
    obtain ⟨more, hmore⟩ := ih hrest
    exact ⟨(key ++ ": " ++ text) :: more, by simp [writeEntries?, hkey, htext, hmore]⟩

/-- A value whose atoms can all be written can be written. -/
theorem exists_write? {v : Value} (h : v.Every Atom.Writable) (level : Nat) :
    ∃ text, write? level v = some text := by
  induction h generalizing level with
  | atom ha => exact exists_atom? ha
  | list _ ih =>
    obtain ⟨texts, htexts⟩ := exists_writeItems? fun v hv => ih v hv (level + 1)
    exact ⟨block "[" level texts "]", by rw [write?, htexts, Option.map_some]⟩
  | dict hkeys _ ih =>
    obtain ⟨texts, htexts⟩ :=
      exists_writeEntries? fun e he => ⟨hkeys e he, ih e he (level + 1)⟩
    exact ⟨block "\x7b" level texts "\x7d", by rw [write?, htexts, Option.map_some]⟩

/-- A written value, on a line of its own, is read back with texts for keys. -/
theorem read_write? [DepthLimit] {v : Value} (hv : v.Within Atom.Readable DepthLimit.brackets)
    {text : String} (h : write? 0 v = some text) :
    read (text ++ "\n").toList = .ok v.withTextKeys := by
  have hback := readBack_write? hv h
  obtain ⟨c, tail, htext, hc, -⟩ := hback.starts
  have hline : (text ++ "\n").toList = text.toList ++ ['\n'] := by simp
  have hsteps : text.toList.length < 2 * (text.toList ++ ['\n']).length + 2 := by
    rw [List.length_append]
    omega
  have hclose : Closes ['\n'] := by
    rintro c ⟨⟩
    exact .inr rfl
  have hread := hback.readValue_eq hsteps hclose
  have hskip : skipSpace (text.toList ++ ['\n']) = text.toList ++ ['\n'] := by
    rw [htext, List.cons_append, skipSpace_cons hc]
  rw [hline, read, hskip, bind_of_ok hread]
  rfl

/-! ### Keys that are texts -/

theorem kind_keyText (k : Atom) : (keyText k).kind = .str := by cases k <;> rfl

theorem keyText_of_kind {k : Atom} (h : k.kind = .str) : keyText k = k := by
  cases k with
  | str s => rfl
  | codes points => rfl
  | null | bool b | int i | float x => cases h

end Json

namespace Value

theorem Within.mono {p : Atom → Prop} {levels more : Nat} {v : Value} (h : v.Within p levels)
    (hle : levels ≤ more) : v.Within p more := by
  induction h generalizing more with
  | atom h => exact .atom h
  | list _ ih =>
    obtain ⟨more, rfl⟩ := Nat.exists_eq_succ_of_ne_zero (by omega : more ≠ 0)
    exact .list fun v hv => ih v hv (by omega)
  | dict hkeys _ ih =>
    obtain ⟨more, rfl⟩ := Nat.exists_eq_succ_of_ne_zero (by omega : more ≠ 0)
    exact .dict hkeys fun e he => ih e he (by omega)

theorem Within.and_every {p q : Atom → Prop} {levels : Nat} {v : Value} (h : v.Within p levels)
    (hq : v.Every q) : v.Within (fun a => p a ∧ q a) levels := by
  induction h with
  | atom h =>
    cases hq with
    | atom hq => exact .atom ⟨h, hq⟩
  | list _ ih =>
    cases hq with
    | list hq => exact .list fun v hv => ih v hv (hq v hv)
  | dict hkeys _ ih =>
    cases hq with
    | dict hqkeys hqvalues =>
      exact .dict (fun e he => ⟨hkeys e he, hqkeys e he⟩) fun e he => ih e he (hqvalues e he)

theorem Within.imp {p q : Atom → Prop} (hpq : ∀ a, p a → q a) {levels : Nat} {v : Value}
    (h : v.Within p levels) : v.Within q levels := by
  induction h with
  | atom h => exact .atom (hpq _ h)
  | list _ ih => exact .list ih
  | dict hkeys _ ih => exact .dict (fun e he => hpq _ (hkeys e he)) ih

/-- All tables in a value have texts for keys, no two of them the same. -/
inductive TextKeyed : Value → Prop
  | atom (a : Atom) : TextKeyed (.atom a)
  | list {items : List Value} (h : ∀ v ∈ items, TextKeyed v) : TextKeyed (.list items)
  | dict {entries : List (Atom × Value)} (hkeys : ∀ e ∈ entries, e.1.kind = .str)
      (hdistinct : (OrderedMap.mk entries).Distinct) (hvalues : ∀ e ∈ entries, TextKeyed e.2) :
      TextKeyed (.dict entries)

/-- A table with texts for keys, no two of them the same, keeps its keys. -/
theorem withTextKeys_dict {entries : List (Atom × Value)} (hkeys : ∀ e ∈ entries, e.1.kind = .str)
    (hdistinct : (OrderedMap.mk entries).Distinct) :
    (Value.dict entries).withTextKeys = .dict (entries.map fun e => (e.1, e.2.withTextKeys)) := by
  have hmap : entriesWithTextKeys entries = entries.map fun e => (e.1, e.2.withTextKeys) := by
    rw [entriesWithTextKeys_eq]
    refine List.map_congr_left fun e he => ?_
    rw [Json.keyText_of_kind (hkeys e he)]
  have hkept : (OrderedMap.mk (entries.map fun e => (e.1, e.2.withTextKeys))).Distinct := by
    simpa [OrderedMap.Distinct, OrderedMap.keys, Function.comp_def] using hdistinct
  rw [withTextKeys, hmap, OrderedMap.entries_ofList_eq_iff.mpr hkept]

theorem TextKeyed.withTextKeys_eq {v : Value} (h : v.TextKeyed) : v.withTextKeys = v := by
  induction h with
  | atom a => rw [withTextKeys]
  | @list items _ ih =>
    rw [withTextKeys, itemsWithTextKeys_eq, List.map_congr_left ih, List.map_id']
  | @dict entries hkeys hdistinct _ ih =>
    have hsame : ∀ e ∈ entries, (e.1, e.2.withTextKeys) = e := fun e he => by rw [ih e he]
    rw [withTextKeys_dict hkeys hdistinct, List.map_congr_left hsame, List.map_id']

theorem Within.textKeyed_withTextKeys {p : Atom → Prop} {levels : Nat} {v : Value}
    (h : v.Within p levels) : v.withTextKeys.TextKeyed := by
  induction h with
  | @atom levels a h =>
    rw [withTextKeys]
    exact .atom a
  | list _ ih =>
    rw [withTextKeys, itemsWithTextKeys_eq]
    refine .list fun w hw => ?_
    obtain ⟨v, hv, rfl⟩ := List.mem_map.mp hw
    exact ih v hv
  | @dict levels entries _ _ ih =>
    rw [withTextKeys, entriesWithTextKeys_eq]
    have hholds : (OrderedMap.ofList (entries.map fun e =>
        (Json.keyText e.1, e.2.withTextKeys))).Holds (fun k => k.kind = .str) TextKeyed := by
      refine OrderedMap.Holds.ofList fun e he => ?_
      obtain ⟨old, hold, rfl⟩ := List.mem_map.mp he
      exact ⟨Json.kind_keyText old.1, ih old hold⟩
    exact .dict (fun e he => (hholds e he).1) (OrderedMap.distinct_ofList _)
      fun e he => (hholds e he).2

/-- Texts for keys change a value unless it has nothing else for keys. -/
theorem Within.withTextKeys_eq_iff {p : Atom → Prop} {levels : Nat} {v : Value}
    (h : v.Within p levels) : v.withTextKeys = v ↔ v.TextKeyed := by
  constructor
  · intro heq
    rw [← heq]
    exact h.textKeyed_withTextKeys
  · exact TextKeyed.withTextKeys_eq

end Value

end ScopeMachine
