import Mathlib.Data.List.TakeWhile
import ScopeMachine.Proofs.Json.Quoted
import ScopeMachine.Proofs.OrderedMap
import ScopeMachine.Proofs.Value.Writable

/-! Why reading JSON fails. A numeral is too long only if the text has that many digits in a row,
and levels are too deep only if as many brackets open. What is read can be written, and its texts
have no surrogates that would be read as one character. -/
namespace ScopeMachine

/-- An atom as it can be read: it can be written, and its code points are well coded. -/
structure Atom.Sound (a : Atom) : Prop where
  writable : a.Writable
  wellCoded : a.WellCoded

theorem Atom.sound_str (s : String) : (Atom.str s).Sound := ⟨writable_str s, wellCoded_str s⟩

theorem Value.sound_int {i : Int} (h : (Atom.int i).Writable) : (Value.int i).Every Atom.Sound :=
  .atom ⟨h, nofun⟩

theorem Value.Every.writable_of_sound {v : Value} (h : v.Every Atom.Sound) : v.Writable :=
  (h.imp fun _ ha => ha.writable).writable

namespace Json

/-- The characters that open a level. -/
def isOpening (c : Char) : Bool := c = '\x7b' || c = '['

/-- What a text must have for an error, if `levels` levels may be opened in it. -/
def Error.Reason (levels : Nat) (cs : List Char) : Error → Prop
  | .malformed .. => True
  | .numeralTooLong n => LongRun Text.isAsciiDigit cs n
  | .tooDeep _ => levels < cs.countP isOpening

theorem Error.Reason.of_suffix {levels : Nat} {part cs : List Char} {e : Error}
    (h : e.Reason levels part) (hpart : part <:+ cs) : e.Reason levels cs := by
  cases e with
  | malformed what remaining => trivial
  | numeralTooLong n => exact LongRun.of_part h hpart.isInfix
  | tooDeep bracket => exact lt_of_lt_of_le h hpart.sublist.countP_le

/-- Opening a level takes one bracket and leaves one level less. -/
theorem Error.Reason.opening {levels : Nat} {c : Char} {cs : List Char} {e : Error}
    (h : e.Reason levels cs) (hc : isOpening c = true) : e.Reason (levels + 1) (c :: cs) := by
  cases e with
  | malformed what remaining => trivial
  | numeralTooLong n => exact LongRun.of_part h (List.suffix_cons c cs).isInfix
  | tooDeep bracket =>
    show levels + 1 < (c :: cs).countP isOpening
    rw [List.countP_cons_of_pos hc]
    exact Nat.succ_lt_succ h

/-- A reader takes what satisfies `good` off the front of a text, or fails with reason. -/
def Reads {α : Type} (good : α → Prop) (levels : Nat) (cs : List Char) :
    Except Error (α × List Char) → Prop :=
  Meets (fun reading => good reading.1 ∧ reading.2 <:+ cs) (Error.Reason levels cs)

namespace Reads

variable {α β : Type} {good : α → Prop} {good' : β → Prop} {levels : Nat} {part cs : List Char}

theorem of_suffix {x : Except Error (α × List Char)} (h : Reads good levels part x)
    (hpart : part <:+ cs) : Reads good levels cs x :=
  Meets.imp h (fun _ hreading => ⟨hreading.1, hreading.2.trans hpart⟩)
    fun _ hreason => hreason.of_suffix hpart

theorem bind {x : Except Error (α × List Char)}
    {f : α × List Char → Except Error (β × List Char)} (hx : Reads good levels cs x)
    (hf : ∀ a rest, good a → rest <:+ cs → Reads good' levels cs (f (a, rest))) :
    Reads good' levels cs (x >>= f) :=
  Meets.bind hx fun reading hreading => hf reading.1 reading.2 hreading.1 hreading.2

end Reads

theorem skipSpace_suffix (cs : List Char) : skipSpace cs <:+ cs := List.dropWhile_suffix isSpace

theorem suffix_of_skipSpace {cs rest : List Char} {c : Char} (h : skipSpace cs = c :: rest) :
    rest <:+ cs := by
  have hskip := skipSpace_suffix cs
  rw [h] at hskip
  exact (List.suffix_cons c rest).trans hskip

theorem skipSpace_suffix_of_skipSpace {cs rest : List Char} {c : Char}
    (h : skipSpace cs = c :: rest) : skipSpace rest <:+ cs :=
  (skipSpace_suffix rest).trans (suffix_of_skipSpace h)

/-! ### Texts -/

theorem sound_ofCodes {points : List Nat} (h : Coded points) : (Atom.ofCodes points).Sound := by
  refine ⟨?_, Atom.wellCoded_ofCodes h⟩
  unfold Atom.ofCodes
  split <;> rfl

theorem readEscape_reason (levels opening : Nat) (cs text : List Char) :
    Meets (fun _ => True) (Error.Reason levels text) (readEscape opening cs) := by
  unfold readEscape
  repeat' split
  all_goals trivial

theorem readText_reads (levels opening skip : Nat) (cs : List Char) :
    Reads (fun _ => True) levels cs (readText opening skip cs) := by
  induction cs generalizing skip with
  | nil => trivial
  | cons c rest ih =>
    have hrest (skip : Nat) :
        Reads (fun _ => True) levels (c :: rest) (readText opening skip rest) :=
      (ih skip).of_suffix (List.suffix_cons c rest)
    unfold readText
    split
    · exact hrest _
    · split
      · exact ⟨trivial, List.suffix_cons c rest⟩
      · split
        · refine Meets.bind (readEscape_reason levels opening rest (c :: rest)) ?_
          rintro ⟨point, used⟩ -
          change Reads (fun _ => True) levels (c :: rest) _
          refine (hrest used).bind fun points after _ hafter => ?_
          exact ⟨trivial, hafter⟩
        · split
          · trivial
          · refine (hrest 0).bind fun points after _ hafter => ?_
            exact ⟨trivial, hafter⟩

theorem readText_reads_coded (levels opening : Nat) (cs : List Char) :
    Reads Coded levels cs (readText opening 0 cs) := by
  have hreads := readText_reads levels opening 0 cs
  cases htext : readText opening 0 cs with
  | error e =>
    rw [htext] at hreads
    exact hreads
  | ok reading =>
    rw [htext] at hreads
    exact ⟨coded_of_readText htext, hreads.2⟩

/-! ### Numbers -/

theorem splitWhole_append (cs : List Char) : (splitWhole cs).1 ++ (splitWhole cs).2 = cs := by
  unfold splitWhole
  split
  · rfl
  · exact List.takeWhile_append_dropWhile

theorem isAsciiDigit_of_mem_splitWhole {cs : List Char} {c : Char} (h : c ∈ (splitWhole cs).1) :
    Text.isAsciiDigit c = true := by
  unfold splitWhole at h
  split at h
  · rw [List.mem_singleton.mp h]
    decide
  · exact List.mem_takeWhile_imp h

theorem splitFraction_suffix (cs : List Char) : (splitFraction cs).2 <:+ cs := by
  unfold splitFraction
  split
  · split
    · exact List.suffix_rfl
    · exact (List.dropWhile_suffix _).trans (List.suffix_cons '.' _)
  · exact List.suffix_rfl

theorem splitExponent_suffix (cs : List Char) : (splitExponent cs).2 <:+ cs := by
  unfold splitExponent
  split
  · rename_i mark rest
    split
    · dsimp only
      split
      · exact List.suffix_rfl
      · refine (List.dropWhile_suffix _).trans (List.IsSuffix.trans ?_ (List.suffix_cons mark rest))
        split
        · exact List.suffix_cons '-' _
        · exact List.suffix_cons '+' _
        · exact List.suffix_rfl
    · exact List.suffix_rfl
  · exact List.suffix_rfl

theorem readNumber_reads (levels : Nat) (cs : List Char) :
    Reads (Value.Every Atom.Sound) levels cs (readNumber cs) := by
  unfold readNumber
  split
  rename_i negative unsigned hsign
  have hunsigned : unsigned <:+ cs := by
    split at hsign <;> cases hsign
    · exact List.suffix_cons '-' _
    · exact List.suffix_rfl
  have happend := splitWhole_append unsigned
  have hdigits : ∀ c ∈ (splitWhole unsigned).1, Text.isAsciiDigit c = true :=
    fun c hc => isAsciiDigit_of_mem_splitWhole hc
  split
  · trivial
  · rename_i whole rest _ hwhole
    rw [hwhole] at happend hdigits
    split
    rename_i fraction behind hfraction
    split
    rename_i exponent last hexponent
    have hlast : last <:+ cs := by
      have hfirst : rest <:+ unsigned := ⟨whole, happend⟩
      have hsecond := splitFraction_suffix rest
      have hthird := splitExponent_suffix behind
      rw [hfraction] at hsecond
      rw [hexponent] at hthird
      exact hthird.trans (hsecond.trans (hfirst.trans hunsigned))
    split
    · split
      · rename_i hlong
        have hrun : whole <:+: unsigned := ⟨[], rest, happend⟩
        exact ⟨hlong, whole, hrun.trans hunsigned.isInfix, rfl, hdigits⟩
      · rename_i hshort
        have hvalue := Numeral.valueOf_asciiDigits_lt hdigits (Nat.le_of_not_lt hshort)
        exact ⟨Value.sound_int (Atom.writable_signed negative hvalue), hlast⟩
    · exact ⟨.atom ⟨rfl, nofun⟩, hlast⟩

theorem readWord?_reads {cs rest : List Char} {v : Value} (h : readWord? cs = some (v, rest)) :
    v.Every Atom.Sound ∧ rest <:+ cs := by
  obtain ⟨⟨word, value⟩, hfind, heq⟩ := Option.map_eq_some_iff.mp h
  cases heq
  refine ⟨?_, List.drop_suffix _ _⟩
  have hmem := List.mem_of_find?_eq_some hfind
  simp only [words, List.mem_cons, Prod.mk.injEq, List.not_mem_nil, or_false] at hmem
  rcases hmem with ⟨-, rfl⟩ | ⟨-, rfl⟩ | ⟨-, rfl⟩ | ⟨-, rfl⟩ | ⟨-, rfl⟩ | ⟨-, rfl⟩ <;>
    exact .atom ⟨rfl, nofun⟩

/-! ### Values -/

theorem Reads.of_opening {α : Type} {good : α → Prop} {levels : Nat} {c : Char}
    {part cs : List Char} {x : Except Error (α × List Char)} (hc : isOpening c = true)
    (h : Reads good levels part x) (hpart : part <:+ cs) :
    Reads good (levels + 1) (c :: cs) x :=
  have hsuffix : part <:+ c :: cs := hpart.trans (List.suffix_cons c cs)
  Meets.imp h (fun _ hreading => ⟨hreading.1, hreading.2.trans hsuffix⟩)
    fun _ hreason => (hreason.of_suffix hpart).opening hc

/-- All keys of entries and all atoms in their values are sound. -/
def SoundEntries (entries : List (Atom × Value)) : Prop :=
  ∀ e ∈ entries, e.1.Sound ∧ e.2.Every Atom.Sound

section Step

variable {steps : Nat}
  (hvalue : ∀ levels cs, Reads (Value.Every Atom.Sound) levels cs (readValue steps levels cs))
  (hitems : ∀ levels cs,
    Reads (fun items => ∀ v ∈ items, v.Every Atom.Sound) levels cs (readItems steps levels cs))
  (hmembers : ∀ levels cs, Reads SoundEntries levels cs (readMembers steps levels cs))

include hitems hmembers in
theorem readValue_step (levels : Nat) (cs : List Char) :
    Reads (Value.Every Atom.Sound) levels cs (readValue (steps + 1) levels cs) := by
  cases cs with
  | nil => trivial
  | cons c rest =>
    have hrest : rest <:+ c :: rest := List.suffix_cons c rest
    have hdeep (bracket : Bracket) (hc : isOpening c = true) :
        (Error.tooDeep bracket).Reason 0 (c :: rest) := by
      have hcount : 0 < (c :: rest).countP isOpening := by
        rw [List.countP_cons_of_pos hc]
        exact Nat.succ_pos _
      exact hcount
    unfold readValue
    split
    · refine ((readText_reads_coded levels _ rest).of_suffix hrest).bind ?_
      intro points after hpoints hafter
      exact ⟨.atom (sound_ofCodes hpoints), hafter⟩
    split
    · rename_i hc
      have hopening : isOpening c = true := by simp [isOpening, hc]
      split
      · exact hdeep .object hopening
      · rename_i after hafter
        exact ⟨.dict nofun nofun, (suffix_of_skipSpace hafter).trans hrest⟩
      · rename_i levels _
        refine ((hmembers levels _).of_opening hopening (skipSpace_suffix rest)).bind ?_
        intro entries after hentries hafter
        have hall : (OrderedMap.ofList entries).Holds Atom.Sound (Value.Every Atom.Sound) :=
          OrderedMap.Holds.ofList hentries
        exact ⟨.dict (fun e he => (hall e he).1) (fun e he => (hall e he).2), hafter⟩
    split
    · rename_i hc
      have hopening : isOpening c = true := by simp [isOpening, hc]
      split
      · exact hdeep .array hopening
      · rename_i after hafter
        exact ⟨.list nofun, (suffix_of_skipSpace hafter).trans hrest⟩
      · rename_i levels _
        refine ((hitems levels _).of_opening hopening (skipSpace_suffix rest)).bind ?_
        intro items after hall hafter
        exact ⟨.list hall, hafter⟩
    split
    · rename_i reading hword
      exact readWord?_reads hword
    · exact readNumber_reads levels (c :: rest)

include hvalue hitems in
theorem readItems_step (levels : Nat) (cs : List Char) :
    Reads (fun items => ∀ v ∈ items, v.Every Atom.Sound) levels cs
      (readItems (steps + 1) levels cs) := by
  unfold readItems
  refine (hvalue levels cs).bind fun v rest hv hrest => ?_
  dsimp only
  split
  · rename_i after hafter
    exact ⟨by simpa using hv, (suffix_of_skipSpace hafter).trans hrest⟩
  · rename_i after hafter
    have hbehind : skipSpace after <:+ cs := (skipSpace_suffix_of_skipSpace hafter).trans hrest
    refine ((hitems levels (skipSpace after)).of_suffix hbehind).bind ?_
    intro items last hall hlast
    exact ⟨List.forall_mem_cons.mpr ⟨hv, hall⟩, hlast⟩
  · trivial

include hvalue hmembers in
theorem readMembers_step (levels : Nat) (cs : List Char) :
    Reads SoundEntries levels cs (readMembers (steps + 1) levels cs) := by
  unfold readMembers
  split
  · trivial
  · rename_i levels _ _ _ _ text hsteps
    cases hsteps
    have htext : text <:+ '"' :: text := List.suffix_cons '"' text
    refine ((readText_reads_coded levels _ text).of_suffix htext).bind ?_
    intro key rest hkey hrest
    dsimp only
    split
    · rename_i behind hcolon
      have hbehind : skipSpace behind <:+ '"' :: text :=
        (skipSpace_suffix_of_skipSpace hcolon).trans hrest
      refine ((hvalue levels (skipSpace behind)).of_suffix hbehind).bind fun v rest hv hrest => ?_
      dsimp only
      split
      · rename_i after hafter
        exact ⟨by simpa [SoundEntries] using And.intro (sound_ofCodes hkey) hv,
          (suffix_of_skipSpace hafter).trans hrest⟩
      · rename_i after hafter
        have hmore : skipSpace after <:+ '"' :: text :=
          (skipSpace_suffix_of_skipSpace hafter).trans hrest
        refine ((hmembers levels (skipSpace after)).of_suffix hmore).bind ?_
        intro entries last hentries hlast
        exact ⟨List.forall_mem_cons.mpr ⟨⟨sound_ofCodes hkey, hv⟩, hentries⟩, hlast⟩
      · trivial
    · trivial
  · trivial

end Step

/-- The induction is on the steps, which all three readers share. -/
theorem readers_read (steps levels : Nat) (cs : List Char) :
    Reads (Value.Every Atom.Sound) levels cs (readValue steps levels cs) ∧
      Reads (fun items => ∀ v ∈ items, v.Every Atom.Sound) levels cs (readItems steps levels cs) ∧
      Reads SoundEntries levels cs (readMembers steps levels cs) := by
  induction steps generalizing levels cs with
  | zero => exact ⟨trivial, trivial, trivial⟩
  | succ steps ih =>
    have hvalue (levels : Nat) (cs : List Char) := (ih levels cs).1
    have hitems (levels : Nat) (cs : List Char) := (ih levels cs).2.1
    have hmembers (levels : Nat) (cs : List Char) := (ih levels cs).2.2
    exact ⟨readValue_step hitems hmembers levels cs, readItems_step hvalue hitems levels cs,
      readMembers_step hvalue hmembers levels cs⟩

/-- What a whole text is read as is sound, and an error has its reason. -/
theorem read_meets [DepthLimit] (cs : List Char) :
    Meets (Value.Every Atom.Sound) (Error.Reason DepthLimit.brackets cs) (read cs) := by
  have hvalue := (readers_read (2 * cs.length + 2) DepthLimit.brackets (skipSpace cs)).1
  refine Meets.bind (hvalue.of_suffix (skipSpace_suffix cs)) ?_
  rintro ⟨value, rest⟩ ⟨hsound, -⟩
  dsimp only
  split
  · exact hsound
  · trivial

end Json

end ScopeMachine
