import ScopeMachine.Proofs.Config.SingleDirective
import ScopeMachine.Proofs.Config.ValueText
import ScopeMachine.Proofs.Json.TextList

/-! The keys of further containers in the two notations of directives. A list of texts in an object
names these texts. Keys between vertical bars come to the same, but a key that stands alone is read
as a value first: if it is a truth value or a whole number, it is the text of that value which
counts, and this may be another one or too long to be read. -/
namespace ScopeMachine.Config

open Directive

/-! ### Plain keys -/

/-- The characters of plain keys. -/
def isKeyChar (c : Char) : Bool := c.isAlphanum || c = '_' || c = '-'

/-- Some letters, digits, low lines and hyphens, all of them in ASCII. -/
structure PlainKey (key : String) : Prop where
  ne_nil : key.toList ≠ []
  isKeyChar_of_mem : ∀ c ∈ key.toList, isKeyChar c = true

theorem plainKey_of_all {key : String} (hne : key.toList ≠ [])
    (h : key.toList.all isKeyChar = true) : PlainKey key :=
  ⟨hne, List.all_eq_true.mp h⟩

theorem lt_of_isKeyChar {c : Char} (h : isKeyChar c = true) : c.toNat < 128 := by
  have hlt {top : Char} (hle : c.val ≤ top.val) (htop : top.toNat < 128) : c.toNat < 128 :=
    lt_of_le_of_lt (UInt32.le_iff_toNat_le.mp hle) htop
  simp only [isKeyChar, Bool.or_eq_true, decide_eq_true_eq] at h
  rcases h with (h | rfl) | rfl
  · have hrange : (c.isUpper || c.isLower || c.isDigit) = true := h
    simp only [Bool.or_eq_true] at hrange
    rcases hrange with (hupper | hlower) | hdigit
    · exact hlt (of_decide_eq_true hupper).2 (by decide : 'Z'.toNat < 128)
    · exact hlt (of_decide_eq_true (Bool.and_eq_true_iff.mp hlower).2)
        (by decide : 'z'.toNat < 128)
    · exact hlt (of_decide_eq_true (Bool.and_eq_true_iff.mp hdigit).2)
        (by decide : '9'.toNat < 128)
  · decide
  · decide

theorem isKeyChar_spec {c : Char} (h : isKeyChar c = true) :
    0x20 ≤ c.toNat ∧ Text.isBlank c = false ∧ endsAssignment c = false ∧ c ≠ '=' ∧ c ≠ '|' ∧
      c ≠ '"' ∧ c ≠ '\'' ∧ c ≠ '\\' :=
  Text.forall_ascii (p := fun c => isKeyChar c = true → 0x20 ≤ c.toNat ∧ Text.isBlank c = false ∧
    endsAssignment c = false ∧ c ≠ '=' ∧ c ≠ '|' ∧ c ≠ '"' ∧ c ≠ '\'' ∧ c ≠ '\\')
    (by decide +kernel) (lt_of_isKeyChar h) h

theorem isLineBreak_of_isKeyChar {c : Char} (h : isKeyChar c = true) :
    Text.isLineBreak c = false := by
  have hblank := (isKeyChar_spec h).2.1
  rw [← Bool.not_eq_true]
  intro hbreak
  rw [Text.isBlank_of_isLineBreak c hbreak] at hblank
  cases hblank

theorem PlainKey.trimmed {key : String} (h : PlainKey key) : Text.Trimmed key.toList :=
  .of_forall h.ne_nil fun c hc => (isKeyChar_spec (h.isKeyChar_of_mem c hc)).2.1

theorem PlainKey.unescaped {key : String} (h : PlainKey key) : Json.Unescaped key := by
  intro c hc
  obtain ⟨hcontrol, -, -, -, -, hdouble, -, hslash⟩ := isKeyChar_spec (h.isKeyChar_of_mem c hc)
  exact ⟨hdouble, hslash, hcontrol⟩

/-- The flag that names further containers. -/
def Field.ofContainer : Container → Field
  | .scope => .scopeKeys
  | .stack => .stackKeys

theorem plainKey_name (kind : Container) : PlainKey (Field.ofContainer kind).name := by
  cases kind with
  | scope => exact plainKey_of_all (by decide) (by decide)
  | stack => exact plainKey_of_all (by decide) (by decide)

/-- The default configuration with further containers of one kind. -/
def withContainers : Container → List Atom → Config
  | .scope, scopeKeys => { scopeKeys }
  | .stack, stackKeys => { stackKeys }

theorem withContainers_inj {kind : Container} {keys others : List Atom} :
    withContainers kind keys = withContainers kind others ↔ keys = others := by
  cases kind <;> simp [withContainers]

theorem assign_container (kind : Container) {value : Value} {keys : List Atom}
    (h : keys? value = some keys) :
    ({} : Config).assign (.str (Field.ofContainer kind).name) value =
      .ok (withContainers kind keys) := by
  cases kind with
  | scope =>
    have hfield : Field.ofKey? (.str Field.scopeKeys.name) = some .scopeKeys := by decide
    simp only [assign, Field.ofContainer, hfield, h, withContainers]
  | stack =>
    have hfield : Field.ofKey? (.str Field.stackKeys.name) = some .stackKeys := by decide
    simp only [assign, Field.ofContainer, hfield, h, withContainers]

/-! ### Vertical bars -/

/-- The assignment of keys between vertical bars. -/
def barList (kind : Container) (keys : List String) : String :=
  (Field.ofContainer kind).name ++ "=" ++ Text.join "|" keys

variable {keys : List String}

theorem isKeyChar_of_mem_join (hkeys : ∀ key ∈ keys, PlainKey key) {c : Char}
    (hc : c ∈ (Text.join "|" keys).toList) : c = '|' ∨ isKeyChar c = true := by
  rcases Text.mem_join hc with hbar | ⟨key, hkey, hc⟩
  · exact .inl (List.mem_singleton.mp hbar)
  · exact .inr ((hkeys key hkey).isKeyChar_of_mem c hc)

theorem keys?_join (hne : keys ≠ []) (hkeys : ∀ key ∈ keys, PlainKey key) :
    keys? (.str (Text.join "|" keys)) = some (keys.map .str) := by
  have hbar : "|".toList = ['|'] := by simp
  have hsplit : Text.splitBy (· = '|') (Text.join "|" keys).toList = keys.map String.toList := by
    refine Text.splitBy_join hbar (decide_eq_true rfl) hne fun key hkey c hc => ?_
    obtain ⟨-, -, -, -, hbar, -⟩ := isKeyChar_spec ((hkeys key hkey).isKeyChar_of_mem c hc)
    exact decide_eq_false hbar
  have htrim : (keys.map String.toList).map (Text.trimBy Text.isBlank) =
      keys.map String.toList := by
    rw [List.map_map]
    exact List.map_congr_left fun key hkey => (hkeys key hkey).trimmed.trim_eq
  have hkept : (keys.map String.toList).filter (!·.isEmpty) = keys.map String.toList := by
    rw [List.filter_eq_self]
    intro part hpart
    obtain ⟨key, hkey, rfl⟩ := List.mem_map.mp hpart
    simpa using (hkeys key hkey).ne_nil
  simp [keys?, cutKeys, hsplit, htrim, hkept]

theorem trimmed_join (hne : keys ≠ []) (hkeys : ∀ key ∈ keys, PlainKey key) :
    Text.Trimmed (Text.join "|" keys).toList := by
  refine .of_forall ?_ fun c hc => ?_
  · obtain ⟨key, rest, rfl⟩ := List.exists_cons_of_ne_nil hne
    obtain ⟨tail, hjoined⟩ := Json.join_starts "|" key rest
    rw [hjoined]
    exact List.append_ne_nil_of_left_ne_nil (hkeys key List.mem_cons_self).ne_nil tail
  · rcases isKeyChar_of_mem_join hkeys hc with rfl | hc
    · rfl
    · exact (isKeyChar_spec hc).2.1

theorem toList_barList (kind : Container) (keys : List String) :
    (barList kind keys).toList =
      (Field.ofContainer kind).name.toList ++ '=' :: (Text.join "|" keys).toList := by
  simp [barList]

theorem mem_barList (kind : Container) (hkeys : ∀ key ∈ keys, PlainKey key) {c : Char}
    (hc : c ∈ (barList kind keys).toList) :
    Text.isLineBreak c = false ∧ endsAssignment c = false := by
  have hkeyChar (hc : isKeyChar c = true) :
      Text.isLineBreak c = false ∧ endsAssignment c = false :=
    ⟨isLineBreak_of_isKeyChar hc, (isKeyChar_spec hc).2.2.1⟩
  rw [toList_barList] at hc
  rcases List.mem_append.mp hc with hc | hc
  · exact hkeyChar ((plainKey_name kind).isKeyChar_of_mem c hc)
  rcases List.mem_cons.mp hc with rfl | hc
  · decide
  rcases isKeyChar_of_mem_join hkeys hc with rfl | hc
  · decide
  · exact hkeyChar hc

theorem readLine_barList [Json.DepthLimit] (kind : Container) (hne : keys ≠ [])
    (hkeys : ∀ key ∈ keys, PlainKey key) :
    readLine (comment (barList kind keys)).toList =
      (readValue (Text.join "|" keys).toList).map fun value =>
        ([(.str (Field.ofContainer kind).name, value)], []) := by
  have hname := plainKey_name kind
  have hequals : ∀ c ∈ (Field.ofContainer kind).name.toList, c ≠ '=' :=
    fun c hc => (isKeyChar_spec (hname.isKeyChar_of_mem c hc)).2.2.2.1
  have hread := readLine_assignment (toList_barList kind keys)
    (fun c hc => (mem_barList kind hkeys hc).2) hname.trimmed hequals (trimmed_join hne hkeys)
  rwa [String.ofList_toList] at hread

/-! ### Keys that stand alone -/

/-- Another spelling of a truth value, or of a whole number, than the one that is written. -/
inductive Respelled (key : String) : Prop
  | yes (h : lowerAscii key.toList = "true".toList) (hne : key ≠ "True")
  | no (h : lowerAscii key.toList = "false".toList) (hne : key ≠ "False")
  | long {negative : Bool} {digits : List Char} (h : Whole key.toList negative digits)
      (hlong : Numeral.digitLimit < digits.length)
  | padded {negative : Bool} {digits : List Char} (h : Whole key.toList negative digits)
      (hpadded : Padded negative digits)

/-- Text that is read as itself. -/
theorem readValue_join (hkeys : ∀ key ∈ keys, PlainKey key)
    (htrue : lowerAscii (Text.join "|" keys).toList ≠ "true".toList)
    (hfalse : lowerAscii (Text.join "|" keys).toList ≠ "false".toList)
    (h : ∀ negative digits, ¬ Whole (Text.join "|" keys).toList negative digits) :
    readValue (Text.join "|" keys).toList = .ok (.str (Text.join "|" keys)) := by
  have hascii : ∀ c ∈ (Text.join "|" keys).toList, c.toNat < 128 := by
    intro c hc
    rcases isKeyChar_of_mem_join hkeys hc with rfl | hc
    · decide
    · exact lt_of_isKeyChar hc
  have hquote (c : Char) (hc : (Text.join "|" keys).toList.head? = some c) :
      c ≠ '"' ∧ c ≠ '\'' := by
    rcases isKeyChar_of_mem_join hkeys (List.mem_of_head? hc) with rfl | hc
    · decide
    · obtain ⟨-, -, -, -, -, hdouble, hsingle, -⟩ := isKeyChar_spec hc
      exact ⟨hdouble, hsingle⟩
  have hread := readValue_plain hascii htrue hfalse h hquote
  rwa [String.ofList_toList] at hread

theorem not_respelled_of_letter {key : String} {c : Char} {rest : List Char}
    (hkey : key.toList = c :: rest) (hletter : Text.isAsciiDigit c = false ∧ c ≠ '-')
    (htrue : lowerAscii key.toList = "true".toList → key = "True")
    (hfalse : lowerAscii key.toList = "false".toList → key = "False") : ¬ Respelled key := by
  intro h
  cases h with
  | yes h hne => exact hne (htrue h)
  | no h hne => exact hne (hfalse h)
  | long h | padded h => exact h.ne_of_letter hletter.1 hletter.2 hkey

theorem respelled_iff_of_whole {key : String} {negative : Bool} {digits : List Char}
    (h : Whole key.toList negative digits) (hshort : digits.length ≤ Numeral.digitLimit) :
    Respelled key ↔ Padded negative digits := by
  refine ⟨fun hrespelled => ?_, fun hpadded => .padded h hpadded⟩
  cases hrespelled with
  | yes htrue => exact absurd htrue h.lowerAscii_ne.1
  | no hfalse => exact absurd hfalse h.lowerAscii_ne.2
  | long h' hlong =>
    obtain ⟨-, rfl⟩ := h.unique h'
    exact absurd hlong (Nat.not_lt.mpr hshort)
  | padded h' hpadded =>
    obtain ⟨rfl, rfl⟩ := h.unique h'
    exact hpadded

theorem keys?_int {i : Int} (h : i.natAbs < Numeral.tooLong) :
    keys? (.int i) = some [.str (Numeral.ofInt i)] := by
  have hwritten : Numeral.ofInt? i = some (Numeral.ofInt i) := if_pos h
  change ((Numeral.ofInt? i).map Atom.str).map ([·]) = _
  rw [hwritten]
  rfl

theorem natAbs_signed {text digits : List Char} {negative : Bool}
    (h : Whole text negative digits) (hlength : digits.length ≤ Numeral.digitLimit) :
    (signed negative digits).natAbs < Numeral.tooLong := by
  have hlt := Numeral.valueOf_asciiDigits_lt h.asciiDigits.2 hlength
  have habs : (signed negative digits).natAbs = Json.valueOf digits := by
    cases negative <;> simp [signed]
  rwa [habs]

/-- A key that stands alone names itself unless it is respelled. -/
theorem reading_of_plainKey {key : String} (hkey : PlainKey key) :
    (∃ e, readValue key.toList = .error e ∧ Respelled key) ∨
      ∃ value other, readValue key.toList = .ok value ∧ keys? value = some [.str other] ∧
        (other = key ↔ ¬ Respelled key) := by
  by_cases htrue : lowerAscii key.toList = "true".toList
  · refine .inr ⟨.bool true, "True", if_pos htrue, rfl, ?_, fun h => ?_⟩
    · rintro rfl
      exact not_respelled_of_letter (c := 'T') rfl (by decide) (fun _ => rfl) (by decide)
    · by_contra hne
      exact h (.yes htrue (Ne.symm hne))
  by_cases hfalse : lowerAscii key.toList = "false".toList
  · refine .inr ⟨.bool false, "False", (if_neg htrue).trans (if_pos hfalse), rfl, ?_, fun h => ?_⟩
    · rintro rfl
      exact not_respelled_of_letter (c := 'F') rfl (by decide) (by decide) (fun _ => rfl)
    · by_contra hne
      exact h (.no hfalse (Ne.symm hne))
  by_cases hwhole : ∃ negative digits, Whole key.toList negative digits
  · obtain ⟨negative, digits, hwhole⟩ := hwhole
    have hread := hwhole.readValue_eq
    by_cases hlong : Numeral.digitLimit < digits.length
    · rw [if_pos hlong] at hread
      exact .inl ⟨_, hread, .long hwhole hlong⟩
    rw [if_neg hlong] at hread
    have hshort := Nat.le_of_not_lt hlong
    refine .inr ⟨_, _, hread, keys?_int (natAbs_signed hwhole hshort), ?_⟩
    rw [← String.toList_inj, hwhole.ofInt_eq_iff, respelled_iff_of_whole hwhole hshort]
  · have hnone : ∀ negative digits, ¬ Whole key.toList negative digits :=
      fun negative digits h => hwhole ⟨negative, digits, h⟩
    have hsingle := List.forall_mem_singleton.mpr hkey
    have hread := readValue_join hsingle htrue hfalse hnone
    refine .inr ⟨_, key, hread, keys?_join (List.cons_ne_nil key []) hsingle, ?_⟩
    refine iff_of_true rfl fun h => ?_
    cases h with
    | yes h => exact htrue h
    | no h => exact hfalse h
    | long h | padded h => exact hnone _ _ h

/-- Several keys are no value of another sort: the bar between them belongs to none. -/
theorem readValue_several {key next : String} {rest : List String}
    (hkeys : ∀ k ∈ key :: next :: rest, PlainKey k) :
    readValue (Text.join "|" (key :: next :: rest)).toList =
      .ok (.str (Text.join "|" (key :: next :: rest))) := by
  have hbar : '|' ∈ (Text.join "|" (key :: next :: rest)).toList := by
    rw [Json.toList_join_cons]
    exact List.mem_append_right _ (List.mem_append_left _ List.mem_cons_self)
  have hlower : '|' ∈ lowerAscii (Text.join "|" (key :: next :: rest)).toList :=
    List.mem_map.mpr ⟨'|', hbar, rfl⟩
  refine readValue_join hkeys (fun htrue => ?_) (fun hfalse => ?_) fun negative digits h => ?_
  · rw [htrue] at hlower
    revert hlower
    decide
  · rw [hfalse] at hlower
    revert hlower
    decide
  · cases h.isAsciiDigit_of_mem hbar (by decide)

/-- What the keys between the bars are read as decides about the configuration. -/
theorem load_barList [Json.DepthLimit] (kind : Container) (hne : keys ≠ [])
    (hkeys : ∀ key ∈ keys, PlainKey key)
    {value : Value} {named : List Atom}
    (hread : readValue (Text.join "|" keys).toList = .ok value)
    (hnamed : keys? value = some named) :
    load (comment (barList kind keys)) [] = .ok (withContainers kind named) := by
  have hline := readLine_barList kind hne hkeys
  rw [hread] at hline
  rw [load_comment (fun c hc => (mem_barList kind hkeys hc).1) hline, assign_container kind hnamed]

theorem load_barList_error [Json.DepthLimit] (kind : Container) (hne : keys ≠ [])
    (hkeys : ∀ key ∈ keys, PlainKey key) {e : FlagError}
    (hread : readValue (Text.join "|" keys).toList = .error e) :
    load (comment (barList kind keys)) [] = .error e := by
  have hline := readLine_barList kind hne hkeys
  rw [hread] at hline
  exact load_comment_error (fun c hc => (mem_barList kind hkeys hc).1) hline

/-- Keys between vertical bars name the containers, if it is not a respelled one that stands
alone. -/
theorem load_barList_iff [Json.DepthLimit] (kind : Container) (hne : keys ≠ [])
    (hkeys : ∀ key ∈ keys, PlainKey key) :
    load (comment (barList kind keys)) [] = .ok (withContainers kind (keys.map .str)) ↔
      ∀ key, keys = [key] → ¬ Respelled key := by
  rcases keys with _ | ⟨key, _ | ⟨next, rest⟩⟩
  · exact absurd rfl hne
  · rcases reading_of_plainKey (hkeys key List.mem_cons_self) with
      ⟨e, hread, hrespelled⟩ | ⟨value, other, hread, hnamed, hiff⟩
    · rw [load_barList_error kind hne hkeys hread]
      exact iff_of_false nofun fun h => h key rfl hrespelled
    · rw [load_barList kind hne hkeys hread hnamed, Except.ok.injEq, withContainers_inj]
      simpa using hiff
  · rw [load_barList kind hne hkeys (readValue_several hkeys) (keys?_join hne hkeys)]
    exact iff_of_true rfl nofun

/-! ### Objects -/

/-- An object with the list of keys for its only member. -/
def objectList (kind : Container) (keys : List String) : String :=
  Json.textObject (Field.ofContainer kind).name keys

theorem isLineBreak_of_mem_objectList (kind : Container) (hkeys : ∀ key ∈ keys, PlainKey key) :
    ∀ c ∈ (objectList kind keys).toList, Text.isLineBreak c = false := by
  have hkey {key : String} (h : PlainKey key) : ∀ c ∈ key.toList, Text.isLineBreak c = false :=
    fun c hc => isLineBreak_of_isKeyChar (h.isKeyChar_of_mem c hc)
  exact Json.forall_mem_textObject (Text.forall_mem_eq_false (by decide))
    (hkey (plainKey_name kind)) fun key hmem => hkey (hkeys key hmem)

theorem readLine_objectList [Json.DepthLimit] (hdepth : 2 ≤ Json.DepthLimit.brackets)
    (kind : Container) (hne : keys ≠ []) (hkeys : ∀ key ∈ keys, PlainKey key) :
    readLine (comment (objectList kind keys)).toList =
      .ok ([(.str (Field.ofContainer kind).name, .list (keys.map .str))], []) := by
  have hread := Json.read_textObject hdepth (plainKey_name kind).unescaped hne
    fun key hkey => (hkeys key hkey).unescaped
  change Json.read (objectList kind keys).toList = _ at hread
  obtain ⟨more, hends⟩ : ∃ more, (objectList kind keys).toList = '\x7b' :: (more ++ ['\x7d']) := by
    refine ⟨(Json.inQuotes (Field.ofContainer kind).name).toList ++
      ':' :: ' ' :: '[' :: ((Json.textItems keys).toList ++ [']']), ?_⟩
    simp [objectList, Json.toList_textObject]
  have hbrace : Text.Trimmed ['\x7d'] :=
    .of_forall (List.cons_ne_nil _ _) (List.forall_mem_singleton.mpr (by rfl))
  have htrimmed : Text.Trimmed (objectList kind keys).toList := by
    rw [hends]
    exact hbrace.cons_append (by rfl) more
  have hobject : (objectList kind keys).toList.dropWhile (· != '\x7b') =
      '\x7b' :: (more ++ ['\x7d']) := by
    rw [hends]
    rfl
  have htrim := htrimmed.trim_eq
  rw [hends] at hread htrim
  simp only [readLine, body?_comment htrimmed, hobject, htrim, hread]

theorem keys?_list (keys : List String) :
    keys? (.list (keys.map .str)) = some (keys.map .str) := by
  change (keys.map Value.str).mapM Value.asText? = some (keys.map Atom.str)
  induction keys with
  | nil => rfl
  | cons key rest ih =>
    rw [List.map_cons, List.mapM_cons, ih]
    rfl

/-- Keys in an object name the containers. -/
theorem load_objectList [Json.DepthLimit] (hdepth : 2 ≤ Json.DepthLimit.brackets)
    (kind : Container) (hne : keys ≠ []) (hkeys : ∀ key ∈ keys, PlainKey key) :
    load (comment (objectList kind keys)) [] = .ok (withContainers kind (keys.map .str)) := by
  rw [load_comment (isLineBreak_of_mem_objectList kind hkeys)
    (readLine_objectList hdepth kind hne hkeys), assign_container kind (keys?_list keys)]

/-- Keys come back as they are spelled from a list in an object. Between vertical bars they do so as
well, unless a key that is another spelling of a truth value or of a whole number stands alone. -/
theorem container_keys_kept [Json.DepthLimit] (hdepth : 2 ≤ Json.DepthLimit.brackets)
    (kind : Container) {keys : List String} (hne : keys ≠ []) (hkeys : ∀ key ∈ keys, PlainKey key) :
    load (comment (objectList kind keys)) [] = .ok (withContainers kind (keys.map .str)) ∧
      (load (comment (barList kind keys)) [] = .ok (withContainers kind (keys.map .str)) ↔
        ∀ key, keys = [key] → ¬ Respelled key) :=
  ⟨load_objectList hdepth kind hne hkeys, load_barList_iff kind hne hkeys⟩

theorem container_keys_kept_dynamic :
    load "# @semtutor: \x7b\"scopes\": [\"dyn\", \"007\"]\x7d" [] =
        .ok { scopeKeys := [.str "dyn", .str "007"] } ∧
      load "# @semtutor: scopes=dyn|007" [] = .ok { scopeKeys := [.str "dyn", .str "007"] } := by
  have hkeys : ∀ key ∈ ["dyn", "007"], PlainKey key :=
    List.forall_mem_cons.mpr ⟨plainKey_of_all (by decide) (by decide),
      List.forall_mem_singleton.mpr (plainKey_of_all (by decide) (by decide))⟩
  have hdepth : 2 ≤ Json.DepthLimit.brackets := by decide
  obtain ⟨hobject, hbars⟩ :=
    container_keys_kept hdepth .scope (List.cons_ne_nil "dyn" ["007"]) hkeys
  exact ⟨hobject, hbars.mpr fun key h => nomatch h⟩

/-- A truth value in another case and a number with zeros in front that stand alone. -/
theorem lone_keys_respelled :
    PlainKey "true" ∧ load (comment (barList .scope ["true"])) [] =
        .ok (withContainers .scope [.str "True"]) ∧
      PlainKey "007" ∧ load (comment (barList .stack ["007"])) [] =
        .ok (withContainers .stack [.str "7"]) :=
  ⟨plainKey_of_all (by decide) (by decide), by rfl, plainKey_of_all (by decide) (by decide),
    by decide +kernel⟩

end ScopeMachine.Config
