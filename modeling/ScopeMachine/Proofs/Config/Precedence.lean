import ScopeMachine.Proofs.FrontEnd
import ScopeMachine.Proofs.Text.LetterCase

/-! Which assignment to a field counts. The fields of a configuration do not depend on each other,
and in each layer the last valid assignment to a field settles it: the overrides over the flags of
the source, the flags over the default. The flags of a source are first gathered under their names,
though, where an invalid value takes the place of a valid one before it: if the last assignment to
a field in a source is invalid, the source does not set that field at all. -/
namespace ScopeMachine

namespace Directive

/-- The assignments that the first lines of a source make, line by line in their order. -/
def Assigns [Json.DepthLimit] (source : String) (assignments : List (Atom × Value)) : Prop :=
  ∃ made, List.Forall₂ (fun line found => ∃ notices, readLine line = .ok (found, notices))
    (candidates source) made ∧ assignments = made.flatten

theorem readLines_made [Json.DepthLimit] {lines : List (List Char)}
    (h : (readLines lines).2.2 = none) :
    ∃ made, List.Forall₂ (fun line found => ∃ notices, readLine line = .ok (found, notices))
      lines made ∧ (readLines lines).1 = made.flatten := by
  induction lines with
  | nil => exact ⟨[], .nil, rfl⟩
  | cons line rest ih =>
    unfold readLines at h ⊢
    split at h
    · cases h
    · rename_i found notices hfound
      obtain ⟨made, hmade, hrest⟩ := ih h
      exact ⟨found :: made, .cons ⟨notices, hfound⟩ hmade, congrArg (found ++ ·) hrest⟩

theorem exists_line_of_readLines [Json.DepthLimit] {lines : List (List Char)} {e : FlagError}
    (h : (readLines lines).2.2 = some e) : ∃ line ∈ lines, readLine line = .error e := by
  induction lines with
  | nil => cases h
  | cons line rest ih =>
    unfold readLines at h
    split at h
    · rename_i found hfound
      cases h
      exact ⟨line, List.mem_cons_self, hfound⟩
    · obtain ⟨bad, hbad, herror⟩ := ih h
      exact ⟨bad, List.mem_cons_of_mem line hbad, herror⟩

end Directive

/-- The flags of a source are its assignments gathered under their names. -/
theorem Flags.ofSource_cases [Json.DepthLimit] (source : String) :
    (∃ e, Flags.ofSource source = .error e ∧
      ∃ line ∈ Directive.candidates source, Directive.readLine line = .error e) ∨
    ∃ flags, Directive.Assigns source flags ∧ Directive.SoundValues flags ∧
      Flags.ofSource source = .ok (.ofList flags) := by
  have hcandidates : ∀ line ∈ Directive.candidates source, line <:+: source.toList :=
    fun line hline => (Text.lines_parts source.toList).2 line (List.mem_of_mem_take hline)
  obtain ⟨hsound, -⟩ := Directive.readLines_meets hcandidates
  unfold Flags.ofSource
  split
  · rename_i flags notices e hlines
    exact .inl ⟨e, rfl, Directive.exists_line_of_readLines (congrArg (·.2.2) hlines)⟩
  · rename_i flags notices hlines
    obtain ⟨made, hmade, hflags⟩ := Directive.readLines_made (congrArg (·.2.2) hlines)
    rw [hlines] at hflags hsound
    exact .inr ⟨flags, ⟨made, hmade, hflags⟩, hsound, rfl⟩

namespace Config

/-! ### Fields and their settings -/

/-- What a field can be set to. -/
inductive Setting
  | switch (on : Bool)
  | keys (keys : List Atom)
  deriving DecidableEq

def setting (c : Config) : Field → Setting
  | .strictNames => .switch c.strictNames
  | .stopOnError => .switch c.stopOnError
  | .scopeKeys => .keys c.scopeKeys
  | .stackKeys => .keys c.stackKeys

/-- The truth value that a flag names: itself, or the word for it in any case. -/
def namedTruth? : Value → Option Bool
  | .bool b => some b
  | .str s =>
    if Text.lower s.toList = "true".toList then some true
    else if Text.lower s.toList = "false".toList then some false
    else none
  | _ => none

/-- What a value sets a field to, if it is valid for that field. -/
def Field.setting? : Field → Value → Option Setting
  | .strictNames, value | .stopOnError, value => (namedTruth? value).map .switch
  | .scopeKeys, value | .stackKeys, value => (keys? value).map .keys

/-- The values assigned to a field. -/
def Field.values (field : Field) (assignments : List (Atom × Value)) : List Value :=
  OrderedMap.under (.str field.name) assignments

/-- The settings that the valid ones among the assignments to a field make. -/
def Field.given (field : Field) (assignments : List (Atom × Value)) : List Setting :=
  (field.values assignments).filterMap field.setting?

/-- The last setting that a valid assignment makes, or else the default. -/
def Field.settled (field : Field) (assignments : List (Atom × Value)) : Setting :=
  (field.given assignments).getLast?.getD (({} : Config).setting field)

/-- The last assignment to a field is invalid. -/
def Field.Spoiled (field : Field) (assignments : List (Atom × Value)) : Prop :=
  ∃ value, (field.values assignments).getLast? = some value ∧ field.setting? value = none

/-- An assignment of container keys that cannot be written out. -/
def Unwritable (e : Atom × Value) : Prop :=
  (e.1.same (.str Field.scopeKeys.name) = true ∨ e.1.same (.str Field.stackKeys.name) = true) ∧
    keys? e.2 = none

/-- The words `true` and `false` have no spellings but those in small and capital ASCII letters. -/
theorem truth?_eq_namedTruth? (value : Value) : truth? value = namedTruth? value := by
  cases value with
  | list items | dict entries => rfl
  | atom a =>
    cases a with
    | str s =>
      have htrue := Text.lower_eq_iff "true".toList (List.all_eq_true.mp (by decide)) s.toList
      have hfalse := Text.lower_eq_iff "false".toList (List.all_eq_true.mp (by decide)) s.toList
      exact if_congr htrue.symm rfl (if_congr hfalse.symm rfl rfl)
    | null | bool b | int i | float x | codes points => rfl

theorem Field.ofKey?_eq_some_iff {key : Atom} {field : Field} :
    ofKey? key = some field ↔ key.same (.str field.name) = true := by
  constructor
  · intro h
    have hfound := List.find?_some (p := fun field : Field => key.same (.str field.name)) h
    exact hfound
  · intro h
    have hkey : ofKey? key = ofKey? (.str field.name) := by
      unfold ofKey?
      simp only [Atom.same_congr_left h]
    rw [hkey]
    cases field <;> decide

/-! ### Assignments -/

variable {c c' : Config} {assignments : List (Atom × Value)}

/-- An assignment changes no field but the one it names, and that one only if it is valid. -/
theorem setting_assign {key : Atom} {value : Value} (h : c.assign key value = .ok c')
    (field : Field) :
    c'.setting field =
      if key.same (.str field.name) then (field.setting? value).getD (c.setting field)
      else c.setting field := by
  have hnamed (named : Field) (hkey : Field.ofKey? key = some named) :
      key.same (.str field.name) = true ↔ named = field := by
    rw [← Field.ofKey?_eq_some_iff, hkey, Option.some.injEq]
  unfold assign at h
  simp only [truth?_eq_namedTruth?] at h
  split at h
  · rename_i hkey
    cases h
    have hnone : ¬ key.same (.str field.name) = true := by
      rw [← Field.ofKey?_eq_some_iff, hkey]
      nofun
    rw [if_neg hnone]
  · rename_i hkey
    cases h
    simp only [hnamed .strictNames hkey]
    cases field <;> cases hvalue : namedTruth? value <;>
      simp [setting, Field.setting?, hvalue]
  · rename_i hkey
    cases h
    simp only [hnamed .stopOnError hkey]
    cases field <;> cases hvalue : namedTruth? value <;>
      simp [setting, Field.setting?, hvalue]
  · rename_i hkey
    split at h
    · rename_i keys hkeys
      cases h
      simp only [hnamed .scopeKeys hkey]
      cases field <;> simp [setting, Field.setting?, hkeys]
    · cases h
  · rename_i hkey
    split at h
    · rename_i keys hkeys
      cases h
      simp only [hnamed .stackKeys hkey]
      cases field <;> simp [setting, Field.setting?, hkeys]
    · cases h

theorem unwritable_of_assign {key : Atom} {value : Value} {e : FlagError}
    (h : c.assign key value = .error e) : e = .digitLimit ∧ Unwritable (key, value) := by
  unfold assign at h
  split at h
  · cases h
  · cases h
  · cases h
  · rename_i hkey
    split at h
    · cases h
    · rename_i hkeys
      cases h
      exact ⟨rfl, .inl (Field.ofKey?_eq_some_iff.mp hkey), hkeys⟩
  · rename_i hkey
    split at h
    · cases h
    · rename_i hkeys
      cases h
      exact ⟨rfl, .inr (Field.ofKey?_eq_some_iff.mp hkey), hkeys⟩

/-- Assignments made one after another: the last valid one to a field counts. -/
theorem setting_assignAll (h : c.assignAll assignments = .ok c') (field : Field) :
    c'.setting field = (field.given assignments).getLast?.getD (c.setting field) := by
  induction assignments generalizing c with
  | nil =>
    cases h
    rfl
  | cons e rest ih =>
    obtain ⟨next, hnext, hrest⟩ := bind_eq_ok h
    rw [ih hrest, setting_assign hnext field]
    simp only [Field.given, Field.values, OrderedMap.under_cons]
    split
    · rw [List.filterMap_cons]
      cases field.setting? e.2 with
      | none => rfl
      | some setting =>
        rw [List.getLast?_cons]
        cases (List.filterMap field.setting? _).getLast? <;> rfl
    · rfl

theorem unwritable_of_assignAll {e : FlagError} (h : c.assignAll assignments = .error e) :
    e = .digitLimit ∧ ∃ assignment ∈ assignments, Unwritable assignment := by
  induction assignments generalizing c with
  | nil => cases h
  | cons first rest ih =>
    cases hfirst : c.assign first.1 first.2 with
    | error found =>
      rw [assignAll, bind_of_error hfirst] at h
      cases h
      obtain ⟨he, hunwritable⟩ := unwritable_of_assign hfirst
      exact ⟨he, first, List.mem_cons_self, hunwritable⟩
    | ok next =>
      rw [assignAll, bind_of_ok hfirst] at h
      obtain ⟨he, assignment, hmem, hunwritable⟩ := ih h
      exact ⟨he, assignment, List.mem_cons_of_mem first hmem, hunwritable⟩

/-! ### Flags -/

/-- Gathered under their names, the assignments to a field give what the last one of them gives. -/
theorem Field.given_ofList (field : Field) (assignments : List (Atom × Value)) :
    field.given (OrderedMap.ofList assignments).entries =
      ((field.values assignments).getLast?.bind field.setting?).toList := by
  unfold Field.given Field.values
  rw [OrderedMap.under_ofList]
  cases (OrderedMap.under (.str field.name) assignments).getLast? with
  | none => rfl
  | some value =>
    cases hvalue : field.setting? value <;> simp [hvalue]

theorem Field.given_ofList_of_spoiled {field : Field} (h : field.Spoiled assignments) :
    field.given (OrderedMap.ofList assignments).entries = [] := by
  obtain ⟨value, hlast, hvalue⟩ := h
  rw [given_ofList, hlast, Option.bind_some, hvalue]
  rfl

theorem Field.getLast?_given_ofList {field : Field} (h : ¬ field.Spoiled assignments) :
    (field.given (OrderedMap.ofList assignments).entries).getLast? =
      (field.given assignments).getLast? := by
  rw [given_ofList]
  cases hlast : (field.values assignments).getLast? with
  | none =>
    rw [given, List.getLast?_eq_none_iff.mp hlast]
    rfl
  | some value =>
    obtain ⟨setting, hsetting⟩ : ∃ setting, field.setting? value = some setting := by
      rw [← Option.ne_none_iff_exists']
      exact fun hnone => h ⟨value, hlast, hnone⟩
    obtain ⟨before, hvalues⟩ := List.getLast?_eq_some_iff.mp hlast
    simp [given, hvalues, hsetting]

/-- What a source says can always be written out, so only a switch can be given a wrong value. -/
theorem Field.Spoiled.isSwitch {field : Field} (h : field.Spoiled assignments)
    (hsound : Directive.SoundValues assignments) : field = .strictNames ∨ field = .stopOnError := by
  obtain ⟨value, hlast, hvalue⟩ := h
  obtain ⟨e, he, rfl⟩ := List.mem_map.mp (List.mem_of_getLast? hlast)
  have hkeys := isSome_keys? (hsound e (List.mem_of_mem_filter he)).writable_of_sound
  cases field with
  | strictNames => exact .inl rfl
  | stopOnError => exact .inr rfl
  | scopeKeys | stackKeys =>
    rw [Option.map_eq_none_iff.mp hvalue] at hkeys
    cases hkeys

theorem Field.given_append (field : Field) (xs ys : List (Atom × Value)) :
    field.given (xs ++ ys) = field.given xs ++ field.given ys := by
  simp only [given, values, OrderedMap.under_append, List.filterMap_append]

theorem Field.getLast?_given_append (field : Field) (xs ys : List (Atom × Value)) :
    (field.given (xs ++ ys)).getLast? =
      (field.given ys).getLast?.or (field.given xs).getLast? := by
  rw [given_append, List.getLast?_append]

/-- Every field has the setting of the last valid assignment to it: a flag that the source sets in
its first lines or, after these, an override that is not null; without one it keeps its default. An
exception are switches whose last assignment in the source is invalid, for which no flag counts.
There is no configuration at all if a line cannot be read or an override names containers by what
cannot be written out. -/
theorem last_valid_assignment_settles [Json.DepthLimit] (source : String)
    (overrides : List (Atom × Value)) :
    (∃ e, load source overrides = .error e ∧
      ((∃ line ∈ Directive.candidates source, Directive.readLine line = .error e) ∨
        e = .digitLimit ∧ ∃ o ∈ setOverrides overrides, Unwritable o)) ∨
    ∃ c flags, load source overrides = .ok c ∧ Directive.Assigns source flags ∧
      ∀ field : Field,
        (¬ field.Spoiled flags →
          c.setting field = field.settled (flags ++ setOverrides overrides)) ∧
        (field.Spoiled flags → (field = .strictNames ∨ field = .stopOnError) ∧
          c.setting field = field.settled (setOverrides overrides)) := by
  rcases Flags.ofSource_cases source with ⟨e, hflags, hline⟩ | ⟨flags, hassigns, hsound, hflags⟩
  · exact .inl ⟨e, bind_of_error hflags, .inl hline⟩
  have hgathered : Directive.SoundValues (OrderedMap.ofList flags).entries := by
    have hmeets := ofSource_meets source
    rwa [hflags] at hmeets
  obtain ⟨flagged, hflagged⟩ := ({} : Config).exists_assignAll hgathered
  have hload : load source overrides = flagged.assignAll (setOverrides overrides) := by
    rw [load, bind_of_ok hflags, withFlags, bind_of_ok hflagged]
  cases hoverridden : flagged.assignAll (setOverrides overrides) with
  | error e => exact .inl ⟨e, hload.trans hoverridden, .inr (unwritable_of_assignAll hoverridden)⟩
  | ok c =>
    refine .inr ⟨c, flags, hload.trans hoverridden, hassigns, fun field => ⟨?_, ?_⟩⟩
    · intro hvalid
      rw [setting_assignAll hoverridden, setting_assignAll hflagged,
        Field.getLast?_given_ofList hvalid, Field.settled, Field.getLast?_given_append]
      cases (field.given (setOverrides overrides)).getLast? <;> rfl
    · intro hspoiled
      refine ⟨hspoiled.isSwitch hsound, ?_⟩
      rw [setting_assignAll hoverridden, setting_assignAll hflagged,
        Field.given_ofList_of_spoiled hspoiled]
      rfl

/-- A switch that is turned off and then given a value that is no truth value is on again. -/
theorem spoiled_switch_returns :
    let source := "# @semtutor: strict_names=false; strict_names=maybe"
    ∃ c flags, load source [] = .ok c ∧ Directive.Assigns source flags ∧
      Field.settled .strictNames (flags ++ setOverrides []) = .switch false ∧
      c.setting .strictNames = .switch true := by
  let flags : List (Atom × Value) :=
    [(.str "strict_names", .bool false), (.str "strict_names", .str "maybe")]
  have hlines : Directive.candidates "# @semtutor: strict_names=false; strict_names=maybe" =
      ["# @semtutor: strict_names=false; strict_names=maybe".toList] := by rfl
  have hread : Directive.readLine "# @semtutor: strict_names=false; strict_names=maybe".toList =
      .ok (flags, []) := by rfl
  refine ⟨{}, flags, by rfl, ⟨[flags], ?_, rfl⟩, rfl, rfl⟩
  rw [hlines]
  exact .cons ⟨[], hread⟩ .nil

end Config

end ScopeMachine
