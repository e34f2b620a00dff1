import Mathlib.Data.List.Perm.Subperm
import ScopeMachine.Proofs.OrderedMap

/-! A map is what its history makes of it. The history lists what was put under keys and which keys
were dropped. Two things can be read off it: the value under a key was put by the last event that
concerns the key, and the keys are listed in the order in which they were entered, where a key that
was dropped has to be entered again. -/
namespace ScopeMachine

namespace OrderedMap

variable {α : Type} {m n : OrderedMap α}

/-! ### Removal -/

theorem Distinct.entries_remove (h : m.Distinct) (key : Atom) :
    (m.remove key).entries = m.entries.filter fun e => !e.1.same key := by
  obtain ⟨entries⟩ := m
  induction entries with
  | nil => rfl
  | cons e rest ih =>
    obtain ⟨k, v⟩ := e
    obtain ⟨hfirst, hrest⟩ := List.pairwise_cons.mp h
    by_cases hk : k.same key = true
    · -- No other key is the same, so the first removal is the only one.
      have hothers : rest.filter (fun e => !e.1.same key) = rest := by
        apply List.filter_eq_self.mpr
        intro e he
        have hdiffers := hfirst e.1 (List.mem_map_of_mem he)
        rw [Atom.same_congr_left hk, Atom.same_comm] at hdiffers
        simp [hdiffers]
      simp [OrderedMap.remove, removeEntry, hk, hothers]
    · have hremove := ih hrest
      simpa [OrderedMap.remove, removeEntry, hk] using hremove

theorem Distinct.keys_remove (h : m.Distinct) (key : Atom) :
    (m.remove key).keys = m.keys.filter fun k => !k.same key := by
  rw [keys, h.entries_remove, keys, List.filter_map]
  rfl

theorem Distinct.remove (h : m.Distinct) (key : Atom) : (m.remove key).Distinct := by
  rw [Distinct, h.keys_remove]
  exact List.Pairwise.filter _ h

theorem get?_remove_of_not_same (m : OrderedMap α) {key other : Atom}
    (h : key.same other = false) : (m.remove key).get? other = m.get? other := by
  obtain ⟨entries⟩ := m
  induction entries with
  | nil => rfl
  | cons e rest ih =>
    obtain ⟨k, v⟩ := e
    by_cases hk : k.same key = true
    · have hother : k.same other = false := by rwa [Atom.same_congr_left hk]
      simp [remove, removeEntry, get?, Atom.entry?, hk, hother]
    · simp only [remove, get?] at ih
      simp [remove, removeEntry, get?, Atom.entry?, hk, ih]

theorem Distinct.get?_remove_of_same (h : m.Distinct) {key other : Atom}
    (hsame : key.same other = true) : (m.remove key).get? other = none := by
  have hcontains : (m.remove key).contains other = false := by
    rw [contains_eq_any, h.keys_remove, List.any_eq_false]
    intro k hk
    simpa [Atom.same_congr_right hsame] using (List.mem_filter.mp hk).2
  simpa [contains] using hcontains

/-! ### Histories -/

/-- A value is put under a key, or a key is dropped. -/
inductive Event (α : Type)
  | put (key : Atom) (value : α)
  | drop (key : Atom)

namespace Event

def key : Event α → Atom
  | .put key _ => key
  | .drop key => key

def value? : Event α → Option α
  | .put _ value => some value
  | .drop _ => none

def perform (m : OrderedMap α) : Event α → OrderedMap α
  | .put key value => m.set key value
  | .drop key => m.remove key

/-- Whether a key is no longer there after the event. -/
def drops (k : Atom) : Event α → Bool
  | .put _ _ => false
  | .drop key => k.same key

end Event

/-- The map that a history leaves, from its beginning. -/
def replay (history : List (Event α)) : OrderedMap α := history.foldl Event.perform empty

/-- The value that the last event under an equal key put there, if it was not dropped. -/
def valueAfter? (key : Atom) (history : List (Event α)) : Option α :=
  (history.reverse.find? (·.key.same key)).bind Event.value?

/-- Whether the event puts a value under a key that is absent after `past`. -/
def Event.enters (past : List (Event α)) (e : Event α) : Bool :=
  e.value?.isSome && (valueAfter? e.key past).isNone

/-- The keys that are entered by a history and not dropped again; `past` is what lies before it. -/
def entered (past : List (Event α)) : List (Event α) → List Atom
  | [] => []
  | e :: later =>
    (if e.enters past && !later.any (·.drops e.key) then [e.key] else []) ++
      entered (past ++ [e]) later

theorem replay_append_singleton (history : List (Event α)) (e : Event α) :
    replay (history ++ [e]) = e.perform (replay history) := by
  simp [replay, List.foldl_append]

theorem valueAfter?_append_singleton (key : Atom) (history : List (Event α)) (e : Event α) :
    valueAfter? key (history ++ [e]) =
      if e.key.same key then e.value? else valueAfter? key history := by
  simp only [valueAfter?, List.reverse_append, List.reverse_singleton, List.singleton_append,
    List.find?_cons]
  split <;> simp [*]

theorem entered_singleton (past : List (Event α)) (e : Event α) :
    entered past [e] = if e.enters past then [e.key] else [] := by
  simp [entered]

/-- The last event takes away what it drops, and adds its key behind the others if it is new. -/
theorem entered_append_singleton (past history : List (Event α)) (e : Event α) :
    entered past (history ++ [e]) =
      (entered past history).filter (fun k => !e.drops k) ++ entered (past ++ history) [e] := by
  induction history generalizing past with
  | nil => simp [entered]
  | cons first later ih =>
    have hfirst (enters dropped : Bool) :
        (if enters && !(dropped || e.drops first.key) then [first.key] else []) =
          (if enters && !dropped then [first.key] else []).filter fun k => !e.drops k := by
      cases enters <;> cases dropped <;> simp [List.filter_cons]
    rw [List.cons_append, entered, entered, List.any_append, ih, List.filter_append, ← hfirst]
    simp

theorem distinct_replay (history : List (Event α)) : (replay history).Distinct := by
  induction history using List.reverseRecOn with
  | nil => exact distinct_empty
  | append_singleton history e ih =>
    rw [replay_append_singleton]
    cases e with
    | put key value => exact ih.set key value
    | drop key => exact ih.remove key

theorem get?_replay (key : Atom) (history : List (Event α)) :
    (replay history).get? key = valueAfter? key history := by
  induction history using List.reverseRecOn with
  | nil => rfl
  | append_singleton history e ih =>
    rw [replay_append_singleton, valueAfter?_append_singleton, ← ih]
    cases hsame : e.key.same key with
    | true =>
      cases e with
      | put other value => exact get?_set_of_same _ value hsame
      | drop other => exact (distinct_replay history).get?_remove_of_same hsame
    | false =>
      cases e with
      | put other value => exact get?_set_of_not_same _ value hsame
      | drop other => exact get?_remove_of_not_same _ hsame

theorem keys_replay (history : List (Event α)) : (replay history).keys = entered [] history := by
  induction history using List.reverseRecOn with
  | nil => rfl
  | append_singleton history e ih =>
    rw [replay_append_singleton, entered_append_singleton, entered_singleton, ← ih,
      List.nil_append]
    cases e with
    | put key value =>
      have henters : (Event.put key value).enters history = !(replay history).contains key := by
        simp [Event.enters, Event.value?, Event.key, contains, get?_replay]
      rw [Event.perform, keys_set, henters]
      cases (replay history).contains key <;> simp [Event.drops, Event.key]
    | drop key =>
      simp [Event.perform, (distinct_replay history).keys_remove, Event.drops, Event.enters,
        Event.value?]

/-! ### Edits -/

/-- What can be asked of a map. -/
inductive Edit (ε α : Type)
  | set (key : Atom) (value : α)
  | update (key : Atom) (f : α → Except ε α) (default : α)
  | remove (key : Atom)

variable {ε : Type}

/-- The map after an edit. An update that fails leaves it as it was. -/
def Edit.apply (m : OrderedMap α) : Edit ε α → OrderedMap α
  | .set key value => m.set key value
  | .update key f default =>
    match m.update key f default with
    | .ok updated => updated
    | .error _ => m
  | .remove key => m.remove key

/-- What an edit comes to on a map, unless it fails. -/
def Edit.event? (m : OrderedMap α) : Edit ε α → Option (Event α)
  | .set key value => some (.put key value)
  | .update key f default =>
    match f (m.getD key default) with
    | .ok value => some (.put key value)
    | .error _ => none
  | .remove key => some (.drop key)

theorem Edit.apply_eq_elim (m : OrderedMap α) (edit : Edit ε α) :
    edit.apply m = (edit.event? m).elim m (Event.perform m) := by
  cases edit with
  | set key value | remove key => rfl
  | update key f default =>
    simp only [apply, event?, OrderedMap.update]
    cases f (m.getD key default) <;> rfl

/-- The map after one edit after another. -/
def edited (m : OrderedMap α) (edits : List (Edit ε α)) : OrderedMap α := edits.foldl Edit.apply m

/-- What edits come to one after another. -/
def events (m : OrderedMap α) : List (Edit ε α) → List (Event α)
  | [] => []
  | edit :: rest => (edit.event? m).toList ++ events (edit.apply m) rest

/-- The history of a map that is made of a list of items and edited then. -/
def history (items : List (Atom × α)) (edits : List (Edit ε α)) : List (Event α) :=
  items.map (fun item => .put item.1 item.2) ++ events (ofList items) edits

theorem foldl_events (m : OrderedMap α) (edits : List (Edit ε α)) :
    (events m edits).foldl Event.perform m = edited m edits := by
  induction edits generalizing m with
  | nil => rfl
  | cons edit rest ih =>
    rw [events, List.foldl_append, edited, List.foldl_cons]
    have hfirst : (edit.event? m).toList.foldl Event.perform m = edit.apply m := by
      rw [Edit.apply_eq_elim]
      cases edit.event? m <;> rfl
    rw [hfirst]
    exact ih (edit.apply m)

theorem replay_history (items : List (Atom × α)) (edits : List (Edit ε α)) :
    replay (history items edits) = edited (ofList items) edits := by
  have hitems : (items.map fun item => Event.put item.1 item.2).foldl Event.perform empty =
      ofList items := List.foldl_map
  rw [replay, history, List.foldl_append, hitems, foldl_events]

/-! ### Equality -/

/-- What equality sees of the keys. -/
def senses (m : OrderedMap α) : List Sense := m.keys.filterMap Atom.sense?

theorem contains_iff_senses {key : Atom} :
    m.contains key = true ↔ ∃ s, key.sense? = some s ∧ s ∈ m.senses := by
  simp only [contains_eq_any, List.any_eq_true, Atom.same_iff, senses, List.mem_filterMap]
  constructor
  · rintro ⟨k, hk, s, hs, hkey⟩
    exact ⟨s, hkey, k, hk, hs⟩
  · rintro ⟨s, hkey, k, hk, hs⟩
    exact ⟨k, hk, s, hs, hkey⟩

theorem Distinct.nodup_senses (h : m.Distinct) : m.senses.Nodup := by
  apply List.pairwise_filterMap.mpr
  apply List.Pairwise.imp _ h
  rintro k k' hdiffer s hs s' hs' rfl
  rw [Atom.same_iff.mpr ⟨s, hs, hs'⟩] at hdiffer
  cases hdiffer

theorem length_senses (h : ∀ k ∈ m.keys, k.same k = true) : m.senses.length = m.size := by
  have hlength : m.senses.length = m.keys.length :=
    List.filterMap_length_eq_length.mpr fun k hk => (Atom.same_self_iff k).mp (h k hk)
  rw [hlength, keys, List.length_map, size]

theorem exists_mem_of_get? {key : Atom} {value : α} (h : m.get? key = some value) :
    ∃ k, (k, value) ∈ m.entries ∧ k.same key = true := by
  obtain ⟨entries⟩ := m
  induction entries with
  | nil => cases h
  | cons e rest ih =>
    obtain ⟨k, v⟩ := e
    by_cases hk : k.same key = true
    · simp only [get?, Atom.entry?, hk, ↓reduceIte, Option.some.injEq] at h
      exact ⟨k, by simp [h], hk⟩
    · simp only [get?, Atom.entry?, hk] at h
      obtain ⟨k', hmem, hk'⟩ := ih h
      exact ⟨k', List.mem_cons_of_mem _ hmem, hk'⟩

theorem Distinct.get?_of_mem (h : m.Distinct) {key : Atom} {value : α}
    (hmem : (key, value) ∈ m.entries) (hself : key.same key = true) :
    m.get? key = some value := by
  obtain ⟨entries⟩ := m
  induction entries with
  | nil => cases hmem
  | cons e rest ih =>
    obtain ⟨k, v⟩ := e
    obtain ⟨hfirst, hrest⟩ := List.pairwise_cons.mp h
    rcases List.mem_cons.mp hmem with heq | hmem
    · cases heq
      simp [OrderedMap.get?, Atom.entry?, hself]
    · have hdiffers : k.same key = false := hfirst key (List.mem_map_of_mem hmem)
      have hget := ih hrest hmem
      simpa [OrderedMap.get?, Atom.entry?, hdiffers] using hget

theorem contains_of_mem_keys {key : Atom} (h : key ∈ m.keys) (hself : key.same key = true) :
    m.contains key = true := by
  rw [contains_eq_any, List.any_eq_true]
  exact ⟨key, h, hself⟩

theorem Distinct.senses_subperm (hm : m.Distinct) (hkeys : ∀ k ∈ m.keys, n.contains k = true) :
    m.senses.Subperm n.senses := by
  apply List.subperm_of_subset hm.nodup_senses
  intro s hs
  obtain ⟨k, hk, hsense⟩ := List.mem_filterMap.mp hs
  obtain ⟨s', hs', hmem⟩ := contains_iff_senses.mp (hkeys k hk)
  rw [hsense] at hs'
  cases hs'
  exact hmem

/-- Two maps are the same if they have the same keys and equal values under them, in whatever order
they list them. -/
theorem Distinct.same_iff (hm : m.Distinct) (hn : n.Distinct)
    (hmself : ∀ k ∈ m.keys, k.same k = true) (hnself : ∀ k ∈ n.keys, k.same k = true)
    (eq : α → α → Bool) :
    m.same eq n = true ↔ (∀ key, m.contains key = n.contains key) ∧
      ∀ key v w, m.get? key = some v → n.get? key = some w → eq v w = true := by
  rw [OrderedMap.same, Bool.and_eq_true, beq_iff_eq, List.all_eq_true]
  constructor
  · rintro ⟨hsize, hall⟩
    have hentry {k : Atom} {v : α} (hmem : (k, v) ∈ m.entries) :
        ∃ w, n.get? k = some w ∧ eq v w = true := by
      have hmatch := hall (k, v) hmem
      cases hget : n.get? k with
      | none => simp [hget] at hmatch
      | some w => exact ⟨w, rfl, by simpa [hget] using hmatch⟩
    have hkeys : ∀ k ∈ m.keys, n.contains k = true := by
      intro k hk
      obtain ⟨⟨_, v⟩, hmem, rfl⟩ := List.mem_map.mp hk
      obtain ⟨w, hw, -⟩ := hentry hmem
      rw [contains, hw, Option.isSome_some]
    -- As many keys, and each of them in the other map: no key of the other map is left over.
    have hlength : n.senses.length ≤ m.senses.length := by
      rw [length_senses hmself, length_senses hnself]
      exact Nat.le_of_eq hsize.symm
    have hperm := (hm.senses_subperm hkeys).perm_of_length_le hlength
    refine ⟨fun key => ?_, fun key v w hv hw => ?_⟩
    · rw [Bool.eq_iff_iff, contains_iff_senses, contains_iff_senses]
      simp only [hperm.mem_iff]
    · obtain ⟨k, hmem, hsame⟩ := exists_mem_of_get? hv
      obtain ⟨w', hw', heq⟩ := hentry hmem
      rw [get?_congr n hsame, hw] at hw'
      cases hw'
      exact heq
  · rintro ⟨hkeys, hvalues⟩
    have hmn : ∀ k ∈ m.keys, n.contains k = true := fun k hk =>
      hkeys k ▸ contains_of_mem_keys hk (hmself k hk)
    have hnm : ∀ k ∈ n.keys, m.contains k = true := fun k hk =>
      (hkeys k).symm ▸ contains_of_mem_keys hk (hnself k hk)
    refine ⟨?_, ?_⟩
    · rw [← length_senses hmself, ← length_senses hnself]
      exact ((hm.senses_subperm hmn).antisymm (hn.senses_subperm hnm)).length_eq
    · rintro ⟨k, v⟩ hmem
      have hk := List.mem_map_of_mem (f := Prod.fst) hmem
      have hget := hm.get?_of_mem hmem (hmself k hk)
      obtain ⟨w, hw⟩ := Option.isSome_iff_exists.mp (hmn k hk)
      simp only [hw]
      exact hvalues k v w hget hw

/-- A map that is made of a list of items and edited has no key twice, and its history tells the
rest. Its keys are listed in the order in which they were entered since they were last absent; the
value under a key is that of the last event under an equal key, unless it was dropped then. An edit
that puts a value under a key that is there changes this value alone: the key is not spelled anew,
and all entries stay in their places. Such a map is the same as another whose keys are distinct if
and only if the two have the same keys and equal values under them, whatever their orders. -/
theorem map_follows_history (items : List (Atom × α)) (edits : List (Edit ε α)) :
    let m := edited (ofList items) edits
    let events := history items edits
    m.Distinct ∧ m.keys = entered [] events ∧
    (∀ key default, m.getD key default = (valueAfter? key events).getD default) ∧
    (∀ (edit : Edit ε α) key value, edit.event? m = some (.put key value) → m.contains key = true →
      (edit.apply m).entries =
        m.entries.map fun e => (e.1, if e.1.same key then value else e.2)) ∧
    ∀ (eq : α → α → Bool) (n : OrderedMap α), n.Distinct →
      (∀ k ∈ m.keys, k.same k = true) → (∀ k ∈ n.keys, k.same k = true) →
      (m.same eq n = true ↔ (∀ key, m.contains key = n.contains key) ∧
        ∀ key v w, m.get? key = some v → n.get? key = some w → eq v w = true) := by
  intro m events
  have hreplay : replay events = m := replay_history items edits
  have hdistinct : m.Distinct := hreplay ▸ distinct_replay events
  refine ⟨hdistinct, ?_, ?_, ?_, ?_⟩
  · rw [← hreplay, keys_replay]
  · intro key default
    rw [getD, ← hreplay, get?_replay]
  · intro edit key value hevent hcontains
    rw [Edit.apply_eq_elim, hevent]
    exact hdistinct.entries_set hcontains value
  · intro eq n hn hmself hnself
    exact hdistinct.same_iff hn hmself hnself eq

/-- The keys 1, 1.0 and true are equal, and a key that is dropped and put again comes last. -/
theorem map_follows_history_reentered :
    let items := [(.int 1, 10), (.str "x", 20)]
    let edits : List (Edit Unit Nat) :=
      [.set (.bool true) 11, .remove (.str "x"), .set (.str "y") 30, .set (.str "x") 40,
        .update (.float (Binary64.ofInt 1)) (fun n => .ok (n + 1)) 0]
    let m := edited (ofList items) edits
    let n := ofList [(.str "x", 40), (.bool true, 12), (.str "y", 30)]
    m.keys = [.int 1, .str "y", .str "x"] ∧ m.getD (.bool true) 0 = 12 ∧
      ∀ key, m.contains key = n.contains key := by
  intro items edits m n
  obtain ⟨-, hkeys, hvalues, -, hsame⟩ := map_follows_history items edits
  have hmself : ∀ k ∈ m.keys, k.same k = true := by decide +kernel
  have hnself : ∀ k ∈ n.keys, k.same k = true := by decide +kernel
  have hequal : m.same (· == ·) n = true := by decide +kernel
  refine ⟨hkeys.trans ?_, (hvalues _ _).trans ?_, ?_⟩
  · decide +kernel
  · decide +kernel
  · exact ((hsame _ n (distinct_ofList _) hmself hnself).mp hequal).1

end OrderedMap

end ScopeMachine
