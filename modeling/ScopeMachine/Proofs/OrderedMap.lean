import Mathlib.Data.List.Forall2
import Mathlib.Data.List.Induction
import ScopeMachine.OrderedMap

/-! Keys that are the same are interchangeable, and setting a key that is present changes one value
and nothing else. Where no two keys are the same, the order of the entries matters neither to a
look-up nor to a key that is set. -/
namespace ScopeMachine

theorem Atom.same_congr_right {a b : Atom} (h : a.same b = true) (c : Atom) :
    c.same a = c.same b := by
  rw [Bool.eq_iff_iff]
  constructor
  · intro hca
    exact same_trans hca h
  · intro hcb
    exact same_trans hcb ((same_comm b a).trans h)

theorem Atom.same_congr_left {a b : Atom} (h : a.same b = true) (c : Atom) :
    a.same c = b.same c := by
  rw [same_comm a, same_comm b]
  exact same_congr_right h c

/-- A key is the same as at most one of two that differ. -/
theorem Atom.not_same_of_same {a b key : Atom} (hab : a.same b = false) (ha : a.same key = true) :
    b.same key = false := by
  rw [same_comm, ← same_congr_left ha]
  exact hab

/-- Texts are the same only if they are spelled the same. -/
theorem Atom.same_iff_eq_of_kind {a b : Atom} (ha : a.kind = .str) (hb : b.kind = .str) :
    a.same b = true ↔ a = b := by
  rw [same_iff]
  cases a <;> cases ha <;> cases b <;> cases hb <;> simp [sense?, eq_comm]

theorem Atom.entry?_congr {α : Type} {a b : Atom} (h : a.same b = true)
    (entries : List (Atom × α)) : a.entry? entries = b.entry? entries := by
  induction entries with
  | nil => rfl
  | cons entry rest ih =>
    obtain ⟨k, v⟩ := entry
    simp only [same_congr_right h, ih, entry?]

@[simp] theorem Value.same_atom (a b : Atom) : (Value.atom a).same (.atom b) = a.same b := by
  rw [Value.same]

namespace OrderedMap

variable {α : Type}

theorem get?_congr (m : OrderedMap α) {a b : Atom} (h : a.same b = true) : m.get? a = m.get? b :=
  Atom.entry?_congr h m.entries

theorem same_self_of_get? {m : OrderedMap α} {key : Atom} {value : α}
    (h : m.get? key = some value) : key.same key = true := by
  obtain ⟨entries⟩ := m
  induction entries with
  | nil => cases h
  | cons entry rest ih =>
    obtain ⟨k, v⟩ := entry
    by_cases hk : k.same key = true
    · exact Atom.same_trans ((Atom.same_comm key k).trans hk) hk
    · simp only [get?, Atom.entry?, hk] at h
      exact ih h

theorem get?_set_of_same (m : OrderedMap α) {key other : Atom} (value : α)
    (h : key.same other = true) : (m.set key value).get? other = some value := by
  have hself : key.same key = true := Atom.same_trans h ((Atom.same_comm other key).trans h)
  rw [← get?_congr _ h]
  exact get?_set_self m value hself

/-- Setting the value that a key has already changes nothing. -/
theorem set_of_get? {m : OrderedMap α} {key : Atom} {value : α} (h : m.get? key = some value) :
    m.set key value = m := by
  obtain ⟨entries⟩ := m
  induction entries with
  | nil => cases h
  | cons entry rest ih =>
    obtain ⟨k, v⟩ := entry
    by_cases hk : k.same key = true
    · simp only [get?, Atom.entry?, hk, ↓reduceIte, Option.some.injEq] at h
      simp [set, setEntry, hk, h]
    · simp only [get?, Atom.entry?, hk] at h
      have hrest := congrArg entries (ih h)
      simpa [set, setEntry, hk] using hrest

/-- Of two values set under one key the second remains. -/
theorem set_set (m : OrderedMap α) {key : Atom} (h : key.same key = true) (value value' : α) :
    (m.set key value).set key value' = m.set key value' := by
  obtain ⟨entries⟩ := m
  induction entries with
  | nil => simp [set, setEntry, h]
  | cons entry rest ih =>
    obtain ⟨k, v⟩ := entry
    by_cases hk : k.same key = true
    · simp [set, setEntry, hk]
    · have hrest := congrArg entries ih
      simpa [set, setEntry, hk] using hrest

/-- Of two keys that differ it does not matter which is set first, if one of them is there. If both
are new, the one that is set first comes first. -/
theorem set_comm {m : OrderedMap α} {key other : Atom} (h : key.same other = false)
    (hkey : m.contains key = true) (value value' : α) :
    (m.set key value).set other value' = (m.set other value').set key value := by
  obtain ⟨entries⟩ := m
  induction entries with
  | nil => cases hkey
  | cons entry rest ih =>
    obtain ⟨k, v⟩ := entry
    by_cases hk : k.same key = true
    · have hother : k.same other = false := by
        rw [Atom.same_congr_left hk]
        exact h
      simp [set, setEntry, hk, hother]
    · by_cases hother : k.same other = true
      · simp [set, setEntry, hk, hother]
      · simp only [contains, get?, Atom.entry?, hk] at hkey
        have hrest := congrArg entries (ih hkey)
        simpa [set, setEntry, hk, hother] using hrest

/-- Setting a key that is present keeps every entry in its place under its own key, and changes a
value only under the same key. -/
theorem forall₂_set {m : OrderedMap α} {key : Atom} (h : m.contains key = true) (value : α) :
    List.Forall₂ (fun e e' => e'.1 = e.1 ∧ (e'.2 ≠ e.2 → e.1.same key = true)) m.entries
      (m.set key value).entries := by
  obtain ⟨entries⟩ := m
  induction entries with
  | nil => cases h
  | cons entry rest ih =>
    obtain ⟨k, v⟩ := entry
    have hrefl (es : List (Atom × α)) :
        List.Forall₂ (fun e e' => e'.1 = e.1 ∧ (e'.2 ≠ e.2 → e.1.same key = true)) es es :=
      List.forall₂_same.mpr fun _ _ => ⟨rfl, fun hne => absurd rfl hne⟩
    by_cases hk : k.same key = true
    · simp only [set, setEntry, hk, ↓reduceIte]
      exact .cons ⟨rfl, fun _ => hk⟩ (hrefl rest)
    · simp only [contains, get?, Atom.entry?, hk] at h
      simp only [set, setEntry, hk]
      exact .cons ⟨rfl, fun hne => absurd rfl hne⟩ (ih h)

/-! ### Keys -/

/-- Whether a key is there depends on the keys alone. -/
theorem contains_eq_any (m : OrderedMap α) (key : Atom) :
    m.contains key = m.keys.any (·.same key) := by
  obtain ⟨entries⟩ := m
  induction entries with
  | nil => rfl
  | cons entry rest ih =>
    obtain ⟨k, v⟩ := entry
    simp only [contains, get?, keys] at ih
    by_cases hk : k.same key = true
    · simp [contains, get?, keys, Atom.entry?, hk]
    · simp [contains, get?, keys, Atom.entry?, hk, ih]

/-- A new key comes last; one that is present stays as it is. -/
theorem keys_set (m : OrderedMap α) (key : Atom) (value : α) :
    (m.set key value).keys = if m.contains key then m.keys else m.keys ++ [key] := by
  obtain ⟨entries⟩ := m
  induction entries with
  | nil => rfl
  | cons entry rest ih =>
    obtain ⟨k, v⟩ := entry
    simp only [contains, get?, keys, set] at ih
    by_cases hk : k.same key = true
    · simp [contains, get?, keys, set, setEntry, Atom.entry?, hk]
    · simp only [contains, get?, keys, set, setEntry, Atom.entry?, hk, Bool.false_eq_true,
        ↓reduceIte, List.map_cons, ih]
      split <;> simp [*]

theorem keys_set_of_get? {m : OrderedMap α} {key : Atom} {old : α} (h : m.get? key = some old)
    (value : α) : (m.set key value).keys = m.keys := by
  rw [keys_set, if_pos (by simp [contains, h])]

/-! ### Entries under one key -/

/-- The values that stand under a key in a list of entries. -/
def under (key : Atom) (entries : List (Atom × α)) : List α :=
  (entries.filter (·.1.same key)).map Prod.snd

theorem under_nil (key : Atom) : under key ([] : List (Atom × α)) = [] := rfl

theorem under_cons (key : Atom) (e : Atom × α) (rest : List (Atom × α)) :
    under key (e :: rest) = if e.1.same key then e.2 :: under key rest else under key rest := by
  unfold under
  rw [List.filter_cons]
  split <;> rfl

theorem under_append (key : Atom) (xs ys : List (Atom × α)) :
    under key (xs ++ ys) = under key xs ++ under key ys := by
  unfold under
  rw [List.filter_append, List.map_append]

theorem under_setEntry_of_not_same {k key : Atom} (h : k.same key = false) (value : α)
    (entries : List (Atom × α)) : under key (setEntry k value entries) = under key entries := by
  induction entries with
  | nil => simp [setEntry, under_cons, h]
  | cons e rest ih =>
    obtain ⟨k', v⟩ := e
    by_cases hk : k'.same k = true
    · simp [setEntry, hk, under_cons, Atom.same_congr_left hk key, h]
    · simp [setEntry, hk, under_cons, ih]

theorem under_setEntry_of_same {k key : Atom} (h : k.same key = true) (value : α)
    {entries : List (Atom × α)} (hone : (under key entries).length ≤ 1) :
    under key (setEntry k value entries) = [value] := by
  induction entries with
  | nil => simp [setEntry, under_cons, under_nil, h]
  | cons e rest ih =>
    obtain ⟨k', v⟩ := e
    have hkey : k'.same k = k'.same key := Atom.same_congr_right h k'
    by_cases hk : k'.same key = true
    · have hrest : under key rest = [] := by
        simp only [under_cons, hk, ↓reduceIte, List.length_cons] at hone
        exact List.eq_nil_of_length_eq_zero (by omega)
      simp [setEntry, hkey, hk, under_cons, hrest]
    · simp only [under_cons, hk] at hone
      simp [setEntry, hkey, hk, under_cons, ih hone]

/-- Of the entries under a key the last one counts. -/
theorem under_ofList (key : Atom) (entries : List (Atom × α)) :
    under key (ofList entries).entries = (under key entries).getLast?.toList := by
  induction entries using List.reverseRecOn with
  | nil => rfl
  | append_singleton entries e ih =>
    have hset : (ofList (entries ++ [e])).entries = setEntry e.1 e.2 (ofList entries).entries := by
      simp [ofList, List.foldl_append, set]
    rw [hset, under_append, under_cons]
    by_cases hk : e.1.same key = true
    · have hone : (under key (ofList entries).entries).length ≤ 1 := by
        rw [ih]
        cases (under key entries).getLast? <;> simp
      rw [under_setEntry_of_same hk e.2 hone, if_pos hk, List.getLast?_append]
      rfl
    · rw [under_setEntry_of_not_same (Bool.eq_false_iff.mpr hk), ih, if_neg hk, under_nil,
        List.append_nil]

/-! ### Changing one value -/

/-- Changes the value under one key, if there is one. -/
def mapAt (key : Atom) (f : α → α) (m : OrderedMap α) : OrderedMap α :=
  ⟨m.entries.map fun (k, v) => (k, if k.same key then f v else v)⟩

theorem get?_mapAt (m : OrderedMap α) (key other : Atom) (f : α → α) :
    (m.mapAt key f).get? other =
      (m.get? other).map fun v => if other.same key then f v else v := by
  obtain ⟨entries⟩ := m
  induction entries with
  | nil => rfl
  | cons entry rest ih =>
    obtain ⟨k, v⟩ := entry
    by_cases hk : k.same other = true
    · simp [mapAt, get?, Atom.entry?, hk, Atom.same_congr_left hk key]
    · simpa [mapAt, get?, Atom.entry?, hk] using ih

/-- A value may be changed before it is put under its key or afterwards. -/
theorem set_mapAt (m : OrderedMap α) (key other : Atom) (f : α → α) (value : α) :
    (m.mapAt key f).set other (if other.same key then f value else value) =
      (m.set other value).mapAt key f := by
  obtain ⟨entries⟩ := m
  induction entries with
  | nil => rfl
  | cons entry rest ih =>
    obtain ⟨k, v⟩ := entry
    by_cases hk : k.same other = true
    · simp [mapAt, set, setEntry, hk, Atom.same_congr_left hk key]
    · have hrest := congrArg entries ih
      simpa [mapAt, set, setEntry, hk] using hrest

/-! ### What holds of all keys and of all values -/

/-- All keys satisfy `p` and all values satisfy `q`. -/
def Holds (p : Atom → Prop) (q : α → Prop) (m : OrderedMap α) : Prop :=
  ∀ e ∈ m.entries, p e.1 ∧ q e.2

variable {p : Atom → Prop} {q : α → Prop} {m : OrderedMap α}

theorem holds_empty : (empty : OrderedMap α).Holds p q := by simp [Holds, empty]

/-- A value that is overwritten leaves its key, so keys and values are seen to apart. -/
theorem Holds.set (h : m.Holds p q) {key : Atom} {value : α} (hkey : p key) (hvalue : q value) :
    (m.set key value).Holds p q := by
  obtain ⟨entries⟩ := m
  induction entries with
  | nil => simpa [Holds, OrderedMap.set, setEntry] using And.intro hkey hvalue
  | cons entry rest ih =>
    obtain ⟨k, v⟩ := entry
    obtain ⟨hfirst, hrest⟩ := List.forall_mem_cons.mp h
    have hset : ∀ e ∈ setEntry key value rest, p e.1 ∧ q e.2 := ih hrest
    intro e he
    simp only [OrderedMap.set, setEntry] at he
    split at he <;> rcases List.mem_cons.mp he with rfl | he
    · exact ⟨hfirst.1, hvalue⟩
    · exact hrest e he
    · exact hfirst
    · exact hset e he

/-- A key that is present is not spelled anew. -/
theorem Holds.set_of_get? (h : m.Holds p q) {key : Atom} {old value : α}
    (hget : m.get? key = some old) (hvalue : q value) : (m.set key value).Holds p q := by
  have hvalues : (m.set key value).Holds (fun _ => True) q :=
    Holds.set (fun e he => ⟨trivial, (h e he).2⟩) trivial hvalue
  intro e he
  have hkey : e.1 ∈ m.keys := by
    rw [← keys_set_of_get? hget value]
    exact List.mem_map_of_mem he
  obtain ⟨e', he', heq⟩ := List.mem_map.mp hkey
  exact ⟨heq ▸ (h e' he').1, (hvalues e he).2⟩

theorem Holds.foldl_set {β : Type} {f : β → Atom × α} {xs : List β} (h : m.Holds p q)
    (hxs : ∀ x ∈ xs, p (f x).1 ∧ q (f x).2) :
    (xs.foldl (fun m x => m.set (f x).1 (f x).2) m).Holds p q := by
  induction xs generalizing m with
  | nil => exact h
  | cons x rest ih =>
    obtain ⟨hfirst, hrest⟩ := List.forall_mem_cons.mp hxs
    exact ih (h.set hfirst.1 hfirst.2) hrest

theorem Holds.ofList {entries : List (Atom × α)} (h : ∀ e ∈ entries, p e.1 ∧ q e.2) :
    (ofList entries).Holds p q :=
  holds_empty.foldl_set (f := id) h

theorem Holds.get? (h : m.Holds p q) {key : Atom} {value : α} (hget : m.get? key = some value) :
    q value := by
  obtain ⟨entries⟩ := m
  induction entries with
  | nil => cases hget
  | cons entry rest ih =>
    obtain ⟨k, v⟩ := entry
    obtain ⟨hfirst, hrest⟩ := List.forall_mem_cons.mp h
    simp only [OrderedMap.get?, Atom.entry?] at hget
    split at hget
    · cases hget
      exact hfirst.2
    · exact ih hrest hget

/-- A key keeps a value that satisfies `q`, whatever keys are set to such values. -/
theorem exists_get?_foldl_set {key : Atom} {f : Atom → α} (hf : ∀ k, q (f k)) (keys : List Atom)
    (h : ∃ value, m.get? key = some value ∧ q value) :
    ∃ value, (keys.foldl (fun m k => m.set k (f k)) m).get? key = some value ∧ q value := by
  induction keys generalizing m with
  | nil => exact h
  | cons k rest ih =>
    apply ih
    cases hsame : k.same key with
    | true => exact ⟨f k, get?_set_of_same m (f k) hsame, hf k⟩
    | false =>
      rw [get?_set_of_not_same m (f k) hsame]
      exact h

/-! ### Two maps entry by entry -/

/-- Two keys that serve for one another. If `strict` is set, they are also spelled the same. -/
def KeysFit (strict : Bool) (k k' : Atom) : Prop := k = k' ∨ (strict = false ∧ k.same k' = true)

theorem KeysFit.same_eq {strict : Bool} {k k' : Atom} (h : KeysFit strict k k') (key : Atom) :
    k.same key = k'.same key := by
  rcases h with rfl | ⟨-, hsame⟩
  · rfl
  · exact Atom.same_congr_left hsame key

/-- The entries of two maps correspond one by one in their order. -/
def Entrywise (strict : Bool) (r : α → α → Prop) (m n : OrderedMap α) : Prop :=
  List.Forall₂ (fun e e' => KeysFit strict e.1 e'.1 ∧ r e.2 e'.2) m.entries n.entries

variable {strict : Bool} {r : α → α → Prop} {n : OrderedMap α}

theorem Entrywise.get? (h : m.Entrywise strict r n) (key : Atom) :
    Option.Rel r (m.get? key) (n.get? key) := by
  obtain ⟨entries⟩ := m
  obtain ⟨entries'⟩ := n
  simp only [Entrywise] at h
  induction h with
  | nil => exact .none
  | cons hfirst _ ih =>
    simp only [OrderedMap.get?, Atom.entry?, hfirst.1.same_eq key] at ih ⊢
    split
    · exact .some hfirst.2
    · exact ih

theorem Entrywise.set (h : m.Entrywise strict r n) (key : Atom) {value value' : α}
    (hvalue : r value value') : (m.set key value).Entrywise strict r (n.set key value') := by
  obtain ⟨entries⟩ := m
  obtain ⟨entries'⟩ := n
  simp only [Entrywise] at h
  induction h with
  | nil => exact .cons ⟨.inl rfl, hvalue⟩ .nil
  | cons hfirst hrest ih =>
    simp only [OrderedMap.set, setEntry, hfirst.1.same_eq key] at ih ⊢
    split
    · exact .cons ⟨hfirst.1, hvalue⟩ hrest
    · exact .cons hfirst ih

/-- Two maps agree strictly in what `f` makes of their values if `f` makes them the same map. -/
theorem entrywise_iff_mapValues {β : Type} (f : α → β) :
    m.Entrywise true (fun v w => f v = f w) n ↔
      (m.mapValues f).entries = (n.mapValues f).entries := by
  unfold mapValues
  rw [← List.forall₂_eq_eq_eq, List.forall₂_map_left_iff, List.forall₂_map_right_iff]
  simp [Entrywise, KeysFit]

theorem entrywise_eq_iff : m.Entrywise true Eq n ↔ m.entries = n.entries := by
  simpa [mapValues] using entrywise_iff_mapValues (m := m) (n := n) id

/-! ### The order of entries -/

/-- No two keys are the same, as in every map that is built by setting one key after another. -/
def Distinct (m : OrderedMap α) : Prop := m.keys.Pairwise fun k k' => k.same k' = false

theorem Distinct.set (h : m.Distinct) (key : Atom) (value : α) : (m.set key value).Distinct := by
  unfold Distinct
  rw [keys_set]
  split
  · exact h
  · next habsent =>
    have hother : ∀ k ∈ m.keys, k.same key = false := by
      simpa [contains_eq_any] using habsent
    apply List.pairwise_append.mpr
    exact ⟨h, List.pairwise_singleton _ key, by simpa using hother⟩

theorem distinct_empty : (empty : OrderedMap α).Distinct := .nil

theorem Distinct.foldl_set {β : Type} (h : m.Distinct) (f : β → Atom × α) (xs : List β) :
    (xs.foldl (fun m x => m.set (f x).1 (f x).2) m).Distinct := by
  induction xs generalizing m with
  | nil => exact h
  | cons x rest ih => exact ih (h.set _ _)

theorem distinct_ofList (entries : List (Atom × α)) : (ofList entries).Distinct :=
  distinct_empty.foldl_set id entries

theorem entries_set_of_not_contains {key : Atom} (h : m.contains key = false) (value : α) :
    (m.set key value).entries = m.entries ++ [(key, value)] := by
  obtain ⟨entries⟩ := m
  induction entries with
  | nil => rfl
  | cons e rest ih =>
    obtain ⟨k, v⟩ := e
    simp only [contains, get?, Atom.entry?] at h
    split at h
    · cases h
    · rename_i hk
      have hrest := ih h
      simp only [OrderedMap.set] at hrest
      simp [OrderedMap.set, setEntry, hk, hrest]

/-- A key that is present keeps its spelling and its place, and so does every other entry. -/
theorem Distinct.entries_set (h : m.Distinct) {key : Atom} (hkey : m.contains key = true)
    (value : α) :
    (m.set key value).entries =
      m.entries.map fun e => (e.1, if e.1.same key then value else e.2) := by
  obtain ⟨entries⟩ := m
  induction entries with
  | nil => cases hkey
  | cons e rest ih =>
    obtain ⟨k, v⟩ := e
    obtain ⟨hfirst, hrest⟩ := List.pairwise_cons.mp h
    by_cases hk : k.same key = true
    · have hothers : rest.map (fun e => (e.1, if e.1.same key then value else e.2)) = rest := by
        apply (List.map_congr_left _).trans (List.map_id rest)
        intro e he
        have hdiffers := hfirst e.1 (List.mem_map_of_mem he)
        rw [Atom.same_congr_left hk, Atom.same_comm] at hdiffers
        simp [hdiffers]
      simp [OrderedMap.set, setEntry, hk, hothers]
    · simp only [contains, get?, Atom.entry?, hk] at hkey
      have hset := ih hrest hkey
      simpa [OrderedMap.set, setEntry, hk] using hset

/-- Entries are kept as they are where no two keys are the same, and only there. -/
theorem entries_ofList_eq_iff {entries : List (Atom × α)} :
    (ofList entries).entries = entries ↔ (⟨entries⟩ : OrderedMap α).Distinct := by
  constructor
  · intro h
    have hdistinct := distinct_ofList entries
    unfold Distinct keys at hdistinct ⊢
    rwa [h] at hdistinct
  · have hfold (m : OrderedMap α) (hm : (⟨m.entries ++ entries⟩ : OrderedMap α).Distinct) :
        (entries.foldl (fun m e => m.set e.1 e.2) m).entries = m.entries ++ entries := by
      induction entries generalizing m with
      | nil => simp
      | cons e rest ih =>
        have hnew : m.contains e.1 = false := by
          rw [contains_eq_any, List.any_eq_false]
          intro k hk
          simp only [Distinct, keys, List.map_append, List.map_cons] at hm
          have hother := (List.pairwise_append.mp hm).2.2 k hk e.1 List.mem_cons_self
          simp [hother]
        have hset := entries_set_of_not_contains hnew e.2
        rw [List.foldl_cons, ih (m.set e.1 e.2) (by rw [hset]; simpa using hm), hset]
        simp
    exact hfold empty

theorem Distinct.perm (h : m.Distinct) (hperm : m.entries.Perm n.entries) : n.Distinct := by
  apply (hperm.map Prod.fst).pairwise h
  intro k k' hk
  rw [Atom.same_comm, hk]

/-- Where no two keys are the same, the order of the entries does not matter to a look-up. -/
theorem Distinct.get?_perm (h : m.Distinct) (hperm : m.entries.Perm n.entries) (key : Atom) :
    m.get? key = n.get? key := by
  obtain ⟨entries⟩ := m
  obtain ⟨entries'⟩ := n
  simp only at hperm
  induction hperm with
  | nil => rfl
  | cons e _ ih =>
    have hrest := ih (List.Pairwise.of_cons h)
    simp only [OrderedMap.get?, Atom.entry?] at hrest ⊢
    rw [hrest]
  | swap e e' rest =>
    have hne : e'.1.same e.1 = false := List.rel_of_pairwise_cons h List.mem_cons_self
    by_cases hk : e'.1.same key = true
    · simp [OrderedMap.get?, Atom.entry?, hk, Atom.not_same_of_same hne hk]
    · simp [OrderedMap.get?, Atom.entry?, hk]
  | trans hfirst _ ih ih' =>
    exact (ih h).trans (ih' (h.perm hfirst))

/-- Nor does it matter to a key that is set. -/
theorem Distinct.set_perm (h : m.Distinct) (hperm : m.entries.Perm n.entries) (key : Atom)
    (value : α) : (m.set key value).entries.Perm (n.set key value).entries := by
  obtain ⟨entries⟩ := m
  obtain ⟨entries'⟩ := n
  simp only at hperm
  induction hperm with
  | nil => exact .refl _
  | cons e hrest ih =>
    have hset := ih (List.Pairwise.of_cons h)
    simp only [OrderedMap.set, setEntry] at hset ⊢
    split
    · exact hrest.cons _
    · exact hset.cons _
  | swap e e' rest =>
    have hne : e'.1.same e.1 = false := List.rel_of_pairwise_cons h List.mem_cons_self
    by_cases hk : e'.1.same key = true
    · simp only [OrderedMap.set, setEntry, hk, Atom.not_same_of_same hne hk]
      exact .swap ..
    · simp only [OrderedMap.set, setEntry, hk, Bool.false_eq_true, ↓reduceIte]
      split <;> exact .swap ..
  | trans hfirst _ ih ih' =>
    exact (ih h).trans (ih' (h.perm hfirst))

/-- Two maps with the same entries, in whatever order they are listed, and no key twice. -/
def Reordered (strict : Bool) (r : α → α → Prop) (m n : OrderedMap α) : Prop :=
  m.Distinct ∧ ∃ listed : OrderedMap α, m.entries.Perm listed.entries ∧ listed.Entrywise strict r n

theorem reordered_empty : (empty : OrderedMap α).Reordered strict r empty :=
  ⟨.nil, empty, .nil, .nil⟩

theorem Reordered.get? (h : m.Reordered strict r n) (key : Atom) :
    Option.Rel r (m.get? key) (n.get? key) := by
  obtain ⟨hdistinct, listed, hperm, hlisted⟩ := h
  rw [hdistinct.get?_perm hperm key]
  exact hlisted.get? key

theorem Reordered.set (h : m.Reordered strict r n) (key : Atom) {value value' : α}
    (hvalue : r value value') : (m.set key value).Reordered strict r (n.set key value') := by
  obtain ⟨hdistinct, listed, hperm, hlisted⟩ := h
  exact ⟨hdistinct.set key value, listed.set key value, hdistinct.set_perm hperm key value,
    hlisted.set key hvalue⟩

end OrderedMap

end ScopeMachine
