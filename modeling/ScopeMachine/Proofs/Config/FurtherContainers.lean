import ScopeMachine.Config
import ScopeMachine.Proofs.Machine.Plain

/-! The machine that a configuration asks for. Behind the scope `local` and the stack `data` it has
the scopes and stacks that are named, each key once and in the order of first mention, and they are
empty. The scope `local` has its frame, in which the first instruction can bind, unless it is named
itself: then it is as empty as the others, and what is bound first is lost. -/
namespace ScopeMachine

namespace OrderedMap

/-- The keys of a list that are not there yet, each once and in the order in which they occur. -/
def newKeys (present keys : List Atom) : List Atom := (keys.filter (· ∉ present)).eraseDups

/-- A new key is listed where it occurs first. -/
theorem newKeys_cons (present : List Atom) (k : Atom) (rest : List Atom) :
    newKeys present (k :: rest) =
      if k ∈ present then newKeys present rest else k :: newKeys (present ++ [k]) rest := by
  unfold newKeys
  split
  · rename_i hmem
    rw [List.filter_cons_of_neg (by simpa using hmem)]
  · rename_i hmem
    have hothers : (rest.filter (· ∉ present)).filter (fun k' => !k' == k) =
        rest.filter (· ∉ present ++ [k]) := by
      rw [List.filter_filter]
      apply List.filter_congr
      intro k' _
      rw [Bool.eq_iff_iff]
      simp [and_comm]
    rw [List.filter_cons_of_pos (by simpa using hmem), List.eraseDups_cons, hothers]

variable {α : Type} {m : OrderedMap α} {key : Atom} {keys : List Atom}

/-- Among texts, a key is there if it is listed as it is spelled. -/
theorem contains_iff_mem_keys (hm : ∀ k ∈ m.keys, k.kind = .str) (hkey : key.kind = .str) :
    m.contains key = true ↔ key ∈ m.keys := by
  rw [contains_eq_any, List.any_eq_true]
  constructor
  · rintro ⟨k, hk, hsame⟩
    rwa [← (Atom.same_iff_eq_of_kind (hm k hk) hkey).mp hsame]
  · intro hmem
    exact ⟨key, hmem, (Atom.same_iff_eq_of_kind hkey hkey).mpr rfl⟩

/-- Texts set one after another as keys: those that were there keep their places, and the new ones
come behind them. -/
theorem entries_foldl_set (hdistinct : m.Distinct) (hm : ∀ k ∈ m.keys, k.kind = .str)
    (hkeys : ∀ k ∈ keys, k.kind = .str) (f : Atom → α) :
    (keys.foldl (fun m k => m.set k (f k)) m).entries =
      m.entries.map (fun e => (e.1, if e.1 ∈ keys then f e.1 else e.2)) ++
        (newKeys m.keys keys).map fun k => (k, f k) := by
  induction keys generalizing m with
  | nil => simp [newKeys]
  | cons k rest ih =>
    obtain ⟨hk, hrest⟩ := List.forall_mem_cons.mp hkeys
    have hpresent := contains_iff_mem_keys hm hk
    have hset : ∀ k' ∈ (m.set k (f k)).keys, k'.kind = .str := by
      rw [keys_set]
      split
      · exact hm
      · simpa [or_imp, forall_and] using And.intro hm hk
    rw [List.foldl_cons, ih (hdistinct.set k (f k)) hset hrest, keys_set, newKeys_cons]
    by_cases hmem : k ∈ m.keys
    · have hcontains := hpresent.mpr hmem
      rw [hdistinct.entries_set hcontains, if_pos hcontains, if_pos hmem, List.map_map]
      congr 1
      apply List.map_congr_left
      intro e he
      have hsame : e.1.same k = true ↔ e.1 = k :=
        Atom.same_iff_eq_of_kind (hm e.1 (List.mem_map_of_mem he)) hk
      simp only [Function.comp_apply, hsame, List.mem_cons]
      by_cases heq : e.1 = k <;> simp [heq]
    · have habsent : ¬ m.contains k = true := fun h => hmem (hpresent.mp h)
      have hkept : m.entries.map (fun e => (e.1, if e.1 ∈ k :: rest then f e.1 else e.2)) =
          m.entries.map fun e => (e.1, if e.1 ∈ rest then f e.1 else e.2) := by
        apply List.map_congr_left
        intro e he
        have hne : e.1 ≠ k := fun heq => hmem (heq ▸ List.mem_map_of_mem he)
        simp [hne]
      rw [entries_set_of_not_contains (Bool.eq_false_iff.mpr habsent), if_neg habsent,
        if_neg hmem, hkept]
      simp

end OrderedMap

namespace Config

open OrderedMap (newKeys)

/-- The one frame that a machine has at first. -/
def globalFrame : Frame := .create (.str "global") .empty

/-- The scope `local` of the machine. If it is named, it is set up anew and has no frame. -/
def localScope (c : Config) : Scope :=
  { name := Machine.localKey, frames := if .str "local" ∈ c.scopeKeys then [] else [globalFrame] }

variable {c : Config}

theorem entries_scopeMap (h : ∀ k ∈ c.scopeKeys, k.kind = .str) :
    c.machine.scopeMap.entries = (.str "local", c.localScope) ::
      (newKeys [.str "local"] c.scopeKeys).map fun k => (k, { name := .atom k }) := by
  have hentries := OrderedMap.entries_foldl_set (m := Machine.initial.scopeMap)
    (List.pairwise_singleton ..) (List.forall_mem_singleton.mpr rfl) h
    (fun k => ({ name := .atom k } : Scope))
  have hlocal : (if .str "local" ∈ c.scopeKeys then ({ name := Machine.localKey } : Scope)
      else { name := Machine.localKey, frames := [globalFrame] }) = c.localScope := by
    unfold localScope
    split <;> rfl
  rw [← hlocal]
  exact hentries

theorem entries_stackMap (h : ∀ k ∈ c.stackKeys, k.kind = .str) :
    c.machine.stackMap.entries = (.str "data", .empty) ::
      (newKeys [.str "data"] c.stackKeys).map fun k => (k, .empty) := by
  have hentries := OrderedMap.entries_foldl_set (m := Machine.initial.stackMap)
    (List.pairwise_singleton ..) (List.forall_mem_singleton.mpr rfl) h
    (fun _ => (.empty : Stack Value))
  apply hentries.trans
  change (Atom.str "data", if .str "data" ∈ c.stackKeys then Stack.empty else Stack.empty) :: _ = _
  rw [ite_self]
  rfl

/-! ### The first instruction -/

theorem get?_local (h : ∀ k ∈ c.scopeKeys, k.kind = .str) :
    c.machine.scopeMap.get? (.str "local") = some c.localScope := by
  rw [OrderedMap.get?, entries_scopeMap h]
  rfl

/-- The stack `data` is empty even if it is named, because it was empty before. -/
theorem get?_data (c : Config) : c.machine.stackMap.get? (.str "data") = some .empty := by
  have hinitial : ∃ stack, Machine.initial.stackMap.get? (.str "data") = some stack ∧
      stack = .empty := ⟨.empty, rfl, rfl⟩
  obtain ⟨stack, hget, rfl⟩ := OrderedMap.exists_get?_foldl_set (q := (· = Stack.empty))
    (fun _ => rfl) c.stackKeys hinitial
  exact hget

/-- There is nothing to take at first, and nothing changes when it is taken. -/
theorem take_machine (c : Config) : c.machine.take = .ok (.null, c.machine) := by
  have hpeek : c.machine.peek .null = .ok .null :=
    bind_of_ok (Machine.stack_eq_ok_iff.mpr ⟨_, rfl, c.get?_data⟩)
  have hpop : c.machine.pop = .ok c.machine := by
    apply (Machine.updateStack_of_get? c.get?_data Stack.pop).trans
    change Except.ok { c.machine with stackMap := c.machine.stackMap.set (.str "data") .empty } = _
    rw [OrderedMap.set_of_get? c.get?_data]
  exact (bind_of_ok hpeek).trans (bind_of_ok hpop)

theorem execute_bind_eq_ok_iff [MemoryLimit] (h : ∀ k ∈ c.scopeKeys, k.kind = .str) {name : Value}
    {next : Machine} :
    (Instr.bind name).execute c.machine = .ok next ↔
      ∃ s, c.localScope.bind name .null = .ok s ∧
        next = { c.machine with scopeMap := c.machine.scopeMap.set (.str "local") s } := by
  have hexecute : (Instr.bind name).execute c.machine =
      c.machine.updateScope Machine.localKey fun s => s.bind name .null :=
    bind_of_ok c.take_machine
  rw [hexecute, Machine.updateScope_eq_ok_iff]
  constructor
  · rintro ⟨k, old, s, hkey, hget, hbind, hnext⟩
    cases hkey
    rw [get?_local h] at hget
    cases hget
    exact ⟨s, hbind, hnext⟩
  · rintro ⟨s, hbind, hnext⟩
    exact ⟨_, _, s, rfl, get?_local h, hbind, hnext⟩

/-- The frame `global` takes every name that can be looked up and written. -/
theorem bind_localScope (h : .str "local" ∉ c.scopeKeys) {name : Value} {s : Scope} :
    c.localScope.bind name .null = .ok s ↔ ∃ k, name = .atom k ∧ k.Writable ∧
      s = { name := Machine.localKey, frames := [globalFrame.bind k .null] } := by
  rw [localScope, if_neg h, Scope.bind_eq_ok_iff]
  constructor
  · rintro ⟨hwritable, htop⟩
    obtain ⟨frame, hframe, htop⟩ := bind_eq_ok htop
    obtain ⟨k, hk, hframe⟩ := bind_eq_ok hframe
    cases Value.asKey_eq_ok_iff.mp hk
    cases hframe
    cases htop
    exact ⟨k, rfl, Value.writable_atom.mp hwritable, rfl⟩
  · rintro ⟨k, rfl, hwritable, rfl⟩
    exact ⟨Value.writable_atom.mpr hwritable, rfl⟩

/-- Without a frame the binding is dropped. -/
theorem bind_localScope_of_mem (h : .str "local" ∈ c.scopeKeys) {name : Value} {s : Scope} :
    c.localScope.bind name .null = .ok s ↔ name.Writable ∧ s = c.localScope := by
  have hempty : c.localScope.frames = [] := if_pos h
  rw [Scope.bind_eq_ok_iff, Scope.updateTop, hempty]
  simp [eq_comm]

/-- The machine of a configuration has the scopes `local` and those that are named, in the order of
first mention, and the stacks `data` and those that are named. All are empty, but for the frame
`global` of the scope `local`. An instruction `bind` that comes first binds its name there, if it
can be looked up and written. It is only when `local` is named itself that the scope has no frame:
then the first binding succeeds for every name that can be written and is dropped. -/
theorem machine_containers [MemoryLimit] (hscopes : ∀ k ∈ c.scopeKeys, k.kind = .str)
    (hstacks : ∀ k ∈ c.stackKeys, k.kind = .str) :
    c.machine.scopeMap.entries = (.str "local", c.localScope) ::
      (newKeys [.str "local"] c.scopeKeys).map (fun k => (k, { name := .atom k })) ∧
    c.machine.stackMap.entries = (.str "data", .empty) ::
      (newKeys [.str "data"] c.stackKeys).map (fun k => (k, .empty)) ∧
    (.str "local" ∉ c.scopeKeys → c.localScope.frames = [globalFrame] ∧
      ∀ name next, (Instr.bind name).execute c.machine = .ok next ↔
        ∃ k, name = .atom k ∧ k.Writable ∧
          next = { c.machine with
            scopeMap := c.machine.scopeMap.set (.str "local")
              { name := Machine.localKey, frames := [globalFrame.bind k .null] } }) ∧
    (.str "local" ∈ c.scopeKeys → c.localScope.frames = [] ∧
      ∀ name next, (Instr.bind name).execute c.machine = .ok next ↔
        name.Writable ∧ next = c.machine) := by
  refine ⟨entries_scopeMap hscopes, entries_stackMap hstacks, fun hlocal => ⟨if_neg hlocal, ?_⟩,
    fun hlocal => ⟨if_pos hlocal, ?_⟩⟩
  · intro name next
    simp only [execute_bind_eq_ok_iff hscopes, bind_localScope hlocal]
    constructor
    · rintro ⟨s, ⟨k, hname, hwritable, rfl⟩, hnext⟩
      exact ⟨k, hname, hwritable, hnext⟩
    · rintro ⟨k, hname, hwritable, hnext⟩
      exact ⟨_, ⟨k, hname, hwritable, rfl⟩, hnext⟩
  · intro name next
    simp only [execute_bind_eq_ok_iff hscopes, bind_localScope_of_mem hlocal]
    constructor
    · rintro ⟨s, ⟨hwritable, rfl⟩, hnext⟩
      rw [OrderedMap.set_of_get? (get?_local hscopes)] at hnext
      exact ⟨hwritable, hnext⟩
    · rintro ⟨hwritable, rfl⟩
      refine ⟨_, ⟨hwritable, rfl⟩, ?_⟩
      rw [OrderedMap.set_of_get? (get?_local hscopes)]

/-- Keys that are named twice, and the stack `data` among them. -/
theorem machine_containers_repeated :
    let c : Config :=
      { scopeKeys := [.str "dyn", .str "globals", .str "dyn"],
        stackKeys := [.str "aux", .str "data"] }
    c.machine.scopeMap.keys = [.str "local", .str "dyn", .str "globals"] ∧
      c.machine.stackMap.keys = [.str "data", .str "aux"] ∧
      c.localScope.frames = [globalFrame] ∧
      ∃ next, (Instr.bind (.str "x")).execute c.machine = .ok next := by
  intro c
  obtain ⟨hscopes, hstacks, hlocal, -⟩ := machine_containers (c := c) (by decide) (by decide)
  obtain ⟨hframes, hbind⟩ := hlocal (by decide)
  refine ⟨?_, ?_, hframes, _, (hbind _ _).mpr ⟨.str "x", rfl, Atom.writable_str "x", rfl⟩⟩
  · rw [OrderedMap.keys, hscopes]
    decide
  · rw [OrderedMap.keys, hstacks]
    decide

/-- A source that names the scope `local` gets a machine without the frame `global`, on which the
first binding changes nothing. -/
theorem named_local_drops_bind :
    ∃ c : Config, load "# @semtutor: scopes=local" [] = .ok c ∧ c.scopeKeys = [.str "local"] ∧
      (∃ s, c.machine.scopeMap.get? (.str "local") = some s ∧ s.frames = []) ∧
      (Instr.bind (.str "x")).execute c.machine = .ok c.machine :=
  ⟨{ scopeKeys := [.str "local"] }, rfl, rfl, ⟨_, rfl, rfl⟩, rfl⟩

end Config

end ScopeMachine
