import ScopeMachine.Proofs.Machine.Locality

/-! What lies at the bottom of a stack. A run that never takes more operands from a stack than there
are does not see whether another stack lies below it: nothing tells the height of a stack but a
missing operand. Setting a stack on a base is a map of machines, and everything that an instruction
is made of commutes with it. -/
namespace ScopeMachine

namespace Cell

variable {α : Type}

/-- A cell with `count` more items below it. -/
def raisedBy (count : Nat) (c : Cell α) : Cell α := { c with size := c.size + count }

theorem Sized.append {above below : List (Cell α)} (habove : Sized above) (hbelow : Sized below) :
    Sized (above.map (raisedBy below.length) ++ below) := by
  induction above with
  | nil => exact hbelow
  | cons cell rest ih =>
    have hsize : cell.size + below.length = rest.length + below.length + 1 := by
      rw [habove.1]
      omega
    exact ⟨by simpa [raisedBy] using hsize, ih habove.2⟩

end Cell

namespace Stack

variable {α : Type}

/-- A stack put on top of another. -/
def onto (s base : Stack α) : Stack α :=
  ⟨s.cells.map (Cell.raisedBy base.cells.length) ++ base.cells, s.sized.append base.sized⟩

@[simp] theorem toList_onto (s base : Stack α) :
    (s.onto base).toList = s.toList ++ base.toList := by
  simp [toList, onto, Cell.raisedBy, Function.comp_def]

theorem size_onto (s base : Stack α) : (s.onto base).size = s.size + base.size := by
  rw [← length_toList, toList_onto, List.length_append, length_toList, length_toList]

theorem push_onto (s base : Stack α) (item : α) :
    (s.onto base).push item = (s.push item).onto base := by
  ext1
  have hsize : (s.onto base).size + 1 = s.size + 1 + base.cells.length := by
    rw [size_onto, base.size_eq]
    omega
  exact congrArg (Cell.mk item · none :: (s.onto base).cells) hsize

variable {s : Stack α}

theorem pop_onto (h : 1 ≤ s.size) (base : Stack α) : (s.onto base).pop = s.pop.onto base := by
  ext1
  obtain ⟨cells, hsized⟩ := s
  cases cells with
  | nil => cases h
  | cons cell below => rfl

theorem peek_onto (h : 1 ≤ s.size) (base : Stack α) (default : α) :
    (s.onto base).peek default = s.peek default := by
  rw [← s.length_toList] at h
  rw [peek_eq_headD, peek_eq_headD, toList_onto]
  cases hitems : s.toList with
  | nil => simp [hitems] at h
  | cons item rest => rfl

end Stack

namespace Machine

/-- The machine with the stack under `k`, if there is one, on top of another. -/
def onBase (m : Machine) (k : Atom) (base : Stack Value) : Machine :=
  { m with stackMap := m.stackMap.mapAt k (·.onto base) }

/-- If the stack under `k` is the selected one, it has at least `n` items. -/
def Supplies (m : Machine) (k : Atom) (n : Nat) : Prop :=
  ∀ s, m.Selects k → m.currentStack = .ok s → n ≤ s.size

variable {m : Machine} {k : Atom}

theorem stack_onBase (m : Machine) (k : Atom) (base : Stack Value) (key : Value) :
    (m.onBase k base).stack key =
      (fun s => if key.same (.atom k) then s.onto base else s) <$> m.stack key := by
  refine bind_eq_map fun j hj => ?_
  cases Value.asKey_eq_ok_iff.mp hj
  simp only [onBase, OrderedMap.get?_mapAt, Value.same_atom]
  cases m.stackMap.get? j <;> rfl

theorem updateStack_onBase (base : Stack Value) {key : Value} {f : Stack Value → Stack Value}
    (hf : key.same (.atom k) = true → ∀ s, m.stack key = .ok s →
      f (s.onto base) = (f s).onto base) :
    (m.onBase k base).updateStack key f = (·.onBase k base) <$> m.updateStack key f := by
  unfold updateStack
  rw [stack_onBase]
  refine map_bind_eq_map fun s hs => bind_eq_map fun j hj => ?_
  cases Value.asKey_eq_ok_iff.mp hj
  -- Whether or not this is the stack on the base, `f` does the same to it.
  have hstack : f (if j.same k then s.onto base else s) =
      if j.same k then (f s).onto base else f s := by
    split
    · rename_i hsame
      exact hf ((Value.same_atom j k).trans hsame) s hs
    · rfl
  have hmap := m.stackMap.set_mapAt k j (·.onto base) (f s)
  rw [← hstack] at hmap
  simp only [Value.same_atom]
  exact congrArg (fun stackMap => Except.ok { m with stackMap }) hmap

theorem push_onBase (m : Machine) (k : Atom) (base : Stack Value) (value : Value) :
    (m.onBase k base).push value = (·.onBase k base) <$> m.push value :=
  updateStack_onBase base fun _ s _ => s.push_onto base value

theorem pop_onBase (h : m.Supplies k 1) (base : Stack Value) :
    (m.onBase k base).pop = (·.onBase k base) <$> m.pop :=
  updateStack_onBase base fun hsame s hs => Stack.pop_onto (h s hsame hs) base

theorem peek_onBase (h : m.Supplies k 1) (base : Stack Value) (default : Value) :
    (m.onBase k base).peek default = m.peek default := by
  have hstack := stack_onBase m k base m.stackKey
  have hpeek : (m.onBase k base).peek default = id <$> m.peek default := by
    unfold peek peekAt
    change (m.onBase k base).stack m.stackKey >>= _ = _
    rw [hstack]
    refine map_bind_eq_map fun s hs => ?_
    split
    · rename_i hsame
      rw [Stack.peek_onto (h s hsame hs)]
      rfl
    · rfl
  rw [hpeek, id_map]

theorem take_onBase (h : m.Supplies k 1) (base : Stack Value) :
    (m.onBase k base).take =
      (fun taken => (taken.1, taken.2.onBase k base)) <$> m.take := by
  unfold take
  rw [peek_onBase h]
  refine bind_eq_map fun value _ => ?_
  rw [pop_onBase h]
  exact map_bind_eq_map fun popped _ => rfl

/-- What follows the taking of an operand is told from the machine without it. -/
theorem take_bind_onBase (h : m.Supplies k 1) {base : Stack Value}
    {f f' : Value × Machine → Except Fault Machine}
    (hf : ∀ value taken, m.take = .ok (value, taken) →
      f' (value, taken.onBase k base) = (·.onBase k base) <$> f (value, taken)) :
    ((m.onBase k base).take >>= f') = (·.onBase k base) <$> (m.take >>= f) := by
  rw [take_onBase h]
  exact map_bind_eq_map fun ⟨value, taken⟩ htake => hf value taken htake

theorem Supplies.mono {n n' : Nat} (h : m.Supplies k n) (hle : n' ≤ n) : m.Supplies k n' :=
  fun s hselects hs => Nat.le_trans hle (h s hselects hs)

theorem Supplies.take {n : Nat} {value : Value} {taken : Machine} (h : m.Supplies k (n + 1))
    (htake : m.take = .ok (value, taken)) : taken.Supplies k n := by
  intro s hselects hs
  obtain ⟨j, stack, hkey, hget, -, rfl⟩ := take_eq_ok htake
  have hcurrent : m.currentStack = .ok stack := by
    rw [currentStack]
    exact stack_eq_ok_iff.mpr ⟨j, hkey, hget⟩
  have hn := h stack hselects hcurrent
  obtain ⟨j', hkey', hget'⟩ := stack_eq_ok_iff.mp hs
  cases hkey.symm.trans hkey'
  rw [OrderedMap.get?_set_self _ _ (OrderedMap.same_self_of_get? hget)] at hget'
  cases hget'
  rw [Stack.size_pop]
  omega

theorem updateScope_onBase (m : Machine) (k : Atom) (base : Stack Value) (key : Value)
    (f : Scope → Except Fault Scope) :
    (m.onBase k base).updateScope key f = (·.onBase k base) <$> m.updateScope key f :=
  bind_eq_map fun _ _ => bind_eq_map fun _ _ => bind_eq_map fun _ _ => rfl

theorem rebindAt_onBase (m : Machine) (k : Atom) (base : Stack Value) (key name value : Value) :
    (m.onBase k base).rebindAt key name value =
      (fun rebound => (rebound.1, rebound.2.onBase k base)) <$> m.rebindAt key name value := by
  refine bind_eq_map fun _ _ => bind_eq_map fun found _ => ?_
  cases found with
  | none => rfl
  | some found => exact bind_eq_map fun _ _ => rfl

theorem findAt_onBase (m : Machine) (k : Atom) (base : Stack Value) (key name : Value) :
    (m.onBase k base).findAt key name = (·.onBase k base) <$> m.findAt key name := by
  refine bind_eq_map (x := m.lookupAt key name) fun found _ => ?_
  cases found with
  | none => rfl
  | some binding => exact push_onBase m k base binding.value

end Machine

namespace Instr

/-- The number of operands that an instruction takes from the selected stack. One that needs a key
and a name fails without them before it takes anything. -/
def consumes (i : Instr) : Nat :=
  match i.opcode, i.operands with
  | .pop, _ | .bind, _ | .rebind, _ | .unary _, _ | .setFrameTitle, _ | .addFrameNote, _ => 1
  | .bindAt, [_, _] | .rebindAt, [_, _] => 1
  | .binary _, _ => 2
  | _, _ => 0

variable {i : Instr} {m : Machine} {k : Atom}

/-- An instruction that finds all it takes above the base leaves the base where it is. -/
theorem execute_onBase [MemoryLimit] (h : m.Supplies k i.consumes) (base : Stack Value) :
    i.execute (m.onBase k base) = (·.onBase k base) <$> i.execute m := by
  obtain ⟨opcode, operands⟩ := i
  cases opcode with
  | nop => rfl
  | push => exact bind_eq_map fun value _ => m.push_onBase k base value
  | pop => exact Machine.pop_onBase h base
  | findAt => exact bind_eq_map fun ⟨key, name⟩ _ => m.findAt_onBase k base key name
  | find => exact bind_eq_map fun name _ => m.findAt_onBase k base Machine.localKey name
  | enterAt => exact bind_eq_map fun ⟨key, name⟩ _ => m.updateScope_onBase k base key _
  | enter => exact bind_eq_map fun name _ => m.updateScope_onBase k base Machine.localKey _
  | leaveAt => exact bind_eq_map fun key _ => m.updateScope_onBase k base key _
  | leave => exact m.updateScope_onBase k base Machine.localKey _
  | bindAt =>
    refine bind_eq_map fun ⟨key, name⟩ hpair => ?_
    cases operandPair_eq_ok hpair
    exact Machine.take_bind_onBase h fun value taken _ => taken.updateScope_onBase k base key _
  | bind =>
    refine Machine.take_bind_onBase h fun value taken _ => bind_eq_map fun name _ => ?_
    exact taken.updateScope_onBase k base Machine.localKey _
  | rebindAt =>
    refine bind_eq_map fun ⟨key, name⟩ hpair => ?_
    cases operandPair_eq_ok hpair
    refine Machine.take_bind_onBase h fun value taken _ => ?_
    dsimp only
    rw [Machine.rebindAt_onBase]
    exact map_bind_eq_map fun _ _ => rfl
  | rebind =>
    refine Machine.take_bind_onBase h fun value taken _ => bind_eq_map fun name _ => ?_
    rw [Machine.rebindAt_onBase]
    exact map_bind_eq_map fun _ _ => rfl
  | binary op =>
    -- The second operand is taken from a machine that is one item short of the first.
    refine Machine.take_bind_onBase (h.mono (Nat.le_succ 1)) fun a first hfirst => ?_
    have hsupplies : first.Supplies k 1 := h.take hfirst
    refine Machine.take_bind_onBase hsupplies fun b rest _ => bind_eq_map fun result _ => ?_
    exact rest.push_onBase k base result
  | unary op =>
    refine Machine.take_bind_onBase h fun a rest _ => bind_eq_map fun result _ => ?_
    exact rest.push_onBase k base result
  | setFrameTitle | addFrameNote =>
    exact Machine.take_bind_onBase h fun value taken _ =>
      taken.updateScope_onBase k base taken.scopeKey _
  | setProp => exact bind_eq_map fun ⟨key, value⟩ _ => bind_eq_map fun _ _ => rfl
  | setCurrentScope => exact bind_eq_map fun key _ => rfl
  | setCurrentStack => exact bind_eq_map fun key _ => rfl

end Instr

namespace Machine

variable {m : Machine} {k : Atom} {program : List Instr}

/-- A run from `m` takes no more operands from the stack under `k` than there are. -/
def NeverShort [MemoryLimit] (k : Atom) (m : Machine) : List Instr → Prop
  | [] => True
  | i :: rest =>
    m.Supplies k i.consumes ∧
      match i.execute m with
      | .ok next => next.NeverShort k rest
      | .error _ => True

theorem NeverShort.of_append [MemoryLimit] {done rest : List Instr}
    (h : m.NeverShort k (done ++ rest))
    {reached : Machine} (hrun : m.run done = .ok reached) : reached.NeverShort k rest := by
  induction done generalizing m with
  | nil =>
    cases hrun
    exact h
  | cons i done ih =>
    rw [run_cons] at hrun
    obtain ⟨next, hnext, hrun⟩ := bind_eq_ok hrun
    obtain ⟨-, h⟩ := h
    rw [hnext] at h
    exact ih h hrun

theorem NeverShort.left [MemoryLimit] {done rest : List Instr} (h : m.NeverShort k (done ++ rest)) :
    m.NeverShort k done := by
  induction done generalizing m with
  | nil => trivial
  | cons i done ih =>
    obtain ⟨hsupplies, h⟩ := h
    refine ⟨hsupplies, ?_⟩
    split at h
    · exact ih h
    · trivial

theorem NeverShort.run_onBase [MemoryLimit] (h : m.NeverShort k program) (base : Stack Value) :
    (m.onBase k base).run program = (·.onBase k base) <$> m.run program := by
  induction program generalizing m with
  | nil => rfl
  | cons i rest ih =>
    obtain ⟨hsupplies, h⟩ := h
    rw [run_cons, run_cons, Instr.execute_onBase hsupplies]
    refine map_bind_eq_map fun next hnext => ?_
    rw [hnext] at h
    exact ih h

/-- What lies at the bottom of a stack does not matter to a run that takes nothing from there. It
ends with the same machine on top of the base, or fails with the same fault at the same
instruction. -/
theorem run_above_base [MemoryLimit] (h : m.NeverShort k program) (base : Stack Value) :
    (m.onBase k base).run program = (·.onBase k base) <$> m.run program ∧
    ∀ done i rest reached fault, program = done ++ i :: rest → m.run done = .ok reached →
      i.execute reached = .error fault →
        (m.onBase k base).run done = .ok (reached.onBase k base) ∧
          i.execute (reached.onBase k base) = .error fault := by
  refine ⟨h.run_onBase base, ?_⟩
  rintro done i rest reached fault rfl hdone hfault
  obtain ⟨hsupplies, -⟩ := h.of_append hdone
  constructor
  · rw [h.left.run_onBase, hdone]
    rfl
  · rw [Instr.execute_onBase hsupplies, hfault]
    rfl

theorem supplies_of_currentStack {n : Nat} {s : Stack Value} (hs : m.currentStack = .ok s)
    (hn : n ≤ s.size) : m.Supplies k n := by
  intro t _ ht
  cases hs.symm.trans ht
  exact hn

/-- A sum on one stack and a detour to another, on top of a value that stays below, before a name
is looked up that is not bound. -/
theorem run_above_base_sum :
    let m : Machine := { Machine.initial with
      stackMap := (OrderedMap.empty.set (.str "data") (.ofItems [.int 1])).set (.str "aux")
        (.ofItems [.int 5]) }
    let done : List Instr := [.push (.int 2), .binary .add, .setCurrentStack (.str "aux"), .pop,
      .setCurrentStack (.str "data"), .bind (.str "x")]
    let i : Instr := .find (.str "y")
    let base : Stack Value := .ofItems [.str "below"]
    m.NeverShort (.str "data") (done ++ [i]) ∧
      ∃ reached, m.run done = .ok reached ∧
        (m.onBase (.str "data") base).run done = .ok (reached.onBase (.str "data") base) ∧
        i.execute (reached.onBase (.str "data") base) =
          .error (.nameNotFound Machine.localKey (.str "y")) := by
  intro m done i base
  have hshort : m.NeverShort (.str "data") (done ++ [i]) :=
    ⟨supplies_of_currentStack rfl (by decide), supplies_of_currentStack rfl (by decide),
      supplies_of_currentStack rfl (by decide), supplies_of_currentStack rfl (by decide),
      supplies_of_currentStack rfl (by decide), supplies_of_currentStack rfl (by decide),
      supplies_of_currentStack rfl (by decide), trivial⟩
  exact ⟨hshort, _, rfl, (run_above_base hshort base).2 done i [] _ _ rfl rfl rfl⟩

end Machine

end ScopeMachine
