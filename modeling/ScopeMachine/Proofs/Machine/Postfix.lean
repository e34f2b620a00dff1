import ScopeMachine.Proofs.Machine.Plain

/-! Formulas in postfix form. The code of a formula has its right part first, because an operator
takes its left operand from the top of the stack. Wherever it runs, it leaves the stack below as it
was and puts the value of the formula on top. If there is no value, the first part without one ends
the run with its own fault. -/
namespace ScopeMachine

/-- An expression of constants, names and operators. -/
inductive Formula
  | push (value : Value)
  | find (name : Value)
  | unary (op : UnaryOp) (part : Formula)
  | binary (op : BinaryOp) (left right : Formula)

/-- The value that a name has in the scope `local`. -/
def Machine.named? (m : Machine) (name : Value) : Option Value :=
  match m.lookupAt localKey name with
  | .ok (some binding) => some binding.value
  | _ => none

namespace Formula

/-- The instruction for the formula, once its parts have been evaluated. -/
def instr : Formula → Instr
  | .push value => .push value
  | .find name => .find name
  | .unary op _ => .unary op
  | .binary op _ _ => .binary op

def code : Formula → List Instr
  | .push value => [.push value]
  | .find name => [.find name]
  | .unary op part => part.code ++ [.unary op]
  | .binary op left right => right.code ++ left.code ++ [.binary op]

/-- The formula and all its parts, each where its instruction is in the code. -/
def nodes : Formula → List Formula
  | .push value => [.push value]
  | .find name => [.find name]
  | .unary op part => part.nodes ++ [.unary op part]
  | .binary op left right => right.nodes ++ left.nodes ++ [.binary op left right]

theorem code_eq_map_nodes (t : Formula) : t.code = t.nodes.map instr := by
  induction t with
  | push value | find name => rfl
  | unary op part ih => simp [code, nodes, ih, instr]
  | binary op left right ihl ihr => simp [code, nodes, ihl, ihr, instr]

/-- The value of a formula where the names have the values that `m` gives them. Both operands are
evaluated whatever the operator. -/
def value? [MemoryLimit] (m : Machine) : Formula → Option Value
  | .push value => some value
  | .find name => m.named? name
  | .unary op part => do
    let a ← part.value? m
    (op.apply a).toOption
  | .binary op left right => do
    let a ← left.value? m
    let b ← right.value? m
    (op.apply a b).toOption

/-- The formula is an operator that refuses the values of its parts. -/
inductive Refuses [MemoryLimit] (m : Machine) : Formula → List Value → OperandError → Prop
  | unary {op : UnaryOp} {part : Formula} {a : Value} {cause : OperandError}
      (hpart : part.value? m = some a) (happly : op.apply a = .error cause) :
      Refuses m (.unary op part) [a] cause
  | binary {op : BinaryOp} {left right : Formula} {a b : Value} {cause : OperandError}
      (hleft : left.value? m = some a) (hright : right.value? m = some b)
      (happly : op.apply a b = .error cause) : Refuses m (.binary op left right) [a, b] cause

/-- The fault of a formula whose parts have values while it has none. -/
inductive Fails [MemoryLimit] (m : Machine) : Formula → Fault → Prop
  | unbound {name : Value} (h : m.lookupAt Machine.localKey name = .ok none)
      (hname : name.Writable) : Fails m (.find name) (.nameNotFound Machine.localKey name)
  | overlongName {name : Value} (h : m.lookupAt Machine.localKey name = .ok none)
      (hname : ¬ name.Writable) : Fails m (.find name) .digitLimit
  | noKey {name : Value} (h : m.lookupAt Machine.localKey name = .error (.unhashable name.kind))
      (hname : ¬ name.IsAtom) : Fails m (.find name) (.unhashable name.kind)
  | refused {t : Formula} {operands : List Value} {cause : OperandError}
      (h : t.Refuses m operands cause) (hcause : cause ≠ .outOfMemory)
      (hoperands : ∀ v ∈ operands, v.Writable) : Fails m t (.operator t.instr operands cause)
  | overlongOperand {t : Formula} {operands : List Value} {cause : OperandError}
      (h : t.Refuses m operands cause) (hcause : cause ≠ .outOfMemory)
      (hoperands : ¬ ∀ v ∈ operands, v.Writable) : Fails m t .digitLimit
  | memory {t : Formula} {operands : List Value} (h : t.Refuses m operands .outOfMemory) :
      Fails m t .outOfMemory

/-- The fault is that of the first formula without a value. -/
def FirstFailure [MemoryLimit] (m : Machine) (nodes : List Formula) (fault : Fault) : Prop :=
  ∃ before node after, nodes = before ++ node :: after ∧
    (∀ n ∈ before, (n.value? m).isSome = true) ∧ node.value? m = none ∧ node.Fails m fault

end Formula

/-! ### The machine on another stack -/

namespace Machine

/-- The machine with `s` for the stack under `k`. -/
def onStack (m : Machine) (k : Atom) (s : Stack Value) : Machine :=
  { m with stackMap := m.stackMap.set k s }

variable {m : Machine} {k : Atom}

theorem onStack_self {s : Stack Value} (h : m.stackMap.get? k = some s) : m.onStack k s = m := by
  rw [onStack, OrderedMap.set_of_get? h]

theorem push_onStack (hkey : m.stackKey = .atom k) (hself : k.same k = true) (s : Stack Value)
    (value : Value) : (m.onStack k s).push value = .ok (m.onStack k (s.push value)) := by
  have hget : (m.onStack k s).stackMap.get? k = some s := OrderedMap.get?_set_self _ s hself
  have hpush : (m.onStack k s).push value = _ :=
    (congrArg (fun key => (m.onStack k s).pushAt key value) hkey).trans (updateStack_of_get? hget _)
  rw [hpush, onStack, onStack, OrderedMap.set_set _ hself]

theorem take_onStack (hkey : m.stackKey = .atom k) (hself : k.same k = true) (s : Stack Value)
    (value : Value) : (m.onStack k (s.push value)).take = .ok (value, m.onStack k s) := by
  have hget : (m.onStack k (s.push value)).stackMap.get? k = some (s.push value) :=
    OrderedMap.get?_set_self _ _ hself
  have hpeek : (m.onStack k (s.push value)).peek .null = .ok value :=
    (congrArg (fun key => (m.onStack k (s.push value)).peekAt key .null) hkey).trans
      (bind_of_ok (stack_eq_ok_iff.mpr ⟨k, rfl, hget⟩))
  have hpop : (m.onStack k (s.push value)).pop = .ok (m.onStack k s) := by
    refine (congrArg (m.onStack k (s.push value)).popAt hkey).trans
      ((updateStack_of_get? hget _).trans ?_)
    rw [onStack, onStack, OrderedMap.set_set _ hself, Stack.pop_push]
  exact (bind_of_ok hpeek).trans (bind_of_ok hpop)

theorem run_single [MemoryLimit] (m : Machine) (i : Instr) : m.run [i] = i.execute m := by
  rw [run_cons]
  cases i.execute m <;> rfl

theorem lookupAt_of_scope {scope : Scope} (h : m.scope localKey = .ok scope) (name : Value) :
    m.lookupAt localKey name = scope.lookup name := bind_of_ok h

end Machine

/-- Only a list or a table cannot be looked up, and only where there are frames. -/
theorem Scope.lookup_cases (s : Scope) (name : Value) :
    (∃ found, s.lookup name = .ok found) ∨
      ¬ name.IsAtom ∧ s.lookup name = .error (.unhashable name.kind) := by
  unfold lookup
  split
  · exact .inl ⟨none, rfl⟩
  · cases name with
    | atom a => exact .inl ⟨_, rfl⟩
    | list items | dict entries =>
      refine .inr ⟨?_, rfl⟩
      rintro ⟨a, ha⟩
      cases ha

namespace Fault

theorem isSome_message?_nameNotFound_iff {name : Value} :
    (nameNotFound Machine.localKey name).message?.isSome = true ↔ name.Writable := by
  have hkey : Machine.localKey.plain? = some "local" := rfl
  rw [← Value.isSome_plain?_iff]
  cases hname : name.plain? <;> simp [message?, hname, hkey]

end Fault

/-! ### One instruction -/

namespace Formula

variable {m : Machine} {k : Atom}

theorem execute_find [MemoryLimit] (hkey : m.stackKey = .atom k) (hself : k.same k = true)
    {name v : Value} (h : m.named? name = some v) (s : Stack Value) :
    (Instr.find name).execute (m.onStack k s) = .ok (m.onStack k (s.push v)) := by
  unfold Machine.named? at h
  split at h
  · rename_i binding hlookup
    cases h
    have hfind : (m.onStack k s).findAt Machine.localKey name = _ := bind_of_ok hlookup
    exact hfind.trans (Machine.push_onStack hkey hself s _)
  · cases h

/-- A name without a value ends the run. -/
theorem fails_find [MemoryLimit] {scope : Scope} (hscope : m.scope Machine.localKey = .ok scope)
    {name : Value} (h : m.named? name = none) :
    ∃ fault, (find name).Fails m fault ∧
      ∀ s, (Instr.find name).execute (m.onStack k s) = .error fault := by
  have hlookup := Machine.lookupAt_of_scope hscope name
  rcases scope.lookup_cases name with ⟨found, hfound⟩ | ⟨hname, hfound⟩
  · rw [hfound] at hlookup
    cases found with
    | some binding => simp [Machine.named?, hlookup] at h
    | none =>
      have hexecute (s : Stack Value) : (Instr.find name).execute (m.onStack k s) =
          .error (Fault.nameNotFound Machine.localKey name).raised := bind_of_ok hlookup
      by_cases hname : name.Writable
      · rw [Fault.raised_of_message? (Fault.isSome_message?_nameNotFound_iff.mpr hname)] at hexecute
        exact ⟨_, .unbound hlookup hname, hexecute⟩
      · rw [Fault.raised_of_not_message?
          (fun hmessage => hname (Fault.isSome_message?_nameNotFound_iff.mp hmessage))] at hexecute
        exact ⟨_, .overlongName hlookup hname, hexecute⟩
  · rw [hfound] at hlookup
    have hfind (s : Stack Value) : (m.onStack k s).findAt Machine.localKey name =
        .error (.unhashable name.kind) := bind_of_error hlookup
    exact ⟨_, .noKey hlookup hname, hfind⟩

/-- An operator that refuses the values of its parts ends the run. -/
theorem Refuses.fails [MemoryLimit] {t : Formula} {operands : List Value} {cause : OperandError}
    (h : t.Refuses m operands cause) :
    ∃ fault, t.Fails m fault ∧ t.instr.refuse operands (.error cause) = .error fault := by
  by_cases hcause : cause = .outOfMemory
  · subst hcause
    exact ⟨_, .memory h, rfl⟩
  · have hoperands : t.instr.operands = [] := by cases h <;> rfl
    rw [Instr.refuse_error _ _ hcause]
    by_cases hw : ∀ v ∈ operands, v.Writable
    · exact ⟨_, .refused h hcause hw, by
        rw [Fault.raised_of_message? ((Fault.isSome_message?_operator hoperands cause).mpr hw)]⟩
    · exact ⟨_, .overlongOperand h hcause hw, by
        rw [Fault.raised_of_not_message?
          (fun hmessage => hw ((Fault.isSome_message?_operator hoperands cause).mp hmessage))]⟩

/-! ### A whole formula -/

theorem Refuses.value?_eq_none [MemoryLimit] {t : Formula} {operands : List Value}
    {cause : OperandError} (h : t.Refuses m operands cause) : t.value? m = none := by
  cases h with
  | unary hpart happly => simp [value?, hpart, happly, Except.toOption]
  | binary hleft hright happly => simp [value?, hleft, hright, happly, Except.toOption]

theorem FirstFailure.append_right [MemoryLimit] {nodes : List Formula} {fault : Fault}
    (h : FirstFailure m nodes fault) (more : List Formula) :
    FirstFailure m (nodes ++ more) fault := by
  obtain ⟨before, node, after, rfl, hbefore, hfails⟩ := h
  exact ⟨before, node, after ++ more, by simp, hbefore, hfails⟩

theorem FirstFailure.append_left [MemoryLimit] {first nodes : List Formula} {fault : Fault}
    (hfirst : ∀ n ∈ first, (n.value? m).isSome = true) (h : FirstFailure m nodes fault) :
    FirstFailure m (first ++ nodes) fault := by
  obtain ⟨before, node, after, rfl, hbefore, hfails⟩ := h
  refine ⟨first ++ before, node, after, by simp, ?_, hfails⟩
  intro n hn
  rcases List.mem_append.mp hn with hn | hn
  · exact hfirst n hn
  · exact hbefore n hn

/-- A formula has a value only if all its parts have. -/
theorem isSome_value?_of_mem_nodes [MemoryLimit] {t n : Formula} (h : (t.value? m).isSome = true)
    (hn : n ∈ t.nodes) : (n.value? m).isSome = true := by
  induction t with
  | push value | find name =>
    cases List.mem_singleton.mp hn
    exact h
  | unary op part ih =>
    rcases List.mem_append.mp hn with hn | hn
    · refine ih ?_ hn
      cases hpart : part.value? m with
      | none => simp [value?, hpart] at h
      | some a => rfl
    · cases List.mem_singleton.mp hn
      exact h
  | binary op left right ihl ihr =>
    simp only [nodes, List.mem_append, List.mem_singleton] at hn
    cases hleft : left.value? m with
    | none => simp [value?, hleft] at h
    | some a =>
      cases hright : right.value? m with
      | none => simp [value?, hleft, hright] at h
      | some b =>
        rcases hn with (hn | hn) | rfl
        · exact ihr (by rw [hright]; rfl) hn
        · exact ihl (by rw [hleft]; rfl) hn
        · exact h

theorem valued_nodes [MemoryLimit] {t : Formula} {v : Value} (h : t.value? m = some v) :
    ∀ n ∈ t.nodes, (n.value? m).isSome = true :=
  fun _ => isSome_value?_of_mem_nodes (Option.isSome_of_eq_some h)

/-- Wherever the code runs, it pushes the value of the formula, or it ends with the fault of the
first part that has none. -/
inductive Runs [MemoryLimit] (m : Machine) (k : Atom) (t : Formula) : Prop
  | value {v : Value} (hvalue : t.value? m = some v)
      (hrun : ∀ s, (m.onStack k s).run t.code = .ok (m.onStack k (s.push v)))
  | fault {f : Fault} (hvalue : t.value? m = none) (hfirst : FirstFailure m t.nodes f)
      (hrun : ∀ s, (m.onStack k s).run t.code = .error f)

/-- An operator whose parts have been evaluated. -/
theorem runs_operator [MemoryLimit] (hkey : m.stackKey = .atom k) (hself : k.same k = true)
    {t : Formula} {parts : List Formula} (hnodes : t.nodes = parts ++ [t])
    (hparts : ∀ n ∈ parts, (n.value? m).isSome = true) {operands : List Value}
    {result : Except OperandError Value} (hvalue : ∀ v, result = .ok v → t.value? m = some v)
    (hrefuses : ∀ cause, result = .error cause → t.Refuses m operands cause)
    (hrun : ∀ s, (m.onStack k s).run t.code =
      t.instr.refuse operands result >>= fun v => (m.onStack k s).push v) : t.Runs m k := by
  cases result with
  | ok v =>
    refine .value (hvalue v rfl) fun s => ?_
    rw [hrun]
    exact Machine.push_onStack hkey hself s v
  | error cause =>
    have h := hrefuses cause rfl
    obtain ⟨fault, hfails, hrefuse⟩ := h.fails
    have hfirst : FirstFailure m t.nodes fault :=
      ⟨parts, t, [], hnodes, hparts, h.value?_eq_none, hfails⟩
    refine .fault h.value?_eq_none hfirst fun s => ?_
    rw [hrun]
    exact bind_of_error hrefuse

theorem runs [MemoryLimit] (hkey : m.stackKey = .atom k) (hself : k.same k = true) {scope : Scope}
    (hscope : m.scope Machine.localKey = .ok scope) (t : Formula) : t.Runs m k := by
  induction t with
  | push v =>
    refine .value rfl fun s => ?_
    exact (Machine.run_single ..).trans (Machine.push_onStack hkey hself s v)
  | find name =>
    cases hname : m.named? name with
    | some v =>
      refine .value hname fun s => ?_
      exact (Machine.run_single ..).trans (execute_find hkey hself hname s)
    | none =>
      obtain ⟨fault, hfails, hexecute⟩ := fails_find hscope hname
      refine .fault hname ⟨[], _, [], rfl, nofun, hname, hfails⟩ fun s => ?_
      exact (Machine.run_single ..).trans (hexecute s)
  | unary op part ih =>
    cases ih with
    | value hpart hrun =>
      refine runs_operator hkey hself rfl (valued_nodes hpart) ?_ (fun _ => .unary hpart)
        fun s => ?_
      · intro v hv
        simp [value?, hpart, hv, Except.toOption]
      · rw [code, Machine.run_append, bind_of_ok (hrun s), Machine.run_single]
        exact Instr.execute_unary (Machine.take_onStack hkey hself s _)
    | fault hpart hfirst hrun =>
      refine .fault (by simp [value?, hpart]) (hfirst.append_right _) fun s => ?_
      rw [code, Machine.run_append, bind_of_error (hrun s)]
  | binary op left right ihl ihr =>
    cases ihr with
    | fault hright hfirst hrun =>
      have hvalue : (binary op left right).value? m = none := by
        cases hleft : left.value? m <;> simp [value?, hleft, hright]
      refine .fault hvalue ((hfirst.append_right _).append_right _) fun s => ?_
      rw [code, List.append_assoc, Machine.run_append, bind_of_error (hrun s)]
    | @value b hright hrunRight =>
      have hrights := valued_nodes hright
      cases ihl with
      | fault hleft hfirst hrun =>
        refine .fault (by simp [value?, hleft]) ((hfirst.append_left hrights).append_right _)
          fun s => ?_
        rw [code, List.append_assoc, Machine.run_append, bind_of_ok (hrunRight s),
          Machine.run_append, bind_of_error (hrun _)]
      | @value a hleft hrunLeft =>
        have hparts : ∀ n ∈ right.nodes ++ left.nodes, (n.value? m).isSome = true :=
          List.forall_mem_append.mpr ⟨hrights, valued_nodes hleft⟩
        refine runs_operator hkey hself rfl hparts ?_ (fun _ => .binary hleft hright) fun s => ?_
        · intro v hv
          simp [value?, hleft, hright, hv, Except.toOption]
        · have hoffers : (m.onStack k ((s.push b).push a)).Offers a b (m.onStack k s) :=
            ⟨_, Machine.take_onStack hkey hself _ a, Machine.take_onStack hkey hself s b⟩
          rw [code, List.append_assoc, Machine.run_append, bind_of_ok (hrunRight s),
            Machine.run_append, bind_of_ok (hrunLeft _), Machine.run_single]
          exact Instr.execute_binary hoffers

/-- The code of a formula is that of its parts in postfix order. On a machine with the scope `local`
and a selected stack it succeeds exactly if the formula has a value; then the value is on top of the
stack, and nothing else has changed. Else the run ends with the fault of the first part without a
value: that its name is not found or cannot be one, that it refuses its operands, left before right,
or that its result is larger than the memory. -/
theorem run_code [MemoryLimit] {m : Machine} {scope : Scope} {stack : Stack Value}
    (hscope : m.scope Machine.localKey = .ok scope) (hstack : m.currentStack = .ok stack)
    (t : Formula) :
    t.code = t.nodes.map instr ∧
    (∀ m', m.run t.code = .ok m' ↔ ∃ v k, t.value? m = some v ∧ m.stackKey = .atom k ∧
      m' = { m with stackMap := m.stackMap.set k (stack.push v) }) ∧
    ∀ fault, m.run t.code = .error fault → t.value? m = none ∧ FirstFailure m t.nodes fault := by
  obtain ⟨k, hkey, hget⟩ := Machine.stack_eq_ok_iff.mp hstack
  have hself := OrderedMap.same_self_of_get? hget
  have hsame := Machine.onStack_self hget
  refine ⟨t.code_eq_map_nodes, ?_⟩
  cases t.runs hkey hself hscope with
  | @value v hvalue hrun =>
    have hok := hrun stack
    rw [hsame] at hok
    rw [hok, hvalue]
    constructor
    · intro m'
      constructor
      · intro h
        cases h
        exact ⟨v, k, rfl, hkey, rfl⟩
      · rintro ⟨v', k', hv, hkey', rfl⟩
        rw [hkey] at hkey'
        cases hv
        cases hkey'
        rfl
    · intro fault h
      cases h
  | fault hvalue hfirst hrun =>
    have herror := hrun stack
    rw [hsame] at herror
    rw [herror, hvalue]
    constructor
    · intro m'
      constructor
      · intro h
        cases h
      · rintro ⟨v, k', hv, -⟩
        cases hv
    · intro fault h
      cases h
      exact ⟨rfl, hfirst⟩

/-- A difference whose left operand is a name: `x - 2` where `x` is not bound. -/
theorem run_code_unbound :
    Machine.initial.run (binary .sub (find (.str "x")) (push (.int 2))).code =
        .error (.nameNotFound Machine.localKey (.str "x")) ∧
      FirstFailure Machine.initial (binary .sub (find (.str "x")) (push (.int 2))).nodes
        (.nameNotFound Machine.localKey (.str "x")) := by
  have hrun : Machine.initial.run (binary .sub (find (.str "x")) (push (.int 2))).code =
      .error (.nameNotFound Machine.localKey (.str "x")) := rfl
  have hscope : Machine.initial.scope Machine.localKey = .ok
      { name := Machine.localKey, frames := [.create (.str "global") .empty] } := rfl
  have hstack : Machine.initial.currentStack = .ok .empty := rfl
  exact ⟨hrun, ((run_code hscope hstack _).2.2 _ hrun).2⟩

/-- A list that is repeated too often exceeds the memory, which is no fault of the operands, and a
list is looked up in vain, though not because it is unbound. -/
theorem run_code_not_refused :
    Machine.initial.run
          (binary .mul (push (.list [.int 1, .int 2])) (push (.int 4611686018427387904))).code =
        .error .outOfMemory ∧
      (∀ v ∈ [Value.list [.int 1, .int 2], .int 4611686018427387904], v.Writable) ∧
      Machine.initial.run (find (.list [.int 1])).code = .error (.unhashable .list) := by
  refine ⟨rfl, ?_, rfl⟩
  have hshort (n : Int) (h : n.natAbs < 10 ^ 19) : (Value.int n).Writable := by
    rw [Value.writable_atom, Atom.writable_iff]
    rintro _ ⟨⟩
    have hlimit : 19 ≤ Numeral.digitLimit := by decide
    unfold Numeral.tooLong
    -- For any limit, so that the power is not computed.
    generalize Numeral.digitLimit = limit at hlimit ⊢
    exact h.trans_le (Nat.pow_le_pow_right (by decide) hlimit)
  simp only [List.forall_mem_cons, Value.writable_list, List.not_mem_nil, false_implies,
    implies_true, and_true]
  exact ⟨⟨hshort 1 (by decide), hshort 2 (by decide)⟩, hshort _ (by decide)⟩

end Formula

end ScopeMachine
