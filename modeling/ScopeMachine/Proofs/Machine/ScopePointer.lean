import ScopeMachine.Proofs.Machine.Locality
import ScopeMachine.Proofs.Machine.Lockstep

/-! Who looks at the pointer to the selected scope. The title and the notes of a frame go to the
selected scope, and a selection moves the pointer; to every other instruction the pointer means
nothing. Selecting a scope is a map of machines, and everything that such an instruction is made of
commutes with it, whether or not there is a scope under the key. -/
namespace ScopeMachine

/-- Whether an instruction reads or moves the pointer to the selected scope. -/
def Opcode.usesScopePointer : Opcode → Bool
  | .setFrameTitle | .addFrameNote | .setCurrentScope => true
  | _ => false

namespace Machine

theorem updateStack_selectScope (m : Machine) (selected key : Value)
    (f : Stack Value → Stack Value) :
    (m.selectScope selected).updateStack key f =
      (·.selectScope selected) <$> m.updateStack key f :=
  bind_eq_map fun _ _ => bind_eq_map fun _ _ => rfl

theorem push_selectScope (m : Machine) (selected value : Value) :
    (m.selectScope selected).push value = (·.selectScope selected) <$> m.push value :=
  m.updateStack_selectScope selected m.stackKey _

theorem take_selectScope (m : Machine) (selected : Value) :
    (m.selectScope selected).take =
      (fun taken => (taken.1, taken.2.selectScope selected)) <$> m.take := by
  apply bind_eq_map
  intro value _
  have hpop : (m.selectScope selected).pop = (·.selectScope selected) <$> m.pop :=
    m.updateStack_selectScope selected m.stackKey Stack.pop
  rw [hpop]
  exact map_bind_eq_map fun _ _ => rfl

theorem updateScope_selectScope (m : Machine) (selected key : Value)
    (f : Scope → Except Fault Scope) :
    (m.selectScope selected).updateScope key f =
      (·.selectScope selected) <$> m.updateScope key f :=
  bind_eq_map fun _ _ => bind_eq_map fun _ _ => bind_eq_map fun _ _ => rfl

theorem rebindAt_selectScope (m : Machine) (selected key name value : Value) :
    (m.selectScope selected).rebindAt key name value =
      (fun rebound => (rebound.1, rebound.2.selectScope selected)) <$>
        m.rebindAt key name value := by
  apply bind_eq_map
  intro _ _
  apply bind_eq_map
  intro found _
  cases found with
  | none => rfl
  | some found => exact bind_eq_map fun _ _ => rfl

theorem findAt_selectScope (m : Machine) (selected key name : Value) :
    (m.selectScope selected).findAt key name =
      (·.selectScope selected) <$> m.findAt key name := by
  refine bind_eq_map (x := m.lookupAt key name) fun found _ => ?_
  cases found with
  | none => rfl
  | some binding => exact m.push_selectScope selected binding.value

end Machine

namespace Instr

variable {i : Instr}

/-- An instruction that does not use the pointer does the same wherever it points, and leaves it
there. -/
theorem execute_selectScope [MemoryLimit] (h : i.opcode.usesScopePointer = false) (m : Machine)
    (selected : Value) :
    i.execute (m.selectScope selected) = (·.selectScope selected) <$> i.execute m := by
  -- what follows the taking of an operand is told from the machine without it
  have htake {m : Machine} {next : Value × Machine → Except Fault Machine}
      (hnext : ∀ value taken, next (value, taken.selectScope selected) =
        (·.selectScope selected) <$> next (value, taken)) :
      ((m.selectScope selected).take >>= next) =
        (·.selectScope selected) <$> (m.take >>= next) := by
    rw [Machine.take_selectScope]
    exact map_bind_eq_map fun taken _ => hnext taken.1 taken.2
  obtain ⟨opcode, operands⟩ := i
  cases opcode with
  | nop => rfl
  | push => exact bind_eq_map fun value _ => m.push_selectScope selected value
  | pop => exact m.updateStack_selectScope selected m.stackKey Stack.pop
  | findAt => exact bind_eq_map fun pair _ => m.findAt_selectScope selected pair.1 pair.2
  | find => exact bind_eq_map fun name _ => m.findAt_selectScope selected Machine.localKey name
  | enterAt => exact bind_eq_map fun pair _ => m.updateScope_selectScope selected pair.1 _
  | enter => exact bind_eq_map fun _ _ => m.updateScope_selectScope selected Machine.localKey _
  | leaveAt => exact bind_eq_map fun key _ => m.updateScope_selectScope selected key _
  | leave => exact m.updateScope_selectScope selected Machine.localKey _
  | bindAt =>
    apply bind_eq_map
    rintro ⟨key, name⟩ _
    apply htake
    intro value taken
    exact taken.updateScope_selectScope selected key _
  | bind =>
    apply htake
    intro value taken
    exact bind_eq_map fun _ _ => taken.updateScope_selectScope selected Machine.localKey _
  | rebindAt =>
    apply bind_eq_map
    rintro ⟨key, name⟩ _
    apply htake
    intro value taken
    dsimp only
    rw [Machine.rebindAt_selectScope]
    exact map_bind_eq_map fun _ _ => rfl
  | rebind =>
    apply htake
    intro value taken
    apply bind_eq_map
    intro name _
    rw [Machine.rebindAt_selectScope]
    exact map_bind_eq_map fun _ _ => rfl
  | binary op =>
    apply htake
    intro left first
    apply htake
    intro right rest
    exact bind_eq_map fun result _ => rest.push_selectScope selected result
  | unary op =>
    apply htake
    intro operand rest
    exact bind_eq_map fun result _ => rest.push_selectScope selected result
  | setProp => exact bind_eq_map fun _ _ => bind_eq_map fun _ _ => rfl
  | setCurrentStack => exact bind_eq_map fun _ _ => rfl
  | setFrameTitle | addFrameNote | setCurrentScope => cases h

end Instr

namespace Machine

/-- The machines are equal except for the pointer to the selected scope, which is at `left` in the
first and at `right` in the second. -/
structure EqualButScopeKey (left right : Value) (a b : Machine) : Prop where
  left_eq : a.scopeKey = left
  right_eq : b = a.selectScope right

theorem agree_of_equalButScopeKey [MemoryLimit] {i : Instr} (hi : i.opcode.usesScopePointer = false)
    {left right : Value} {a b : Machine} (h : EqualButScopeKey left right a b) :
    Agree (EqualButScopeKey left right) (i.execute a) (i.execute b) := by
  obtain ⟨hleft, rfl⟩ := h
  rw [Instr.execute_selectScope hi]
  cases hexecute : i.execute a with
  | error fault => rfl
  | ok next =>
    have hpointer : i.opcode ≠ .setCurrentScope := by
      intro hop
      rw [hop] at hi
      cases hi
    have hlocal := Instr.staysLocal_of_execute hexecute
    exact ⟨(hlocal.scopeKey_eq hpointer).trans hleft, rfl⟩

/-- To a program without titles, notes and selections of a scope the selected scope means nothing:
from two machines that differ in it alone, the runs stop at the same instruction with the same
fault, or end in machines that differ in it alone, each with the pointer it started with. -/
theorem sameOutcome_selectScope [MemoryLimit] {program : List Instr}
    (h : ∀ i ∈ program, i.opcode.usesScopePointer = false) (m : Machine) (key : Value) :
    SameOutcome (EqualButScopeKey m.scopeKey key) m (m.selectScope key) program :=
  sameOutcome_of_agree (fun i hi _ _ hab => agree_of_equalButScopeKey (h i hi) hab) ⟨rfl, rfl⟩

/-- A block in `local` and a name that is not bound, with the pointer at a scope that is not
there. -/
theorem sameOutcome_selectScope_astray :
    let program : List Instr := [.push (.int 1), .bind (.str "x"), .enter (.str "inner"),
      .find (.str "x"), .rebind (.str "x"), .leave, .find (.str "y")]
    let astray := initial.selectScope (.str "nowhere")
    (∀ i ∈ program, i.opcode.usesScopePointer = false) ∧
      (∀ s, astray.currentScope ≠ .ok s) ∧
      SameOutcome (EqualButScopeKey localKey (.str "nowhere")) initial astray program := by
  intro program astray
  have hprogram : ∀ i ∈ program, i.opcode.usesScopePointer = false := by simp [program]; decide
  refine ⟨hprogram, ?_, sameOutcome_selectScope hprogram initial (.str "nowhere")⟩
  rintro s ⟨⟩

end Machine

end ScopeMachine
