import Mathlib.Data.List.Infix
import ScopeMachine.Proofs.Stepper.KeepGoing

/-! A run that keeps going does what a plain run does with the program from which the failing
instructions have been sifted out. Which ones these are depends on the machines reached on the way,
so the sifting is defined along with a plain run of what it keeps, and a failing instruction leaves
the machine in front of it to the next one. -/
namespace ScopeMachine

namespace Machine

/-- Whatever fails on the way through a program, past the instructions that fail, fails with a
fault that a run survives. -/
def Survives [MemoryLimit] (m : Machine) : List Instr → Prop
  | [] => True
  | i :: rest =>
    match i.execute m with
    | .ok next => next.Survives rest
    | .error fault => fault.isRecoverable = true ∧ m.Survives rest

/-- What is left of a program when each instruction is deleted that fails on the machine to which a
plain run of those kept before it leads. -/
inductive Sifts [MemoryLimit] (m : Machine) : List Instr → List Instr → Prop
  | nil : Sifts m [] []
  | keep {program kept : List Instr} {i : Instr} {reached next : Machine}
      (h : Sifts m program kept) (hrun : m.run kept = .ok reached)
      (hexecute : i.execute reached = .ok next) : Sifts m (program ++ [i]) (kept ++ [i])
  | drop {program kept : List Instr} {i : Instr} {reached : Machine} {fault : Fault}
      (h : Sifts m program kept) (hrun : m.run kept = .ok reached)
      (hexecute : i.execute reached = .error fault) : Sifts m (program ++ [i]) kept

theorem runPast_append [MemoryLimit] (m : Machine) (first second : List Instr) :
    m.runPast (first ++ second) = (m.runPast first).runPast second := by
  induction first generalizing m with
  | nil => rfl
  | cons i rest ih =>
    simp only [List.cons_append, runPast]
    split
    · exact ih _
    · exact ih m

/-- What is kept succeeds, and leads to where the whole program leads past its failures. -/
theorem Sifts.run_eq [MemoryLimit] {m : Machine} {program kept : List Instr}
    (h : m.Sifts program kept) :
    m.run kept = .ok (m.runPast program) := by
  induction h with
  | nil => rfl
  | keep _ hrun hexecute ih =>
    rw [ih, Except.ok.injEq] at hrun
    rw [run_append, bind_of_ok ih, runPast_append, hrun]
    simp [run, runPast, hexecute]
  | drop _ hrun hexecute ih =>
    rw [ih, Except.ok.injEq] at hrun
    rw [ih, runPast_append, hrun]
    simp [runPast, hexecute]

theorem exists_sifts [MemoryLimit] (m : Machine) (program : List Instr) :
    ∃ kept, m.Sifts program kept := by
  induction program using List.reverseRecOn with
  | nil => exact ⟨[], .nil⟩
  | append_singleton program i ih =>
    obtain ⟨kept, hkept⟩ := ih
    cases hexecute : i.execute (m.runPast program) with
    | ok next => exact ⟨kept ++ [i], hkept.keep hkept.run_eq hexecute⟩
    | error fault => exact ⟨kept, hkept.drop hkept.run_eq hexecute⟩

/-- The last instruction is kept if and only if it succeeds behind all the others. -/
theorem Sifts.of_concat [MemoryLimit] {m : Machine} {program whole : List Instr} {i : Instr}
    (h : m.Sifts (program ++ [i]) whole) :
    ∃ kept, m.Sifts program kept ∧
      whole = match i.execute (m.runPast program) with
        | .ok _ => kept ++ [i]
        | .error _ => kept := by
  generalize hwhole : program ++ [i] = instrs at h
  cases h with
  | nil => simp at hwhole
  | keep h hrun hexecute =>
    obtain ⟨rfl, rfl⟩ := List.append_singleton_inj.mp hwhole
    rw [h.run_eq, Except.ok.injEq] at hrun
    exact ⟨_, h, by simp [hrun, hexecute]⟩
  | drop h hrun hexecute =>
    obtain ⟨rfl, rfl⟩ := List.append_singleton_inj.mp hwhole
    rw [h.run_eq, Except.ok.injEq] at hrun
    exact ⟨_, h, by simp [hrun, hexecute]⟩

theorem Sifts.unique [MemoryLimit] {m : Machine} {program kept kept' : List Instr}
    (h : m.Sifts program kept) (h' : m.Sifts program kept') : kept' = kept := by
  induction program using List.reverseRecOn generalizing kept kept' with
  | nil =>
    have hnil {whole : List Instr} (h : m.Sifts [] whole) : whole = [] := by
      generalize hempty : ([] : List Instr) = instrs at h
      cases h with
      | nil => rfl
      | keep | drop => simp at hempty
    rw [hnil h, hnil h']
  | append_singleton program i ih =>
    obtain ⟨before, hbefore, rfl⟩ := h.of_concat
    obtain ⟨before', hbefore', rfl⟩ := h'.of_concat
    rw [ih hbefore hbefore']

end Machine

namespace Stepper

/-- A run that keeps going and meets nothing it does not survive comes to the end, and leaves
behind it the machines reached by the instructions ahead, one after the other. -/
theorem run_of_survives [MemoryLimit] {ahead : List Instr} {s : Stepper}
    (hahead : s.program.drop s.pc = ahead) (h : s.machine.Survives ahead) :
    (s.run false).fault = none ∧ (s.run false).stepper.pc = s.pc + ahead.length ∧
      (s.run false).stepper.machine = s.machine.runPast ahead ∧
      (s.run false).stepper.states = s.history.reverse ++ ahead.inits.map s.machine.runPast := by
  induction ahead generalizing s with
  | nil =>
    rw [run_of_atEnd (atEnd_of_drop hahead)]
    exact ⟨rfl, rfl, rfl, rfl⟩
  | cons i ahead ih =>
    obtain ⟨hcurrent, hbehind⟩ := current?_of_drop hahead
    simp only [Machine.Survives] at h
    split at h
    · rename_i next hexecute
      obtain ⟨hstepper, hfault⟩ := run_of_execute_ok hcurrent hexecute false
      obtain ⟨hnone, hpc, hmachine, hstates⟩ := ih (s := s.advance next) hbehind h
      rw [hstepper, hfault]
      refine ⟨hnone, ?_, ?_, ?_⟩
      · rw [hpc, List.length_cons]
        simp only [advance]
        omega
      · rw [hmachine]
        simp [advance, Machine.runPast, hexecute]
      · rw [hstates]
        simp [advance, Machine.runPast, hexecute, Function.comp_def]
    · rename_i fault hexecute
      obtain ⟨hsurvived, h⟩ := h
      obtain ⟨hnone, hpc, hmachine, hstates⟩ := ih (s := s.passOver) hbehind h
      rw [(run_of_execute_error hcurrent hexecute).1 (not_ends_false.mpr hsurvived)]
      refine ⟨hnone, ?_, ?_, ?_⟩
      · rw [hpc, List.length_cons]
        simp only [passOver]
        omega
      · rw [hmachine]
        simp [passOver, Machine.runPast, hexecute]
      · rw [hstates]
        simp [passOver, Machine.runPast, hexecute, Function.comp_def]

/-- Behind `n` of the instructions ahead stands the machine that these lead to. -/
theorem getElem?_states_run [MemoryLimit] {ahead : List Instr} {s : Stepper}
    (hlength : s.history.length = s.pc) (hahead : s.program.drop s.pc = ahead)
    (h : s.machine.Survives ahead) {n : Nat} (hn : n ≤ ahead.length) :
    (s.run false).stepper.states[s.pc + n]? = some (s.machine.runPast (ahead.take n)) := by
  obtain ⟨-, -, -, hstates⟩ := run_of_survives hahead h
  have hinits : ahead.inits[n]? = some (ahead.take n) := by
    rw [List.getElem?_eq_getElem (by rw [List.length_inits]; omega), List.getElem_inits]
  rw [hstates, List.getElem?_append_right (by simp [hlength])]
  simp [hlength, hinits]

/-- From wherever commands have led, a run that keeps going and meets nothing it does not survive
ends at the end of the program, with the machine of a plain run of what is left of the instructions
ahead when the failing ones are sifted out. Each of these leaves the machine as it was. -/
theorem run_sifts [MemoryLimit] (program : List Instr) (first : Machine) (commands : List Command) :
    let s := (start program first).after commands
    let ahead := program.drop s.pc
    let o := s.run false
    s.machine.Survives ahead →
      o.fault = none ∧ o.stepper.pc = program.length ∧
      (∃ kept, s.machine.Sifts ahead kept ∧ (∀ other, s.machine.Sifts ahead other → other = kept) ∧
        s.machine.run kept = .ok o.stepper.machine) ∧
      ∀ k i reached fault, s.pc ≤ k → program[k]? = some i → o.stepper.states[k]? = some reached →
        i.execute reached = .error fault → o.stepper.states[k + 1]? = some reached := by
  intro s ahead o hsurvives
  have hfollows : s.Follows Instr.ExecutesOrPasses program first :=
    follows_after_start program first commands
  have hahead : s.program.drop s.pc = ahead := by rw [hfollows.program_eq]
  have hle : s.pc ≤ program.length := by
    rw [← hfollows.length_history]
    exact hfollows.trail.length_le
  obtain ⟨hnone, hpc, hmachine, -⟩ := run_of_survives hahead hsurvives
  have hstate {n : Nat} (hn : n ≤ ahead.length) :=
    getElem?_states_run hfollows.length_history hahead hsurvives hn
  obtain ⟨kept, hkept⟩ := s.machine.exists_sifts ahead
  refine ⟨hnone, ?_, ⟨kept, hkept, fun other => hkept.unique, ?_⟩, ?_⟩
  · rw [hpc, List.length_drop]
    omega
  · rw [hmachine, hkept.run_eq]
  · intro k i reached fault hk hi hreached hexecute
    obtain ⟨j, rfl⟩ := Nat.exists_eq_add_of_le hk
    have hj : ahead[j]? = some i := by rw [List.getElem?_drop]; exact hi
    obtain ⟨hlt, -⟩ := List.getElem?_eq_some_iff.mp hj
    rw [hstate hlt.le, Option.some.injEq] at hreached
    rw [Nat.add_assoc, hstate hlt, List.take_add_one, hj, Machine.runPast_append, hreached]
    simp [Machine.runPast, hexecute]

/-- A look-up, a difference and a binding that fail on the way to a product. -/
theorem run_sifts_product :
    let program : List Instr := [.push (.str "b"), .find (.str "x"), .push (.str "a"), .binary .sub,
      .push (.int 2), .bindAt (.str "dyn") (.str "y"), .binary .mul]
    let s := (start program .initial).after [.next]
    let o := s.run false
    s.machine.Survives (program.drop s.pc) ∧ o.stepper.pc = 7 ∧
      ∃ kept, s.machine.Sifts (program.drop s.pc) kept ∧
        s.machine.run kept = .ok o.stepper.machine := by
  intro program s o
  have hsurvives : s.machine.Survives (program.drop s.pc) :=
    And.intro rfl (And.intro rfl (And.intro rfl trivial))
  obtain ⟨-, hpc, ⟨kept, hkept, -, hrun⟩, -⟩ := run_sifts program .initial [.next] hsurvives
  exact ⟨hsurvives, hpc, kept, hkept, hrun⟩

end Stepper

end ScopeMachine
