import ScopeMachine.Proofs.Basic
import ScopeMachine.Proofs.Stepper.Trail

/-! A stepper that runs to the end does what the machine does with the instructions that are still
ahead. It reaches the end with the machine of a plain run, or stops with the same fault in front of
the first instruction that fails. -/
namespace ScopeMachine

namespace Stepper

theorem run_of_run_ok [MemoryLimit] (stopOnError : Bool) {ahead : List Instr} {s : Stepper}
    {w : Machine} (hahead : s.program.drop s.pc = ahead) (h : s.machine.run ahead = .ok w) :
    (s.run stopOnError).fault = none ∧ (s.run stopOnError).stepper.machine = w ∧
      (s.run stopOnError).stepper.atEnd = true := by
  induction ahead generalizing s with
  | nil =>
    have hend := atEnd_of_drop hahead
    rw [run_of_atEnd hend]
    cases h
    exact ⟨rfl, rfl, hend⟩
  | cons i ahead ih =>
    obtain ⟨hcurrent, hbehind⟩ := current?_of_drop hahead
    rw [Machine.run_cons] at h
    obtain ⟨m, hm, hrest⟩ := bind_eq_ok h
    obtain ⟨hstepper, hfault⟩ := run_of_execute_ok hcurrent hm stopOnError
    rw [hstepper, hfault]
    exact ih (s := s.advance m) hbehind hrest

/-- The instructions that a run leaves behind before it stops all succeed. -/
theorem run_of_run_error [MemoryLimit] {ahead : List Instr} {s : Stepper} {fault : Fault}
    (hahead : s.program.drop s.pc = ahead) (h : s.machine.run ahead = .error fault) :
    ∃ done i rest, ahead = done ++ i :: rest ∧ (s.run true).fault = some fault ∧
      (s.run true).stepper.pc = s.pc + done.length ∧
      s.machine.run done = .ok (s.run true).stepper.machine ∧
      i.execute (s.run true).stepper.machine = .error fault := by
  induction ahead generalizing s with
  | nil => cases h
  | cons i ahead ih =>
    obtain ⟨hcurrent, hbehind⟩ := current?_of_drop hahead
    cases hexecute : i.execute s.machine with
    | error e =>
      have he : e = fault := by simpa [Machine.run, hexecute] using h
      subst he
      rw [(run_of_execute_error hcurrent hexecute).2 (ends_true e)]
      exact ⟨[], i, ahead, rfl, rfl, rfl, rfl, hexecute⟩
    | ok m =>
      have hrest : (s.advance m).machine.run ahead = .error fault := by
        rw [Machine.run, hexecute] at h
        exact h
      obtain ⟨hstepper, hfault⟩ := run_of_execute_ok hcurrent hexecute true
      obtain ⟨done, j, rest, rfl, hsome, hpc, hdone, hj⟩ := ih (s := s.advance m) hbehind hrest
      rw [hstepper, hfault]
      refine ⟨i :: done, j, rest, rfl, hsome, ?_, ?_, hj⟩
      · rw [hpc, List.length_cons]
        simp only [advance]
        omega
      · rw [Machine.run, hexecute]
        exact hdone

/-- From wherever commands have led, a run ends exactly like a plain run of the instructions ahead:
at the end with the same machine, or with the same fault. In the second case it stands in front of
the instruction that fails, with the machine of the instructions it has executed up to there. -/
theorem run_agrees_with_machine [MemoryLimit] (program : List Instr) (first : Machine)
    (commands : List Command) :
    let s := (start program first).after commands
    let o := s.run true
    (∀ w, (o.fault = none ∧ o.stepper.atEnd = true ∧ o.stepper.machine = w) ↔
      s.machine.run (program.drop s.pc) = .ok w) ∧
    (∀ fault, o.fault = some fault ↔ s.machine.run (program.drop s.pc) = .error fault) ∧
    ∀ fault, o.fault = some fault → ∃ i, s.pc ≤ o.stepper.pc ∧
      program[o.stepper.pc]? = some i ∧
      s.machine.run ((program.take o.stepper.pc).drop s.pc) = .ok o.stepper.machine ∧
      i.execute o.stepper.machine = .error fault := by
  intro s o
  have hfollows : s.Follows Instr.ExecutesOrPasses program first :=
    follows_after_start program first commands
  have hahead : s.program.drop s.pc = program.drop s.pc := by rw [hfollows.program_eq]
  cases hplain : s.machine.run (program.drop s.pc) with
  | ok w =>
    obtain ⟨hfault, hmachine, hend⟩ := run_of_run_ok true hahead hplain
    simp [o, hfault, hmachine, hend]
  | error e =>
    obtain ⟨done, i, rest, hsplit, hfault, hpc, hdone, hi⟩ := run_of_run_error hahead hplain
    have hcurrent : program[o.stepper.pc]? = some i := by
      rw [hpc, ← List.getElem?_drop, hsplit]
      simp
    have hbehind : (program.take o.stepper.pc).drop s.pc = done := by
      rw [List.drop_take, hsplit, hpc]
      simp
    refine ⟨by simp [o, hfault], by simp [o, hfault], ?_⟩
    intro fault hsome
    have he : e = fault := by simpa [o, hfault] using hsome
    subst he
    have hle : s.pc ≤ o.stepper.pc := by
      rw [hpc]
      exact Nat.le_add_right _ _
    exact ⟨i, hle, hcurrent, by rw [hbehind]; exact hdone, hi⟩

/-- A run from behind an instruction that was passed over stops at a name without value. -/
theorem run_agrees_with_machine_unbound :
    let program : List Instr := [.push (.int 1), .push (.int 2), .pop, .find (.str "x"), .leave]
    let s := (start program .initial).after [.next, .next, .prev, .skip]
    let fault : Fault := .nameNotFound (.str "local") (.str "x")
    (s.run true).fault = some fault ∧ (s.run true).stepper.pc = 3 ∧
      s.machine.run (program.drop s.pc) = .error fault ∧
      s.machine.run ((program.take 3).drop s.pc) = .ok (s.run true).stepper.machine := by
  intro program s fault
  have hrun : s.machine.run (program.drop s.pc) = .error fault := rfl
  have hpc : (s.run true).stepper.pc = 3 := by decide +kernel
  obtain ⟨-, hplain, hstop⟩ := run_agrees_with_machine program .initial [.next, .next, .prev, .skip]
  have hfault : (s.run true).fault = some fault := (hplain fault).mpr hrun
  obtain ⟨i, -, -, hbehind, -⟩ := hstop fault hfault
  refine ⟨hfault, hpc, hrun, ?_⟩
  simpa only [s, hpc] using hbehind

end Stepper

end ScopeMachine
