import ScopeMachine.Proofs.Stepper.Steps

/-! The machines that a stepper has left and the one it is at form a trail through its program,
whatever commands led there. A trail is stated for any relation between an instruction and the
machines before and after it, so the same steps serve trails in which instructions may be passed
over and trails in which every instruction is executed. -/
namespace ScopeMachine

/-- Whether a command may pass over an instruction without executing it. -/
def Command.passes : Command → Bool
  | .skip | .run false => true
  | _ => false

/-- The machines left on the way through a program, latest first, and the machine reached. -/
inductive Trail (step : Instr → Machine → Machine → Prop) (program : List Instr)
    (first : Machine) : List Machine → Machine → Prop
  | start : Trail step program first [] first
  | extend {left : List Machine} {last next : Machine} {i : Instr}
      (trail : Trail step program first left last) (hcurrent : program[left.length]? = some i)
      (hstep : step i last next) : Trail step program first (last :: left) next

/-- An instruction was executed. -/
def Instr.Executes [MemoryLimit] (i : Instr) (m n : Machine) : Prop := i.execute m = .ok n

/-- An instruction was executed or passed over. -/
def Instr.ExecutesOrPasses [MemoryLimit] (i : Instr) (m n : Machine) : Prop :=
  i.execute m = .ok n ∨ n = m

namespace Trail

variable {step : Instr → Machine → Machine → Prop} {program : List Instr} {first last : Machine}
  {left : List Machine}

theorem length_le (h : Trail step program first left last) : left.length ≤ program.length := by
  cases h with
  | start => exact Nat.zero_le _
  | extend _ hcurrent _ =>
    obtain ⟨hlt, -⟩ := List.getElem?_eq_some_iff.mp hcurrent
    exact hlt

theorem head?_states (h : Trail step program first left last) :
    (left.reverse ++ [last]).head? = some first := by
  induction h with
  | start => rfl
  | extend trail _ _ ih => simpa using ih

/-- Read from its start, a trail takes one step for each instruction of the program. -/
theorem states_step (h : Trail step program first left last) {k : Nat} (hk : k < left.length) :
    ∃ i m n, program[k]? = some i ∧ (left.reverse ++ [last])[k]? = some m ∧
      (left.reverse ++ [last])[k + 1]? = some n ∧ step i m n := by
  induction h with
  | start => exact absurd hk (Nat.not_lt_zero k)
  | @extend left last next i trail hcurrent hstep ih =>
    rcases Nat.lt_succ_iff_lt_or_eq.mp hk with hlt | rfl
    · -- An earlier step: the states up to it are those of the shorter trail.
      obtain ⟨j, m, n, hj, hm, hn, hjmn⟩ := ih hlt
      refine ⟨j, m, n, hj, ?_, ?_, hjmn⟩
      · rw [List.reverse_cons, List.getElem?_append_left (by simp; omega)]
        exact hm
      · rw [List.reverse_cons, List.getElem?_append_left (by simp; omega)]
        exact hn
    · exact ⟨i, last, next, hcurrent, by simp, by simp, hstep⟩

/-- What every step keeps holds of the machine that a trail leads to. -/
theorem invariant {p : Machine → Prop} (hstep : ∀ i ∈ program, ∀ m n, step i m n → p m → p n)
    (hfirst : p first) (h : Trail step program first left last) : p last := by
  induction h with
  | start => exact hfirst
  | extend _ hcurrent hnext ih => exact hstep _ (List.mem_of_getElem? hcurrent) _ _ hnext ih

/-- It holds of all the machines on the way, too. -/
theorem invariant_of_mem {p : Machine → Prop}
    (hstep : ∀ i ∈ program, ∀ m n, step i m n → p m → p n) (hfirst : p first)
    (h : Trail step program first left last) {m : Machine} (hm : m ∈ last :: left) : p m := by
  induction h with
  | start =>
    rw [List.mem_singleton.mp hm]
    exact hfirst
  | @extend left last next i trail hcurrent hnext ih =>
    rcases List.mem_cons.mp hm with rfl | hm
    · exact (trail.extend hcurrent hnext).invariant hstep hfirst
    · exact ih hm

/-- A trail on which every instruction was executed ends where a plain run ends. -/
theorem run_take [MemoryLimit] (h : Trail Instr.Executes program first left last) :
    first.run (program.take left.length) = .ok last := by
  induction h with
  | start => simp
  | @extend left last next i trail hcurrent hstep ih =>
    have htake : program.take (left.length + 1) = program.take left.length ++ [i] := by
      rw [List.take_add_one, hcurrent]
      rfl
    have hexecute : i.execute last = .ok next := hstep
    rw [List.length_cons, htake, Machine.run_append, ih]
    change last.run [i] = .ok next
    rw [Machine.run_cons, hexecute]
    rfl

end Trail

namespace Stepper

/-- The stepper after a sequence of commands. One that fails leaves its stepper to the next. -/
def after [MemoryLimit] (s : Stepper) : List Command → Stepper
  | [] => s
  | command :: rest => (s.perform command).stepper.after rest

/-- The machines of a stepper from the very first one to the present one. -/
def states (s : Stepper) : List Machine := s.history.reverse ++ [s.machine]

/-- A stepper is where the commands left it: its history is a trail through the program, with one
machine for each instruction behind it. -/
structure Follows (step : Instr → Machine → Machine → Prop) (program : List Instr)
    (first : Machine) (s : Stepper) : Prop where
  program_eq : s.program = program
  length_history : s.history.length = s.pc
  trail : Trail step program first s.history s.machine

variable {step : Instr → Machine → Machine → Prop} {program : List Instr} {first : Machine}
  {s : Stepper}

theorem follows_start (step : Instr → Machine → Machine → Prop) (program : List Instr)
    (first : Machine) : (start program first).Follows step program first :=
  ⟨rfl, rfl, .start⟩

theorem Follows.current (h : s.Follows step program first) {i : Instr}
    (hcurrent : s.current? = some i) : program[s.history.length]? = some i := by
  rw [← h.program_eq, h.length_history]
  exact hcurrent

theorem Follows.advance (h : s.Follows step program first) {i : Instr} {m : Machine}
    (hcurrent : s.current? = some i) (hstep : step i s.machine m) :
    (s.advance m).Follows step program first := by
  refine ⟨h.program_eq, ?_, h.trail.extend (h.current hcurrent) hstep⟩
  simp [Stepper.advance, h.length_history]

theorem Follows.passOver (h : s.Follows step program first) {i : Instr}
    (hcurrent : s.current? = some i) (hstep : step i s.machine s.machine) :
    s.passOver.Follows step program first := by
  refine ⟨h.program_eq, ?_, h.trail.extend (h.current hcurrent) hstep⟩
  simp [Stepper.passOver, h.length_history]

theorem Follows.prev (h : s.Follows step program first) :
    s.prev.stepper.Follows step program first := by
  unfold Stepper.prev
  split
  · exact h
  · rename_i last older hhistory
    have hlength := h.length_history
    have htrail := h.trail
    rw [hhistory] at hlength htrail
    cases htrail with
    | extend trail _ _ =>
      refine ⟨h.program_eq, ?_, trail⟩
      simp only [Stepper.retreat, ← hlength, List.length_cons]
      omega

theorem Follows.skip (h : s.Follows step program first) (hpass : ∀ i m, step i m m) :
    s.skip.stepper.Follows step program first := by
  unfold Stepper.skip
  split
  · exact h
  · rename_i i hcurrent
    exact h.passOver hcurrent (hpass i _)

theorem mem_states {m : Machine} : m ∈ s.states ↔ m ∈ s.machine :: s.history := by
  simp [states, or_comm]

theorem Follows.backOver (h : s.Follows step program first) (left : List Machine) :
    (backOver left s).stepper.Follows step program first := by
  induction left generalizing s with
  | nil => exact h
  | cons _ older ih => exact ih h.prev

section Executing

variable [MemoryLimit] (hexecute : ∀ i m n, i.execute m = .ok n → step i m n)
include hexecute

theorem Follows.next (h : s.Follows step program first) :
    s.next.stepper.Follows step program first := by
  unfold Stepper.next
  split
  · exact h
  · rename_i i hcurrent
    split
    · rename_i m hm
      exact h.advance hcurrent (hexecute i _ m hm)
    · exact h

theorem Follows.run {stopOnError : Bool} (hpass : stopOnError = false → ∀ i m, step i m m)
    (h : s.Follows step program first) :
    (s.run stopOnError).stepper.Follows step program first :=
  run_keeps (fun _ hs => hs.next hexecute) (fun hstop _ hs => hs.skip (hpass hstop)) h

/-- A command keeps a stepper on a trail, if the trail allows what the command may do. -/
theorem Follows.perform {command : Command}
    (hpass : command.passes = true → ∀ i m, step i m m) (h : s.Follows step program first) :
    (s.perform command).stepper.Follows step program first := by
  cases command with
  | next => exact h.next hexecute
  | prev => exact h.prev
  | skip => exact h.skip (hpass rfl)
  | run stopOnError =>
    refine h.run hexecute fun hstop => hpass ?_
    rw [hstop]
    rfl
  | reset => exact h.backOver s.history

theorem Follows.after {commands : List Command}
    (hpass : ∀ command ∈ commands, command.passes = true → ∀ i m, step i m m)
    (h : s.Follows step program first) : (s.after commands).Follows step program first := by
  induction commands generalizing s with
  | nil => exact h
  | cons command rest ih =>
    have hfirst := h.perform hexecute (hpass command List.mem_cons_self)
    exact ih (fun c hc => hpass c (List.mem_cons_of_mem command hc)) hfirst

end Executing

/-! ### Faults of commands -/

theorem execute_of_run_fault [MemoryLimit] {stopOnError : Bool} {fault : Fault}
    (h : (s.run stopOnError).fault = some fault) :
    ∃ i, (s.run stopOnError).stepper.current? = some i ∧
      i.execute (s.run stopOnError).stepper.machine = .error fault := by
  have hruns := runsTo_run s stopOnError
  generalize s.run stopOnError = o at hruns h ⊢
  induction hruns with
  | atEnd _ => cases h
  | next _ _ ih => exact ih h
  | stop hfault _ =>
    cases h
    exact exists_execute_of_fault hfault
  | skip _ _ _ ih => exact ih h

theorem fault_backOver (s : Stepper) (left : List Machine) : (backOver left s).fault = none := by
  induction left generalizing s with
  | nil => rfl
  | cons _ older ih => exact ih s.prev.stepper

/-- The fault of a command is that of the instruction in front of which it stopped. -/
theorem execute_of_fault [MemoryLimit] {command : Command} {fault : Fault}
    (h : (s.perform command).fault = some fault) :
    ∃ i, (s.perform command).stepper.current? = some i ∧
      i.execute (s.perform command).stepper.machine = .error fault := by
  cases command with
  | next =>
    simp only [perform, Stepper.next] at h ⊢
    split at h
    · cases h
    · rename_i i hcurrent
      split at h
      · cases h
      · rename_i raised hraised
        cases h
        exact ⟨i, hcurrent, hraised⟩
  | prev =>
    simp only [perform, Stepper.prev] at h
    split at h <;> cases h
  | skip =>
    simp only [perform, Stepper.skip] at h
    split at h <;> cases h
  | run stopOnError => exact execute_of_run_fault h
  | reset =>
    rw [show (s.perform .reset).fault = none from fault_backOver s s.history] at h
    cases h

/-- Every stepper that commands can lead to is on a trail of executed and passed instructions. -/
theorem follows_after_start [MemoryLimit] (program : List Instr) (first : Machine)
    (commands : List Command) :
    ((start program first).after commands).Follows Instr.ExecutesOrPasses program first :=
  (follows_start _ program first).after (fun _ _ _ h => Or.inl h) fun _ _ _ _ _ => Or.inr rfl

/-- On the stack of its history a stepper has a machine for each instruction behind it. -/
theorem size_historyStack_after [MemoryLimit] (program : List Instr) (first : Machine)
    (commands : List Command) :
    let s := (start program first).after commands
    s.historyStack.size = s.pc := by
  intro s
  rw [size_historyStack]
  exact (follows_after_start program first commands).length_history

/-- Whatever the commands, the history of a stepper has a machine for each instruction behind it,
and the machines from the first to the present one make up a legal trace. If no command may pass
over an instruction, the present machine is that of a plain run of the instructions behind it. -/
theorem after_start_legal [MemoryLimit] (program : List Instr) (first : Machine)
    (commands : List Command) :
    let s := (start program first).after commands
    s.history.length = s.pc ∧ s.pc ≤ program.length ∧ s.states.length = s.pc + 1 ∧
      s.states.head? = some first ∧ s.states.getLast? = some s.machine ∧
      (∀ k < s.pc, ∃ i m n, program[k]? = some i ∧ s.states[k]? = some m ∧
        s.states[k + 1]? = some n ∧ (i.execute m = .ok n ∨ n = m)) ∧
      ((∀ command ∈ commands, command.passes = false) →
        first.run (program.take s.pc) = .ok s.machine) := by
  intro s
  have h : s.Follows Instr.ExecutesOrPasses program first :=
    follows_after_start program first commands
  refine ⟨h.length_history, ?_, ?_, h.trail.head?_states, ?_, ?_, ?_⟩
  · rw [← h.length_history]
    exact h.trail.length_le
  · simp [states, h.length_history]
  · simp [states]
  · intro k hk
    rw [← h.length_history] at hk
    exact h.trail.states_step hk
  · intro hstrict
    have hrun : s.Follows Instr.Executes program first := by
      apply (follows_start _ program first).after (fun _ _ _ he => he)
      intro command hmem hpasses
      simp [hstrict command hmem] at hpasses
    rw [← hrun.length_history]
    exact hrun.trail.run_take

/-- A difference reached by two steps forward, one back and a run to the end. -/
theorem after_start_legal_difference :
    let program : List Instr := [.push (.int 10), .push (.int 20), .binary .sub]
    let commands : List Command := [.next, .next, .prev, .run true]
    let s := (start program .initial).after commands
    (∀ command ∈ commands, command.passes = false) ∧ s.pc = 3 ∧
      Machine.initial.run (program.take s.pc) = .ok s.machine :=
  ⟨by decide, rfl, (after_start_legal _ _ _).2.2.2.2.2.2 (by decide)⟩

end Stepper

end ScopeMachine
