import ScopeMachine.Proofs.Basic
import ScopeMachine.Stepper

/-! Single steps, and the runs that are made of them. A run steps forward until it is at the end of
the program. A fault that it survives makes it pass over the instruction; any other one ends it. The
machines that steps leave behind lie on a stack: a step forward pushes one to it, and a step back
takes the top one off. -/
namespace ScopeMachine.Stepper

variable {s : Stepper} {i : Instr} {fault : Fault} {stopOnError : Bool}

/-! ### The instructions ahead -/

theorem current?_of_drop {ahead : List Instr} (h : s.program.drop s.pc = i :: ahead) :
    s.current? = some i ∧ s.program.drop (s.pc + 1) = ahead := by
  rw [current?, ← List.head?_drop, ← List.tail_drop, h]
  exact ⟨rfl, rfl⟩

theorem atEnd_of_drop (h : s.program.drop s.pc = []) : s.atEnd = true :=
  decide_eq_true (List.drop_eq_nil_iff.mp h)

theorem drop_of_current? (h : s.current? = some i) :
    s.program.drop s.pc = i :: s.program.drop (s.pc + 1) := by
  obtain ⟨hlt, rfl⟩ := List.getElem?_eq_some_iff.mp h
  exact List.drop_eq_getElem_cons hlt

/-! ### Single steps -/

theorem next_of_none [MemoryLimit] (h : s.current? = none) :
    s.next = { stepper := s, moved := false } := by
  rw [next, h]

theorem next_of_ok [MemoryLimit] (hcurrent : s.current? = some i) {m : Machine}
    (hexecute : i.execute s.machine = .ok m) :
    s.next = { stepper := s.advance m, lineMoves := s.machine.lineMoves m } := by
  simp only [next, hcurrent, hexecute]

theorem next_of_error [MemoryLimit] (hcurrent : s.current? = some i)
    (hexecute : i.execute s.machine = .error fault) :
    s.next = { stepper := s, moved := false, fault := some fault } := by
  simp only [next, hcurrent, hexecute]

theorem skip_of_current? (h : s.current? = some i) : s.skip = { stepper := s.passOver } := by
  rw [skip, h]

theorem machine_skip (s : Stepper) : s.skip.stepper.machine = s.machine := by
  unfold skip
  split <;> rfl

/-- A step forward that moves has executed the current instruction. -/
theorem exists_execute_of_moved [MemoryLimit] (h : s.next.moved = true) :
    ∃ i m, s.current? = some i ∧ i.execute s.machine = .ok m := by
  cases hcurrent : s.current? with
  | none =>
    rw [next_of_none hcurrent] at h
    cases h
  | some i =>
    cases hexecute : i.execute s.machine with
    | ok m => exact ⟨i, m, rfl, hexecute⟩
    | error fault =>
      rw [next_of_error hcurrent hexecute] at h
      cases h

/-- A step forward that fails does so with the fault of the current instruction. -/
theorem exists_execute_of_fault [MemoryLimit] (h : s.next.fault = some fault) :
    ∃ i, s.current? = some i ∧ i.execute s.machine = .error fault := by
  cases hcurrent : s.current? with
  | none =>
    rw [next_of_none hcurrent] at h
    cases h
  | some i =>
    cases hexecute : i.execute s.machine with
    | ok m =>
      rw [next_of_ok hcurrent hexecute] at h
      cases h
    | error raised =>
      rw [next_of_error hcurrent hexecute] at h
      cases h
      exact ⟨i, rfl, hexecute⟩

/-! ### Runs -/

/-- Whether a fault ends a run. -/
def Ends (stopOnError : Bool) (fault : Fault) : Prop :=
  (stopOnError || !fault.isRecoverable) = true

theorem ends_true (fault : Fault) : Ends true fault := rfl

/-- Faults of running a program do not end a run that keeps going. -/
theorem not_ends_false : ¬ Ends false fault ↔ fault.isRecoverable = true := by
  simp [Ends]

theorem run_of_atEnd [MemoryLimit] (h : s.atEnd = true) (stopOnError : Bool) :
    s.run stopOnError = { stepper := s } := by
  rw [run, List.drop_eq_nil_of_le (of_decide_eq_true h), runThrough]

theorem run_of_moved [MemoryLimit] (h : s.next.moved = true) (stopOnError : Bool) :
    s.run stopOnError =
      { s.next.stepper.run stopOnError with
        lineMoves := s.next.lineMoves ++ (s.next.stepper.run stopOnError).lineMoves } := by
  obtain ⟨i, m, hcurrent, hexecute⟩ := exists_execute_of_moved h
  rw [next_of_ok hcurrent hexecute, run, drop_of_current? hcurrent, runThrough, hexecute]
  rfl

theorem run_of_ends [MemoryLimit] (h : s.next.fault = some fault) (hends : Ends stopOnError fault) :
    s.run stopOnError = { stepper := s, fault := some fault } := by
  obtain ⟨i, hcurrent, hexecute⟩ := exists_execute_of_fault h
  rw [run, drop_of_current? hcurrent, runThrough, hexecute]
  exact if_pos hends

theorem run_of_survived [MemoryLimit] (h : s.next.fault = some fault)
    (hends : ¬ Ends stopOnError fault) : s.run stopOnError = s.skip.stepper.run stopOnError := by
  obtain ⟨i, hcurrent, hexecute⟩ := exists_execute_of_fault h
  rw [skip_of_current? hcurrent, run, drop_of_current? hcurrent, runThrough, hexecute]
  exact if_neg hends

/-- A run that has executed an instruction goes on behind it. -/
theorem run_of_execute_ok [MemoryLimit] (hcurrent : s.current? = some i) {m : Machine}
    (hexecute : i.execute s.machine = .ok m) (stopOnError : Bool) :
    (s.run stopOnError).stepper = ((s.advance m).run stopOnError).stepper ∧
      (s.run stopOnError).fault = ((s.advance m).run stopOnError).fault := by
  have hnext := next_of_ok hcurrent hexecute
  have hmoved : s.next.moved = true := by rw [hnext]
  rw [run_of_moved hmoved, hnext]
  exact ⟨rfl, rfl⟩

/-- Where an instruction fails, a run passes over it or stops in front of it. -/
theorem run_of_execute_error [MemoryLimit] (hcurrent : s.current? = some i)
    (hexecute : i.execute s.machine = .error fault) :
    (¬ Ends stopOnError fault → s.run stopOnError = s.passOver.run stopOnError) ∧
      (Ends stopOnError fault → s.run stopOnError = { stepper := s, fault := some fault }) := by
  have hfault : s.next.fault = some fault := by rw [next_of_error hcurrent hexecute]
  refine ⟨fun hends => ?_, run_of_ends hfault⟩
  rw [run_of_survived hfault hends, skip_of_current? hcurrent]

/-- A run step by step. -/
inductive RunsTo [MemoryLimit] (stopOnError : Bool) : Stepper → Outcome → Prop
  | atEnd {s : Stepper} (h : s.atEnd = true) : RunsTo stopOnError s { stepper := s }
  | next {s : Stepper} {o : Outcome} (h : s.next.moved = true)
      (rest : RunsTo stopOnError s.next.stepper o) :
      RunsTo stopOnError s { o with lineMoves := s.next.lineMoves ++ o.lineMoves }
  | stop {s : Stepper} {fault : Fault} (h : s.next.fault = some fault)
      (hends : Ends stopOnError fault) :
      RunsTo stopOnError s { stepper := s, fault := some fault }
  | skip {s : Stepper} {fault : Fault} {o : Outcome} (h : s.next.fault = some fault)
      (hends : ¬ Ends stopOnError fault) (rest : RunsTo stopOnError s.skip.stepper o) :
      RunsTo stopOnError s o

/-- A run repeats single steps until it is at the end of the program or a fault ends it. -/
theorem runsTo_run [MemoryLimit] (s : Stepper) (stopOnError : Bool) :
    RunsTo stopOnError s (s.run stopOnError) := by
  -- Each step leaves one instruction less ahead.
  induction hahead : s.program.drop s.pc generalizing s with
  | nil =>
    have hend := atEnd_of_drop hahead
    rw [run_of_atEnd hend]
    exact .atEnd hend
  | cons i ahead ih =>
    obtain ⟨hcurrent, hrest⟩ := current?_of_drop hahead
    cases hexecute : i.execute s.machine with
    | ok m =>
      have hnext := next_of_ok hcurrent hexecute
      have hmoved : s.next.moved = true := by rw [hnext]
      rw [run_of_moved hmoved]
      refine .next hmoved (ih _ ?_)
      rw [hnext]
      exact hrest
    | error fault =>
      have hfault : s.next.fault = some fault := by rw [next_of_error hcurrent hexecute]
      by_cases hends : Ends stopOnError fault
      · rw [run_of_ends hfault hends]
        exact .stop hfault hends
      · rw [run_of_survived hfault hends]
        refine .skip hfault hends (ih _ ?_)
        rw [skip_of_current? hcurrent]
        exact hrest

theorem runsTo_iff [MemoryLimit] {o : Outcome} :
    RunsTo stopOnError s o ↔ s.run stopOnError = o := by
  constructor
  · intro h
    induction h with
    | atEnd h => exact run_of_atEnd h stopOnError
    | next h _ ih => rw [run_of_moved h, ih]
    | stop h hends => exact run_of_ends h hends
    | skip h hends _ ih => rw [run_of_survived h hends, ih]
  · rintro rfl
    exact runsTo_run s stopOnError

/-- What single steps keep, a run keeps. -/
theorem run_keeps [MemoryLimit] {p : Stepper → Prop} (hnext : ∀ s, p s → p s.next.stepper)
    (hskip : stopOnError = false → ∀ s, p s → p s.skip.stepper) (h : p s) :
    p (s.run stopOnError).stepper := by
  have hruns := runsTo_run s stopOnError
  generalize s.run stopOnError = o at hruns ⊢
  induction hruns with
  | atEnd _ => exact h
  | @next s o _ _ ih => exact ih (hnext s h)
  | stop _ _ => exact h
  | @skip s fault o _ hends _ ih =>
    have hstop : stopOnError = false := by
      cases stopOnError with
      | false => rfl
      | true => exact absurd rfl hends
    exact ih (hskip hstop s h)

/-! ### Notices of a run -/

/-- A run reports what its single steps report, and the fault before it passes over an instruction
that fails. -/
theorem notices_run [MemoryLimit] (s : Stepper) (stopOnError : Bool) :
    (s.atEnd = true → s.notices (.run stopOnError) = []) ∧
    (s.next.moved = true → s.notices (.run stopOnError) =
      s.notices .next ++ s.next.stepper.notices (.run stopOnError)) ∧
    ∀ i fault, s.current? = some i → s.next.fault = some fault →
      (Ends stopOnError fault → s.notices (.run stopOnError) = s.notices .next) ∧
      (¬ Ends stopOnError fault → s.notices (.run stopOnError) =
        s.notices .next ++ s.failureNotices i fault ++ s.notices .skip ++
          s.skip.stepper.notices (.run stopOnError)) := by
  refine ⟨fun h => ?_, fun h => ?_, fun i fault hcurrent h => ?_⟩
  · rw [notices, List.drop_eq_nil_of_le (of_decide_eq_true h), runNotices]
  · obtain ⟨i, m, hcurrent, hexecute⟩ := exists_execute_of_moved h
    rw [next_of_ok hcurrent hexecute]
    simp only [notices, hcurrent, drop_of_current? hcurrent, runNotices, hexecute]
    rfl
  · obtain ⟨j, hj, hexecute⟩ := exists_execute_of_fault h
    cases hcurrent.symm.trans hj
    rw [skip_of_current? hcurrent]
    simp only [notices, hcurrent, drop_of_current? hcurrent, runNotices, hexecute]
    refine ⟨fun hends => ?_, fun hends => ?_⟩
    · rw [Ends] at hends
      rw [if_pos hends, List.append_nil]
    · rw [Ends] at hends
      rw [if_neg hends, List.append_assoc, List.append_assoc, List.append_assoc]
      rfl

/-! ### The machines behind -/

/-- The machines that the steps so far have left, on a stack. -/
def historyStack (s : Stepper) : Stack Machine := .ofItems s.history.reverse

@[simp] theorem toList_historyStack (s : Stepper) : s.historyStack.toList = s.history := by
  simp [historyStack]

theorem size_historyStack (s : Stepper) : s.historyStack.size = s.history.length := by
  rw [← Stack.length_toList, toList_historyStack]

@[simp] theorem historyStack_start (program : List Instr) (first : Machine) :
    (start program first).historyStack = .empty :=
  rfl

theorem ofItems_reverse_cons (last : Machine) (older : List Machine) :
    Stack.ofItems (last :: older).reverse = (Stack.ofItems older.reverse).push last := by
  rw [List.reverse_cons, Stack.ofItems, List.foldl_append]
  rfl

/-- A step forward pushes the machine that it leaves. -/
@[simp] theorem historyStack_advance (s : Stepper) (m : Machine) :
    (s.advance m).historyStack = s.historyStack.push s.machine :=
  ofItems_reverse_cons s.machine s.history

@[simp] theorem historyStack_passOver (s : Stepper) :
    s.passOver.historyStack = s.historyStack.push s.machine :=
  ofItems_reverse_cons s.machine s.history

/-- A step back restores the machine on top of the stack, if there is one. -/
theorem prev_eq (s : Stepper) :
    s.prev =
      if s.historyStack.isEmpty then { stepper := s, moved := false }
      else
        let last := s.historyStack.peek s.machine
        { stepper := s.retreat last s.historyStack.pop.toList
          lineMoves := s.machine.lineMoves last } := by
  cases hhistory : s.history with
  | nil =>
    have hstack : s.historyStack = .empty := by
      rw [historyStack, hhistory]
      rfl
    rw [prev, hhistory, hstack]
    rfl
  | cons last older =>
    have hstack : s.historyStack = (Stack.ofItems older.reverse).push last := by
      rw [historyStack, hhistory, ofItems_reverse_cons]
    rw [prev, hhistory, hstack, Stack.pop_push, Stack.toList_ofItems, List.reverse_reverse]
    rfl

theorem history_prev (s : Stepper) : s.prev.stepper.history = s.history.tail := by
  unfold prev
  split
  · rename_i hnil
    rw [hnil]
    rfl
  · rename_i hcons
    rw [hcons]
    rfl

/-- A step back takes off the machine that it restores. -/
theorem historyStack_prev (s : Stepper) : s.prev.stepper.historyStack = s.historyStack.pop := by
  rw [historyStack, historyStack, history_prev]
  cases s.history with
  | nil => rfl
  | cons last older =>
    rw [ofItems_reverse_cons, Stack.pop_push]
    rfl

end ScopeMachine.Stepper
