import ScopeMachine.Proofs.Stepper.Trail

/-! Stepping back undoes stepping forward. A forward command puts machines on top of the timeline
of a stepper, the present machine and those it has left, and every backward step takes one off, so
nothing but the number of steps has to be known to restore what was there before. -/
namespace ScopeMachine

/-- The commands that never step back. -/
def Command.isForward : Command → Bool
  | .next | .skip | .run _ => true
  | .prev | .reset => false

namespace Stepper

/-- What the commands of a sequence do, one after the other. -/
def outcomes [MemoryLimit] (s : Stepper) : List Command → List Outcome
  | [] => []
  | command :: rest => s.perform command :: (s.perform command).stepper.outcomes rest

@[simp] theorem length_outcomes [MemoryLimit] (s : Stepper) (commands : List Command) :
    (s.outcomes commands).length = commands.length := by
  induction commands generalizing s with
  | nil => rfl
  | cons command rest ih => simp [outcomes, ih]

/-- `t` is ahead of `s`: the machines `passed` stand on the timeline of `s`, latest first, and as
many more instructions are behind. -/
structure Ahead (passed : List Machine) (s t : Stepper) : Prop where
  pc_eq : t.pc = s.pc + passed.length
  timeline_eq : t.machine :: t.history = passed ++ s.machine :: s.history

theorem Ahead.refl (s : Stepper) : Ahead [] s s := ⟨rfl, rfl⟩

theorem Ahead.trans {s t u : Stepper} {passed more : List Machine} (hst : Ahead passed s t)
    (htu : Ahead more t u) : Ahead (more ++ passed) s u := by
  constructor
  · rw [htu.pc_eq, hst.pc_eq, List.length_append]
    omega
  · rw [htu.timeline_eq, hst.timeline_eq, List.append_assoc]

theorem ahead_advance (s : Stepper) (m : Machine) : Ahead [m] s (s.advance m) := ⟨rfl, rfl⟩

theorem ahead_passOver (s : Stepper) : Ahead [s.machine] s s.passOver := ⟨rfl, rfl⟩

/-! ### Forward commands -/

theorem exists_ahead_next [MemoryLimit] (s : Stepper) :
    ∃ passed, Ahead passed s s.next.stepper := by
  unfold next
  split
  · exact ⟨[], .refl s⟩
  · split
    · rename_i m _
      exact ⟨[m], ahead_advance s m⟩
    · exact ⟨[], .refl s⟩

theorem exists_ahead_skip (s : Stepper) : ∃ passed, Ahead passed s s.skip.stepper := by
  unfold skip
  split
  · exact ⟨[], .refl s⟩
  · exact ⟨[s.machine], ahead_passOver s⟩

/-- A run that stops midway has passed the instructions before the one that stopped it. -/
theorem exists_ahead_run [MemoryLimit] (stopOnError : Bool) (s : Stepper) :
    ∃ passed, Ahead passed s (s.run stopOnError).stepper := by
  refine run_keeps (p := fun t => ∃ passed, Ahead passed s t) ?_ (fun _ => ?_) ⟨[], .refl s⟩
  · rintro t ⟨passed, hpassed⟩
    obtain ⟨more, hmore⟩ := exists_ahead_next t
    exact ⟨more ++ passed, hpassed.trans hmore⟩
  · rintro t ⟨passed, hpassed⟩
    obtain ⟨more, hmore⟩ := exists_ahead_skip t
    exact ⟨more ++ passed, hpassed.trans hmore⟩

theorem exists_ahead_perform [MemoryLimit] {command : Command} (h : command.isForward = true)
    (s : Stepper) :
    ∃ passed, Ahead passed s (s.perform command).stepper := by
  cases command with
  | next => exact exists_ahead_next s
  | skip => exact exists_ahead_skip s
  | run stopOnError => exact exists_ahead_run stopOnError s
  | prev => cases h
  | reset => cases h

theorem exists_ahead_after [MemoryLimit] {commands : List Command}
    (h : ∀ command ∈ commands, command.isForward = true) (s : Stepper) :
    ∃ passed, Ahead passed s (s.after commands) := by
  induction commands generalizing s with
  | nil => exact ⟨[], .refl s⟩
  | cons command rest ih =>
    obtain ⟨passed, hpassed⟩ := exists_ahead_perform (h command List.mem_cons_self) s
    obtain ⟨more, hmore⟩ := ih (fun c hc => h c (List.mem_cons_of_mem command hc))
      (s.perform command).stepper
    exact ⟨more ++ passed, hpassed.trans hmore⟩

/-! ### Backward commands -/

/-- A stepper that is ahead can step back, and is then ahead by one machine less. -/
theorem Ahead.prev {s t : Stepper} {m : Machine} {passed : List Machine}
    (h : Ahead (m :: passed) s t) :
    t.prev.moved = true ∧ t.prev.fault = none ∧ Ahead passed s t.prev.stepper := by
  have hhistory : t.history = passed ++ s.machine :: s.history :=
    (List.cons.inj h.timeline_eq).2
  have hpc : t.pc - 1 = s.pc + passed.length := by
    rw [h.pc_eq, List.length_cons]
    omega
  unfold Stepper.prev
  split
  · rename_i hnil
    simp [hnil] at hhistory
  · rename_i last older hcons
    rw [hcons] at hhistory
    exact ⟨rfl, rfl, hpc, hhistory⟩

/-- As many steps back as the stepper is ahead all succeed and lead to where it was. -/
theorem Ahead.retrace [MemoryLimit] {s t : Stepper} {passed : List Machine} (h : Ahead passed s t) :
    (∀ o ∈ t.outcomes (List.replicate passed.length .prev), o.moved = true ∧ o.fault = none) ∧
      Ahead [] s (t.after (List.replicate passed.length .prev)) := by
  induction passed generalizing t with
  | nil => exact ⟨by simp [outcomes], h⟩
  | cons m passed ih =>
    obtain ⟨hmoved, hfault, hprev⟩ := h.prev
    obtain ⟨hall, hback⟩ := ih hprev
    refine ⟨?_, hback⟩
    intro o ho
    rcases List.mem_cons.mp ho with rfl | ho
    · exact ⟨hmoved, hfault⟩
    · exact hall o ho

/-- A step that fails changes nothing and announces nothing. -/
theorem next_of_fault [MemoryLimit] {s : Stepper} {fault : Fault} (h : s.next.fault = some fault) :
    s.next.stepper = s ∧ s.next.lineMoves = [] := by
  obtain ⟨i, hcurrent, hexecute⟩ := exists_execute_of_fault h
  rw [next_of_error hcurrent hexecute]
  exact ⟨rfl, rfl⟩

theorem history_backOver {left : List Machine} {s : Stepper} (h : s.history = left) :
    (backOver left s).stepper.history = [] := by
  induction left generalizing s with
  | nil => exact h
  | cons last older ih =>
    have hprev : s.prev.stepper.history = older := by
      rw [history_prev, h]
      rfl
    exact ih hprev

/-- A stepper without history is at the beginning. -/
theorem Follows.eq_first {step : Instr → Machine → Machine → Prop} {program : List Instr}
    {first : Machine} {s : Stepper} (h : s.Follows step program first) (hnil : s.history = []) :
    s.pc = 0 ∧ s.machine = first := by
  have htrail := h.trail
  rw [hnil] at htrail
  constructor
  · rw [← h.length_history, hnil]
    rfl
  · cases htrail
    rfl

/-- Forward commands, failing ones included, advance a stepper by some number of steps, and as
many steps back all succeed and restore its place, machine and history; a step that fails changes
nothing and announces no line; and a reset leads back to the very first machine. -/
theorem time_travel_exact [MemoryLimit] (program : List Instr) (first : Machine)
    (commands : List Command) :
    let s := (start program first).after commands
    (∀ forward : List Command, (∀ command ∈ forward, command.isForward = true) →
      ∃ n, (s.after forward).pc = s.pc + n ∧
        ((s.after forward).outcomes (List.replicate n .prev)).length = n ∧
        (∀ o ∈ (s.after forward).outcomes (List.replicate n .prev),
          o.moved = true ∧ o.fault = none) ∧
        let back := (s.after forward).after (List.replicate n .prev)
        back.pc = s.pc ∧ back.machine = s.machine ∧ back.history = s.history) ∧
      (∀ fault, s.next.fault = some fault → s.next.stepper = s ∧ s.next.lineMoves = []) ∧
      s.reset.stepper.pc = 0 ∧ s.reset.stepper.history = [] ∧ s.reset.stepper.machine = first := by
  intro s
  refine ⟨?_, fun _ => next_of_fault, ?_⟩
  · intro forward hforward
    obtain ⟨passed, hahead⟩ := exists_ahead_after hforward s
    obtain ⟨hall, hback⟩ := hahead.retrace
    obtain ⟨hmachine, hhistory⟩ := List.cons.inj hback.timeline_eq
    exact ⟨passed.length, hahead.pc_eq, by simp, hall, hback.pc_eq, hmachine, hhistory⟩
  · have hfollows := (follows_after_start program first commands).backOver s.history
    have hnil : s.reset.stepper.history = [] := history_backOver rfl
    obtain ⟨hpc, hmachine⟩ := hfollows.eq_first hnil
    exact ⟨hpc, hnil, hmachine⟩

/-- A run that stops at a name without value is resumed behind it and undone as a whole. -/
theorem time_travel_exact_past_failure :
    let s := (start [.push (.int 1), .find (.str "x"), .leave] .initial).after [.next]
    let forward : List Command := [.run true, .skip, .run false]
    let fault : Fault := .nameNotFound (.str "local") (.str "x")
    (∀ command ∈ forward, command.isForward = true) ∧ (s.after forward).pc = 3 ∧
      s.next.fault = some fault ∧ s.next.stepper = s ∧
      ∃ n, (s.after forward).pc = 1 + n ∧
        ((s.after forward).after (List.replicate n .prev)).machine = s.machine := by
  intro s forward fault
  have hforward : ∀ command ∈ forward, command.isForward = true := by decide
  have hfault : s.next.fault = some fault := rfl
  obtain ⟨hundo, hfail, -⟩ := time_travel_exact
    [.push (.int 1), .find (.str "x"), .leave] .initial [.next]
  obtain ⟨n, hpc, -, -, -, hmachine, -⟩ := hundo forward hforward
  exact ⟨hforward, rfl, hfault, (hfail fault hfault).1, n, hpc, hmachine⟩

end Stepper

end ScopeMachine
