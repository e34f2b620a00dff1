import ScopeMachine.Proofs.Machine.Plain
import ScopeMachine.Proofs.Stepper.Resume

/-! Runs that keep going. A compiled program can be run past all its failing instructions to the
end, because they fail with faults that a run survives. What stops such a run all the same is a
lack of memory, or an operator that refuses an integer too long for its message to name. -/
namespace ScopeMachine

namespace Machine

/-- Executes a program from the left and passes over the instructions that fail. -/
def runPast [MemoryLimit] (m : Machine) : List Instr → Machine
  | [] => m
  | i :: rest =>
    match i.execute m with
    | .ok next => next.runPast rest
    | .error _ => m.runPast rest

theorem Plain.runPast [MemoryLimit] {m : Machine} (hm : m.Plain) {program : List Instr}
    (hall : ∀ i ∈ program, i.Compiled) : (m.runPast program).Plain := by
  induction program generalizing m with
  | nil => exact hm
  | cons i rest ih =>
    obtain ⟨hi, hrest⟩ := List.forall_mem_cons.mp hall
    unfold Machine.runPast
    split
    · rename_i next hnext
      exact ih (hi.plain_of_execute hm hnext) hrest
    · exact ih hm hrest

end Machine

namespace Stepper

theorem Follows.plain [MemoryLimit] {program : List Instr} {first : Machine} {s : Stepper}
    (h : s.Follows Instr.ExecutesOrPasses program first) (hfirst : first.Plain)
    (hall : ∀ i ∈ program, i.Compiled) : s.machine.Plain := by
  apply h.trail.invariant _ hfirst
  intro i hi m n hstep hm
  rcases hstep with hexecute | rfl
  · exact (hall i hi).plain_of_execute hm hexecute
  · exact hm

/-- A run that keeps going comes to the end of a compiled program, or stops in front of an
instruction for one of two reasons. -/
theorem run_of_plain [MemoryLimit] {ahead : List Instr} {s : Stepper}
    (hahead : s.program.drop s.pc = ahead) (hm : s.machine.Plain)
    (hall : ∀ i ∈ ahead, i.Compiled) :
    let o := s.run false
    (o.fault = none ∧ o.stepper.atEnd = true) ∨
      ∃ i, o.stepper.current? = some i ∧
        (o.fault = some .outOfMemory ∧ i.ExceedsMemory o.stepper.machine ∨
          o.fault = some .digitLimit ∧ i.RefusesOverlong o.stepper.machine) := by
  induction ahead generalizing s with
  | nil =>
    have hend := atEnd_of_drop hahead
    rw [run_of_atEnd hend]
    exact .inl ⟨rfl, hend⟩
  | cons i ahead ih =>
    obtain ⟨hi, hrest⟩ := List.forall_mem_cons.mp hall
    obtain ⟨hcurrent, hbehind⟩ := current?_of_drop hahead
    cases hi.ends hm with
    | done hdone hplain =>
      obtain ⟨hstepper, hfault⟩ := run_of_execute_ok hcurrent hdone false
      have hmore := ih (s := s.advance _) hbehind hplain hrest
      simpa only [hstepper, hfault] using hmore
    | failed hfailed hsurvived =>
      have hmore := ih (s := s.passOver) hbehind hm hrest
      rw [(run_of_execute_error hcurrent hfailed).1 (not_ends_false.mpr hsurvived)]
      exact hmore
    | outOfMemory hmemory =>
      have hends : Ends false .outOfMemory := rfl
      rw [(run_of_execute_error hcurrent hmemory.execute).2 hends]
      exact .inr ⟨i, hcurrent, .inl ⟨rfl, hmemory⟩⟩
    | digitLimit hrefuses =>
      have hends : Ends false .digitLimit := rfl
      rw [(run_of_execute_error hcurrent hrefuses.execute).2 hends]
      exact .inr ⟨i, hcurrent, .inr ⟨rfl, hrefuses⟩⟩

/-- An instruction of a compiled program, reached by passing over the ones that fail, succeeds or
fails with a fault that a run survives, unless memory runs out or it refuses an overlong integer.
Whatever commands came before, a run that keeps going therefore ends at the end of the program or
for one of these two reasons. -/
theorem compiled_survives [MemoryLimit] {strict : Bool} {source : String} {program : List Instr}
    (hcompile : compile strict source = .ok program) (c : Config) :
    (∀ done i rest, program = done ++ i :: rest →
      let m := c.machine.runPast done
      ((∃ next, i.execute m = .ok next) ∨
        ∃ fault, i.execute m = .error fault ∧
          (fault.isRecoverable = true ∨ fault = .outOfMemory ∨ fault = .digitLimit)) ∧
      (i.execute m = .error .outOfMemory ↔ i.ExceedsMemory m) ∧
      (i.execute m = .error .digitLimit ↔ i.RefusesOverlong m)) ∧
    ∀ commands : List Command,
      let o := ((start program c.machine).after commands).run false
      (o.fault = none ∧ o.stepper.atEnd = true) ∨
        ∃ i, o.stepper.current? = some i ∧
          (o.fault = some .outOfMemory ∧ i.ExceedsMemory o.stepper.machine ∨
            o.fault = some .digitLimit ∧ i.RefusesOverlong o.stepper.machine) := by
  obtain ⟨-, hall⟩ := compiled_of_compile hcompile
  constructor
  · rintro done i rest rfl
    have hdone : ∀ j ∈ done, j.Compiled := fun j hj => hall j (by simp [hj])
    have hm := c.plain_machine.runPast hdone
    have hends := (hall i (by simp)).ends hm
    exact ⟨hends.result, hends.fault_iff⟩
  · intro commands
    have hfollows := follows_after_start program c.machine commands
    have hm := hfollows.plain c.plain_machine hall
    refine run_of_plain rfl hm ?_
    intro i hi
    rw [hfollows.program_eq] at hi
    exact hall i (List.mem_of_mem_drop hi)

theorem compiled_survives_unbound :
    ∃ program, compile true "$x 1 'a' +" = .ok program ∧
      (let o := ((start program ({} : Config).machine).after [.skip, .prev]).run false
      (o.fault = none ∧ o.stepper.atEnd = true) ∨
        ∃ i, o.stepper.current? = some i ∧
          (o.fault = some .outOfMemory ∧ i.ExceedsMemory o.stepper.machine ∨
            o.fault = some .digitLimit ∧ i.RefusesOverlong o.stepper.machine)) := by
  have hcompile : compile true "$x 1 'a' +" =
      .ok [.find (.str "x"), .push (.int 1), .push (.str "a"), .binary .add] := by cbv
  exact ⟨_, hcompile, (compiled_survives hcompile {}).2 [.skip, .prev]⟩

/-! ### A sum too long to be written -/

/-- The machine at the start with some items on its stack, top first. -/
def holding (items : List Value) : Machine :=
  { Machine.initial with
    stackMap := ⟨[(.str "data", items.foldr (fun item s => s.push item) .empty)]⟩ }

theorem run_overlongSum [MemoryLimit] {v : Int} (h : Numeral.tooLong ≤ (1 + v).natAbs) :
    let program : List Instr :=
      [.push (.int v), .push (.int 1), .binary .add, .push (.str "a"), .binary .add]
    let o := (start program ({} : Config).machine).run false
    o.fault = some .digitLimit ∧ o.stepper.atEnd = false := by
  intro program o
  have hstart : ({} : Config).machine = holding [] := rfl
  have hpush (value : Value) (items : List Value) :
      (Instr.push value).execute (holding items) = .ok (holding (value :: items)) := rfl
  have hsum : (Instr.binary .add).execute (holding [.int 1, .int v]) =
      .ok (holding [.int (1 + v)]) := rfl
  have hrefuses : (Instr.binary .add).Refuses (holding [.str "a", .int (1 + v)]) (.str "a")
      (.int (1 + v)) (.concatenation .str .int) :=
    ⟨.add, holding [], rfl, ⟨holding [.int (1 + v)], rfl, rfl⟩, rfl⟩
  have hoverlong : (Instr.binary .add).RefusesOverlong (holding [.str "a", .int (1 + v)]) :=
    ⟨_, _, _, hrefuses, by decide, 1 + v, h, .inr rfl⟩
  simp [o, program, run, start, runThrough, hstart, hpush, hsum, hoverlong.execute, advance,
    Fault.isRecoverable, atEnd]

/-- As many nines as can be written, one added to them, and the sum added to a text. -/
def overlongSum : List Char :=
  List.replicate Numeral.digitLimit '9' ++ [' ', '1', '+', '\'', 'a', '\'', '+']

/-- The expressions of that text. -/
def overlongSumExprs : List Expr :=
  [.constant (.number (String.ofList (List.replicate Numeral.digitLimit '9')) none),
    .constant (.number "1" none), .operator .add, .constant (.text .single "a"), .operator .add]

theorem yields_overlongSum :
    Scan.Yields overlongSum (overlongSumExprs.flatMap Expr.lexemes) := by
  have hcons : List.replicate Numeral.digitLimit '9' =
      '9' :: List.replicate (Numeral.digitLimit - 1) '9' := List.replicate_succ
  have hdigits : ∀ c ∈ '9' :: List.replicate (Numeral.digitLimit - 1) '9',
      Lexer.isDigit c = true := by
    intro c hc
    rw [← hcons] at hc
    rw [List.eq_of_mem_replicate hc]
    rfl
  have hlength : ¬ Numeral.digitLimit <
      ('9' :: List.replicate (Numeral.digitLimit - 1) '9').length := by
    rw [← hcons, List.length_replicate]
    exact Nat.lt_irrefl _
  have hbehind : ∀ c, [' ', '1', '+', '\'', 'a', '\'', '+'].head? = some c →
      Lexer.isDigit c = false ∧ c ≠ '.' := by
    rintro _ ⟨⟩
    decide
  have hsplit : Lexer.splitLayout false overlongSum = ([], '9' ::
      (List.replicate (Numeral.digitLimit - 1) '9' ++ [' ', '1', '+', '\'', 'a', '\'', '+'])) := by
    rw [overlongSum, hcons]
    rfl
  have hrest : Scan.Yields [' ', '1', '+', '\'', 'a', '\'', '+']
      (overlongSumExprs.tail.flatMap Expr.lexemes) :=
    .cons rfl (fun _ => rfl) (.cons rfl (fun _ => rfl) (.cons rfl (fun _ => rfl)
      (.cons rfl (fun _ => rfl) (.nil rfl))))
  refine .cons hsplit (fun position => ?_) hrest
  rw [Lexer.readLexeme_of_digits hdigits hbehind, if_neg hlength, ← hcons]

theorem compile_overlongSum :
    ∃ v : Int, Numeral.tooLong ≤ (1 + v).natAbs ∧
      compile true (String.ofList overlongSum) =
        .ok [.push (.int v), .push (.int 1), .binary .add, .push (.str "a"), .binary .add] := by
  have hdigits : (String.ofList (List.replicate Numeral.digitLimit '9')).toList.map
      Text.asciiDigitValue = List.replicate Numeral.digitLimit 9 := by
    rw [String.toList_ofList, List.map_replicate]
    rfl
  refine ⟨(Numeral.valueOf (List.replicate Numeral.digitLimit 9) : Nat), ?_, ?_⟩
  · have hsum := Numeral.valueOf_nines
    omega
  · have hone : (Constant.number "1" none).value = .int 1 := by cbv
    have hyields : Scan.Yields (String.ofList overlongSum).toList
        (overlongSumExprs.flatMap Expr.lexemes) := by
      rw [String.toList_ofList]
      exact yields_overlongSum
    refine compile_of_yields (List.cons_ne_nil _ _) hyields ?_
    refine .cons ?_ (.cons ?_ (.cons rfl (.cons rfl (.cons rfl .nil))))
    · rw [Expr.instr, Constant.value, hdigits]
    · rw [Expr.instr, hone]

/-- A run that is to keep going is stopped by a sum too long to be written. -/
theorem overlongSum_stops :
    ∃ program, compile true (String.ofList overlongSum) = .ok program ∧
      let o := (start program ({} : Config).machine).run false
      o.fault = some .digitLimit ∧ o.stepper.atEnd = false := by
  obtain ⟨v, hlong, hcompile⟩ := compile_overlongSum
  exact ⟨_, hcompile, run_overlongSum hlong⟩

end Stepper

end ScopeMachine
