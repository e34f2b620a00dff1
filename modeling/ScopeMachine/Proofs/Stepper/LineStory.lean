import Mathlib.Data.List.Chain
import ScopeMachine.Config
import ScopeMachine.Proofs.Machine.Locality
import ScopeMachine.Proofs.Source.Compiled
import ScopeMachine.Proofs.Stepper.TimeTravel

/-! The line moves that a stepper announces tell one story. Each begins at the line to which the one
before it led, up to equality of values, because a step between equal lines is not announced. In a
compiled program the lines are spelled in the source, and among such values equality is an
equivalence, so the silent steps between two announcements leave no gap. -/
namespace ScopeMachine

theorem Atom.Literal.isNaN_eq_false {a : Atom} (h : a.Literal) : (Value.atom a).isNaN = false := by
  cases h with
  | int n => rfl
  | float hx => exact hx
  | str s => rfl

theorem Atom.Literal.same_self {a : Atom} (h : a.Literal) : a.same a = true := by
  rw [Atom.same_self_iff]
  cases h with
  | int n => rfl
  | str s => rfl
  | @float x hx =>
    simp only [Atom.sense?, Place.ofBinary64?, hx, Bool.false_eq_true, ↓reduceIte]
    split <;> rfl

namespace Value

/-- The lines of a compiled program: none, or one that the source spells. -/
def IsLine (v : Value) : Prop := v = .null ∨ ∃ a : Atom, v = .atom a ∧ a.Literal

namespace IsLine

variable {u v w : Value}

theorem exists_atom (h : v.IsLine) :
    ∃ a : Atom, v = .atom a ∧ v.isNaN = false ∧ a.same a = true := by
  rcases h with rfl | ⟨a, rfl, ha⟩
  · exact ⟨.null, rfl, rfl, rfl⟩
  · exact ⟨a, rfl, ha.isNaN_eq_false, ha.same_self⟩

theorem equal_refl (h : v.IsLine) : v.equal v = true := by
  obtain ⟨a, rfl, hnan, hself⟩ := h.exists_atom
  rw [equal_eq_same hnan, same_atom, hself]

theorem equal_comm (hv : v.IsLine) (hw : w.IsLine) : v.equal w = w.equal v := by
  obtain ⟨a, rfl, hnan, -⟩ := hv.exists_atom
  obtain ⟨b, rfl, hnan', -⟩ := hw.exists_atom
  rw [equal_eq_same hnan, equal_eq_same hnan', same_atom, same_atom, Atom.same_comm]

theorem equal_trans (hu : u.IsLine) (hv : v.IsLine) (hw : w.IsLine) (huv : u.equal v = true)
    (hvw : v.equal w = true) : u.equal w = true := by
  obtain ⟨a, rfl, hnan, -⟩ := hu.exists_atom
  obtain ⟨b, rfl, hnan', -⟩ := hv.exists_atom
  obtain ⟨c, rfl, -, -⟩ := hw.exists_atom
  rw [equal_eq_same hnan, same_atom] at huv ⊢
  rw [equal_eq_same hnan', same_atom] at hvw
  exact Atom.same_trans huv hvw

end IsLine

end Value

/-- What executing spelled instructions does to the line: it stays, or it is one of them. -/
theorem Instr.Spelled.isLine [MemoryLimit] {i : Instr} (hi : i.Spelled) {m n : Machine}
    (h : i.execute m = .ok n) (hm : m.line.IsLine) : n.line.IsLine := by
  by_cases hop : i.opcode = .setProp
  · obtain ⟨key, value, hoperands, hprops⟩ := props_of_setProp h hop
    have hvalue : ∃ a : Atom, value = .atom a ∧ a.Literal := hi value (by simp [hoperands])
    have hline : n.line = value ∨ n.line = m.line := by
      simp only [Machine.line, OrderedMap.getD, hprops]
      cases hkey : key.same (.str "l") with
      | true => simp [OrderedMap.get?_set_of_same _ _ hkey]
      | false => simp [OrderedMap.get?_set_of_not_same _ _ hkey]
    rcases hline with hline | hline
    · rw [hline]
      exact .inr hvalue
    · rw [hline]
      exact hm
  · have hprops := (staysLocal_of_execute h).props_eq hop
    rw [Machine.line, hprops]
    exact hm

namespace LineMove

/-- Moves from the line `first` to the line `last`. Each begins at the line reached so far and leads
to another, where lines count as one if they are equal. -/
inductive Story : Value → List LineMove → Value → Prop
  | stay {first last : Value} (hfirst : first.IsLine) (hlast : last.IsLine)
      (h : first.equal last = true) : Story first [] last
  | move {first last : Value} {m : LineMove} {rest : List LineMove} (hfirst : first.IsLine)
      (hbefore : m.before.IsLine) (hfrom : m.before.equal first = true)
      (hto : m.before.equal m.after = false) (hrest : Story m.after rest last) :
      Story first (m :: rest) last

namespace Story

variable {first middle last : Value} {moves more : List LineMove}

theorem isLine_first (h : Story first moves last) : first.IsLine := by
  cases h with
  | stay hfirst _ _ => exact hfirst
  | move hfirst _ _ _ _ => exact hfirst

theorem refl (h : first.IsLine) : Story first [] first := .stay h h h.equal_refl

/-- A story may begin at any line equal to its first. -/
theorem from_equal (h : Story middle more last) (hfirst : first.IsLine)
    (hequal : first.equal middle = true) : Story first more last := by
  cases h with
  | stay hmiddle hlast h => exact .stay hfirst hlast (hfirst.equal_trans hmiddle hlast hequal h)
  | move hmiddle hbefore hfrom hto hrest =>
    rw [hfirst.equal_comm hmiddle] at hequal
    exact .move hfirst hbefore (hbefore.equal_trans hmiddle hfirst hfrom hequal) hto hrest

theorem append (h : Story first moves middle) (hmore : Story middle more last) :
    Story first (moves ++ more) last := by
  induction h with
  | stay hfirst _ h => exact hmore.from_equal hfirst h
  | move hfirst hbefore hfrom hto _ ih => exact .move hfirst hbefore hfrom hto (ih hmore)

theorem head_equal (h : Story first moves last) :
    ∀ m ∈ moves.head?, m.before.equal first = true := by
  cases h with
  | stay _ _ _ => simp
  | move _ _ hfrom _ _ => simpa using hfrom

theorem isChain (h : Story first moves last) :
    moves.IsChain fun m n => n.before.equal m.after = true := by
  induction h with
  | stay _ _ _ => exact .nil
  | move _ _ _ _ hrest ih => exact List.isChain_cons.mpr ⟨hrest.head_equal, ih⟩

theorem of_mem (h : Story first moves last) : ∀ m ∈ moves,
    m.before.IsLine ∧ m.after.IsLine ∧ m.before.equal m.after = false := by
  induction h with
  | stay _ _ _ => simp
  | move _ hbefore _ hto hrest ih =>
    exact List.forall_mem_cons.mpr ⟨⟨hbefore, hrest.isLine_first, hto⟩, ih⟩

theorem last_equal (h : Story first moves last) :
    last.equal ((moves.getLast?.map LineMove.after).getD first) = true := by
  induction h with
  | stay hfirst hlast h =>
    rw [hfirst.equal_comm hlast] at h
    exact h
  | @move first last m rest _ _ _ _ _ ih =>
    have hlast : ((m :: rest).getLast?.map LineMove.after).getD first =
        (rest.getLast?.map LineMove.after).getD m.after := by
      rw [List.getLast?_cons]
      cases rest.getLast? <;> rfl
    rw [hlast]
    exact ih

end Story

end LineMove

open LineMove (Story)

theorem Machine.story_lineMoves {m n : Machine} (hm : m.line.IsLine) (hn : n.line.IsLine) :
    Story m.line (m.lineMoves n) n.line := by
  unfold Machine.lineMoves
  cases hdiffers : m.lineDiffers n with
  | true =>
    simp only [Machine.lineDiffers, Bool.not_eq_true'] at hdiffers
    exact .move hm hm hm.equal_refl hdiffers (.refl hn)
  | false =>
    simp only [Machine.lineDiffers, Bool.not_eq_false'] at hdiffers
    exact .stay hm hn hdiffers

namespace Stepper

/-! ### What one command announces -/

section Announcing

variable [MemoryLimit] {program : List Instr} {first : Machine} {s : Stepper}
  (hlines : ∀ t : Stepper, t.Follows Instr.ExecutesOrPasses program first → t.machine.line.IsLine)
include hlines

theorem story_next (h : s.Follows Instr.ExecutesOrPasses program first) :
    Story s.machine.line s.next.lineMoves s.next.stepper.machine.line := by
  have hnext := h.next fun _ _ _ => Or.inl
  unfold next at hnext ⊢
  split
  · exact .refl (hlines s h)
  · split
    · rename_i hcurrent _ m hm
      simp only [hcurrent, hm] at hnext
      exact Machine.story_lineMoves (hlines s h) (hlines _ hnext)
    · exact .refl (hlines s h)

theorem story_prev (h : s.Follows Instr.ExecutesOrPasses program first) :
    Story s.machine.line s.prev.lineMoves s.prev.stepper.machine.line := by
  have hprev := h.prev
  unfold prev at hprev ⊢
  split
  · exact .refl (hlines s h)
  · rename_i hhistory
    simp only [hhistory] at hprev
    exact Machine.story_lineMoves (hlines s h) (hlines _ hprev)

theorem story_skip (h : s.Follows Instr.ExecutesOrPasses program first) :
    Story s.machine.line s.skip.lineMoves s.skip.stepper.machine.line := by
  unfold skip
  split <;> exact .refl (hlines s h)

/-- Passing over an instruction is silent and keeps the line. -/
theorem story_run {stopOnError : Bool} (h : s.Follows Instr.ExecutesOrPasses program first) :
    Story s.machine.line (s.run stopOnError).lineMoves
      (s.run stopOnError).stepper.machine.line := by
  have hruns := runsTo_run s stopOnError
  generalize s.run stopOnError = o at hruns ⊢
  induction hruns with
  | @atEnd s _ => exact .refl (hlines s h)
  | next _ _ ih => exact (story_next hlines h).append (ih (h.next fun _ _ _ => Or.inl))
  | @stop s _ _ _ => exact .refl (hlines s h)
  | @skip s _ _ _ _ _ ih =>
    have hrest := ih (h.skip fun _ _ => Or.inr rfl)
    have hmachine : s.skip.stepper.machine = s.machine := machine_skip s
    rwa [hmachine] at hrest

theorem story_backOver (h : s.Follows Instr.ExecutesOrPasses program first)
    (left : List Machine) :
    Story s.machine.line (backOver left s).lineMoves (backOver left s).stepper.machine.line := by
  induction left generalizing s with
  | nil => exact .refl (hlines s h)
  | cons _ older ih => exact (story_prev hlines h).append (ih h.prev)

theorem story_perform (h : s.Follows Instr.ExecutesOrPasses program first)
    (command : Command) :
    Story s.machine.line (s.perform command).lineMoves
      (s.perform command).stepper.machine.line := by
  cases command with
  | next => exact story_next hlines h
  | prev => exact story_prev hlines h
  | skip => exact story_skip hlines h
  | run stopOnError => exact story_run hlines h
  | reset => exact story_backOver hlines h s.history

theorem story_outcomes (h : s.Follows Instr.ExecutesOrPasses program first)
    (commands : List Command) :
    Story s.machine.line ((s.outcomes commands).flatMap Outcome.lineMoves)
      (s.after commands).machine.line := by
  induction commands generalizing s with
  | nil => exact .refl (hlines s h)
  | cons command rest ih =>
    have hthere : (s.perform command).stepper.Follows Instr.ExecutesOrPasses program first :=
      h.perform (fun _ _ _ => Or.inl) fun _ _ _ => Or.inr rfl
    rw [outcomes, List.flatMap_cons, after]
    exact (story_perform hlines h command).append (ih hthere)

end Announcing

theorem Follows.isLine [MemoryLimit] {program : List Instr} {first : Machine} {s : Stepper}
    (h : s.Follows Instr.ExecutesOrPasses program first) (hall : ∀ i ∈ program, i.Spelled)
    (hfirst : first.line.IsLine) : s.machine.line.IsLine := by
  apply h.trail.invariant (p := fun m => m.line.IsLine) _ hfirst
  intro i hi m n hstep hm
  rcases hstep with hexecute | rfl
  · exact (hall i hi).isLine hexecute hm
  · exact hm

/-- While commands lead through a compiled program, its lines are null, whole numbers, floats with a
place on the number line, or texts. The first move announced begins at no line; each further one
begins at a line equal to where the one before led; each leads to a line that differs from where it
began; and the present line equals the one to which the last move led. -/
theorem compiled_line_story [MemoryLimit] {strict : Bool} {source : String} {program : List Instr}
    (hcompile : compile strict source = .ok program) (c : Config) (commands : List Command) :
    let s := start program c.machine
    let moves := (s.outcomes commands).flatMap Outcome.lineMoves
    (∀ m ∈ moves.head?, m.before.equal .null = true) ∧
      (moves.IsChain fun m n => n.before.equal m.after = true) ∧
      (∀ m ∈ moves,
        m.before.IsLine ∧ m.after.IsLine ∧ m.before.equal m.after = false) ∧
      (s.after commands).machine.line.equal
        ((moves.getLast?.map LineMove.after).getD .null) = true := by
  intro s moves
  have hall := spelled_of_compile hcompile
  have hfirst : c.machine.line = .null := rfl
  have hstory : Story c.machine.line moves (s.after commands).machine.line :=
    story_outcomes (fun t ht => ht.isLine hall (.inl hfirst)) (follows_start _ _ _) commands
  rw [hfirst] at hstory
  exact ⟨hstory.head_equal, hstory.isChain, hstory.of_mem, hstory.last_equal⟩

/-- The line `1.0` is entered silently from `1` and left for `2` with an announcement, which a
reset takes back. -/
theorem compiled_line_story_respelled :
    ∃ program, compile true "line(1) line(1.0) leaveAt(x) line(2)" = .ok program ∧
      let s := start program Machine.initial
      let commands : List Command := [.run false, .prev, .next, .reset, .run true]
      let moves := (s.outcomes commands).flatMap Outcome.lineMoves
      moves.length = 7 ∧ (moves.IsChain fun m n => n.before.equal m.after = true) ∧
        (s.after commands).machine.line.equal
          ((moves.getLast?.map LineMove.after).getD .null) = true := by
  have hone : (Constant.number "1" (some "0")).value = .float ⟨false, 4607182418800017408⟩ := by
    decide +kernel
  have hcompile : compile true "line(1) line(1.0) leaveAt(x) line(2)" =
      .ok [.setProp (.str "l") (.int 1),
        .setProp (.str "l") (.atom (.float ⟨false, 4607182418800017408⟩)),
        .leaveAt (.str "x"), .setProp (.str "l") (.int 2)] := by
    have hne : [Expr.call "line" (some [.constant (.number "1" none)]),
        .call "line" (some [.constant (.number "1" (some "0"))]),
        .call "leaveAt" (some [.word "x"]), .call "line" (some [.constant (.number "2" none)])] ≠
      [] := List.cons_ne_nil _ _
    apply compile_of_lexemes hne
    · cbv
    · rw [← hone]
      exact .cons rfl (.cons rfl (.cons rfl (.cons rfl .nil)))
  obtain ⟨-, hchain, -, hlast⟩ := compiled_line_story hcompile {}
    [.run false, .prev, .next, .reset, .run true]
  exact ⟨_, hcompile, by decide +kernel, hchain, hlast⟩

end Stepper

end ScopeMachine
