import ScopeMachine.Machine.Snapshot
import ScopeMachine.Proofs.Machine.BoundNames
import ScopeMachine.Proofs.Machine.Simple
import ScopeMachine.Proofs.Value.Writable
import ScopeMachine.Shell.View

/-! Which machines can be shown: those without overlong integers whose tables list texts or null
for names. -/
namespace ScopeMachine

/-- What can stand in a cell of a table. -/
def Atom.IsCell (a : Atom) : Prop := a.kind = .str ∨ a = .null

theorem Atom.isCell_str (s : String) : (Atom.str s).IsCell := .inl rfl

namespace CellRenderer

/-- Texts and null are rendered, and nothing else is. -/
def Selective [CellRenderer] : Prop := ∀ a : Atom, (cell? a).isSome = true ↔ a.IsCell

theorem selective_default : Selective := by
  intro a
  cases a <;> simp [cell?, Atom.IsCell, Atom.kind]

end CellRenderer

structure Frame.Showable (f : Frame) : Prop where
  binds : f.binds.Holds Atom.IsCell Value.Writable
  notes : ∀ v ∈ f.notes, v.Writable

def Scope.Showable (s : Scope) : Prop := ∀ f ∈ s.frames, f.Showable

def Stack.Showable (t : Stack Value) : Prop := ∀ v ∈ t.toList, v.Writable

structure Machine.Showable (m : Machine) : Prop where
  scopeMap : m.scopeMap.Holds Atom.Writable Scope.Showable
  stackMap : m.stackMap.Holds Atom.Writable Stack.Showable
  props : m.props.Holds Atom.IsCell Value.Writable

theorem Value.isSome_markup?_iff {v : Value} : v.markup?.isSome = true ↔ v.Writable := by
  cases v with
  | atom a =>
    rw [writable_atom, Atom.Writable]
    cases a with
    | bool b => cases b <;> simp [markup?, Atom.literal?]
    | null | int i | float x | str s | codes points => simp [markup?, Atom.literal?]
  | list items => exact isSome_plain?_iff (v := .list items)
  | dict entries => exact isSome_plain?_iff (v := .dict entries)

/-! ### Computations that succeed -/

/-- The second of two computations succeeds or fails whatever the first yields. -/
theorem exists_bind_iff {ε α β : Type} {x : Except ε α} {f : α → Except ε β} {q : Prop}
    (hf : ∀ a, (∃ b, f a = .ok b) ↔ q) : (∃ b, (x >>= f) = .ok b) ↔ (∃ a, x = .ok a) ∧ q := by
  constructor
  · rintro ⟨b, hb⟩
    obtain ⟨a, ha, hb⟩ := bind_eq_ok hb
    exact ⟨⟨a, ha⟩, (hf a).mp ⟨b, hb⟩⟩
  · rintro ⟨⟨a, ha⟩, hq⟩
    rw [bind_of_ok ha]
    exact (hf a).mpr hq

theorem exists_map_iff {ε α β : Type} {x : Except ε α} {f : α → β} :
    (∃ b, (x >>= fun a => pure (f a)) = .ok b) ↔ ∃ a, x = .ok a := by
  have hpure (a : α) : (∃ b, (pure (f a) : Except ε β) = .ok b) ↔ True :=
    iff_true_intro ⟨f a, rfl⟩
  rw [exists_bind_iff hpure, and_true]

theorem exists_mapM_iff {ε α β : Type} {f : α → Except ε β} {xs : List α} :
    (∃ ys, xs.mapM f = .ok ys) ↔ ∀ x ∈ xs, ∃ y, f x = .ok y := by
  induction xs with
  | nil => exact ⟨fun _ => nofun, fun _ => ⟨[], rfl⟩⟩
  | cons x xs ih =>
    rw [List.mapM_cons, exists_bind_iff fun _ => exists_map_iff, ih, List.forall_mem_cons]

/-! ### The parts of a view -/

theorem Crash.exists_written_iff {text : Option String} :
    (∃ s, written text = .ok s) ↔ text.isSome = true := by
  cases text <;> simp [written]

namespace View

theorem exists_rendered_iff [CellRenderer] (hcells : CellRenderer.Selective) {a : Atom} :
    (∃ s, rendered a = .ok s) ↔ a.IsCell := by
  rw [← hcells a, rendered]
  cases CellRenderer.cell? a <;> simp

theorem exists_row_iff [CellRenderer] (hcells : CellRenderer.Selective) {cells : List Atom}
    {style : Option String} : (∃ r, row cells style = .ok r) ↔ ∀ a ∈ cells, a.IsCell := by
  rw [row, exists_map_iff, exists_mapM_iff]
  simp only [exists_rendered_iff hcells]

theorem exists_bindingRow_iff [CellRenderer] (hcells : CellRenderer.Selective)
    {entry : Atom × Value} :
    (∃ r, bindingRow entry = .ok r) ↔ entry.1.IsCell ∧ entry.2.Writable := by
  have hrow (text : String) : (∃ r, row [entry.1, .str text] = .ok r) ↔ entry.1.IsCell := by
    simp [exists_row_iff hcells, Atom.isCell_str]
  rw [bindingRow, exists_bind_iff hrow, Crash.exists_written_iff, Value.isSome_markup?_iff,
    and_comm]

/-- A value that can be written does not get a row under a name that is no cell. -/
theorem bindingRow_of_not_isCell [CellRenderer] (hcells : CellRenderer.Selective)
    {entry : Atom × Value} (hname : ¬ entry.1.IsCell) (hvalue : entry.2.Writable) :
    bindingRow entry = .error (.unrenderable entry.1.kind) := by
  obtain ⟨text, htext⟩ := Option.isSome_iff_exists.mp (Value.isSome_markup?_iff.mpr hvalue)
  have hwritten : Crash.written entry.2.markup? = .ok text := congrArg Crash.written htext
  have hcell : CellRenderer.cell? entry.1 = none := by
    rw [← Option.not_isSome_iff_eq_none, hcells]
    exact hname
  have hrendered : rendered entry.1 = .error (.unrenderable entry.1.kind) := by
    rw [rendered, hcell]
  rw [bindingRow, bind_of_ok hwritten, row, List.mapM_cons, hrendered]
  rfl

theorem exists_noteRow_iff [CellRenderer] (hcells : CellRenderer.Selective) {note : Value} :
    (∃ r, noteRow note = .ok r) ↔ note.Writable := by
  have hrow (text : String) :
      (∃ r, row [.str "[dim]note[/dim]", .str ("[italic]" ++ text ++ "[/italic]")] = .ok r) ↔
        True := by
    simp [exists_row_iff hcells, Atom.isCell_str]
  rw [noteRow, exists_bind_iff hrow, and_true, Crash.exists_written_iff, Value.isSome_plain?_iff]

theorem exists_ofFrame_iff [CellRenderer] (hcells : CellRenderer.Selective) {f : Frame} :
    (∃ view, ofFrame f = .ok view) ↔ f.Showable := by
  rw [ofFrame, exists_bind_iff fun _ => exists_map_iff, exists_mapM_iff, exists_mapM_iff]
  simp only [exists_bindingRow_iff hcells, exists_noteRow_iff hcells]
  exact ⟨fun ⟨hbinds, hnotes⟩ => ⟨hbinds, hnotes⟩, fun h => ⟨h.binds, h.notes⟩⟩

theorem exists_key_iff {key : Atom} :
    (∃ s, Crash.written key.plain? = .ok s) ↔ key.Writable := by
  rw [Crash.exists_written_iff, ← Value.writable_atom, ← Value.isSome_plain?_iff, Value.plain?]

theorem exists_ofScope_iff [CellRenderer] (hcells : CellRenderer.Selective) {selected : Value}
    {entry : Atom × Scope} :
    (∃ view, ofScope selected entry = .ok view) ↔ entry.1.Writable ∧ entry.2.Showable := by
  rw [ofScope, exists_bind_iff fun _ => exists_map_iff, exists_mapM_iff, exists_key_iff, and_comm]
  simp only [exists_ofFrame_iff hcells, Scope.Showable]

theorem exists_ofStack_iff {selected : Value} {entry : Atom × Stack Value} :
    (∃ view, ofStack selected entry = .ok view) ↔ entry.1.Writable ∧ entry.2.Showable := by
  rw [ofStack, exists_bind_iff fun _ => exists_map_iff, exists_mapM_iff, exists_key_iff, and_comm]
  simp only [Crash.exists_written_iff, Value.isSome_markup?_iff, Stack.Showable]

/-- A machine is shown as a whole or not at all. -/
theorem exists_ofMachine_iff [CellRenderer] (hcells : CellRenderer.Selective) {m : Machine} :
    (∃ view, ofMachine m = .ok view) ↔ m.Showable := by
  rw [ofMachine, exists_bind_iff fun _ => exists_bind_iff fun _ => exists_map_iff,
    exists_mapM_iff, exists_mapM_iff, exists_mapM_iff]
  simp only [exists_ofScope_iff hcells, exists_ofStack_iff, exists_bindingRow_iff hcells]
  exact ⟨fun ⟨hscopes, hstacks, hprops⟩ => ⟨hscopes, hstacks, hprops⟩,
    fun h => ⟨h.scopeMap, h.stackMap, h.props⟩⟩

end View

/-! ### Machines that bind texts only -/

theorem Frame.showable {f : Frame} (hnames : f.BindsOnly (·.kind = .str))
    (hwritable : f.snapshot.Every Atom.Writable) : f.Showable := by
  obtain ⟨-, -, ⟨-, hbinds⟩, ⟨-, hnotes⟩, -⟩ := by
    simpa only [snapshot, Value.every_dict, Value.every_list, List.forall_mem_cons] using hwritable
  exact ⟨fun e he => ⟨.inl (hnames e he).1, (hbinds e he).2.writable⟩,
    fun v hv => (hnotes v hv).writable⟩

theorem Scope.showable {s : Scope} (hnames : s.BindsOnly (·.kind = .str))
    (hwritable : s.snapshot.Every Atom.Writable) : s.Showable := by
  obtain ⟨-, ⟨-, hframes⟩, -⟩ := by
    simpa only [snapshot, Value.every_dict, Value.every_list, List.forall_mem_cons] using hwritable
  exact fun f hf => f.showable (hnames f hf) (hframes _ (List.mem_map_of_mem hf))

/-- A simple machine without overlong integers can be shown if it binds no names but texts. -/
theorem Machine.Simple.showable {m : Machine} (h : m.Simple)
    (hnames : m.BindsOnly (·.kind = .str)) (hwritable : m.snapshot.Every Atom.Writable) :
    m.Showable := by
  obtain ⟨-, -, ⟨-, hscopes⟩, ⟨-, hstacks⟩, ⟨-, hprops⟩, -⟩ := by
    simpa only [snapshot, Value.every_dict, List.forall_mem_cons] using hwritable
  constructor
  · intro e he
    obtain ⟨hkey, hscope⟩ := hscopes (e.1, e.2.snapshot) (List.mem_map_of_mem he)
    exact ⟨hkey, e.2.showable (hnames e he).2 hscope⟩
  · intro e he
    obtain ⟨hkey, hstack⟩ := hstacks (e.1, .list e.2.toList) (List.mem_map_of_mem he)
    exact ⟨hkey, fun v hv => (Value.every_list.mp hstack v hv).writable⟩
  · exact fun e he => ⟨.inl (h.props.holds e he).1.1, (hprops e he).2.writable⟩

end ScopeMachine
