import ScopeMachine.Value.Equality

/-! Finite maps that remember the order in which their keys were entered. -/
namespace ScopeMachine

/-- A map from atoms. Its keys are pairwise different as long as it is built by `ofList`, `set`,
`update` and `remove`. -/
structure OrderedMap (α : Type) where
  entries : List (Atom × α)
  deriving Repr

namespace OrderedMap

variable {α : Type}

def empty : OrderedMap α := ⟨[]⟩

instance : Inhabited (OrderedMap α) := ⟨empty⟩

def get? (m : OrderedMap α) (key : Atom) : Option α := key.entry? m.entries

def getD (m : OrderedMap α) (key : Atom) (default : α) : α := (m.get? key).getD default

def contains (m : OrderedMap α) (key : Atom) : Bool := (m.get? key).isSome

def keys (m : OrderedMap α) : List Atom := m.entries.map Prod.fst

def values (m : OrderedMap α) : List α := m.entries.map Prod.snd

def size (m : OrderedMap α) : Nat := m.entries.length

/-- Overwrites the value of an equal key, whose spelling and place stay, or else appends. -/
def setEntry (key : Atom) (value : α) : List (Atom × α) → List (Atom × α)
  | [] => [(key, value)]
  | (k, v) :: rest => if k.same key then (k, value) :: rest else (k, v) :: setEntry key value rest

def removeEntry (key : Atom) : List (Atom × α) → List (Atom × α)
  | [] => []
  | (k, v) :: rest => if k.same key then rest else (k, v) :: removeEntry key rest

def set (m : OrderedMap α) (key : Atom) (value : α) : OrderedMap α :=
  ⟨setEntry key value m.entries⟩

def remove (m : OrderedMap α) (key : Atom) : OrderedMap α := ⟨removeEntry key m.entries⟩

/-- Sets what `f` makes of the present value, or of `default` if the key is absent. -/
def update {ε : Type} (m : OrderedMap α) (key : Atom) (f : α → Except ε α) (default : α) :
    Except ε (OrderedMap α) := do
  let value ← f (m.getD key default)
  pure (m.set key value)

/-- The map of a list of entries, of which later ones overwrite earlier ones. -/
def ofList (entries : List (Atom × α)) : OrderedMap α :=
  entries.foldl (fun m entry => m.set entry.1 entry.2) empty

/-- Changes every value. -/
def mapValues {β : Type} (f : α → β) (m : OrderedMap α) : OrderedMap β :=
  ⟨m.entries.map fun (key, value) => (key, f value)⟩

/-- Equality of maps whatever their order: as many keys, and equal values under equal keys. -/
def same (eq : α → α → Bool) (m n : OrderedMap α) : Bool :=
  m.size == n.size && m.entries.all fun (k, v) =>
    match n.get? k with
    | some w => eq v w
    | none => false

@[simp] theorem get?_empty (key : Atom) : (empty : OrderedMap α).get? key = none := rfl

theorem entry?_setEntry_self {key : Atom} (value : α) (h : key.same key = true)
    (entries : List (Atom × α)) : key.entry? (setEntry key value entries) = some value := by
  induction entries with
  | nil => simp [setEntry, Atom.entry?, h]
  | cons entry rest ih =>
    obtain ⟨k, v⟩ := entry
    by_cases hk : k.same key = true <;> simp [setEntry, Atom.entry?, hk, ih]

theorem entry?_setEntry_of_not_same {key other : Atom} (value : α)
    (h : key.same other = false) (entries : List (Atom × α)) :
    other.entry? (setEntry key value entries) = other.entry? entries := by
  induction entries with
  | nil => simp [setEntry, Atom.entry?, h]
  | cons entry rest ih =>
    obtain ⟨k, v⟩ := entry
    by_cases hk : k.same key = true
    · have ho : k.same other = false := by
        cases hc : k.same other with
        | false => rfl
        | true => simp [Atom.same_trans ((Atom.same_comm key k).trans hk) hc] at h
      simp [setEntry, Atom.entry?, hk, ho]
    · simp [setEntry, Atom.entry?, hk, ih]

theorem get?_set_self (m : OrderedMap α) {key : Atom} (value : α) (h : key.same key = true) :
    (m.set key value).get? key = some value :=
  entry?_setEntry_self value h m.entries

theorem get?_set_of_not_same (m : OrderedMap α) {key other : Atom} (value : α)
    (h : key.same other = false) : (m.set key value).get? other = m.get? other :=
  entry?_setEntry_of_not_same value h m.entries

end OrderedMap

end ScopeMachine
