import ScopeMachine.Value.Basic

/-! Equality of values by what they denote. Numbers of all kinds are equal when they have the same
place on the number line, compared exactly. A float that is not a number has no place and equals
nothing; but where the parts of values are compared, one that bears a seal is the same as itself. -/
namespace ScopeMachine

/-- The number line with both infinities. Finite places are counted in units of `Binary64`. -/
inductive Place
  | below
  | finite (units : Int)
  | above
  deriving DecidableEq, Repr

namespace Place

def ofInt (i : Int) : Place := .finite (i * Binary64.scale)

def ofBinary64? (x : Binary64) : Option Place :=
  if x.isNaN then none
  else if x.isInfinite then some (if x.negative then .below else .above)
  else some (.finite x.signedUnits)

def lt : Place → Place → Bool
  | .below, .below => false
  | .below, _ => true
  | .finite m, .finite n => m < n
  | .finite _, .above => true
  | _, _ => false

theorem ofInt_injective {i j : Int} (h : ofInt i = ofInt j) : i = j := by
  have hs : (Binary64.scale : Int) ≠ 0 := by
    have := Binary64.scale_pos
    omega
  simp only [ofInt, Place.finite.injEq] at h
  exact Int.eq_of_mul_eq_mul_right hs h

theorem ofInt_inj {i j : Int} : ofInt i = ofInt j ↔ i = j := ⟨ofInt_injective, congrArg ofInt⟩

theorem ofInt_lt (i j : Int) : (ofInt i).lt (ofInt j) = decide (i < j) := by
  have hscale : (0 : Int) < Binary64.scale := by
    have hpos := Binary64.scale_pos
    omega
  rw [ofInt, ofInt, lt, Bool.eq_iff_iff, decide_eq_true_iff, decide_eq_true_iff]
  exact ⟨fun h => Int.lt_of_mul_lt_mul_right h (Int.le_of_lt hscale),
    fun h => Int.mul_lt_mul_of_pos_right h hscale⟩

end Place

/-- What equality sees of an atom. -/
inductive Sense
  | null
  | number (place : Place)
  | text (s : String)
  | codes (points : List Nat)
  /-- Not a number, but known by its seal. -/
  | marked (mark : Nat)
  deriving DecidableEq, Repr

namespace Atom

/-- The place of an atom that counts as a number; truth values count as one and zero. -/
def place? : Atom → Option Place
  | .bool b => some (.ofInt (if b then 1 else 0))
  | .int i => some (.ofInt i)
  | .float x => Place.ofBinary64? x
  | _ => none

def sense? : Atom → Option Sense
  | .null => some .null
  | .str s => some (.text s)
  | .codes points => some (.codes points)
  | .float x => ((Place.ofBinary64? x).map .number).or (x.seal?.map .marked)
  | a => a.place?.map .number

/-- Atoms of the same sense are the same. An atom without sense differs even from itself. -/
def same (a b : Atom) : Bool :=
  match a.sense?, b.sense? with
  | some s, some t => s == t
  | _, _ => false

theorem same_iff {a b : Atom} : a.same b = true ↔ ∃ s, a.sense? = some s ∧ b.sense? = some s := by
  unfold same
  cases a.sense? with
  | none => simp
  | some s =>
    cases b.sense? with
    | none => simp
    | some t =>
      simp only [beq_iff_eq, Option.some.injEq, exists_eq_left']
      exact eq_comm

theorem same_comm (a b : Atom) : a.same b = b.same a := by
  rw [Bool.eq_iff_iff, same_iff, same_iff]
  exact exists_congr fun _ => and_comm

theorem same_trans {a b c : Atom} (hab : a.same b = true) (hbc : b.same c = true) :
    a.same c = true := by
  obtain ⟨s, ha, hb⟩ := same_iff.1 hab
  obtain ⟨t, hb', hc⟩ := same_iff.1 hbc
  rw [hb] at hb'
  exact same_iff.2 ⟨s, ha, hb' ▸ hc⟩

theorem same_self_iff (a : Atom) : a.same a = true ↔ a.sense?.isSome = true := by
  rw [same_iff]
  cases a.sense? <;> simp

@[simp] theorem same_str (s t : String) : (Atom.str s).same (.str t) = (s == t) := by
  rw [Bool.eq_iff_iff, same_iff, beq_iff_eq]
  simp only [sense?, Option.some.injEq, exists_eq_left', Sense.text.injEq]
  exact eq_comm

end Atom

/-- What the first entry with an equal key holds. -/
def Atom.entry? {α : Type} (key : Atom) : List (Atom × α) → Option α
  | [] => none
  | (k, v) :: rest => if k.same key then some v else key.entry? rest

mutual

/-- Values that are equal, or one and the same: sequences agree item by item, and tables when they
hold the same keys with the same values, whatever their order. -/
def Value.same : Value → Value → Bool
  | .atom a, .atom b => a.same b
  | .list xs, .list ys => Value.sameItems xs ys
  | .dict xs, .dict ys => xs.length == ys.length && Value.sameEntries xs ys
  | _, _ => false

def Value.sameItems : List Value → List Value → Bool
  | [], [] => true
  | x :: xs, y :: ys => x.same y && Value.sameItems xs ys
  | _, _ => false

def Value.sameEntries : List (Atom × Value) → List (Atom × Value) → Bool
  | [], _ => true
  | (k, v) :: rest, ys =>
    (match k.entry? ys with
      | some w => v.same w
      | none => false) && Value.sameEntries rest ys

end

def Value.isNaN : Value → Bool
  | .atom (.float x) => x.isNaN
  | _ => false

/-- Equality of values as such: what is not a number equals nothing, not even itself. -/
def Value.equal (a b : Value) : Bool := !a.isNaN && a.same b

theorem Value.equal_eq_same {a : Value} (h : a.isNaN = false) (b : Value) :
    a.equal b = a.same b := by
  simp [equal, h]

/-- Equality that keeps truth values apart from numbers: `1` and `1.0` are alike, `1` and `true`
are not. -/
def Value.alike (a b : Value) : Bool :=
  match a, b with
  | .bool x, .bool y => x == y
  | .bool _, _ => false
  | _, .bool _ => false
  | _, _ => a.equal b

end ScopeMachine
