import Mathlib.Data.Nat.Digits.Lemmas
import Mathlib.Tactic.Linarith
import Mathlib.Tactic.Ring
import ScopeMachine.Number.Shortest

/-! The shortest decimal of a number reads back as the number. A decimal inside the rounding
interval is rounded to the number whose interval it is, and among the decimals of seventeen digits
one lies in the interval: the steps between them are shorter than those between the numbers. -/
namespace ScopeMachine

namespace Binary64

/-! ### Significand and shift -/

theorem hidden_eq : hidden = 2 ^ 52 := rfl

theorem word_eq (x : Binary64) : x.word = x.shift * hidden + x.significand := by
  unfold shift significand
  split
  · rename_i hsmall
    rw [Nat.div_eq_of_lt hsmall]
    omega
  · rename_i hlarge
    have hquotient : 1 ≤ x.word / hidden :=
      (Nat.one_le_div_iff (by decide)).mpr (Nat.le_of_not_lt hlarge)
    have hdivision := Nat.div_add_mod x.word hidden
    obtain ⟨q, hq⟩ := Nat.exists_eq_add_of_le' hquotient
    rw [hq] at hdivision ⊢
    rw [Nat.add_sub_cancel]
    linarith

theorem significand_lt (x : Binary64) : x.significand < 2 * hidden := by
  have hmod : x.word % hidden < hidden := Nat.mod_lt _ (by decide)
  unfold significand
  split <;> omega

/-- Only the numbers below the least normal one lack the hidden bit, and they have no shift. -/
theorem shift_eq_zero_or (x : Binary64) : x.shift = 0 ∨ hidden ≤ x.significand := by
  unfold shift significand
  split
  · rename_i hsmall
    rw [Nat.div_eq_of_lt hsmall]
    exact .inl rfl
  · exact .inr (Nat.le_add_left _ _)

theorem significand_pos {x : Binary64} (h : 0 < x.word) : 0 < x.significand := by
  rcases x.shift_eq_zero_or with hshift | hsignificand
  · have hword := x.word_eq
    rw [hshift] at hword
    omega
  · exact Nat.lt_of_lt_of_le (by decide) hsignificand

/-! ### Rounding -/

/-- A quotient rounds to `q` from half a step below it to half a step above it; the very ends belong
to an even `q`. -/
theorem roundQuotient_eq {n d q : Nat} (hd : 0 < d) (hlow : 2 * (q * d) ≤ 2 * n + d)
    (hhigh : 2 * n ≤ 2 * (q * d) + d)
    (hodd : q % 2 = 1 → 2 * (q * d) < 2 * n + d ∧ 2 * n < 2 * (q * d) + d) :
    roundQuotient n d = q := by
  have hdivision := Nat.div_add_mod n d
  have hrest : n % d < d := Nat.mod_lt n hd
  unfold roundQuotient
  generalize n / d = a at hdivision
  generalize n % d = r at hdivision hrest
  have hfloor : a ≤ q := by
    by_contra hlt
    have hstep : (q + 1) * d ≤ a * d := Nat.mul_le_mul_right d (by omega)
    rw [Nat.add_mul, Nat.mul_comm a d] at hstep
    omega
  have hceiling : q ≤ a + 1 := by
    by_contra hlt
    have hstep : (a + 2) * d ≤ q * d := Nat.mul_le_mul_right d (by omega)
    rw [Nat.add_mul, Nat.mul_comm a d] at hstep
    omega
  rcases Nat.eq_or_lt_of_le hfloor with rfl | hlt
  · rw [Nat.mul_comm a d] at hhigh hodd
    simp only [Bool.or_eq_true, decide_eq_true_eq, Bool.and_eq_true, beq_iff_eq]
    split <;> omega
  · obtain rfl : q = a + 1 := by omega
    rw [Nat.add_mul, Nat.mul_comm a d] at hlow hodd
    simp only [Bool.or_eq_true, decide_eq_true_eq, Bool.and_eq_true, beq_iff_eq]
    split <;> omega

theorem roundQuotient_mem (n d : Nat) :
    roundQuotient n d = n / d ∨ roundQuotient n d = n / d + 1 := by
  unfold roundQuotient
  dsimp only
  split
  · exact .inl rfl
  · exact .inr rfl

/-! ### Rounding intervals -/

/-- How far, in quarter units, the rounding interval of `x` reaches below `x`. -/
def gapBelow (x : Binary64) : Nat :=
  if x.significand == hidden && 0 < x.shift then 2 ^ x.shift else 2 * 2 ^ x.shift

/-- The ratio `n / m`, in units, lies in the rounding interval of `x`. -/
def Catches (x : Binary64) (n m : Nat) : Prop :=
  4 * x.units * m ≤ 4 * n + x.gapBelow * m ∧ 4 * n ≤ 4 * x.units * m + 2 * 2 ^ x.shift * m ∧
    (x.significand % 2 = 1 →
      4 * x.units * m < 4 * n + x.gapBelow * m ∧ 4 * n < 4 * x.units * m + 2 * 2 ^ x.shift * m)

theorem gapBelow_le (x : Binary64) : x.gapBelow ≤ 2 * 2 ^ x.shift := by
  unfold gapBelow
  split <;> omega

theorem units_eq (x : Binary64) : x.units = x.significand * 2 ^ x.shift := rfl

theorem gapBelow_lt {x : Binary64} (h : 0 < x.word) : x.gapBelow < 4 * x.units := by
  have hone : 1 * 2 ^ x.shift ≤ x.units := Nat.mul_le_mul_right _ (significand_pos h)
  have hpos : 0 < 2 ^ x.shift := Nat.two_pow_pos _
  have hgap := x.gapBelow_le
  omega

theorem covers_iff {x : Binary64} (hx : 0 < x.word) (d : Decimal) :
    x.covers d = true ↔ x.Catches d.unitRatio.1 d.unitRatio.2 := by
  have hgap := gapBelow_lt hx
  have hlow (m n : Nat) : (4 * x.units - x.gapBelow) * m ≤ 4 * n ↔
      4 * x.units * m ≤ 4 * n + x.gapBelow * m := by
    rw [Nat.sub_mul, Nat.sub_le_iff_le_add]
  have hlow' (m n : Nat) : (4 * x.units - x.gapBelow) * m < 4 * n ↔
      4 * x.units * m < 4 * n + x.gapBelow * m := by
    have hle : x.gapBelow * m ≤ 4 * x.units * m := Nat.mul_le_mul_right m hgap.le
    rw [Nat.sub_mul]
    omega
  have hcovers : x.covers d =
      if x.significand % 2 == 0 then
        decide ((4 * x.units - x.gapBelow) * d.unitRatio.2 ≤ 4 * d.unitRatio.1) &&
          decide (4 * d.unitRatio.1 ≤ (4 * x.units + 2 * 2 ^ x.shift) * d.unitRatio.2)
      else
        decide ((4 * x.units - x.gapBelow) * d.unitRatio.2 < 4 * d.unitRatio.1) &&
          decide (4 * d.unitRatio.1 < (4 * x.units + 2 * 2 ^ x.shift) * d.unitRatio.2) := rfl
  rw [hcovers, Catches]
  rcases Nat.mod_two_eq_zero_or_one x.significand with heven | hodd
  · simp [heven, hlow, Nat.add_mul]
  · rw [if_neg (by simp [hodd])]
    simp only [hlow', Nat.add_mul, Bool.and_eq_true, decide_eq_true_eq]
    constructor
    · intro h
      exact ⟨h.1.le, h.2.le, fun _ => h⟩
    · intro h
      exact h.2.2 hodd

/-- Whether a ratio is caught does not depend on how it is written. -/
theorem Catches.of_ratio {x : Binary64} {n m n' m' : Nat} (h : x.Catches n m) (hm : 0 < m)
    (hm' : 0 < m') (hratio : n * m' = n' * m) : x.Catches n' m' := by
  obtain ⟨hlow, hhigh, hodd⟩ := h
  have hunits : 4 * x.units * m * m' = 4 * x.units * m' * m := Nat.mul_right_comm _ _ _
  have hbelow : (4 * n + x.gapBelow * m) * m' = (4 * n' + x.gapBelow * m') * m := by
    rw [Nat.add_mul, Nat.add_mul, Nat.mul_assoc 4 n, hratio, Nat.mul_right_comm x.gapBelow]
    ring
  have habove : (4 * x.units * m + 2 * 2 ^ x.shift * m) * m' =
      (4 * x.units * m' + 2 * 2 ^ x.shift * m') * m := by ring
  have hnumber : 4 * n * m' = 4 * n' * m := by rw [Nat.mul_assoc, hratio, Nat.mul_assoc]
  refine ⟨?_, ?_, fun hone => ⟨?_, ?_⟩⟩
  · apply Nat.le_of_mul_le_mul_right _ hm
    rw [← hunits, ← hbelow]
    exact Nat.mul_le_mul_right m' hlow
  · apply Nat.le_of_mul_le_mul_right _ hm
    rw [← hnumber, ← habove]
    exact Nat.mul_le_mul_right m' hhigh
  · apply Nat.lt_of_mul_lt_mul_right (a := m)
    rw [← hunits, ← hbelow]
    exact Nat.mul_lt_mul_of_pos_right (hodd hone).1 hm'
  · apply Nat.lt_of_mul_lt_mul_right (a := m)
    rw [← hnumber, ← habove]
    exact Nat.mul_lt_mul_of_pos_right (hodd hone).2 hm'

/-! ### What is caught is rounded to the number -/

theorem log2_sub_eq {n s : Nat} (hupper : n < 2 ^ (s + 53)) (hlower : s = 0 ∨ 2 ^ (s + 52) ≤ n) :
    n.log2 - 52 = s := by
  rcases Nat.eq_zero_or_pos n with rfl | hpos
  · rcases hlower with rfl | hlower
    · rfl
    · exact absurd hlower (Nat.not_le.mpr (Nat.two_pow_pos _))
  · have hlt := (Nat.log2_lt (Nat.ne_of_gt hpos)).mpr hupper
    rcases hlower with rfl | hlower
    · omega
    · have hle := (Nat.le_log2 (Nat.ne_of_gt hpos)).mpr hlower
      omega

theorem nearestWord_eq {n m s q : Nat} (hm : 0 < m) (hupper : n < 2 ^ (s + 53) * m)
    (hlower : s = 0 ∨ 2 ^ (s + 52) * m ≤ n) (hround : roundQuotient n (m * 2 ^ s) = q)
    (htop : s * hidden + q ≤ top) : nearestWord n m = s * hidden + q := by
  have hlog : (n / m).log2 - 52 = s := by
    apply log2_sub_eq
    · exact (Nat.div_lt_iff_lt_mul hm).mpr hupper
    · exact hlower.imp_right (Nat.le_div_iff_mul_le hm).mpr
  unfold nearestWord
  simp only [hlog, Nat.pow_eq, hround]
  exact Nat.min_eq_right htop

section Caught

variable {x : Binary64} {n m : Nat}

/-- In steps of the significand, a caught ratio is at most half a step from it. -/
theorem Catches.half_step (h : x.Catches n m) :
    2 * (x.significand * (m * 2 ^ x.shift)) ≤ 2 * n + m * 2 ^ x.shift ∧
      2 * n ≤ 2 * (x.significand * (m * 2 ^ x.shift)) + m * 2 ^ x.shift ∧
      (x.significand % 2 = 1 →
        2 * (x.significand * (m * 2 ^ x.shift)) < 2 * n + m * 2 ^ x.shift ∧
          2 * n < 2 * (x.significand * (m * 2 ^ x.shift)) + m * 2 ^ x.shift) := by
  obtain ⟨hlow, hhigh, hodd⟩ := h
  have hgap : x.gapBelow * m ≤ 2 * (m * 2 ^ x.shift) := by
    calc x.gapBelow * m ≤ 2 * 2 ^ x.shift * m := Nat.mul_le_mul_right m x.gapBelow_le
      _ = 2 * (m * 2 ^ x.shift) := by ring
  have hunits : 4 * x.units * m = 4 * (x.significand * (m * 2 ^ x.shift)) := by
    rw [units_eq]
    ring
  have hstep : 2 * 2 ^ x.shift * m = 2 * (m * 2 ^ x.shift) := by ring
  rw [hunits] at hlow hhigh hodd
  rw [hstep] at hhigh hodd
  refine ⟨by omega, by omega, fun hone => ?_⟩
  have hstrict := hodd hone
  omega

/-- Below the power of two with which its binade begins, `x` catches no more than a quarter of a
step, and nothing at all unless it is that power. -/
theorem Catches.below_binade (h : x.Catches n m) (hm : 0 < m) (hshift : 0 < x.shift)
    (hn : n < hidden * (m * 2 ^ x.shift)) :
    x.significand = hidden ∧
      4 * (hidden * (m * 2 ^ x.shift)) ≤ 4 * n + m * 2 ^ x.shift := by
  have hnormal : hidden ≤ x.significand := x.shift_eq_zero_or.resolve_left (by omega)
  have hstep : 0 < m * 2 ^ x.shift := Nat.mul_pos hm (Nat.two_pow_pos _)
  have hedge : x.significand = hidden := by
    by_contra hne
    have hmore : (hidden + 1) * (m * 2 ^ x.shift) ≤ x.significand * (m * 2 ^ x.shift) :=
      Nat.mul_le_mul_right _ (by omega)
    have hlow := h.half_step.1
    rw [Nat.add_mul] at hmore
    omega
  refine ⟨hedge, ?_⟩
  have hgap : x.gapBelow = 2 ^ x.shift := by simp [gapBelow, hedge, hshift]
  have hlow := h.1
  rw [hgap, units_eq, hedge] at hlow
  calc 4 * (hidden * (m * 2 ^ x.shift)) = 4 * (hidden * 2 ^ x.shift) * m := by ring
    _ ≤ 4 * n + 2 ^ x.shift * m := hlow
    _ = 4 * n + m * 2 ^ x.shift := by ring

/-- In the rounding interval of `x` everything is rounded to `x`. -/
theorem nearestWord_of_catches (hm : 0 < m) (htop : x.word ≤ top) (h : x.Catches n m) :
    nearestWord n m = x.word := by
  have hstep : 0 < m * 2 ^ x.shift := Nat.mul_pos hm (Nat.two_pow_pos _)
  obtain ⟨hlow, hhigh, hodd⟩ := h.half_step
  have hpower : 2 ^ (x.shift + 52) * m = hidden * (m * 2 ^ x.shift) := by
    rw [hidden_eq, Nat.pow_add]
    ring
  rw [word_eq] at htop ⊢
  by_cases hbelow : 0 < x.shift ∧ n < hidden * (m * 2 ^ x.shift)
  · -- In the binade below steps are half as long: the quotient is twice the hidden bit and carries.
    obtain ⟨hedge, hquarter⟩ := h.below_binade hm hbelow.1 hbelow.2
    obtain ⟨t, ht⟩ : ∃ t, x.shift = t + 1 := ⟨x.shift - 1, by omega⟩
    have hhalf : m * 2 ^ x.shift = 2 * (m * 2 ^ t) := by
      rw [ht, Nat.pow_succ]
      ring
    have hfine : 0 < m * 2 ^ t := Nat.mul_pos hm (Nat.two_pow_pos _)
    have hcarry : x.shift * hidden + x.significand = t * hidden + 2 * hidden := by
      rw [hedge, ht]
      ring
    have hscaled : hidden * (2 * (m * 2 ^ t)) = 2 * (hidden * (m * 2 ^ t)) := by ring
    have hdouble : 2 * hidden * (m * 2 ^ t) = 2 * (hidden * (m * 2 ^ t)) := by ring
    have hn := hbelow.2
    rw [hcarry] at htop ⊢
    rw [hhalf, hscaled] at hn hquarter
    have hlow : 2 ^ (t + 52) * m = hidden * (m * 2 ^ t) := by
      rw [hidden_eq, Nat.pow_add]
      ring
    refine nearestWord_eq hm ?_ (.inr ?_) ?_ htop
    · have hnext : 2 ^ (t + 53) * m = 2 * (2 ^ (t + 52) * m) := by
        rw [Nat.pow_succ]
        ring
      rw [hnext, hlow]
      exact hn
    · rw [hlow]
      have hmany : m * 2 ^ t ≤ hidden * (m * 2 ^ t) := Nat.le_mul_of_pos_left _ (by decide)
      omega
    · apply roundQuotient_eq hfine
      · rw [hdouble]
        omega
      · rw [hdouble]
        omega
      · intro hone
        omega
  · refine nearestWord_eq hm ?_ ?_ (roundQuotient_eq hstep hlow hhigh hodd) htop
    · have hnext : 2 ^ (x.shift + 53) * m = 2 * (2 ^ (x.shift + 52) * m) := by
        rw [Nat.pow_succ]
        ring
      have hless : (x.significand + 1) * (m * 2 ^ x.shift) ≤ 2 * hidden * (m * 2 ^ x.shift) :=
        Nat.mul_le_mul_right _ x.significand_lt
      rw [Nat.add_mul, Nat.mul_assoc 2] at hless
      rw [hnext, hpower]
      omega
    · rw [hpower]
      omega

end Caught

end Binary64

/-! ### Decimals -/

theorem Decimal.unitRatio_eq (d : Decimal) :
    d.unitRatio =
      (d.digits * 10 ^ d.exponent.toNat * Binary64.scale, 10 ^ (-d.exponent).toNat) := by
  unfold unitRatio
  split
  · rename_i hwhole
    rw [Int.toNat_of_nonpos (by omega : -d.exponent ≤ 0)]
    rfl
  · rename_i hfraction
    rw [Int.toNat_of_nonpos (by omega : d.exponent ≤ 0)]
    simp

namespace Binary64

/-- A decimal lies in the rounding interval of `x`. -/
def CatchesDecimal (x : Binary64) (d : Decimal) : Prop := x.Catches d.unitRatio.1 d.unitRatio.2

theorem ofDecimal_eq (negative : Bool) {m : Nat} {e : Int} (hm : m ≠ 0) (hlarge : e ≤ 400)
    (hsmall : -400 ≤ e) :
    ofDecimal negative m e =
      ⟨negative, nearestWord (Decimal.unitRatio ⟨m, e⟩).1 (Decimal.unitRatio ⟨m, e⟩).2⟩ := by
  unfold ofDecimal
  rw [if_neg hm, if_neg (by omega), if_neg (by omega)]
  unfold Decimal.unitRatio ofRatio
  split <;> rfl

theorem unitRatio_pos (d : Decimal) : 0 < d.unitRatio.2 := by
  rw [Decimal.unitRatio_eq]
  exact Nat.pow_pos (by decide)

theorem CatchesDecimal.digits_ne_zero {x : Binary64} {d : Decimal} (h : x.CatchesDecimal d)
    (hx : 0 < x.word) : d.digits ≠ 0 := by
  intro hdigits
  have hlow := h.1
  have hzero : d.unitRatio.1 = 0 := by simp [Decimal.unitRatio_eq, hdigits]
  rw [hzero, Nat.mul_zero, Nat.zero_add] at hlow
  have hgap := Nat.le_of_mul_le_mul_right hlow (unitRatio_pos d)
  exact absurd (gapBelow_lt hx) (Nat.not_lt.mpr hgap)

/-- A decimal in the rounding interval of a number reads back as the number. -/
theorem CatchesDecimal.ofDecimal {x : Binary64} {m : Nat} {e : Int}
    (h : x.CatchesDecimal ⟨m, e⟩) (hx : 0 < x.word) (htop : x.word ≤ top) (hlarge : e ≤ 400)
    (hsmall : -400 ≤ e) : Binary64.ofDecimal x.negative m e = x := by
  rw [ofDecimal_eq x.negative (h.digits_ne_zero hx) hlarge hsmall,
    nearestWord_of_catches (unitRatio_pos _) htop h]

/-- Zeros at the end of the digits make no difference. -/
theorem CatchesDecimal.of_shifted {x : Binary64} {m k : Nat} {e : Int} :
    x.CatchesDecimal ⟨m * 10 ^ k, e⟩ ↔ x.CatchesDecimal ⟨m, e + k⟩ := by
  have hratio : (Decimal.unitRatio ⟨m * 10 ^ k, e⟩).1 * (Decimal.unitRatio ⟨m, e + k⟩).2 =
      (Decimal.unitRatio ⟨m, e + k⟩).1 * (Decimal.unitRatio ⟨m * 10 ^ k, e⟩).2 := by
    simp only [Decimal.unitRatio_eq]
    have hpowers : 10 ^ k * 10 ^ e.toNat * 10 ^ (-(e + k)).toNat =
        10 ^ (e + k).toNat * 10 ^ (-e).toNat := by
      rw [← Nat.pow_add, ← Nat.pow_add, ← Nat.pow_add]
      congr 1
      omega
    calc m * 10 ^ k * 10 ^ e.toNat * scale * 10 ^ (-(e + k)).toNat
        = m * scale * (10 ^ k * 10 ^ e.toNat * 10 ^ (-(e + k)).toNat) := by ring
      _ = m * scale * (10 ^ (e + k).toNat * 10 ^ (-e).toNat) := by rw [hpowers]
      _ = m * 10 ^ (e + k).toNat * scale * 10 ^ (-e).toNat := by ring
  constructor
  · intro h
    exact h.of_ratio (unitRatio_pos _) (unitRatio_pos _) hratio
  · intro h
    exact h.of_ratio (unitRatio_pos _) (unitRatio_pos _) hratio.symm

/-! ### The grids of decimals -/

theorem gridRatio_eq (x : Binary64) (e : Int) :
    x.gridRatio e = (x.units * 10 ^ (-e).toNat, scale * 10 ^ e.toNat) := by
  unfold gridRatio
  split
  · rename_i hwhole
    rw [Int.toNat_of_nonpos (by omega : -e ≤ 0)]
    simp
  · rename_i hfraction
    rw [Int.toNat_of_nonpos (by omega : e ≤ 0)]
    simp

/-- On a grid a decimal is a multiple of the step of the grid. -/
theorem unitRatio_onGrid (x : Binary64) (q : Nat) (e : Int) :
    Decimal.unitRatio ⟨q, e⟩ = (q * (x.gridRatio e).2, 10 ^ (-e).toNat) := by
  rw [Decimal.unitRatio_eq, gridRatio_eq]
  simp only [Prod.mk.injEq, and_true]
  ring

theorem onGrid_catches {x : Binary64} (hx : 0 < x.word) {e : Int} {d : Decimal}
    (h : x.onGrid e = some d) : x.CatchesDecimal d ∧ d.exponent = e := by
  unfold onGrid at h
  dsimp only at h
  split at h
  · rename_i hbelow habove
    cases h
    refine ⟨?_, rfl⟩
    rcases roundQuotient_mem (x.gridRatio e).1 (x.gridRatio e).2 with hround | hround
    · rw [hround]
      exact (covers_iff hx _).mp hbelow
    · rw [hround]
      exact (covers_iff hx _).mp habove
  · rename_i hbelow _
    cases h
    exact ⟨(covers_iff hx _).mp hbelow, rfl⟩
  · rename_i _ habove
    cases h
    exact ⟨(covers_iff hx _).mp habove, rfl⟩
  · cases h

theorem exists_onGrid {x : Binary64} (hx : 0 < x.word) {e : Int} {q : Nat}
    (hq : q = (x.gridRatio e).1 / (x.gridRatio e).2 ∨
      q = (x.gridRatio e).1 / (x.gridRatio e).2 + 1)
    (h : x.CatchesDecimal ⟨q, e⟩) : ∃ d, x.onGrid e = some d := by
  have hcovers := (covers_iff hx _).mpr h
  unfold onGrid
  dsimp only
  split
  · exact ⟨_, rfl⟩
  · exact ⟨_, rfl⟩
  · exact ⟨_, rfl⟩
  · rename_i hbelow habove
    rcases hq with rfl | rfl
    · cases hbelow.symm.trans hcovers
    · cases habove.symm.trans hcovers

theorem catches_of_lt {x : Binary64} {n m : Nat}
    (hlow : 4 * x.units * m < 4 * n + x.gapBelow * m)
    (hhigh : 4 * n < 4 * x.units * m + 2 * 2 ^ x.shift * m) : x.Catches n m :=
  ⟨hlow.le, hhigh.le, fun _ => ⟨hlow, hhigh⟩⟩

/-- A grid on which the number has seventeen digits before the point has a decimal in the rounding
interval: one step of the grid is shorter than one of the significand, and shorter than half of one
at a power of two. -/
theorem exists_onGrid_of_fine {x : Binary64} (hx : 0 < x.word) {e : Int}
    (h : 10 ^ 16 * (x.gridRatio e).2 ≤ (x.gridRatio e).1) : ∃ d, x.onGrid e = some d := by
  have hm : 0 < (x.gridRatio e).2 := by
    rw [gridRatio_eq]
    exact Nat.mul_pos scale_pos (Nat.pow_pos (by decide))
  have hdivision := Nat.div_add_mod (x.gridRatio e).1 (x.gridRatio e).2
  have hrest := Nat.mod_lt (x.gridRatio e).1 hm
  have hgrid (q : Nat) := unitRatio_onGrid x q e
  have hneighbour (q : Nat) := exists_onGrid hx (e := e) (q := q)
  have hnumber : (x.gridRatio e).1 = x.units * 10 ^ (-e).toNat := by rw [gridRatio_eq]
  have hscale : 0 < 10 ^ (-e).toNat := Nat.pow_pos (by decide)
  simp only [CatchesDecimal, hgrid] at hneighbour
  generalize (x.gridRatio e).1 = n, (x.gridRatio e).2 = m at *
  generalize n / m = a, n % m = r at *
  generalize 10 ^ (-e).toNat = t at *
  have hsteps : n = x.significand * (2 ^ x.shift * t) := by
    rw [hnumber, units_eq]
    ring
  have hstep : 2 * 2 ^ x.shift * t = 2 * (2 ^ x.shift * t) := by ring
  have hpositive : 0 < 2 ^ x.shift * t := Nat.mul_pos (Nat.two_pow_pos _) hscale
  have hunits : 4 * x.units * t = 4 * n := by
    rw [hnumber]
    ring
  have hbelow : 4 * r < x.gapBelow * t → ∃ d, x.onGrid e = some d := by
    intro hr
    apply hneighbour a (.inl rfl)
    apply catches_of_lt
    · rw [hunits, Nat.mul_comm a m]
      omega
    · rw [hunits, hstep, Nat.mul_comm a m]
      omega
  have habove : 2 * m < 2 ^ x.shift * t + 2 * r → ∃ d, x.onGrid e = some d := by
    intro hr
    apply hneighbour (a + 1) (.inr rfl)
    apply catches_of_lt
    · rw [hunits, Nat.add_mul, Nat.mul_comm a m]
      omega
    · rw [hunits, hstep, Nat.add_mul, Nat.mul_comm a m]
      omega
  by_cases hedge : x.significand = hidden ∧ 0 < x.shift
  · apply habove
    rw [hedge.1, hidden_eq] at hsteps
    omega
  · have hgap : x.gapBelow * t = 2 * (2 ^ x.shift * t) := by
      rw [gapBelow, if_neg (by simpa using hedge), hstep]
    have hshort : (x.significand + 1) * (2 ^ x.shift * t) ≤ 2 * hidden * (2 ^ x.shift * t) :=
      Nat.mul_le_mul_right _ x.significand_lt
    rw [Nat.add_mul, ← hsteps, hidden_eq] at hshort
    by_cases hr : 2 * r < 2 ^ x.shift * t
    · apply hbelow
      omega
    · apply habove
      omega

/-! ### The shortest decimal -/

-- Exponents are given names here, so that no power is computed where it need not be.

theorem leadingPower_eq (x : Binary64) {k : Nat} (hk : k = 345) :
    x.leadingPower = (Nat.toDigits 10 (x.units * 10 ^ k / scale)).length - 346 := by
  rw [leadingPower, ← hk, Nat.pow_eq]

theorem scale_le {k : Nat} (hk : k = 345) : scale ≤ 10 ^ k := by
  subst hk
  decide +kernel

theorem shift_le {x : Binary64} (h : x.word < top) : x.shift ≤ 2045 := by
  have hlt : x.word / hidden < 2047 := Nat.div_lt_of_lt_mul (by rwa [Nat.mul_comm])
  unfold shift
  omega

theorem units_lt {x : Binary64} (h : x.word < top) {l : Nat} (hl : l = 2098) :
    x.units < 2 ^ l := by
  calc x.units = x.significand * 2 ^ x.shift := rfl
    _ < 2 * hidden * 2 ^ x.shift :=
      Nat.mul_lt_mul_of_pos_right x.significand_lt (Nat.two_pow_pos _)
    _ = 2 ^ (53 + x.shift) := by rw [hidden_eq, ← Nat.pow_succ', ← Nat.pow_add]
    _ ≤ 2 ^ l := by
      have hshift := shift_le h
      exact Nat.pow_le_pow_right (by decide) (by omega)

theorem largest_le {k l p : Nat} (hk : k = 345) (hl : l = 2098) (hp : p = 654) :
    2 ^ l * 10 ^ k ≤ 10 ^ p * scale := by
  subst hk hl hp
  decide +kernel

/-- The digits of `n / d` begin with one that counts for something. -/
theorem pow_length_le {n d : Nat} (hd : 0 < d) (h : d ≤ n) :
    10 ^ ((Nat.toDigits 10 (n / d)).length - 1) * d ≤ n := by
  have hquotient : 1 ≤ n / d := (Nat.one_le_div_iff hd).mpr h
  rw [← Nat.le_div_iff_mul_le hd]
  rcases Nat.eq_zero_or_pos ((Nat.toDigits 10 (n / d)).length - 1) with hzero | hpos
  · rw [hzero]
    exact hquotient
  · have hlength := (Nat.length_toDigits_le_iff (b := 10) (n := n / d) (by decide) hpos).not.mp
      (by omega)
    exact Nat.le_of_not_lt hlength

/-- On the grid sixteen places behind the leading digit a number has seventeen digits. -/
theorem fine_gridRatio {x : Binary64} (hx : 0 < x.word) :
    10 ^ 16 * (x.gridRatio (x.leadingPower - 16)).2 ≤ (x.gridRatio (x.leadingPower - 16)).1 := by
  obtain ⟨k, hk⟩ : ∃ k, k = 345 := ⟨_, rfl⟩
  have hunits : 1 ≤ x.units := Nat.mul_pos (significand_pos hx) (Nat.two_pow_pos _)
  have hlarge : scale ≤ x.units * 10 ^ k :=
    (scale_le hk).trans (Nat.le_mul_of_pos_left _ hunits)
  have hleading := pow_length_le scale_pos hlarge
  have hpositive := Nat.length_toDigits_pos (b := 10) (n := x.units * 10 ^ k / scale)
  rw [leadingPower_eq x hk, gridRatio_eq]
  generalize (Nat.toDigits 10 (x.units * 10 ^ k / scale)).length = l at *
  dsimp only
  generalize hwhole : ((l : Int) - 346 - 16).toNat = whole
  generalize hfraction : (-((l : Int) - 346 - 16)).toNat = fraction
  have hpowers : 10 ^ (l - 1) * 10 ^ fraction = 10 ^ k * 10 ^ 16 * 10 ^ whole := by
    rw [← Nat.pow_add, ← Nat.pow_add, ← Nat.pow_add]
    congr 1
    omega
  apply Nat.le_of_mul_le_mul_left _ (Nat.pow_pos (by decide) : 0 < 10 ^ k)
  calc 10 ^ k * (10 ^ 16 * (scale * 10 ^ whole))
      = 10 ^ k * 10 ^ 16 * 10 ^ whole * scale := by ring
    _ = 10 ^ (l - 1) * scale * 10 ^ fraction := by
      rw [← hpowers]
      ring
    _ ≤ x.units * 10 ^ k * 10 ^ fraction := Nat.mul_le_mul_right _ hleading
    _ = 10 ^ k * (x.units * 10 ^ fraction) := by ring

theorem leadingPower_bounds {x : Binary64} (hfinite : x.word < top) :
    -345 ≤ x.leadingPower ∧ x.leadingPower ≤ 308 := by
  obtain ⟨k, hk⟩ : ∃ k, k = 345 := ⟨_, rfl⟩
  obtain ⟨l, hl⟩ : ∃ l, l = 2098 := ⟨_, rfl⟩
  obtain ⟨p, hp⟩ : ∃ p, p = 654 := ⟨_, rfl⟩
  have hpositive := Nat.length_toDigits_pos (b := 10) (n := x.units * 10 ^ k / scale)
  have hlength : (Nat.toDigits 10 (x.units * 10 ^ k / scale)).length ≤ p := by
    rw [Nat.length_toDigits_le_iff (by decide) (by omega), Nat.div_lt_iff_lt_mul scale_pos]
    calc x.units * 10 ^ k < 2 ^ l * 10 ^ k :=
          Nat.mul_lt_mul_of_pos_right (units_lt hfinite hl) (Nat.pow_pos (by decide))
      _ ≤ 10 ^ p * scale := largest_le hk hl hp
  rw [leadingPower_eq x hk]
  omega

theorem shortest_of_found {x : Binary64} {d : Decimal}
    (h : (List.range 17).findSome? (fun (k : Nat) => x.onGrid (x.leadingPower - k)) = some d) :
    x.shortest = d.dropZero := by
  unfold shortest
  simp only [h, Option.map_some, Option.getD_some]

theorem CatchesDecimal.dropZero {x : Binary64} {d : Decimal} (h : x.CatchesDecimal d) :
    x.CatchesDecimal d.dropZero := by
  unfold Decimal.dropZero
  split
  · rename_i hzero
    have hdigits : d.digits = d.digits / 10 * 10 ^ 1 := by
      have hmod : d.digits % 10 = 0 := by simpa using hzero
      omega
    apply of_shifted.mp
    rw [← hdigits]
    exact h
  · exact h

/-- The shortest decimal is one that the number catches, with an exponent in range. -/
theorem catches_shortest {x : Binary64} (hx : 0 < x.word) (hfinite : x.word < top) :
    x.CatchesDecimal x.shortest ∧ -361 ≤ x.shortest.exponent ∧ x.shortest.exponent ≤ 309 := by
  obtain ⟨hleast, hmost⟩ := leadingPower_bounds hfinite
  obtain ⟨d, hd⟩ := exists_onGrid_of_fine hx (fine_gridRatio hx)
  have hexists : ((List.range 17).findSome? fun (k : Nat) =>
      x.onGrid (x.leadingPower - k)).isSome = true := by
    rw [List.findSome?_isSome_iff]
    exact ⟨16, by simp, by simp [hd]⟩
  obtain ⟨found, hfound⟩ := Option.isSome_iff_exists.mp hexists
  obtain ⟨k, hk, hgrid⟩ := List.exists_of_findSome?_eq_some hfound
  obtain ⟨hcatches, hexponent⟩ := onGrid_catches hx hgrid
  have hrange : k < 17 := List.mem_range.mp hk
  rw [shortest_of_found hfound]
  refine ⟨hcatches.dropZero, ?_⟩
  unfold Decimal.dropZero
  split
  · constructor
    · show -361 ≤ found.exponent + 1
      omega
    · show found.exponent + 1 ≤ 309
      omega
  · omega

end Binary64

end ScopeMachine
