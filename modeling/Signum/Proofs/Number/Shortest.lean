import Mathlib.Algebra.Order.Field.Power
import Signum.Number.Decimal
import Signum.Proofs.Number.Rounding
/- The shortest decimal of a number reads back.

   A decimal stands for a rational number of units (`units`). Candidates are tested by whole
   numbers, which tells exactly whether the decimal rounds to the number (`readsBack_iff`). With
   seventeen digits the grid of decimals is finer than the reach of a number, so one of the two
   candidates around the number is in reach (`pick?_isSome`) and the search always ends with a
   decimal that reads back (`shortest_chosen`). -/
namespace Signum.Decimal

open Binary64 (gap reachBelow RoundsTo Representable)

/-- What a decimal stands for, in units. -/
def units (c : Nat) (p : Int) : ℚ := c * 10 ^ p * 2 ^ Binary64.unitShift

theorem units_ofNat (c k : Nat) :
    units c (.ofNat k) = ((c * 10 ^ k * 2 ^ Binary64.unitShift : Nat) : ℚ) := by
  unfold units
  push_cast
  rfl

theorem units_negSucc (c k : Nat) :
    units c (.negSucc k) = ((c * 2 ^ Binary64.unitShift : Nat) : ℚ) / (10 ^ (k + 1) : Nat) := by
  unfold units
  rw [zpow_negSucc]
  push_cast
  ring

theorem units_mul (c : Nat) (p : Int) : units c p = c * units 1 p := by
  unfold units
  push_cast
  ring

theorem units_one_pos (p : Int) : 0 < units 1 p := by
  unfold units
  positivity

theorem units_shift (c k : Nat) (p : Int) : units (c * 10 ^ k) p = units c (p + k) := by
  unfold units
  rw [zpow_add₀ (by norm_num), zpow_natCast]
  push_cast
  ring

/-! Testing a decimal. -/

theorem compare_congr {α β : Type} [LinearOrder α] [LinearOrder β] {a b : α} {x y : β}
    (hlt : a < b ↔ x < y) (hgt : b < a ↔ y < x) : compare a b = compare x y := by
  rcases lt_trichotomy a b with h | rfl | h
  · rw [compare_lt_iff_lt.mpr h, compare_lt_iff_lt.mpr (hlt.mp h)]
  · have hxy : x = y := by
      apply le_antisymm
      · rw [← not_lt, ← hgt]
        exact lt_irrefl a
      · rw [← not_lt, ← hlt]
        exact lt_irrefl a
    rw [compare_eq_iff_eq.mpr rfl, compare_eq_iff_eq.mpr hxy]
  · rw [compare_gt_iff_gt.mpr h, compare_gt_iff_gt.mpr (hgt.mp h)]

theorem isGE_compare {x y : ℚ} : (compare x y).isGE = true ↔ y ≤ x := by
  rw [Ordering.isGE_iff_ne_lt, compare_lt_iff_lt, not_lt]

theorem isLE_compare {x y : ℚ} : (compare x y).isLE = true ↔ x ≤ y := by
  rw [Ordering.isLE_iff_ne_gt, compare_gt_iff_gt, not_lt]

/-- A quarter of a unit, as a power of two. -/
theorem quarters_eq : (2 : Nat) ^ 1076 = 4 * 2 ^ Binary64.unitShift := by
  have hexponent : 1076 = 2 + Binary64.unitShift := rfl
  rw [hexponent, Nat.pow_add]

theorem compareQuarters_eq (c : Nat) (p : Int) (q : Nat) :
    compareQuarters c p q = compare (4 * units c p) (q : ℚ) := by
  cases p with
  | ofNat k =>
    have hunits : 4 * units c (.ofNat k) = ((c * 10 ^ k * 2 ^ 1076 : Nat) : ℚ) := by
      rw [units_ofNat, quarters_eq]
      push_cast
      ring
    simp only [compareQuarters, Nat.pow_eq]
    rw [hunits]
    exact compare_congr Nat.cast_lt.symm Nat.cast_lt.symm
  | negSucc k =>
    have hunits : 4 * units c (.negSucc k) =
        ((c * 2 ^ 1076 : Nat) : ℚ) / (10 ^ (k + 1) : Nat) := by
      rw [units_negSucc, quarters_eq]
      push_cast
      ring
    have hpos : (0 : ℚ) < (10 ^ (k + 1) : Nat) := by positivity
    simp only [compareQuarters, Nat.pow_eq]
    rw [hunits]
    apply compare_congr
    · rw [div_lt_iff₀ hpos, ← Nat.cast_mul]
      exact Nat.cast_lt.symm
    · rw [lt_div_iff₀ hpos, ← Nat.cast_mul]
      exact Nat.cast_lt.symm

/-- The test of a decimal by whole numbers is right. -/
theorem readsBack_iff (n c : Nat) (p : Int) :
    readsBack n c p = true ↔ RoundsTo n (units c p) := by
  unfold readsBack RoundsTo
  simp only [compareQuarters_eq, Nat.pow_eq]
  show (if n / gap n % 2 = 0 then
    (compare (4 * units c p) ((4 * n - reachBelow n : Nat) : ℚ)).isGE &&
      (compare (4 * units c p) ((4 * n + 2 * gap n : Nat) : ℚ)).isLE
    else (compare (4 * units c p) ((4 * n - reachBelow n : Nat) : ℚ)).isGT &&
      (compare (4 * units c p) ((4 * n + 2 * gap n : Nat) : ℚ)).isLT) = true ↔ _
  split
  · rw [Bool.and_eq_true, isGE_compare, isLE_compare]
  · rw [Bool.and_eq_true, Ordering.isGT_iff_eq_gt, Ordering.isLT_iff_eq_lt, compare_gt_iff_gt,
      compare_lt_iff_lt]

theorem quotient_ofNat (n k : Nat) :
    quotient n (.ofNat k) = n / (10 ^ k * 2 ^ Binary64.unitShift) := by
  rw [quotient, Nat.pow_eq, Nat.pow_eq, Binary64.unitShift]

theorem quotient_negSucc (n k : Nat) :
    quotient n (.negSucc k) = n * 10 ^ (k + 1) / 2 ^ Binary64.unitShift := by
  rw [quotient, Nat.pow_eq, Nat.pow_eq, Binary64.unitShift]

/-- The candidate below a number is the last one that is not above it. -/
theorem quotient_spec (n : Nat) (p : Int) :
    units (quotient n p) p ≤ n ∧ (n : ℚ) < units (quotient n p + 1) p := by
  cases p with
  | ofNat k =>
    rw [quotient_ofNat, units_ofNat, units_ofNat, Nat.mul_assoc, Nat.mul_assoc, Nat.cast_le,
      Nat.cast_lt]
    constructor
    · exact Nat.div_mul_le_self n _
    · rw [Nat.mul_comm]
      exact Nat.lt_mul_div_succ n (by positivity)
  | negSucc k =>
    have hpos : (0 : ℚ) < (10 ^ (k + 1) : Nat) := by positivity
    rw [quotient_negSucc, units_negSucc, units_negSucc, div_le_iff₀ hpos, lt_div_iff₀ hpos,
      ← Nat.cast_mul, Nat.cast_le, Nat.cast_lt]
    constructor
    · exact Nat.div_mul_le_self _ _
    · rw [Nat.mul_comm (_ + 1)]
      exact Nat.lt_mul_div_succ _ (Nat.two_pow_pos _)

/-! The leading digit. -/

/-- The logarithm of two is between 59 / 196 and 28 / 93. -/
theorem ten_pow_le {i t : Nat} (h : 196 * i ≤ 59 * t) : 10 ^ i ≤ 2 ^ t := by
  apply (Nat.pow_le_pow_iff_left (n := 196) (by decide)).mp
  calc (10 ^ i) ^ 196
      = 10 ^ (196 * i) := by rw [← Nat.pow_mul, Nat.mul_comm]
    _ ≤ 10 ^ (59 * t) := Nat.pow_le_pow_right (by decide) h
    _ = (10 ^ 59) ^ t := Nat.pow_mul 10 59 t
    _ ≤ (2 ^ 196) ^ t := Nat.pow_le_pow_left (by decide) t
    _ = (2 ^ t) ^ 196 := by rw [← Nat.pow_mul, ← Nat.pow_mul, Nat.mul_comm]

theorem le_ten_pow {i t : Nat} (h : 28 * t ≤ 93 * i) : 2 ^ t ≤ 10 ^ i := by
  apply (Nat.pow_le_pow_iff_left (n := 93) (by decide)).mp
  calc (2 ^ t) ^ 93
      = (2 ^ 93) ^ t := by rw [← Nat.pow_mul, ← Nat.pow_mul, Nat.mul_comm]
    _ ≤ (10 ^ 28) ^ t := Nat.pow_le_pow_left (by decide) t
    _ = 10 ^ (28 * t) := (Nat.pow_mul 10 28 t).symm
    _ ≤ 10 ^ (93 * i) := Nat.pow_le_pow_right (by decide) h
    _ = (10 ^ i) ^ 93 := by rw [← Nat.pow_mul, Nat.mul_comm]

theorem ten_zpow_le {i t : Int} (h : 196 * i ≤ 59 * t) (h' : 93 * i ≤ 28 * t) :
    (10 : ℚ) ^ i ≤ 2 ^ t := by
  rcases Int.le_total 0 t with ht | ht
  · obtain ⟨t, rfl⟩ := Int.eq_ofNat_of_zero_le ht
    rcases Int.le_total 0 i with hi | hi
    · obtain ⟨i, rfl⟩ := Int.eq_ofNat_of_zero_le hi
      rw [zpow_natCast, zpow_natCast]
      exact_mod_cast ten_pow_le (i := i) (t := t) (by omega)
    · calc (10 : ℚ) ^ i
          ≤ 1 := zpow_le_one_of_nonpos₀ (by norm_num) hi
        _ ≤ 2 ^ (t : Int) := one_le_zpow₀ (by norm_num) ht
  · obtain ⟨t, rfl⟩ := Int.exists_eq_neg_ofNat ht
    obtain ⟨i, rfl⟩ := Int.exists_eq_neg_ofNat (a := i) (by omega)
    rw [zpow_neg, zpow_neg, zpow_natCast, zpow_natCast]
    apply (inv_le_inv₀ (by positivity) (by positivity)).mpr
    exact_mod_cast le_ten_pow (i := i) (t := t) (by omega)

theorem le_ten_zpow {i t : Int} (h : 59 * t ≤ 196 * i) (h' : 28 * t ≤ 93 * i) :
    (2 : ℚ) ^ t ≤ 10 ^ i := by
  have hneg := ten_zpow_le (i := -i) (t := -t) (by omega) (by omega)
  rw [zpow_neg, zpow_neg] at hneg
  exact (inv_le_inv₀ (by positivity) (by positivity)).mp hneg

/-- The exponent of a number, as of a power of ten just above it. -/
theorem exponentFrom_spec {n : Nat} {fuel : Nat} {e : Int} (hlow : units 1 (e - 1) ≤ n)
    (hhigh : (n : ℚ) < units 1 (e + fuel)) :
    units 1 (exponentFrom n fuel e - 1) ≤ n ∧ (n : ℚ) < units 1 (exponentFrom n fuel e) ∧
      e ≤ exponentFrom n fuel e ∧ exponentFrom n fuel e ≤ e + fuel := by
  induction fuel generalizing e with
  | zero =>
    rw [Nat.cast_zero, Int.add_zero] at hhigh
    exact ⟨hlow, hhigh, Int.le_refl e, by rw [exponentFrom]; omega⟩
  | succ fuel ih =>
    obtain ⟨hfloor, hceil⟩ := quotient_spec n e
    rw [exponentFrom]
    split
    · next hzero =>
      rw [hzero] at hceil
      exact ⟨hlow, hceil, Int.le_refl e, by omega⟩
    · next hpos =>
      have hfrom : units 1 (e + 1 - 1) ≤ n := by
        rw [Int.add_sub_cancel]
        apply le_trans _ hfloor
        rw [units_mul (quotient n e)]
        apply le_mul_of_one_le_left (units_one_pos e).le
        exact_mod_cast Nat.one_le_iff_ne_zero.mpr hpos
      have hto : (n : ℚ) < units 1 (e + 1 + fuel) := by
        rw [Int.add_assoc, Int.add_comm 1]
        exact_mod_cast hhigh
      obtain ⟨hlow, hhigh, hle, hfuel⟩ := ih hfrom hto
      exact ⟨hlow, hhigh, by omega, by push_cast; omega⟩

theorem units_one_eq (i : Int) : units 1 i = 10 ^ i * 2 ^ (Binary64.unitShift : Int) := by
  unfold units
  rw [Nat.cast_one, one_mul, zpow_natCast]

/-- The exponent of a number of the format, as of a power of ten just above it. -/
theorem decimalExponent_spec {n : Nat} (hpos : 0 < n) (hlimit : n < Binary64.limit) :
    units 1 (decimalExponent n - 1) ≤ n ∧ (n : ℚ) < units 1 (decimalExponent n) ∧
      -330 ≤ decimalExponent n ∧ decimalExponent n ≤ 320 := by
  have hlog : n.log2 < 1024 + Binary64.unitShift := by
    rw [Nat.log2_lt hpos.ne', ← Binary64.limit_eq]
    exact hlimit
  have hfloor : ((2 : ℚ) ^ (n.log2 : Int)) ≤ n := by
    rw [zpow_natCast]
    exact_mod_cast Nat.log2_self_le hpos.ne'
  have hceil : (n : ℚ) < 2 ^ ((n.log2 : Int) + 1) := by
    rw [← Nat.cast_succ, zpow_natCast]
    exact_mod_cast Nat.lt_log2_self
  have hshift : (Binary64.unitShift : Int) = 1074 := rfl
  have htwo : (2 : ℚ) ≠ 0 := by norm_num
  unfold decimalExponent
  generalize hguess : ((n.log2 : Int) - 1074) * 30103 / 100000 - 1 = e
  have hspec := @exponentFrom_spec n 4 e ?_ ?_
  · obtain ⟨hlow, hhigh, hle, hfuel⟩ := hspec
    unfold Binary64.unitShift at hlog
    refine ⟨hlow, hhigh, ?_, ?_⟩ <;> omega
  · apply le_trans _ hfloor
    rw [units_one_eq, ← le_div_iff₀ (by positivity), ← zpow_sub₀ htwo, hshift]
    apply ten_zpow_le <;> omega
  · apply lt_of_lt_of_le hceil
    rw [units_one_eq, ← div_le_iff₀ (by positivity), ← zpow_sub₀ htwo, hshift]
    apply le_ten_zpow <;> omega

/-! The candidates. -/

theorem gap_le {n : Nat} (hn : Representable n) (hpos : 0 < n) : gap n ≤ n :=
  Nat.le_of_dvd hpos hn.exact

/-- With seventeen digits the grid of decimals is finer than what reads back as the number. -/
theorem grid_lt_reach {n : Nat} {p : Int} (hgrid : units 1 p * 10 ^ 16 ≤ n) :
    4 * units 1 p < 2 * gap n + reachBelow n := by
  have hgap : (0 : ℚ) < gap n := by exact_mod_cast Binary64.gap_pos n
  unfold reachBelow
  split
  · next hpower =>
    -- a power of two has the least significand
    have hlog : n.log2 = 52 + Binary64.excess n := by
      have hpos := hpower.1
      unfold Binary64.excess Binary64.precision at *
      omega
    have heq : n = 2 ^ 52 * gap n := by
      conv_lhs => rw [hpower.2, hlog, Nat.pow_add]
      rfl
    have hcast : (n : ℚ) = 2 ^ 52 * gap n := by exact_mod_cast heq
    rw [hcast] at hgrid
    linarith
  · have hlt : n < 2 ^ 53 * gap n := by
      have hsize := Binary64.excess_le_iff.mp (Nat.le_refl (Binary64.excess n))
      rwa [Nat.pow_add] at hsize
    have hcast : (n : ℚ) < 2 ^ 53 * gap n := by exact_mod_cast hlt
    push_cast
    linarith

/-- A neighbour of a number on such a grid reads back. -/
theorem neighbour_reads {n : Nat} {p : Int} (hn : Representable n) (hpos : 0 < n)
    (hgrid : units 1 p * 10 ^ 16 ≤ n) :
    RoundsTo n (units (quotient n p) p) ∨ RoundsTo n (units (quotient n p + 1) p) := by
  obtain ⟨hfloor, hceil⟩ := quotient_spec n p
  have hsucc : units (quotient n p + 1) p = units (quotient n p) p + units 1 p := by
    rw [units_mul, units_mul (quotient n p)]
    push_cast
    ring
  have hgap := gap_le hn hpos
  have hreach := Binary64.reachBelow_le n
  have hcast : ((4 * n - reachBelow n : Nat) : ℚ) = 4 * n - reachBelow n := by
    rw [Nat.cast_sub (by omega)]
    push_cast
    ring
  have hgrid := grid_lt_reach hgrid
  have hgap : (0 : ℚ) < gap n := by exact_mod_cast Binary64.gap_pos n
  have hbelow : (0 : ℚ) ≤ reachBelow n := Nat.cast_nonneg _
  rw [hsucc] at hceil ⊢
  rcases lt_or_ge ((4 * n - reachBelow n : Nat) : ℚ) (4 * units (quotient n p) p) with h | h
  · left
    apply RoundsTo.of_strict h
    push_cast
    linarith
  · right
    rw [hcast] at h
    apply RoundsTo.of_strict
    · rw [hcast]
      linarith
    · push_cast
      linarith

theorem pick?_spec {n c : Nat} {p : Int} (h : pick? n p = some c) :
    RoundsTo n (units c p) ∧ c ≤ quotient n p + 1 := by
  unfold pick? at h
  dsimp only at h
  rw [← readsBack_iff]
  split at h
  · next hc _ =>
    cases h
    exact ⟨hc, Nat.le_succ _⟩
  · next _ hc =>
    cases h
    exact ⟨hc, Nat.le_refl _⟩
  · cases h
  · next hlow hhigh =>
    split at h <;> cases h
    · exact ⟨hlow, Nat.le_succ _⟩
    · exact ⟨hhigh, Nat.le_refl _⟩
    · split
      · exact ⟨hlow, Nat.le_succ _⟩
      · exact ⟨hhigh, Nat.le_refl _⟩

theorem pick?_isSome {n : Nat} {p : Int} (hn : Representable n) (hpos : 0 < n)
    (hgrid : units 1 p * 10 ^ 16 ≤ n) : (pick? n p).isSome := by
  have hreads := neighbour_reads hn hpos hgrid
  rw [← readsBack_iff, ← readsBack_iff] at hreads
  unfold pick?
  dsimp only
  rcases hreads with hreads | hreads <;> rw [hreads]
  · cases readsBack n (quotient n p + 1) p
    · rfl
    · dsimp only
      split <;> rfl
  · cases readsBack n (quotient n p) p
    · rfl
    · dsimp only
      split <;> rfl

/-! The search. -/

theorem stripZeros_spec (fuel : Nat) (d : Decimal) :
    units (stripZeros fuel d).coefficient (stripZeros fuel d).exponent
        = units d.coefficient d.exponent ∧
      (stripZeros fuel d).coefficient ≤ d.coefficient ∧
      d.exponent ≤ (stripZeros fuel d).exponent ∧
      (stripZeros fuel d).exponent ≤ d.exponent + fuel := by
  induction fuel generalizing d with
  | zero => exact ⟨rfl, Nat.le_refl _, Int.le_refl _, by rw [stripZeros]; omega⟩
  | succ fuel ih =>
    rw [stripZeros]
    split
    · next hzero =>
      obtain ⟨hunits, hle, hfrom, hto⟩ := ih ⟨d.coefficient / 10, d.exponent + 1⟩
      dsimp only at hunits hle hfrom hto
      have hexact : d.coefficient / 10 * 10 ^ 1 = d.coefficient := by omega
      refine ⟨?_, by omega, by omega, by push_cast; omega⟩
      rw [hunits, ← Nat.cast_one, ← units_shift, hexact]
    · exact ⟨rfl, Nat.le_refl _, Int.le_refl _, by omega⟩

/-- A decimal for a number: it reads back, its digits are few and its exponent is bounded. -/
structure Chosen (n : Nat) (d : Decimal) : Prop where
  reads : RoundsTo n (units d.coefficient d.exponent)
  coefficient_le : d.coefficient ≤ 10 ^ 17
  exponent_ge : -350 ≤ d.exponent
  exponent_le : d.exponent ≤ 350

theorem quotient_lt {n : Nat} {e : Int} (hhigh : (n : ℚ) < units 1 e) (digits : Nat) :
    quotient n (e - digits) < 10 ^ digits := by
  have hlt : units (quotient n (e - digits)) (e - digits) < units (1 * 10 ^ digits) (e - digits) := by
    rw [units_shift, Int.sub_add_cancel]
    exact lt_of_le_of_lt (quotient_spec n _).1 hhigh
  rw [units_mul, units_mul (1 * 10 ^ digits), mul_lt_mul_iff_left₀ (units_one_pos _), Nat.one_mul,
    Nat.cast_lt] at hlt
  exact hlt

theorem chosen_of_pick {n c digits : Nat} (hpos : 0 < n) (hn : Representable n)
    (hdigits : 0 < digits) (hfew : digits ≤ 17)
    (hpick : pick? n (decimalExponent n - digits) = some c) :
    Chosen n (stripZeros 20 ⟨c, decimalExponent n - digits⟩) := by
  obtain ⟨hlow, hhigh, hfrom, hto⟩ := decimalExponent_spec hpos hn.lt_limit
  obtain ⟨hreads, hle⟩ := pick?_spec hpick
  obtain ⟨hunits, hsmaller, hexponent, hshifts⟩ :=
    stripZeros_spec 20 ⟨c, decimalExponent n - digits⟩
  dsimp only at hunits hsmaller hexponent hshifts
  have hquotient := quotient_lt hhigh digits
  have hceil : 10 ^ digits ≤ 10 ^ 17 := Nat.pow_le_pow_right (by decide) hfew
  constructor
  · rw [hunits]
    exact hreads
  · omega
  · omega
  · omega

theorem shortestFrom_chosen {n : Nat} (hn : Representable n) (hpos : 0 < n) {fuel digits : Nat}
    (hfuel : 0 < fuel) (hdigits : 0 < digits) (h : fuel + digits = 18) :
    Chosen n (shortestFrom n (decimalExponent n) fuel digits) := by
  induction fuel generalizing digits with
  | zero => exact absurd hfuel (Nat.lt_irrefl 0)
  | succ fuel ih =>
    rw [shortestFrom]
    cases hpick : pick? n (decimalExponent n - digits) with
    | some c => exact chosen_of_pick hpos hn hdigits (by omega) hpick
    | none =>
      cases fuel with
      | zero =>
        obtain rfl : digits = 17 := by omega
        have hsome : (pick? n (decimalExponent n - (17 : Nat))).isSome := by
          apply pick?_isSome hn hpos
          have hsmall := (decimalExponent_spec hpos hn.lt_limit).1
          have hshift : decimalExponent n - (17 : Nat) + (16 : Nat) = decimalExponent n - 1 := by
            omega
          rw [← hshift, ← units_shift, units_mul, Nat.one_mul, mul_comm] at hsmall
          exact_mod_cast hsmall
        rw [hpick] at hsome
        cases hsome
      | succ fuel => exact ih (by omega) (by omega) (by omega)

/-- The shortest decimal of a number reads back. -/
theorem shortest_chosen {n : Nat} (hn : Representable n) (hpos : 0 < n) : Chosen n (shortest n) := by
  rw [shortest, if_neg hpos.ne']
  exact shortestFrom_chosen hn hpos (by decide) (by decide) (by decide)

end Signum.Decimal
