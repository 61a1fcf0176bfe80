import Mathlib.Tactic.Linarith
import Mathlib.Tactic.NormNum
import Mathlib.Tactic.Positivity
import Mathlib.Tactic.Ring
import Signum.Number.Binary64
/- Rounding to the nearest number of the format.

   Around a count of units the numbers of the format lie `gap` units apart. What rounds to a
   number of the format reaches half way to its neighbours, and the lower neighbour of a power
   of two is only half as far; the ends belong to it when its significand is even (`RoundsTo`).
   `nearest` finds the number that a ratio rounds to (`nearest_eq`), whatever the ratio is
   written with. Numbers come from bit patterns and go back to them (`toBits_ofBits`). -/
namespace Signum.Binary64

/-! The numbers of the format. -/

/-- How far apart the numbers of the format are around `n` units. -/
def gap (n : Nat) : Nat := 2 ^ excess n

/-- The units of a finite number of the format: a multiple of the distance, and not too large. -/
structure Representable (n : Nat) : Prop where
  exact : gap n ∣ n
  lt_limit : n < limit

theorem limit_eq : limit = 2 ^ (1024 + unitShift) := by
  rw [limit, Nat.pow_eq]

theorem gap_pos (n : Nat) : 0 < gap n := Nat.two_pow_pos _

theorem excess_le_iff {n k : Nat} : excess n ≤ k ↔ n < 2 ^ (53 + k) := by
  unfold excess precision
  by_cases hn : n = 0
  · subst hn
    simp
  · rw [← Nat.log2_lt hn]
    omega

theorem lt_excess_iff {n k : Nat} : k < excess n ↔ 2 ^ (53 + k) ≤ n := by
  rw [← Nat.not_le, excess_le_iff, Nat.not_lt]

theorem excess_eq {n k : Nat} (hlow : 2 ^ (52 + k) ≤ n ∨ k = 0) (hhigh : n < 2 ^ (53 + k)) :
    excess n = k := by
  have hle : excess n ≤ k := excess_le_iff.mpr hhigh
  rcases hlow with hlow | rfl
  · cases k with
    | zero => omega
    | succ k =>
      have hlt : k < excess n := by
        rw [lt_excess_iff, show 53 + k = 52 + (k + 1) by omega]
        exact hlow
      omega
  · omega

/-! What rounds to a number. -/

/-- Half the distance to the lower neighbour, in quarters of a unit. -/
def reachBelow (n : Nat) : Nat := if 0 < excess n ∧ n = 2 ^ n.log2 then gap n else 2 * gap n

/-- The rational number of units rounds to `n` units. -/
def RoundsTo (n : Nat) (v : ℚ) : Prop :=
  if n / gap n % 2 = 0 then
    ((4 * n - reachBelow n : Nat) : ℚ) ≤ 4 * v ∧ 4 * v ≤ ((4 * n + 2 * gap n : Nat) : ℚ)
  else ((4 * n - reachBelow n : Nat) : ℚ) < 4 * v ∧ 4 * v < ((4 * n + 2 * gap n : Nat) : ℚ)

theorem RoundsTo.bounds {n : Nat} {v : ℚ} (h : RoundsTo n v) :
    ((4 * n - reachBelow n : Nat) : ℚ) ≤ 4 * v ∧ 4 * v ≤ ((4 * n + 2 * gap n : Nat) : ℚ) := by
  unfold RoundsTo at h
  split at h
  · exact h
  · exact ⟨le_of_lt h.1, le_of_lt h.2⟩

theorem RoundsTo.strict {n : Nat} {v : ℚ} (h : RoundsTo n v) (hodd : n / gap n % 2 = 1) :
    ((4 * n - reachBelow n : Nat) : ℚ) < 4 * v ∧ 4 * v < ((4 * n + 2 * gap n : Nat) : ℚ) := by
  unfold RoundsTo at h
  rwa [if_neg (by omega)] at h

theorem RoundsTo.of_strict {n : Nat} {v : ℚ} (hlow : ((4 * n - reachBelow n : Nat) : ℚ) < 4 * v)
    (hhigh : 4 * v < ((4 * n + 2 * gap n : Nat) : ℚ)) : RoundsTo n v := by
  unfold RoundsTo
  split
  · exact ⟨le_of_lt hlow, le_of_lt hhigh⟩
  · exact ⟨hlow, hhigh⟩

theorem reachBelow_le (n : Nat) : reachBelow n ≤ 2 * gap n := by
  unfold reachBelow
  split <;> omega

/-- A quotient is rounded to `m` when it is no further than half from it, and less when `m` is
odd. -/
theorem roundQuotient_eq {num den m : Nat} (hden : 0 < den)
    (hlow : 2 * (m * den) ≤ 2 * num + den) (hhigh : 2 * num ≤ 2 * (m * den) + den)
    (hodd : m % 2 = 1 → 2 * (m * den) < 2 * num + den ∧ 2 * num < 2 * (m * den) + den) :
    roundQuotient num den = m := by
  have hnum := Nat.div_add_mod num den
  have hlt := Nat.mod_lt num hden
  rw [Nat.mul_comm] at hnum
  unfold roundQuotient
  dsimp only
  generalize num / den = q at *
  generalize num % den = r at *
  have hle : q ≤ m := by
    by_contra hlt
    have hmul : (m + 1) * den ≤ q * den := Nat.mul_le_mul_right den (by omega)
    rw [Nat.succ_mul] at hmul
    omega
  have hge : m ≤ q + 1 := by
    by_contra hlt
    have hmul : (q + 2) * den ≤ m * den := Nat.mul_le_mul_right den (by omega)
    rw [Nat.add_mul] at hmul
    omega
  rcases Nat.lt_or_ge q m with hqm | hqm
  · obtain rfl : m = q + 1 := by omega
    have hsucc : (q + 1) * den = q * den + den := Nat.succ_mul q den
    rw [hsucc] at hlow hhigh hodd
    split_ifs <;> omega
  · obtain rfl : m = q := by omega
    split_ifs <;> omega

/-- The ends of what rounds to a number, without fractions. -/
theorem RoundsTo.cross {n num den : Nat} (hden : 0 < den) (h : RoundsTo n (num / den)) :
    (4 * n - reachBelow n) * den ≤ 4 * num ∧ 4 * num ≤ (4 * n + 2 * gap n) * den := by
  have hpos : (0 : ℚ) < den := by exact_mod_cast hden
  obtain ⟨hlow, hhigh⟩ := h.bounds
  rw [← mul_div_assoc, le_div_iff₀ hpos] at hlow
  rw [← mul_div_assoc, div_le_iff₀ hpos] at hhigh
  constructor
  · exact_mod_cast hlow
  · exact_mod_cast hhigh

theorem RoundsTo.cross_strict {n num den : Nat} (hden : 0 < den) (h : RoundsTo n (num / den))
    (hodd : n / gap n % 2 = 1) :
    (4 * n - reachBelow n) * den < 4 * num ∧ 4 * num < (4 * n + 2 * gap n) * den := by
  have hpos : (0 : ℚ) < den := by exact_mod_cast hden
  obtain ⟨hlow, hhigh⟩ := h.strict hodd
  rw [← mul_div_assoc, lt_div_iff₀ hpos] at hlow
  rw [← mul_div_assoc, div_lt_iff₀ hpos] at hhigh
  constructor
  · exact_mod_cast hlow
  · exact_mod_cast hhigh

/-- The significand is found again when the ratio is cut at the same place. -/
theorem roundQuotient_same {n num den : Nat} (hn : gap n ∣ n) (hden : 0 < den)
    (h : RoundsTo n (num / den)) : roundQuotient num (den * gap n) * gap n = n := by
  have hg := gap_pos n
  have hreach := reachBelow_le n
  have hcross := h.cross hden
  have hbelow : (4 * n - 2 * gap n) * den ≤ (4 * n - reachBelow n) * den :=
    Nat.mul_le_mul_right den (by omega)
  have hmul : n / gap n * (den * gap n) = n * den := by
    rw [Nat.mul_comm den, ← Nat.mul_assoc, Nat.div_mul_cancel hn]
  simp only [Nat.add_mul, Nat.sub_mul, Nat.mul_assoc] at hcross hbelow
  have hquotient : roundQuotient num (den * gap n) = n / gap n := by
    apply roundQuotient_eq (Nat.mul_pos hden hg)
    · rw [hmul, Nat.mul_comm den]
      omega
    · rw [hmul, Nat.mul_comm den]
      omega
    · intro hodd
      have hstrict := h.cross_strict hden hodd
      simp only [Nat.add_mul, Nat.sub_mul, Nat.mul_assoc] at hstrict
      rw [hmul, Nat.mul_comm den]
      omega
  rw [hquotient, Nat.div_mul_cancel hn]

/-- Different multiples of a distance are that far apart. -/
theorem add_le_of_dvd {g x y : Nat} (hx : g ∣ x) (hy : g ∣ y) (h : x < y) : x + g ≤ y := by
  obtain ⟨d, hd⟩ := Nat.dvd_sub hy hx
  have hpos : 0 < d := by
    apply Nat.pos_of_ne_zero
    rintro rfl
    omega
  have hle : g * 1 ≤ g * d := Nat.mul_le_mul_left g hpos
  omega

theorem gap_succ {n k : Nat} (hk : excess n = k + 1) : gap n = 2 * 2 ^ k := by
  unfold gap
  rw [hk, Nat.pow_succ, Nat.mul_comm]

theorem log2_of_excess {n k : Nat} (hk : excess n = k + 1) : n.log2 = 53 + k := by
  unfold excess precision at hk
  omega

/-- A number above its power of two is a whole distance above it. -/
theorem power_add_gap_le {n k : Nat} (hn : gap n ∣ n) (hk : excess n = k + 1)
    (h : 2 ^ (53 + k) < n) : 2 ^ (53 + k) + gap n ≤ n := by
  refine add_le_of_dvd ?_ hn h
  unfold gap
  rw [hk]
  exact Nat.pow_dvd_pow 2 (by omega)

/-- A ratio that rounds to a number but stands below its power of two: the number is the power,
and the ratio is above all but a quarter of the distance. -/
theorem RoundsTo.power {n num den k : Nat} (hn : gap n ∣ n) (hden : 0 < den)
    (h : RoundsTo n (num / den)) (hk : excess n = k + 1) (hlt : num < 2 ^ (53 + k) * den) :
    n = 2 ^ (53 + k) ∧ reachBelow n = gap n := by
  have hcross := (h.cross hden).1
  have hfrom : 2 ^ (53 + k) ≤ n := lt_excess_iff.mp (by omega)
  unfold reachBelow
  rw [log2_of_excess hk]
  by_cases hpower : n = 2 ^ (53 + k)
  · exact ⟨hpower, if_pos ⟨by omega, hpower⟩⟩
  · have hapart := power_add_gap_le hn hk (by omega)
    have hreach := reachBelow_le n
    have hle : 4 * 2 ^ (53 + k) * den ≤ (4 * n - reachBelow n) * den :=
      Nat.mul_le_mul_right den (by omega)
    rw [Nat.mul_assoc] at hle
    omega

theorem excess_mono {m n : Nat} (h : m ≤ n) : excess m ≤ excess n :=
  excess_le_iff.mpr (Nat.lt_of_le_of_lt h (excess_le_iff.mp (Nat.le_refl _)))

/-- A number of the format ends before the next. -/
theorem add_gap_le {m n : Nat} (hm : Representable m) (hn : Representable n) (h : m < n) :
    m + gap m ≤ n :=
  add_le_of_dvd hm.exact (dvd_trans (Nat.pow_dvd_pow 2 (excess_mono h.le)) hn.exact) h

/-- Below a power of two the numbers are half as far apart as above it. -/
theorem power_sub_ge {m k : Nat} (hm : m + gap m ≤ 2 ^ (53 + k)) (h : m < 2 ^ (53 + k)) :
    2 ^ k ≤ 2 ^ (53 + k) - m := by
  have hle : excess m ≤ k := excess_le_iff.mpr h
  rcases Nat.eq_or_lt_of_le hle with hsame | hless
  · have hgap : gap m = 2 ^ k := congrArg (2 ^ ·) hsame
    omega
  · -- the number is less than half of the power
    obtain ⟨j, rfl⟩ : ∃ j, k = j + 1 := ⟨k - 1, by omega⟩
    have hhalf : m < 2 ^ (53 + j) := excess_le_iff.mp (by omega)
    have hdouble : 2 ^ (53 + (j + 1)) = 2 * 2 ^ (53 + j) := by
      rw [← Nat.add_assoc, Nat.pow_succ, Nat.mul_comm]
    have hpower : 2 ^ (j + 1) ≤ 2 ^ (53 + j) := Nat.pow_le_pow_right (by omega) (by omega)
    omega

/-- What rounds to a number lies nearer to it than any smaller number of the format. -/
theorem reachBelow_le_sub {m n : Nat} (hm : Representable m) (hn : Representable n) (h : m < n) :
    reachBelow n ≤ 2 * (n - m) := by
  have hnext := add_gap_le hm hn h
  have hreach := reachBelow_le n
  rcases Nat.eq_or_lt_of_le (excess_mono h.le) with hsame | hless
  · have hgap : gap m = gap n := congrArg (2 ^ ·) hsame
    omega
  · -- `n` is at or above a power of two, and `m` below it
    obtain ⟨k, hk⟩ : ∃ k, excess n = k + 1 := ⟨excess n - 1, by omega⟩
    have hbelow : m < 2 ^ (53 + k) := excess_le_iff.mp (by omega)
    have hfrom : 2 ^ (53 + k) ≤ n := lt_excess_iff.mp (by omega)
    rcases Nat.eq_or_lt_of_le hfrom with hpower | habove
    · have hapart := power_sub_ge (hpower ▸ hnext) hbelow
      have hgap := gap_succ hk
      unfold reachBelow
      rw [log2_of_excess hk, if_pos ⟨by omega, hpower.symm⟩]
      omega
    · have hapart := power_add_gap_le hn.exact hk habove
      omega

section Order
variable {m n : Nat} {v : ℚ}

/-- A ratio that does not reach above a number rounds to it or to one below. -/
theorem RoundsTo.le (hn : Representable n) (hm : Representable m) (h : RoundsTo n v)
    (hv : 4 * v < ((4 * m + 2 * gap m : Nat) : ℚ)) : n ≤ m := by
  by_contra hlt
  have hreach := reachBelow_le_sub hm hn (by omega)
  have hnext := add_gap_le hm hn (by omega)
  have hends : 4 * n - reachBelow n < 4 * m + 2 * gap m := by
    exact_mod_cast lt_of_le_of_lt h.bounds.1 hv
  omega

/-- A ratio that does not reach below a number rounds to it or to one above. -/
theorem RoundsTo.ge (hn : Representable n) (hm : Representable m) (h : RoundsTo n v)
    (hv : ((4 * m - reachBelow m : Nat) : ℚ) < 4 * v) : m ≤ n := by
  by_contra hlt
  have hreach := reachBelow_le_sub hn hm (by omega)
  have hnext := add_gap_le hn hm (by omega)
  have hends : 4 * m - reachBelow m < 4 * n + 2 * gap n := by
    exact_mod_cast lt_of_lt_of_le hv h.bounds.2
  omega

end Order

/-- Cut one place further down, the ratio is rounded up to the power of two. -/
theorem roundQuotient_finer {n num den k : Nat} (hden : 0 < den) (hn : n = 2 ^ (53 + k))
    (hlow : (4 * n - gap n) * den ≤ 4 * num) (hk : excess n = k + 1)
    (hlt : num < 2 ^ (53 + k) * den) :
    2 ^ (52 + k) ≤ num / den ∧ roundQuotient num (den * 2 ^ k) * 2 ^ k = n := by
  have hpow (i : Nat) : 2 ^ (i + k) = 2 ^ i * 2 ^ k := Nat.pow_add 2 i k
  rw [gap_succ hk, hn, hpow] at hlow
  rw [hpow] at hlt hn
  rw [hpow, Nat.le_div_iff_mul_le hden]
  have hunits : 0 < 2 ^ k * den := Nat.mul_pos (Nat.two_pow_pos k) hden
  simp only [Nat.sub_mul, Nat.mul_assoc] at hlow hlt ⊢
  constructor
  · omega
  · rw [hn]
    congr 1
    apply roundQuotient_eq (Nat.mul_pos hden (Nat.two_pow_pos k))
    · rw [Nat.mul_comm den]
      omega
    · rw [Nat.mul_comm den]
      omega
    · omega

/-- The number of the format nearest to a ratio that rounds to it. -/
theorem nearest_eq {n num den : Nat} (hn : gap n ∣ n) (hden : 0 < den)
    (h : RoundsTo n (num / den)) : nearest num den = n := by
  obtain ⟨k, hk⟩ : ∃ k, excess n = k := ⟨_, rfl⟩
  have hhigh := (h.cross hden).2
  have hbelow : n < 2 ^ (53 + k) := excess_le_iff.mp (by omega)
  have hceil : gap n ∣ 2 ^ (53 + k) := by
    unfold gap
    rw [hk]
    exact Nat.pow_dvd_pow 2 (by omega)
  -- the ratio is below the power of two above `n`, so no more bits are cut off than from `n`
  have hle : excess (num / den) ≤ k := by
    rw [excess_le_iff, Nat.div_lt_iff_lt_mul hden]
    have hapart := add_le_of_dvd hn hceil hbelow
    have hroom : (4 * n + 2 * gap n) * den + 2 * gap n * den ≤ 4 * 2 ^ (53 + k) * den := by
      rw [← Nat.add_mul]
      exact Nat.mul_le_mul_right den (by omega)
    have hunits := Nat.mul_pos (gap_pos n) hden
    rw [Nat.mul_assoc 2, Nat.mul_assoc 4] at hroom
    omega
  show roundQuotient num (den * 2 ^ excess (num / den)) * 2 ^ excess (num / den) = n
  rcases Nat.lt_or_ge (excess (num / den)) k with hlt | hge
  · -- one bit fewer is cut off: `n` is a power of two, and the ratio rounds up to it
    obtain ⟨k, rfl⟩ : ∃ j, k = j + 1 := ⟨k - 1, by omega⟩
    have hcut : num < 2 ^ (53 + k) * den := by
      rw [← Nat.div_lt_iff_lt_mul hden, ← excess_le_iff]
      omega
    obtain ⟨hpower, hreach⟩ := h.power hn hden hk hcut
    have hlow := (h.cross hden).1
    rw [hreach] at hlow
    obtain ⟨hfrom, hround⟩ := roundQuotient_finer hden hpower hlow hk hcut
    have hsame : excess (num / den) = k := by
      apply excess_eq (.inl hfrom)
      rw [Nat.div_lt_iff_lt_mul hden]
      exact hcut
    rw [hsame]
    exact hround
  · have hsame : excess (num / den) = excess n := by omega
    rw [hsame]
    exact roundQuotient_same hn hden h

theorem ofRatio_eq {n num den : Nat} (negative : Bool) (hn : Representable n) (hden : 0 < den)
    (h : RoundsTo n (num / den)) : ofRatio negative num den = .finite negative n := by
  unfold ofRatio
  rw [nearest_eq hn.exact hden h]
  exact if_pos hn.lt_limit

/-! Bit patterns. -/

theorem representable_of_fields {m k : Nat} (hm : m < 2 ^ 53) (hk : k ≤ 2045)
    (h : 2 ^ 52 ≤ m ∨ k = 0) : Representable (m * 2 ^ k) := by
  have hpow : m * 2 ^ k < 2 ^ (53 + k) := by
    rw [Nat.pow_add]
    exact Nat.mul_lt_mul_of_pos_right hm (Nat.two_pow_pos k)
  have hexcess : excess (m * 2 ^ k) = k := by
    apply excess_eq _ hpow
    rcases h with h | h
    · left
      rw [Nat.pow_add]
      exact Nat.mul_le_mul_right _ h
    · exact .inr h
  constructor
  · unfold gap
    rw [hexcess]
    exact Nat.dvd_mul_left _ m
  · apply Nat.lt_of_lt_of_le hpow
    rw [limit_eq]
    apply Nat.pow_le_pow_right (by decide)
    unfold unitShift
    omega

/-- The parts of a bit pattern: the sign, the exponent and the fraction. -/
def signField (bits : UInt64) : Bool := bits.toNat / 2 ^ 63 % 2 = 1
def exponentField (bits : UInt64) : Nat := bits.toNat / 2 ^ 52 % 2048
def fractionField (bits : UInt64) : Nat := bits.toNat % 2 ^ 52

theorem fractionField_lt (bits : UInt64) : fractionField bits < 2 ^ 52 := Nat.mod_lt _ (by decide)

theorem exponentField_lt (bits : UInt64) : exponentField bits < 2048 := Nat.mod_lt _ (by decide)

theorem toNat_fields (bits : UInt64) :
    bits.toNat = (if signField bits then 2 ^ 63 else 0) + exponentField bits * 2 ^ 52
      + fractionField bits := by
  have hlt := bits.toNat_lt
  simp only [signField, exponentField, fractionField, decide_eq_true_eq]
  split <;> omega

theorem ofBits_eq (bits : UInt64) : ofBits bits =
    if exponentField bits = 2047 then
      if fractionField bits = 0 then .infinite (signField bits) else .nan
    else if exponentField bits = 0 then .finite (signField bits) (fractionField bits)
    else .finite (signField bits)
      ((2 ^ 52 + fractionField bits) * 2 ^ (exponentField bits - 1)) := by
  rfl

/-- The numbers that bit patterns stand for belong to the format. -/
theorem representable_ofBits {bits : UInt64} {negative : Bool} {n : Nat}
    (h : ofBits bits = .finite negative n) : Representable n := by
  have hfraction := fractionField_lt bits
  have hexponent := exponentField_lt bits
  rw [ofBits_eq] at h
  split at h
  · split at h <;> cases h
  · split at h
    · cases h
      have hfields := representable_of_fields (m := fractionField bits) (k := 0) (by omega)
        (by omega) (.inr rfl)
      rwa [Nat.pow_zero, Nat.mul_one] at hfields
    · cases h
      exact representable_of_fields (by omega) (by omega) (.inl (Nat.le_add_right _ _))

theorem toNat_signBit_or {x : UInt64} (negative : Bool) (hx : x.toNat < 2 ^ 63) :
    (toBits.signBit negative ||| x).toNat = (if negative then 2 ^ 63 else 0) + x.toNat := by
  rw [UInt64.toNat_or]
  cases negative with
  | false => simp [toBits.signBit]
  | true =>
    have hor := Nat.two_pow_add_eq_or_of_lt hx 1
    rw [Nat.mul_one] at hor
    exact hor.symm

theorem toNat_signed {negative : Bool} {n : Nat} (hn : n < 2 ^ 63) :
    (toBits.signBit negative ||| n.toUInt64).toNat = (if negative then 2 ^ 63 else 0) + n := by
  have hsame : n.toUInt64.toNat = n := Nat.mod_eq_of_lt (by omega)
  rw [toNat_signBit_or negative (by rw [hsame]; exact hn), hsame]

theorem log2_normal {m k : Nat} (hlow : 2 ^ 52 ≤ m) (hhigh : m < 2 ^ 53) :
    (m * 2 ^ k).log2 = 52 + k := by
  have hpos : m * 2 ^ k ≠ 0 := (Nat.mul_pos (by omega) (Nat.two_pow_pos k)).ne'
  rw [Nat.log2_eq_iff hpos, Nat.pow_add, show 52 + k + 1 = 53 + k by omega, Nat.pow_add]
  constructor
  · exact Nat.mul_le_mul_right _ hlow
  · exact Nat.mul_lt_mul_of_pos_right hhigh (Nat.two_pow_pos k)

theorem toBits_finite (negative : Bool) (n : Nat) : toBits (.finite negative n) =
    if n < 2 ^ 52 then toBits.signBit negative ||| n.toUInt64
    else toBits.signBit negative |||
      ((n.log2 - 52 + 1) * 2 ^ 52 + (n / 2 ^ (n.log2 - 52) - 2 ^ 52)).toUInt64 := by
  simp only [toBits, Nat.pow_eq]

/-- A number has one bit pattern, except for what is no number. -/
theorem toBits_ofBits {bits : UInt64} (h : ofBits bits ≠ .nan) : (ofBits bits).toBits = bits := by
  have hfraction := fractionField_lt bits
  have hexponent := exponentField_lt bits
  have hfields := toNat_fields bits
  apply UInt64.toNat_inj.mp
  rw [ofBits_eq] at h ⊢
  split
  · next hspecial =>
    rw [if_pos hspecial] at h
    split
    · next hzero =>
      show (toBits.signBit (signField bits) ||| 0x7FF0000000000000).toNat = _
      rw [toNat_signBit_or _ (by decide), hfields, hspecial, hzero]
      rfl
    · next hnan => exact absurd (if_neg hnan) h
  · split
    · next hsmall =>
      rw [toBits_finite, if_pos hfraction, toNat_signed (by omega), hfields, hsmall]
      omega
    · next hnormal =>
      have hlog := log2_normal (m := 2 ^ 52 + fractionField bits) (k := exponentField bits - 1)
        (by omega) (by omega)
      have hlarge : ¬(2 ^ 52 + fractionField bits) * 2 ^ (exponentField bits - 1) < 2 ^ 52 := by
        have hle := Nat.le_mul_of_pos_right (2 ^ 52 + fractionField bits)
          (Nat.two_pow_pos (exponentField bits - 1))
        omega
      have hdiv : (2 ^ 52 + fractionField bits) * 2 ^ (exponentField bits - 1) /
          2 ^ (exponentField bits - 1) = 2 ^ 52 + fractionField bits :=
        Nat.mul_div_cancel _ (Nat.two_pow_pos _)
      rw [toBits_finite, if_neg hlarge, hlog, Nat.add_sub_cancel_left, hdiv,
        Nat.add_sub_cancel_left, toNat_signed (by omega), hfields]
      omega

end Signum.Binary64
