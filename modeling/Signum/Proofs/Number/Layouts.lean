import Signum.Proofs.Number.Spelling
/- The layouts of a decimal.

   The digits of a decimal stand around a point (`plain_spells`) or before a power of ten
   (`scientific_spells`), and both layouts spell the decimal. A program prints one of the two
   (`Decimal.layout`). It takes the power from the library's text, which is cut at the mark, read
   and written again (`rewritePower_scientific`), and it tells the layouts apart by comparing the
   number with two others, which is to ask for the exponent of the leading digit
   (`Edge.le_leading_iff`). -/
namespace Signum

namespace Bytes

/-- A number below a power of ten has no more digits than the power. -/
theorem length_ofNat {n : Nat} : ∀ {k : Nat}, n < 10 ^ (k + 1) → (ofNat n).length ≤ k + 1 := by
  fun_induction ofNat n with
  | case1 n h =>
    intro k _
    simp
  | case2 n h ih =>
    intro k hn
    cases k with
    | zero => omega
    | succ k =>
      have hdiv : n / 10 < 10 ^ (k + 1) := by
        rw [Nat.pow_succ] at hn
        omega
      have hle := ih hdiv
      rw [List.length_append, List.length_singleton]
      omega

theorem length_ofInt {e : Int} {k : Nat} (h : e.natAbs < 10 ^ (k + 1)) :
    (ofInt e).length ≤ k + 2 := by
  cases e with
  | ofNat n =>
    have hle := length_ofNat (n := n) (k := k) h
    exact Nat.le_succ_of_le hle
  | negSucc n => exact Nat.succ_le_succ (length_ofNat (n := n + 1) (k := k) h)

theorem isDigit_replicate (k : Nat) : ∀ b ∈ (List.replicate k 48 : Bytes), isDigit b = true := by
  intro b hb
  rw [List.eq_of_mem_replicate hb]
  rfl

theorem isDigit_zero : ∀ b ∈ ([48] : Bytes), isDigit b = true := isDigit_replicate 1

/-- Digits have no point. -/
theorem contains_point {text : Bytes} (h : ∀ b ∈ text, isDigit b = true) :
    text.contains 46 = false := by
  rw [← Bool.not_eq_true, List.contains_iff_mem]
  intro hmem
  exact absurd (h 46 hmem) (by decide)

theorem toNat_lt {ds : Bytes} (h : ∀ b ∈ ds, isDigit b = true) : toNat ds < 10 ^ ds.length := by
  induction ds with
  | nil => exact Nat.one_pos
  | cons d ds ih =>
    obtain ⟨hd, hds⟩ := List.forall_mem_cons.mp h
    have hrange := (isDigit_iff d).mp hd
    have hlt := ih hds
    have hmul : (d.toNat - 48) * 10 ^ ds.length ≤ 9 * 10 ^ ds.length :=
      Nat.mul_le_mul_right _ (by omega)
    rw [toNat_cons, List.length_cons, Nat.pow_succ]
    omega

end Bytes

namespace Decimal

open Binary64 (gap reachBelow Representable)

/-- The text spells a decimal of the same value. -/
def SpelledBy (d : Decimal) (text : Bytes) : Prop :=
  ∃ s : Spelling, text = s.text ∧
    units s.decimal.coefficient s.decimal.exponent = units d.coefficient d.exponent

theorem digits_ne (d : Decimal) : d.digits ≠ [] := (ofNat_digits d.coefficient).1

theorem isDigit_digits (d : Decimal) : ∀ b ∈ d.digits, Bytes.isDigit b = true :=
  (ofNat_digits d.coefficient).2

theorem toNat_digits (d : Decimal) : Bytes.toNat d.digits = d.coefficient :=
  toNat_ofNat d.coefficient

/-- A whole number: the zeros of the power stand behind the digits. -/
theorem whole_spells (d : Decimal) {k : Nat} (hexp : d.exponent = .ofNat k) :
    d.SpelledBy (withPoint (d.digits ++ List.replicate k 48)) := by
  have hall : ∀ b ∈ d.digits ++ List.replicate k 48, Bytes.isDigit b = true :=
    List.forall_mem_append.mpr ⟨d.isDigit_digits, Bytes.isDigit_replicate k⟩
  refine ⟨⟨d.digits ++ List.replicate k 48, [48], none, by simp [d.digits_ne], hall, by simp,
    Bytes.isDigit_zero, by simp⟩, ?_, ?_⟩
  · unfold withPoint
    rw [Bytes.contains_point hall]
    rfl
  · -- the zero behind the point is one more power of ten
    have hvalue : Bytes.toNat (d.digits ++ List.replicate k 48 ++ [48]) =
        d.coefficient * 10 ^ (k + 1) := by
      rw [List.append_assoc, ← List.replicate_succ', Bytes.toNat_append, d.toNat_digits,
        Bytes.toNat_replicate_zero, List.length_replicate]
      rfl
    simp only [Spelling.decimal, hvalue, units_shift]
    congr 1
    simp only [Option.getD_none, List.length_singleton]
    rw [hexp, Int.ofNat_eq_natCast]
    omega

/-- A number below one: zeros fill the places that its digits leave behind the point. -/
theorem fraction_spells (d : Decimal) {k : Nat} (hexp : d.exponent = .negSucc k)
    (hle : d.digits.length ≤ k + 1) :
    d.SpelledBy (withPoint
      ("0." ++ (List.replicate (k + 1 - d.digits.length) 48 : Bytes) ++ d.digits)) := by
  have hall : ∀ b ∈ List.replicate (k + 1 - d.digits.length) 48 ++ d.digits,
      Bytes.isDigit b = true :=
    List.forall_mem_append.mpr ⟨Bytes.isDigit_replicate _, d.isDigit_digits⟩
  refine ⟨⟨[48], List.replicate (k + 1 - d.digits.length) 48 ++ d.digits, none, by simp,
    Bytes.isDigit_zero, by simp [d.digits_ne], hall, by simp⟩, ?_, ?_⟩
  · unfold withPoint Spelling.text Spelling.tail
    have hlead : Bytes.ofString "0." = [48, 46] := by decide
    rw [hlead]
    simp
  · have hvalue : Bytes.toNat ([48] ++ (List.replicate (k + 1 - d.digits.length) 48 ++ d.digits))
        = d.coefficient := by
      rw [← List.append_assoc, List.singleton_append, ← List.replicate_succ,
        Bytes.toNat_append, Bytes.toNat_replicate_zero, d.toNat_digits]
      omega
    simp only [Spelling.decimal, hvalue, hexp]
    congr 1
    simp only [Option.getD_none, List.length_append, List.length_replicate]
    omega

/-- A number above one with a fraction: the point falls between two of its digits. -/
theorem pointed_spells (d : Decimal) {k : Nat} (hexp : d.exponent = .negSucc k)
    (hlt : k + 1 < d.digits.length) :
    d.SpelledBy (withPoint (d.digits.take (d.digits.length - (k + 1)) ++ "." ++
      d.digits.drop (d.digits.length - (k + 1)))) := by
  have hpoint : Bytes.ofString "." = [46] := by decide
  refine ⟨⟨d.digits.take (d.digits.length - (k + 1)), d.digits.drop (d.digits.length - (k + 1)),
    none, ?_, ?_, ?_, ?_, by simp⟩, ?_, ?_⟩
  · apply List.ne_nil_of_length_pos
    rw [List.length_take]
    omega
  · exact fun b hb => d.isDigit_digits b (List.mem_of_mem_take hb)
  · apply List.ne_nil_of_length_pos
    rw [List.length_drop]
    omega
  · exact fun b hb => d.isDigit_digits b (List.mem_of_mem_drop hb)
  · unfold withPoint Spelling.text Spelling.tail
    rw [hpoint]
    simp
  · simp only [Spelling.decimal, List.take_append_drop, d.toNat_digits, hexp]
    congr 1
    simp only [Option.getD_none, List.length_drop]
    omega

theorem plain_spells (d : Decimal) : d.SpelledBy (withPoint d.plain) := by
  unfold plain
  cases hexp : d.exponent with
  | ofNat k => exact d.whole_spells hexp
  | negSucc k =>
    dsimp only
    split
    · next hle => exact d.fraction_spells hexp hle
    · next hlt => exact d.pointed_spells hexp (Nat.not_le.mp hlt)

theorem scientific_spells (d : Decimal) (h : d.leading.natAbs < 10000) :
    d.SpelledBy (withPoint d.mantissa ++ "E" ++ Bytes.ofInt d.leading) := by
  have hdigits := d.isDigit_digits
  have hvalue := d.toNat_digits
  have hE : Bytes.ofString "E" = [69] := by decide
  have hleading : d.leading = d.exponent + d.digits.length - 1 := rfl
  obtain ⟨x, rest, hcons⟩ := List.exists_cons_of_ne_nil d.digits_ne
  have hx : ∀ b ∈ [x], Bytes.isDigit b = true := by
    intro b hb
    apply hdigits
    rw [hcons, List.mem_singleton.mp hb]
    exact List.mem_cons_self
  have hpower : ∀ e ∈ some d.leading, e.natAbs < 10000 := by
    rintro e ⟨⟩
    exact h
  unfold mantissa
  rw [hcons] at hvalue hleading ⊢
  -- a single digit is written with a zero after the point
  cases rest with
  | nil =>
    refine ⟨⟨[x], [48], some d.leading, by simp, hx, by simp, Bytes.isDigit_zero, hpower⟩, ?_, ?_⟩
    · unfold withPoint
      rw [Bytes.contains_point hx, hE]
      rfl
    · have hten : Bytes.toNat ([x] ++ [48]) = d.coefficient * 10 ^ 1 := by
        rw [Bytes.toNat_append, hvalue]
        rfl
      simp only [Spelling.decimal, hten, units_shift]
      congr 1
      simp only [Option.getD_some, List.length_singleton] at hleading ⊢
      omega
  | cons y rest =>
    have hrest : ∀ b ∈ y :: rest, Bytes.isDigit b = true := by
      intro b hb
      apply hdigits
      rw [hcons]
      exact List.mem_cons_of_mem x hb
    refine ⟨⟨[x], y :: rest, some d.leading, by simp, hx, by simp, hrest, hpower⟩, ?_, ?_⟩
    · unfold withPoint Spelling.text Spelling.tail
      rw [hE]
      simp
    · simp only [Spelling.decimal, List.singleton_append, hvalue]
      congr 1
      simp only [Option.getD_some, List.length_cons] at hleading ⊢
      push_cast at hleading ⊢
      omega

/-! The library's power of ten. -/

/-- What a program prints for a decimal, without the sign. -/
def layout (d : Decimal) : Bytes :=
  if -3 ≤ d.leading ∧ d.leading < 7 then withPoint d.plain
  else withPoint d.mantissa ++ "E" ++ Bytes.ofInt d.leading

theorem layout_spells (d : Decimal) (h : d.leading.natAbs < 10000) : d.SpelledBy d.layout := by
  unfold layout
  split
  · exact d.plain_spells
  · exact d.scientific_spells h

theorem withPoint_sign (negative : Bool) (text : Bytes) :
    withPoint (Binary64.signText negative ++ text) =
      Binary64.signText negative ++ withPoint text := by
  have hcontains : (Binary64.signText negative ++ text).contains 46 = text.contains 46 := by
    cases negative <;> rfl
  unfold withPoint
  rw [hcontains]
  split
  · rfl
  · exact List.append_assoc ..

/-- The mark is not among the digits. -/
theorem not_mem_mantissa (d : Decimal) : 69 ∉ d.mantissa := by
  have hdigits : 69 ∉ d.digits := fun h => absurd (d.isDigit_digits 69 h) (by decide)
  unfold mantissa
  split
  · exact List.not_mem_nil
  · next x hx =>
    rw [hx] at hdigits
    exact hdigits
  · next x rest _ hx =>
    rw [hx] at hdigits
    simp only [List.mem_cons, not_or] at hdigits ⊢
    exact ⟨hdigits.1, by decide, hdigits.2⟩

theorem cut_append {sep : UInt8} {before : Bytes} (h : sep ∉ before) (after : Bytes) :
    Bytes.cut sep (before ++ sep :: after) = some (before, after) := by
  induction before with
  | nil => exact if_pos rfl
  | cons b before ih =>
    obtain ⟨hb, hbefore⟩ := not_or.mp (List.mem_cons.not.mp h)
    rw [List.cons_append, Bytes.cut, if_neg (Ne.symm hb), ih hbefore]
    rfl

/-- A zero before digits is one more digit, and changes nothing of their value. -/
theorem padded_digits {ds : Bytes} (hds : ∀ b ∈ ds, Bytes.isDigit b = true) :
    (∀ b ∈ (if ds.length < 2 then 48 :: ds else ds), Bytes.isDigit b = true) ∧
      Bytes.toNat (if ds.length < 2 then 48 :: ds else ds) = Bytes.toNat ds := by
  split
  · refine ⟨List.forall_mem_cons.mpr ⟨rfl, hds⟩, ?_⟩
    rw [Bytes.toNat_cons, show (48 : UInt8).toNat - 48 = 0 from rfl, Nat.zero_mul, Nat.zero_add]
  · exact ⟨hds, rfl⟩

/-- The library's text of a power of ten is read as the power. -/
theorem readInt64?_powerText {e : Int} (h : e.natAbs < 10000) :
    readInt64? (powerText e) = some (Int64.ofInt e) := by
  obtain ⟨hne, hds⟩ := ofNat_digits e.natAbs
  obtain ⟨hdigits, hvalue⟩ := padded_digits hds
  have hdigits := List.all_eq_true.mpr hdigits
  have hempty : (if (Bytes.ofNat e.natAbs).length < 2 then 48 :: Bytes.ofNat e.natAbs
      else Bytes.ofNat e.natAbs).isEmpty = false := by
    split
    · rfl
    · exact List.isEmpty_eq_false_iff.mpr hne
  rw [toNat_ofNat] at hvalue
  have hroom : Nat.pow 2 63 = 9223372036854775808 := rfl
  have hplus : Bytes.ofString "+" = [43] := by decide
  have hminus : Bytes.ofString "-" = [45] := by decide
  unfold readInt64? powerText
  dsimp only
  generalize (if (Bytes.ofNat e.natAbs).length < 2 then 48 :: Bytes.ofNat e.natAbs
      else Bytes.ofNat e.natAbs) = ds at *
  by_cases hneg : e < 0
  · rw [if_pos hneg, hminus, List.singleton_append, splitSign, hempty, hdigits, hvalue]
    simp only [Bool.not_true, Bool.or_self, Bool.false_eq_true, if_false, if_true]
    rw [if_pos (by omega), show (-(e.natAbs : Int)) = e by omega]
  · rw [if_neg hneg, hplus, List.singleton_append, splitSign, hempty, hdigits, hvalue]
    simp only [Bool.not_true, Bool.or_self, Bool.false_eq_true, if_false]
    rw [if_pos (by omega), show (e.natAbs : Int) = e by omega]

/-- Cut at the mark, with its power read and written again, the library's text is the layout with a
power of ten. -/
theorem rewritePower_scientific (negative : Bool) (d : Decimal) (h : d.leading.natAbs < 10000) :
    rewritePower (Binary64.signText negative ++ d.scientific 69) =
      Binary64.signText negative ++ (withPoint d.mantissa ++ "E" ++ Bytes.ofInt d.leading) := by
  have hmark : 69 ∉ Binary64.signText negative ++ d.mantissa := by
    intro hmem
    rcases List.mem_append.mp hmem with hmem | hmem
    · cases negative with
      | false => cases hmem
      | true => exact absurd hmem (by decide)
    · exact d.not_mem_mantissa hmem
  have hpower : (Int64.ofInt d.leading).toInt = d.leading := by
    apply Int64.toInt_ofInt_of_le <;> omega
  unfold rewritePower scientific
  rw [← List.append_assoc, cut_append hmark, Option.getD_some]
  dsimp only
  rw [readInt64?_powerText h, Option.getD_some, hpower, withPoint_sign, List.append_assoc,
    List.append_assoc, List.append_assoc]

/-! The leading digit. -/

theorem units_le_units {c c' : Nat} {p : Int} : units c p ≤ units c' p ↔ c ≤ c' := by
  rw [units_mul, units_mul c', mul_le_mul_iff_left₀ (units_one_pos p), Nat.cast_le]

theorem units_one_le {i j : Int} : units 1 i ≤ units 1 j ↔ i ≤ j := by
  rw [units_one_eq, units_one_eq, mul_le_mul_iff_left₀ (by positivity),
    zpow_le_zpow_iff_right₀ (by norm_num)]

/-- The coefficient lies between the powers of ten that its digits tell. -/
theorem coefficient_bounds {d : Decimal} (h : d.coefficient ≠ 0) :
    10 ^ (d.digits.length - 1) ≤ d.coefficient ∧ d.coefficient < 10 ^ d.digits.length := by
  have hpos : 0 < d.digits.length := List.length_pos_iff.mpr d.digits_ne
  constructor
  · by_contra hlt
    cases hlen : d.digits.length - 1 with
    | zero =>
      rw [hlen, Nat.pow_zero] at hlt
      omega
    | succ k =>
      rw [hlen, Nat.not_le] at hlt
      have hle : d.digits.length ≤ k + 1 := Bytes.length_ofNat hlt
      omega
  · have hlt := Bytes.toNat_lt d.isDigit_digits
    rwa [d.toNat_digits] at hlt

/-- A decimal is at least a power of ten when its leading digit is. -/
theorem units_le_iff {d : Decimal} (h : d.coefficient ≠ 0) (i : Int) :
    units 1 i ≤ units d.coefficient d.exponent ↔ i ≤ d.leading := by
  obtain ⟨hlow, hhigh⟩ := coefficient_bounds h
  have hpos : 0 < d.digits.length := List.length_pos_iff.mpr d.digits_ne
  have hfrom : units 1 d.leading ≤ units d.coefficient d.exponent := by
    have hexponent : d.exponent + (d.digits.length - 1 : Nat) = d.leading := by
      unfold leading
      omega
    rw [← hexponent, ← units_shift, units_le_units, Nat.one_mul]
    exact hlow
  have hto : units d.coefficient d.exponent < units 1 (d.leading + 1) := by
    have hexponent : d.exponent + d.digits.length = d.leading + 1 := by
      unfold leading
      omega
    rw [← hexponent, ← units_shift, ← not_le, units_le_units, Nat.one_mul]
    omega
  constructor
  · intro hle
    have hlt := units_one_le.not.mp (not_le.mpr (lt_of_le_of_lt hle hto))
    omega
  · exact fun hle => le_trans (units_one_le.mpr hle) hfrom

/-- The number that a power of ten rounds to, not by a tie. -/
structure Edge (i : Int) (m : Nat) : Prop where
  number : Representable m
  low : compareQuarters 1 i (4 * m - reachBelow m) = .gt
  high : compareQuarters 1 i (4 * m + 2 * gap m) = .lt
  leading : (shortest m).leading = i

/-- To ask for the exponent of the leading digit is to compare with the number at the edge. -/
theorem Edge.le_leading_iff {n m : Nat} {i : Int} (h : Edge i m) (hn : Representable n)
    (hpos : 0 < n) : i ≤ (shortest n).leading ↔ m ≤ n := by
  have hchosen := shortest_chosen hn hpos
  have hne := Binary64.units_pos_of_rounds hn hpos hchosen.reads
  have hlow := h.low
  have hhigh := h.high
  rw [compareQuarters_eq, compare_gt_iff_gt] at hlow
  rw [compareQuarters_eq, compare_lt_iff_lt] at hhigh
  constructor
  · intro hle
    have hunits := (units_le_iff hne i).mpr hle
    exact hchosen.reads.ge hn h.number (by linarith)
  · intro hmn
    by_contra hlt
    have hunits := not_le.mp ((units_le_iff hne i).not.mpr hlt)
    have hnm := hchosen.reads.le hn h.number (by linarith)
    obtain rfl := Nat.le_antisymm hmn hnm
    exact hlt (Int.le_of_eq h.leading.symm)

/-! How long the layouts are. -/

theorem length_withPoint (text : Bytes) : (withPoint text).length ≤ text.length + 2 := by
  have hzero : (Bytes.ofString ".0").length = 2 := by decide
  unfold withPoint
  split
  · omega
  · rw [List.length_append, hzero]

theorem length_plain (d : Decimal) :
    d.plain.length ≤ d.digits.length + d.exponent.natAbs + 2 := by
  unfold plain
  cases hexp : d.exponent with
  | ofNat k =>
    simp only [List.length_append, List.length_replicate, Int.ofNat_eq_natCast, Int.natAbs_natCast]
    omega
  | negSucc k =>
    have hlead : (Bytes.ofString "0.").length = 2 := by decide
    have hpoint : (Bytes.ofString ".").length = 1 := by decide
    dsimp only
    rw [Int.natAbs_negSucc]
    split
    · simp only [List.length_append, List.length_replicate, hlead]
      omega
    · simp only [List.length_append, List.length_take, List.length_drop, hpoint]
      omega

theorem length_mantissa (d : Decimal) : d.mantissa.length ≤ d.digits.length + 1 := by
  unfold mantissa
  split <;> simp_all

end Decimal

namespace Binary64

open Decimal (Chosen)

theorem Chosen.length_digits {n : Nat} {d : Decimal} (h : Chosen n d) : d.digits.length ≤ 18 := by
  have hle := h.coefficient_le
  apply Bytes.length_ofNat (k := 17)
  omega

theorem Chosen.leading_lt {n : Nat} {d : Decimal} (h : Chosen n d) : d.leading.natAbs < 9999 := by
  have hlength := Chosen.length_digits h
  have hge := h.exponent_ge
  have hle := h.exponent_le
  unfold Decimal.leading
  omega

theorem Chosen.length_layout {n : Nat} {d : Decimal} (h : Chosen n d) : d.layout.length ≤ 380 := by
  have hdigits := Chosen.length_digits h
  have hleading := Chosen.leading_lt h
  have hge := h.exponent_ge
  have hle := h.exponent_le
  unfold Decimal.layout
  split
  · have hpoint := Decimal.length_withPoint d.plain
    have hplain := d.length_plain
    omega
  · have hpoint := Decimal.length_withPoint d.mantissa
    have hmantissa := d.length_mantissa
    have hE : (Bytes.ofString "E").length = 1 := by decide
    have hpower := Bytes.length_ofInt (k := 3) (by omega : d.leading.natAbs < 10 ^ 4)
    rw [List.length_append, List.length_append, hE]
    omega

/-! What is printed. -/

theorem finite_le (m n : Nat) : le (.finite false m) (.finite false n) = true ↔ m ≤ n := by
  simp only [le, lt, eq, signed, Bool.false_eq_true, if_false, Bool.or_eq_true, decide_eq_true_eq]
  omega

theorem finite_lt (m n : Nat) : lt (.finite false m) (.finite false n) = true ↔ m < n := by
  simp only [lt, signed, Bool.false_eq_true, if_false, decide_eq_true_eq]
  omega

theorem edge_thousandth : ∃ m, thousandth = .finite false m ∧ Decimal.Edge (-3) m := by
  refine ⟨nearest (Nat.pow 2 unitShift) 1000, by decide +kernel, ⟨?_, ?_⟩, ?_, ?_, ?_⟩
  all_goals decide +kernel

theorem edge_tenMillion : ∃ m, tenMillion = .finite false m ∧ Decimal.Edge 7 m := by
  refine ⟨nearest (10000000 * Nat.pow 2 unitShift) 1, by decide +kernel, ⟨?_, ?_⟩, ?_, ?_, ?_⟩
  all_goals decide +kernel

/-- A program prints the layout of the shortest decimal. -/
theorem display_layout {n : Nat} (negative : Bool) (hn : Representable n) (hpos : 0 < n) :
    display (.finite negative n) = signText negative ++ (Decimal.shortest n).layout := by
  have hsmall := Chosen.leading_lt (Decimal.shortest_chosen hn hpos)
  obtain ⟨low, hlow, hedge⟩ := edge_thousandth
  obtain ⟨high, hhigh, hedge'⟩ := edge_tenMillion
  have hplain : (thousandth.le (.finite false n) = true ∧ lt (.finite false n) tenMillion = true) ↔
      -3 ≤ (Decimal.shortest n).leading ∧ (Decimal.shortest n).leading < 7 := by
    rw [hlow, hhigh, finite_le, finite_lt, hedge.le_leading_iff hn hpos, ← Int.not_le,
      hedge'.le_leading_iff hn hpos, Nat.not_le]
  simp only [display, if_neg hpos.ne', hplain, Decimal.layout]
  split
  · exact Decimal.withPoint_sign ..
  · exact Decimal.rewritePower_scientific _ _ (by omega)

end Binary64
end Signum
