import Signum.Number.Reading
import Signum.Proofs.Number.Shortest
import Signum.Proofs.Syntax.Canonical
/- Reading a number from decimal digits.

   A decimal that rounds to a number of the format is read as that number. The power of ten is
   applied exactly, and the two ways around that are not taken by such decimals (`scale?_eq`). A
   `Spelling` is a decimal written with digits before and after a point and a power of ten: all of
   it is read, and it is scaled as the decimal it spells (`Spelling.read?_eq`). -/
namespace Signum

namespace Binary64

open Decimal (units)

/-! Scaling. -/

/-- What rounds to a number is within a factor of two of it. -/
theorem RoundsTo.near {n : Nat} {v : ℚ} (hn : Representable n) (hpos : 0 < n) (h : RoundsTo n v) :
    (n : ℚ) ≤ 2 * v ∧ v ≤ 2 * n := by
  have hgap := Decimal.gap_le hn hpos
  have hreach := reachBelow_le n
  obtain ⟨hlow, hhigh⟩ := h.bounds
  have hfrom : ((2 * n : Nat) : ℚ) ≤ ((4 * n - reachBelow n : Nat) : ℚ) := by
    exact_mod_cast (by omega : 2 * n ≤ 4 * n - reachBelow n)
  have hto : ((gap n : Nat) : ℚ) ≤ n := by exact_mod_cast hgap
  push_cast at hfrom hhigh
  constructor <;> linarith

theorem units_size {value : Nat} (hvalue : value ≠ 0) (e : Int) :
    2 ^ (value.log2 : Int) * 10 ^ e * 2 ^ (unitShift : Int) ≤ units value e ∧
      units value e < 2 ^ ((value.log2 : Int) + 1) * 10 ^ e * 2 ^ (unitShift : Int) := by
  have hlow : ((2 : ℚ) ^ (value.log2 : Int)) ≤ value := by
    rw [zpow_natCast]
    exact_mod_cast Nat.log2_self_le hvalue
  have hhigh : (value : ℚ) < 2 ^ ((value.log2 : Int) + 1) := by
    rw [← Nat.cast_succ, zpow_natCast]
    exact_mod_cast Nat.lt_log2_self
  have hunits : units value e = value * 10 ^ e * 2 ^ (unitShift : Int) := by
    unfold units
    rw [zpow_natCast]
  rw [hunits]
  constructor
  · gcongr
  · gcongr

/-- A decimal that rounds to a number is not too large to be looked at. -/
theorem size_le {n value : Nat} {e : Int} (hn : Representable n) (hpos : 0 < n)
    (hvalue : value ≠ 0) (he : 0 < e) (h : RoundsTo n (units value e)) :
    (value.log2 : Int) + e * 3 ≤ 1100 := by
  have hlimit : ((n : ℚ)) < 2 ^ ((1024 + unitShift : Nat) : Int) := by
    rw [zpow_natCast]
    have hlt := hn.lt_limit
    rw [limit_eq] at hlt
    exact_mod_cast hlt
  have hpower : (2 : ℚ) ^ (e * 3) ≤ 10 ^ e := by
    apply Decimal.le_ten_zpow <;> omega
  have hlt : (2 : ℚ) ^ ((value.log2 : Int) + e * 3 + unitShift) <
      2 ^ (((1024 + unitShift : Nat) : Int) + 1) := by
    calc (2 : ℚ) ^ ((value.log2 : Int) + e * 3 + unitShift)
        = 2 ^ (value.log2 : Int) * 2 ^ (e * 3) * 2 ^ (unitShift : Int) := by
          rw [zpow_add₀ (by norm_num), zpow_add₀ (by norm_num)]
      _ ≤ 2 ^ (value.log2 : Int) * 10 ^ e * 2 ^ (unitShift : Int) := by gcongr
      _ ≤ units value e := (units_size hvalue e).1
      _ ≤ 2 * n := (h.near hn hpos).2
      _ < 2 * 2 ^ ((1024 + unitShift : Nat) : Int) := by gcongr
      _ = 2 ^ (((1024 + unitShift : Nat) : Int) + 1) := by
          rw [zpow_add_one₀ (by norm_num), mul_comm]
  have hexponent := (zpow_lt_zpow_iff_right₀ (by norm_num)).mp hlt
  push_cast at hexponent
  omega

/-- A decimal that rounds to a number is not too small to be looked at. -/
theorem le_size {n value : Nat} {e : Int} (hn : Representable n) (hpos : 0 < n)
    (hvalue : value ≠ 0) (he : e < 0) (h : RoundsTo n (units value e)) :
    -1200 ≤ (value.log2 : Int) + e * 3 := by
  have hone : (1 : ℚ) ≤ n := by exact_mod_cast hpos
  have hpower : (10 : ℚ) ^ e ≤ 2 ^ (e * 3) := by
    apply Decimal.ten_zpow_le <;> omega
  have hlt : (2 : ℚ) ^ (-1 : Int) < 2 ^ ((value.log2 : Int) + 1 + e * 3 + unitShift) := by
    calc (2 : ℚ) ^ (-1 : Int)
        ≤ n / 2 := by
          rw [zpow_neg_one]
          linarith
      _ ≤ units value e := by
          have hnear := (h.near hn hpos).1
          linarith
      _ < 2 ^ ((value.log2 : Int) + 1) * 10 ^ e * 2 ^ (unitShift : Int) := (units_size hvalue e).2
      _ ≤ 2 ^ ((value.log2 : Int) + 1) * 2 ^ (e * 3) * 2 ^ (unitShift : Int) := by gcongr
      _ = 2 ^ ((value.log2 : Int) + 1 + e * 3 + unitShift) := by
          rw [zpow_add₀ (by norm_num) ((value.log2 : Int) + 1 + e * 3),
            zpow_add₀ (by norm_num) ((value.log2 : Int) + 1)]
  have hexponent := (zpow_lt_zpow_iff_right₀ (by norm_num)).mp hlt
  unfold unitShift at hexponent
  omega

theorem units_pos_of_rounds {n value : Nat} {e : Int} (hn : Representable n) (hpos : 0 < n)
    (h : RoundsTo n (units value e)) : value ≠ 0 := by
  rintro rfl
  have hnear := (h.near hn hpos).1
  have hone : (1 : ℚ) ≤ n := by exact_mod_cast hpos
  have hzero : units 0 e = 0 := by
    unfold units
    simp
  rw [hzero] at hnear
  linarith

/-- What `scale?` ends with, when both signs of the exponent lead to one number. The ways there
stay closed: with them open, checking that a case reduces would compute them. -/
theorem some_of_finite {e : Int} {negative : Bool} {n : Nat} {whole fraction : Nat → Binary64}
    (hwhole : ∀ k, e = .ofNat k → whole k = .finite negative n)
    (hfraction : ∀ k, e = .negSucc k → fraction k = .finite negative n) :
    (match (match e with | .ofNat k => whole k | .negSucc k => fraction k) with
      | .infinite _ => none
      | r => some r) = some (.finite negative n) := by
  cases e with
  | ofNat k => simp only [hwhole k rfl]
  | negSucc k => simp only [hfraction k rfl]

/-- A decimal that rounds to a number is read as it. -/
theorem scale?_eq {n value : Nat} {e : Int} (negative : Bool) (hn : Representable n)
    (hpos : 0 < n) (h : RoundsTo n (units value e)) :
    scale? negative 10 value e = some (.finite negative n) := by
  have hvalue := units_pos_of_rounds hn hpos h
  have hlarge : ¬(e > 0 ∧ (value.log2 : Int) + e * 3 > 1100) := by
    rintro ⟨he, hsize⟩
    have hle := size_le hn hpos hvalue he h
    omega
  have hsmall : ¬(e < 0 ∧ (value.log2 : Int) + e * 3 < -1200) := by
    rintro ⟨he, hsize⟩
    have hle := le_size hn hpos hvalue he h
    omega
  have hwidth : (if (10 : Nat) = 2 then (1 : Int) else 3) = 3 := rfl
  unfold scale?
  simp only [hwidth]
  rw [if_neg hvalue, if_neg hlarge, if_neg hsmall]
  apply some_of_finite
  · rintro k rfl
    rw [Decimal.units_ofNat, ← div_one (Nat.cast _), ← Nat.cast_one] at h
    simp only [Nat.pow_eq]
    exact ofRatio_eq negative hn one_pos h
  · rintro k rfl
    have hden : 0 < 10 ^ (k + 1) := Nat.pow_pos (by norm_num)
    rw [Decimal.units_negSucc] at h
    simp only [Nat.pow_eq]
    exact ofRatio_eq negative hn hden h

end Binary64

/-! Digits. -/

namespace Bytes

theorem toNat_append (xs ys : Bytes) : toNat (xs ++ ys) = toNat xs * 10 ^ ys.length + toNat ys := by
  have hfrom (ds : Bytes) : ∀ n, ds.foldl (fun acc d => acc * 10 + (d.toNat - 48)) n =
      n * 10 ^ ds.length + toNat ds := by
    induction ds with
    | nil => intro n; simp [toNat]
    | cons d ds ih =>
      intro n
      unfold toNat
      rw [List.foldl_cons, List.foldl_cons, ih, ih (0 * 10 + (d.toNat - 48)), List.length_cons]
      ring
  unfold toNat
  rw [List.foldl_append, hfrom ys]
  rfl

theorem toNat_cons (d : UInt8) (ds : Bytes) :
    toNat (d :: ds) = (d.toNat - 48) * 10 ^ ds.length + toNat ds := by
  have happend := toNat_append [d] ds
  simpa [toNat] using happend

theorem toNat_replicate_zero (k : Nat) : toNat (List.replicate k 48) = 0 := by
  induction k with
  | zero => rfl
  | succ k ih =>
    rw [List.replicate_succ', toNat_append, ih]
    rfl

/-- What bytes a digit is not. -/
theorem isDigit_iff (b : UInt8) : isDigit b = true ↔ 48 ≤ b.toNat ∧ b.toNat ≤ 57 := by
  unfold isDigit
  simp only [Bool.and_eq_true, decide_eq_true_eq, UInt8.le_iff_toNat_le]
  exact Iff.rfl

theorem toLower_digit {b : UInt8} (h : isDigit b = true) : toLower b = b := by
  have hrange := (isDigit_iff b).mp h
  unfold toLower
  apply if_neg
  simp only [Bool.and_eq_true, decide_eq_true_eq, UInt8.le_iff_toNat_le, not_and, not_le]
  intro hletter
  have hfirst : (65 : UInt8).toNat = 65 := rfl
  omega

theorem hexValue_digit {b : UInt8} (h : isDigit b = true) : hexValue b = b.toNat - 48 := by
  unfold hexValue
  rw [if_pos h]

end Bytes

/-- Digits around a point, and a power of ten after `E`. -/
structure Spelling where
  before : Bytes
  after : Bytes
  power : Option Int
  before_ne : before ≠ []
  before_digits : ∀ b ∈ before, Bytes.isDigit b = true
  after_ne : after ≠ []
  after_digits : ∀ b ∈ after, Bytes.isDigit b = true
  power_lt : ∀ e ∈ power, e.natAbs < 10000

namespace Spelling

/-- The power of ten as text. -/
def tail (s : Spelling) : Bytes :=
  match s.power with
  | none => []
  | some e => 69 :: Bytes.ofInt e

def text (s : Spelling) : Bytes := s.before ++ 46 :: (s.after ++ s.tail)

/-- The decimal number that is spelled. -/
def decimal (s : Spelling) : Decimal :=
  ⟨Bytes.toNat (s.before ++ s.after), s.power.getD 0 - s.after.length⟩

end Spelling

namespace Binary64

theorem readSignificand_digits (rest : Bytes) (ds : Bytes) (hds : ∀ b ∈ ds, Bytes.isDigit b = true) :
    ∀ acc : Significand, readSignificand 10 Bytes.isDigit acc (ds ++ rest) =
      readSignificand 10 Bytes.isDigit
        ⟨acc.value * 10 ^ ds.length + Bytes.toNat ds, acc.anyDigit || !ds.isEmpty,
          acc.places.map (· + ds.length)⟩ rest := by
  induction ds with
  | nil =>
    rintro ⟨value, any, places⟩
    simp [Bytes.toNat]
  | cons d ds ih =>
    rintro ⟨value, any, places⟩
    have hd : Bytes.isDigit d = true := hds d List.mem_cons_self
    have hrange := (Bytes.isDigit_iff d).mp hd
    have hunder : d ≠ 95 := by rintro rfl; revert hrange; decide
    have hpoint : ¬(d = 46 ∧ places.isNone = true) := by
      rintro ⟨rfl, -⟩
      revert hrange
      decide
    rw [List.cons_append, readSignificand, if_neg hunder, if_neg hpoint, if_pos hd,
      ih (fun b hb => hds b (List.mem_cons_of_mem _ hb)), Bytes.hexValue_digit hd, Bytes.toNat_cons]
    congr 2
    · simp only [List.length_cons]
      ring
    · simp
    · cases places with
      | none => rfl
      | some k => simp only [Option.map_some, List.length_cons]; congr 1; omega

theorem underscoresOk_of_none {isDigit : UInt8 → Bool} {text : Bytes} (h : ∀ b ∈ text, b ≠ 95) :
    ∀ afterDigit, underscoresOk isDigit afterDigit text = true := by
  induction text with
  | nil => intro afterDigit; rfl
  | cons b rest ih =>
    intro afterDigit
    have hb : b ≠ 95 := h b List.mem_cons_self
    rw [underscoresOk]
    · exact ih (fun c hc => h c (List.mem_cons_of_mem _ hc)) _
    · exact hb

/-- The digits of an exponent are read in full while it is small. -/
theorem exponentValue_eq {ds : Bytes} (hds : ∀ b ∈ ds, Bytes.isDigit b = true)
    (h : Bytes.toNat ds < 10000) : exponentValue ds = Bytes.toNat ds := by
  have hgrow (ds : Bytes) : ∀ n, n ≤ ds.foldl (fun acc d => acc * 10 + (d.toNat - 48)) n := by
    induction ds with
    | nil => exact Nat.le_refl
    | cons d ds ih =>
      intro n
      have hle := ih (n * 10 + (d.toNat - 48))
      rw [List.foldl_cons]
      omega
  have hfrom (ds : Bytes) (hds : ∀ b ∈ ds, Bytes.isDigit b = true) : ∀ n,
      ds.foldl (fun acc d => acc * 10 + (d.toNat - 48)) n < 10000 →
      ds.foldl (fun e d => if d = 95 ∨ 10000 ≤ e then e else e * 10 + (d.toNat - 48)) n =
        ds.foldl (fun acc d => acc * 10 + (d.toNat - 48)) n := by
    induction ds with
    | nil => intro n _; rfl
    | cons d ds ih =>
      intro n hn
      have hrange := (Bytes.isDigit_iff d).mp (hds d List.mem_cons_self)
      rw [List.foldl_cons] at hn
      have hle := hgrow ds (n * 10 + (d.toNat - 48))
      have hstep : ¬(d = 95 ∨ 10000 ≤ n) := by
        rintro (rfl | hlarge)
        · revert hrange; decide
        · omega
      rw [List.foldl_cons, List.foldl_cons, if_neg hstep]
      exact ih (fun b hb => hds b (List.mem_cons_of_mem _ hb)) _ hn
  exact hfrom ds hds 0 h

theorem splitSign_digit {d : UInt8} (h : Bytes.isDigit d = true) (rest : Bytes) :
    splitSign (d :: rest) = (false, d :: rest) := by
  have hrange := (Bytes.isDigit_iff d).mp h
  unfold splitSign
  split
  · next heq =>
    obtain ⟨rfl, -⟩ := List.cons.inj heq
    exact absurd hrange (by decide)
  · next heq =>
    obtain ⟨rfl, -⟩ := List.cons.inj heq
    exact absurd hrange (by decide)
  · rfl

theorem splitSign_signText {d : UInt8} (h : Bytes.isDigit d = true) (negative : Bool)
    (rest : Bytes) : splitSign (signText negative ++ d :: rest) = (negative, d :: rest) := by
  cases negative with
  | false => exact splitSign_digit h rest
  | true => rfl

theorem readExponent?_ofInt {e : Int} (h : e.natAbs < 10000) :
    readExponent? (Bytes.ofInt e) = some e := by
  have hread (n : Nat) (hn : n < 10000) (negative : Bool) (text : Bytes)
      (hsplit : splitSign text = (negative, Bytes.ofNat n)) :
      readExponent? text = some (if negative then -(n : Int) else n) := by
    obtain ⟨hne, hds⟩ := ofNat_digits n
    have hvalue : exponentValue (Bytes.ofNat n) = n := by
      rw [exponentValue_eq hds (by rwa [toNat_ofNat]), toNat_ofNat]
    unfold readExponent?
    rw [hsplit]
    revert hne hds hvalue
    generalize Bytes.ofNat n = ds
    intro hne hds hvalue
    cases ds with
    | nil => exact absurd rfl hne
    | cons d ds =>
      have hd : Bytes.isDigit d = true := hds d List.mem_cons_self
      have hall : (d :: ds).all (fun b => Bytes.isDigit b || b == 95) = true := by
        rw [List.all_eq_true]
        intro b hb
        rw [hds b hb, Bool.true_or]
      simp only [hd, hall, hvalue, Bool.and_true, if_true]
  cases e with
  | ofNat n =>
    have hsplit : splitSign (Bytes.ofNat n) = (false, Bytes.ofNat n) := by
      obtain ⟨hne, hds⟩ := ofNat_digits n
      obtain ⟨d, ds, hcons⟩ := List.exists_cons_of_ne_nil hne
      rw [hcons]
      exact splitSign_digit (hds d (by rw [hcons]; exact List.mem_cons_self)) ds
    exact hread n h false _ hsplit
  | negSucc n => exact hread (n + 1) h true _ rfl

/-- A text that starts with a digit is no name, whatever sign precedes it. -/
theorem readNamed?_digit {d : UInt8} (h : Bytes.isDigit d = true) (negative : Bool) (rest : Bytes) :
    readNamed? (signText negative ++ d :: rest) = none := by
  have hrange := (Bytes.isDigit_iff d).mp h
  have hletter (c : UInt8) (hc : 90 < c.toNat) (name : Bytes) :
      isNamed (d :: rest) (c :: name) = false := by
    unfold isNamed
    rw [List.map_cons, Bytes.toLower_digit h]
    apply beq_false_of_ne
    intro heq
    obtain ⟨rfl, -⟩ := List.cons.inj heq
    omega
  have hinf : isNamed (d :: rest) (Bytes.ofString "inf") = false := hletter 105 (by decide) _
  have hinfinity : isNamed (d :: rest) (Bytes.ofString "infinity") = false :=
    hletter 105 (by decide) _
  have hnan : isNamed (signText negative ++ d :: rest) (Bytes.ofString "nan") = false := by
    cases negative with
    | false => exact hletter 110 (by decide) _
    | true =>
      apply beq_false_of_ne
      intro heq
      exact absurd (List.cons.inj heq).1 (by decide)
  unfold readNamed?
  rw [splitSign_signText h]
  simp only [hinf, hinfinity, hnan, Bool.or_self, Bool.false_eq_true, if_false]

end Binary64

namespace Spelling

open Binary64

/-- The bytes of a spelling. -/
theorem mem_text {s : Spelling} {b : UInt8} (hb : b ∈ s.text) :
    Bytes.isDigit b = true ∨ b = 46 ∨ b = 69 ∨ b = 45 := by
  have htail : b ∈ s.tail → Bytes.isDigit b = true ∨ b = 46 ∨ b = 69 ∨ b = 45 := by
    unfold tail
    cases s.power with
    | none => intro hb; cases hb
    | some e =>
      intro hb
      rcases List.mem_cons.mp hb with rfl | hb
      · exact .inr (.inr (.inl rfl))
      · cases e with
        | ofNat n => exact .inl ((ofNat_digits n).2 b hb)
        | negSucc n =>
          rcases List.mem_cons.mp hb with rfl | hb
          · exact .inr (.inr (.inr rfl))
          · exact .inl ((ofNat_digits (n + 1)).2 b hb)
  unfold text at hb
  rcases List.mem_append.mp hb with hb | hb
  · exact .inl (s.before_digits b hb)
  · rcases List.mem_cons.mp hb with rfl | hb
    · exact .inr (.inl rfl)
    · rcases List.mem_append.mp hb with hb | hb
      · exact .inl (s.after_digits b hb)
      · exact htail hb

theorem readDecimal?_eq (s : Spelling) (negative : Bool) :
    readDecimal? negative s.text = scale? negative 10 s.decimal.coefficient s.decimal.exponent := by
  have hunder : underscoresOk Bytes.isDigit false s.text = true := by
    apply underscoresOk_of_none
    intro b hb
    rcases mem_text hb with hdigit | rfl | rfl | rfl
    · rintro rfl
      exact absurd hdigit (by decide)
    all_goals decide
  have hread : readSignificand 10 Bytes.isDigit ⟨0, false, none⟩ s.text =
      (⟨s.decimal.coefficient, true, some s.after.length⟩, s.tail) := by
    have hstop (m : Significand) (hplaces : m.places ≠ none) :
        readSignificand 10 Bytes.isDigit m s.tail = (m, s.tail) := by
      unfold tail
      cases s.power with
      | none => rfl
      | some e =>
        rw [readSignificand, if_neg (by decide), if_neg (by rintro ⟨h, -⟩; revert h; decide),
          if_neg (by decide)]
    unfold text
    rw [readSignificand_digits _ _ s.before_digits, readSignificand, if_neg (by decide),
      if_pos ⟨rfl, rfl⟩, readSignificand_digits _ _ s.after_digits, hstop _ (by simp)]
    simp [decimal, Bytes.toNat_append, s.before_ne]
  unfold readDecimal?
  rw [hread]
  simp only [hunder, Bool.not_true, Bool.or_self, Bool.false_eq_true, if_false, Option.getD_some]
  unfold tail decimal
  cases hpower : s.power with
  | none => simp
  | some e =>
    have hlower : Bytes.toLower 69 = 101 := rfl
    simp only [hlower, if_true, readExponent?_ofInt (s.power_lt e hpower), Option.bind_some,
      Option.getD_some]

theorem text_cons (s : Spelling) : ∃ d rest, s.text = d :: rest ∧ Bytes.isDigit d = true := by
  obtain ⟨d, ds, hbefore⟩ := List.exists_cons_of_ne_nil s.before_ne
  refine ⟨d, ds ++ 46 :: (s.after ++ s.tail), ?_, ?_⟩
  · unfold text
    rw [hbefore, List.cons_append]
  · apply s.before_digits
    rw [hbefore]
    exact List.mem_cons_self

/-- All of a spelling is read, and it is scaled as the decimal it spells. -/
theorem read?_eq (s : Spelling) (negative : Bool) :
    read? (signText negative ++ s.text) =
      scale? negative 10 s.decimal.coefficient s.decimal.exponent := by
  obtain ⟨d, rest, htext, hd⟩ := s.text_cons
  have hdecimal := s.readDecimal?_eq negative
  unfold read?
  rw [htext] at hdecimal ⊢
  rw [readNamed?_digit hd, splitSign_signText hd]
  dsimp only
  split
  · next x c rest' heq =>
    -- a hexadecimal number has a letter here that no spelling has
    have hmem : x ∈ s.text := by
      rw [htext, heq]
      simp
    have hlead : ¬Bytes.toLower x = 120 := by
      rcases mem_text hmem with hdigit | rfl | rfl | rfl
      · rw [Bytes.toLower_digit hdigit]
        rintro rfl
        exact absurd hdigit (by decide)
      all_goals decide
    rw [if_neg hlead]
    exact hdecimal
  · exact hdecimal

end Spelling
end Signum
