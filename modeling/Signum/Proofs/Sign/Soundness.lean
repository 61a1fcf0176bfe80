import Signum.Proofs.Fits
import Signum.Proofs.Run.History
import Signum.Proofs.Sign.Operators
import Mathlib.Data.Fintype.Basic
/- The tables of the sign domain are right.

   Every number has a sign, and the tables say of the result of an operation what follows
   from the signs of its operands: for integers whose exact result fits in 64 bits, and for
   floats by how they are rounded, which never turns a nonzero sum into zero or a zero
   product or quotient into something else. Tables are monotone, so what is right for the
   signs of two values is right for any signs above them. -/
namespace Signum

namespace Sign

/-- The order of signs: equal, or nothing known. -/
def leq (a b : Sign) : Bool := a = b || b = .any

instance : Fintype Sign where
  elems := {.pos, .neg, .zero, .any}
  complete s := by cases s <;> decide

theorem leq_refl (s : Sign) : s.leq s = true := by simp [leq]

theorem leq_trans : ∀ {a b c : Sign}, a.leq b = true → b.leq c = true → a.leq c = true := by decide

/-- The sign of an integer. -/
def ofInt (i : Int) : Sign := if 0 < i then .pos else if i < 0 then .neg else .zero

/-- The sign of a float. -/
def ofFloat : Binary64 → Sign
  | .nan => .any
  | .infinite s => if s then .neg else .pos
  | .finite s n => if n = 0 then .zero else if s then .neg else .pos

theorem flip_mono : ∀ {a a' : Sign}, a.leq a' = true → a.flip.leq a'.flip = true := by decide

theorem add_mono : ∀ {a a' b b' : Sign}, a.leq a' = true → b.leq b' = true →
    (a.add b).leq (a'.add b') = true := by decide

theorem mul_mono : ∀ {a a' b b' : Sign}, a.leq a' = true → b.leq b' = true →
    (a.mul b).leq (a'.mul b') = true := by decide

theorem floatMul_mono : ∀ {a a' b b' : Sign}, a.leq a' = true → b.leq b' = true →
    (a.floatMul b).leq (a'.floatMul b') = true := by decide

theorem div_mono : ∀ {a a' b b' r' : Sign}, a.leq a' = true → b.leq b' = true →
    div? a' b' = some r' → ∃ r, div? a b = some r ∧ r.leq r' = true := by decide

theorem floatMul_any : ∀ {a b : Sign}, a ≠ .zero → b ≠ .zero → a.floatMul b = .any := by decide

theorem div_legal : ∀ {a b r : Sign}, div? a b = some r → b ≠ .zero ∧ b ≠ .any := by decide

theorem div_zero : ∀ {b r : Sign}, div? .zero b = some r → Sign.zero.leq r = true := by decide

theorem div_any : ∀ {a b r : Sign}, a ≠ .zero → div? a b = some r → r = .any := by decide

end Sign

namespace Truth

/-- The order of truths: equal, or nothing known. -/
def leq (a b : Truth) : Bool := a = b || b = .maybe

instance : Fintype Truth where
  elems := {.yes, .no, .maybe}
  complete t := by cases t <;> decide

theorem leq_trans : ∀ {a b c : Truth}, a.leq b = true → b.leq c = true → a.leq c = true := by decide

/-- The truth of a condition that holds or does not. -/
def ofBool (b : Bool) : Truth := if b then .yes else .no

theorem not_mono : ∀ {b : Bool} {t : Truth}, (ofBool b).leq t = true →
    (ofBool !b).leq t.not = true := by decide

theorem and_mono : ∀ {a b : Bool} {t u : Truth}, (ofBool a).leq t = true →
    (ofBool b).leq u = true → (ofBool (a && b)).leq (t.and u) = true := by decide

theorem or_mono : ∀ {a b : Bool} {t u : Truth}, (ofBool a).leq t = true →
    (ofBool b).leq u = true → (ofBool (a || b)).leq (t.or u) = true := by decide

/-- A false left part decides a conjunction, whatever is known of the right one. -/
theorem and_of_no : ∀ {t u : Truth}, (ofBool false).leq t = true →
    (ofBool false).leq (t.and u) = true := by decide

/-- A true left part decides a disjunction, whatever is known of the right one. -/
theorem or_of_yes : ∀ {t u : Truth}, (ofBool true).leq t = true →
    (ofBool true).leq (t.or u) = true := by decide

end Truth

namespace Analysis

theorem verdict_mono (op : CompareOp) : ∀ {a a' b b' : Sign}, a.leq a' = true →
    b.leq b' = true → (verdict op a b).leq (verdict op a' b') = true := by
  cases op <;> decide

/-- A larger operand allows a larger result, and a quotient that is legal for some signs
is legal for all below them. -/
theorem table_mono {t : NumType} {op : BinaryOp} {a a' b b' r' : Sign} (ha : a.leq a' = true)
    (hb : b.leq b' = true) (h : table t op a' b' = some r') :
    ∃ r, table t op a b = some r ∧ r.leq r' = true := by
  cases op with
  | add =>
    obtain rfl := Option.some.inj h
    exact ⟨_, rfl, Sign.add_mono ha hb⟩
  | sub =>
    obtain rfl := Option.some.inj h
    exact ⟨_, rfl, Sign.add_mono ha (Sign.flip_mono hb)⟩
  | mul =>
    obtain rfl := Option.some.inj h
    cases t with
    | int => exact ⟨_, rfl, Sign.mul_mono ha hb⟩
    | float => exact ⟨_, rfl, Sign.floatMul_mono ha hb⟩
  | div => exact Sign.div_mono ha hb h

theorem leq_signed (t : NumType) (s s' : Sign) : (signed t s).leq (signed t s') = s.leq s' := by
  cases t <;> cases s <;> cases s' <;> rfl

theorem leq_ofBool (b : Bool) (q : Truth) :
    (Atom.ofBool b).leq (.bool q) = (Truth.ofBool b).leq q := by
  cases b <;> cases q <;> rfl

theorem ofBool_leq_ofBool {a b : Bool} :
    (Atom.ofBool a).leq (Atom.ofBool b) = true ↔ a = b := by
  cases a <;> cases b <;> decide

end Analysis

/-! Integers. -/

namespace Sign

theorem ofInt_of_pos {m : Int} (h : 0 < m) : ofInt m = .pos := if_pos h

theorem ofInt_of_neg {m : Int} (h : m < 0) : ofInt m = .neg := by
  rw [ofInt, if_neg (by omega), if_pos h]

theorem ofInt_neg (m : Int) : ofInt (-m) = (ofInt m).flip := by
  rcases Int.lt_trichotomy m 0 with h | rfl | h
  · rw [ofInt_of_neg h, ofInt_of_pos (by omega)]
    rfl
  · rfl
  · rw [ofInt_of_pos h, ofInt_of_neg (by omega)]
    rfl

theorem ofInt_add (m n : Int) : (ofInt (m + n)).leq ((ofInt m).add (ofInt n)) = true := by
  rcases Int.lt_trichotomy m 0 with hm | rfl | hm
  · rcases Int.lt_trichotomy n 0 with hn | rfl | hn
    · rw [ofInt_of_neg hm, ofInt_of_neg hn, ofInt_of_neg (by omega)]
      rfl
    · rw [ofInt_of_neg hm, Int.add_zero, ofInt_of_neg hm]
      rfl
    · rw [ofInt_of_neg hm, ofInt_of_pos hn]
      exact Bool.or_true _
  · rw [Int.zero_add]
    exact leq_refl _
  · rcases Int.lt_trichotomy n 0 with hn | rfl | hn
    · rw [ofInt_of_pos hm, ofInt_of_neg hn]
      exact Bool.or_true _
    · rw [ofInt_of_pos hm, Int.add_zero, ofInt_of_pos hm]
      rfl
    · rw [ofInt_of_pos hm, ofInt_of_pos hn, ofInt_of_pos (by omega)]
      rfl

theorem ofInt_mul (m n : Int) : ofInt (m * n) = (ofInt m).mul (ofInt n) := by
  rcases Int.lt_trichotomy m 0 with hm | rfl | hm
  · rcases Int.lt_trichotomy n 0 with hn | rfl | hn
    · rw [ofInt_of_neg hm, ofInt_of_neg hn, ofInt_of_pos (Int.mul_pos_of_neg_of_neg hm hn)]
      rfl
    · rw [Int.mul_zero, ofInt_of_neg hm]
      rfl
    · rw [ofInt_of_neg hm, ofInt_of_pos hn, ofInt_of_neg (Int.mul_neg_of_neg_of_pos hm hn)]
      rfl
  · rw [Int.zero_mul]
    rfl
  · rcases Int.lt_trichotomy n 0 with hn | rfl | hn
    · rw [ofInt_of_pos hm, ofInt_of_neg hn, ofInt_of_neg (Int.mul_neg_of_pos_of_neg hm hn)]
      rfl
    · rw [Int.mul_zero, ofInt_of_pos hm]
      rfl
    · rw [ofInt_of_pos hm, ofInt_of_pos hn, ofInt_of_pos (Int.mul_pos hm hn)]
      rfl

/-- What the tables say of two integers being equal or in order. Two integers of one sign
other than zero can be either; for any other two their signs decide. -/
theorem ofInt_compare (m n : Int) :
    (Truth.ofBool (decide (m = n))).leq ((ofInt m).eq (ofInt n)) = true ∧
    (Truth.ofBool (decide (m < n))).leq ((ofInt m).lt (ofInt n)) = true := by
  rcases Int.lt_trichotomy m 0 with hm | rfl | hm
  · rcases Int.lt_trichotomy n 0 with hn | rfl | hn
    · rw [ofInt_of_neg hm, ofInt_of_neg hn]
      exact ⟨Bool.or_true _, Bool.or_true _⟩
    · rw [ofInt_of_neg hm, decide_eq_false (by omega), decide_eq_true hm]
      exact ⟨rfl, rfl⟩
    · rw [ofInt_of_neg hm, ofInt_of_pos hn, decide_eq_false (by omega), decide_eq_true (by omega)]
      exact ⟨rfl, rfl⟩
  · rcases Int.lt_trichotomy n 0 with hn | rfl | hn
    · rw [ofInt_of_neg hn, decide_eq_false (by omega), decide_eq_false (by omega)]
      exact ⟨rfl, rfl⟩
    · exact ⟨rfl, rfl⟩
    · rw [ofInt_of_pos hn, decide_eq_false (by omega), decide_eq_true hn]
      exact ⟨rfl, rfl⟩
  · rcases Int.lt_trichotomy n 0 with hn | rfl | hn
    · rw [ofInt_of_pos hm, ofInt_of_neg hn, decide_eq_false (by omega), decide_eq_false (by omega)]
      exact ⟨rfl, rfl⟩
    · rw [ofInt_of_pos hm, decide_eq_false (by omega), decide_eq_false (by omega)]
      exact ⟨rfl, rfl⟩
    · rw [ofInt_of_pos hm, ofInt_of_pos hn]
      exact ⟨Bool.or_true _, Bool.or_true _⟩

theorem ofInt_eq (m n : Int) :
    (Truth.ofBool (decide (m = n))).leq ((ofInt m).eq (ofInt n)) = true :=
  (ofInt_compare m n).1

theorem ofInt_lt (m n : Int) :
    (Truth.ofBool (decide (m < n))).leq ((ofInt m).lt (ofInt n)) = true :=
  (ofInt_compare m n).2

/-- Less or equal is less, or equal, on truths as on numbers. -/
theorem le_of_lt_of_eq {l e : Bool} {a b : Sign} (hl : (Truth.ofBool l).leq (a.lt b) = true)
    (he : (Truth.ofBool e).leq (a.eq b) = true) : (Truth.ofBool (l || e)).leq (a.le b) = true := by
  revert hl he
  revert l e a b
  decide

end Sign

/-! Floats. -/

namespace Binary64

theorem pow_two_pos (k : Nat) : 0 < Nat.pow 2 k := Nat.two_pow_pos k

theorem limit_pos : 0 < limit := by
  unfold limit
  exact pow_two_pos _

/-- Rounding never makes zero of a whole number of units. -/
theorem nearest_pos {n : Nat} (h : 0 < n) : 0 < nearest n 1 := by
  have hk : 2 ^ excess n ≤ n := by
    refine Nat.le_trans (Nat.pow_le_pow_right (by omega) ?_) (Nat.log2_self_le (by omega))
    unfold excess precision
    omega
  have hq : 1 ≤ n / 2 ^ excess n := (Nat.one_le_div_iff (Nat.two_pow_pos _)).mpr hk
  have hround : 1 ≤ roundQuotient n (2 ^ excess n) := by
    unfold roundQuotient
    dsimp only
    split
    · exact hq
    · split
      · omega
      · split <;> omega
  unfold nearest
  simp only [Nat.div_one, Nat.one_mul]
  exact Nat.mul_pos hround (Nat.two_pow_pos _)

theorem nearest_zero (den : Nat) (h : 0 < den) : nearest 0 den = 0 := by
  simp [nearest, roundQuotient, excess, h]

/-- The sign of a rounded whole number of units. -/
theorem ofRatio_sign {i : Int} (h : i ≠ 0) :
    Sign.ofFloat (ofRatio (i < 0) i.natAbs 1) = Sign.ofInt i := by
  have hpos := nearest_pos (n := i.natAbs) (by omega)
  unfold ofRatio
  dsimp only
  rcases Int.lt_or_gt_of_ne h with hi | hi
  · rw [Sign.ofInt_of_neg hi]
    split <;> simp [Sign.ofFloat, hi, Nat.ne_of_gt hpos]
  · have hn : ¬ i < 0 := by omega
    rw [Sign.ofInt_of_pos hi]
    split <;> simp [Sign.ofFloat, hn, Nat.ne_of_gt hpos]

theorem ofRatio_zero (s : Bool) {den : Nat} (h : 0 < den) : ofRatio s 0 den = .finite s 0 := by
  simp [ofRatio, nearest_zero den h, limit_pos]

theorem sign_finite (s : Bool) (n : Nat) : Sign.ofFloat (.finite s n) = Sign.ofInt (signed s n) := by
  rcases Nat.eq_zero_or_pos n with rfl | hn
  · cases s <;> rfl
  · cases s with
    | false => rw [Sign.ofInt_of_pos (by simp [signed]; omega)]; simp [Sign.ofFloat, Nat.ne_of_gt hn]
    | true => rw [Sign.ofInt_of_neg (by simp [signed]; omega)]; simp [Sign.ofFloat, Nat.ne_of_gt hn]

theorem sign_neg (a : Binary64) : Sign.ofFloat a.neg = (Sign.ofFloat a).flip := by
  cases a with
  | nan => rfl
  | infinite s => cases s <;> rfl
  | finite s n =>
    by_cases hn : n = 0
    · simp [neg, Sign.ofFloat, hn, Sign.flip]
    · cases s <;> simp [neg, Sign.ofFloat, hn, Sign.flip]

theorem sign_add (a b : Binary64) :
    (Sign.ofFloat (a.add b)).leq ((Sign.ofFloat a).add (Sign.ofFloat b)) = true := by
  cases a with
  | nan =>
    rw [show (Sign.ofFloat .nan).add (Sign.ofFloat b) = .any by cases Sign.ofFloat b <;> rfl]
    exact Bool.or_true _
  | infinite s =>
    cases b with
    | nan => cases s <;> rfl
    | infinite t => cases s <;> cases t <;> rfl
    | finite t n =>
      by_cases hn : n = 0
      · cases s <;> simp [add, Sign.ofFloat, hn, Sign.add, Sign.leq]
      · cases s <;> cases t <;> simp [add, Sign.ofFloat, hn, Sign.add, Sign.leq]
  | finite s m =>
    cases b with
    | nan =>
      rw [show (Sign.ofFloat (.finite s m)).add (Sign.ofFloat .nan) = .any by
        cases Sign.ofFloat (.finite s m) <;> rfl]
      exact Bool.or_true _
    | infinite t =>
      by_cases hm : m = 0
      · cases t <;> simp [add, Sign.ofFloat, hm, Sign.add, Sign.leq]
      · cases s <;> cases t <;> simp [add, Sign.ofFloat, hm, Sign.add, Sign.leq]
    | finite t n =>
      rw [sign_finite, sign_finite]
      have hadd := Sign.ofInt_add (signed s m) (signed t n)
      unfold add
      dsimp only
      split
      · next h0 =>
        rw [h0] at hadd
        exact hadd
      · next h0 =>
        rw [ofRatio_sign h0]
        exact hadd

theorem sign_eq_zero {a : Binary64} : Sign.ofFloat a = .zero ↔ ∃ s, a = .finite s 0 := by
  cases a with
  | nan => simp [Sign.ofFloat]
  | infinite s => cases s <;> simp [Sign.ofFloat]
  | finite s n =>
    by_cases hn : n = 0
    · simp [Sign.ofFloat, hn]
    · cases s <;> simp [Sign.ofFloat, hn]

/-- A zero factor makes a zero product, unless the other one is not finite. -/
theorem sign_mul {a b : Binary64} (h : Run.zeroTimesNonfinite a b = false) :
    (Sign.ofFloat (a.mul b)).leq ((Sign.ofFloat a).floatMul (Sign.ofFloat b)) = true := by
  by_cases ha : Sign.ofFloat a = .zero
  · obtain ⟨s, rfl⟩ := sign_eq_zero.mp ha
    obtain ⟨t, n, rfl⟩ : ∃ t n, b = .finite t n := by
      cases b <;> simp_all [Run.zeroTimesNonfinite, isZero, Run.isFinite]
    rw [mul, Nat.zero_mul, ofRatio_zero _ (pow_two_pos _)]
    rfl
  · by_cases hb : Sign.ofFloat b = .zero
    · obtain ⟨t, rfl⟩ := sign_eq_zero.mp hb
      obtain ⟨s, m, rfl⟩ : ∃ s m, a = .finite s m := by
        cases a <;> simp_all [Run.zeroTimesNonfinite, isZero, Run.isFinite]
      rw [mul, Nat.mul_zero, ofRatio_zero _ (pow_two_pos _)]
      cases Sign.ofFloat (.finite s m) <;> rfl
    · rw [Sign.floatMul_any ha hb]
      exact Bool.or_true _

/-- A legal quotient has a divisor that is not zero, and is zero when the dividend is. -/
theorem sign_div {a b : Binary64} {r : Sign}
    (h : Sign.div? (Sign.ofFloat a) (Sign.ofFloat b) = some r) :
    b.isZero = false ∧ (Sign.ofFloat (a.div b)).leq r = true := by
  have hb : Sign.ofFloat b ≠ .zero ∧ Sign.ofFloat b ≠ .any := Sign.div_legal h
  refine ⟨?_, ?_⟩
  · cases b with
    | finite t n =>
      have hn : n ≠ 0 := fun hn => hb.1 (sign_eq_zero.mpr ⟨t, by rw [hn]⟩)
      simpa [isZero] using hn
    | _ => rfl
  · by_cases ha : Sign.ofFloat a = .zero
    · obtain ⟨s, rfl⟩ := sign_eq_zero.mp ha
      cases b with
      | nan => exact absurd rfl hb.2
      | infinite t => exact Sign.div_zero h
      | finite t n =>
        have hn : n ≠ 0 := fun hn => hb.1 (sign_eq_zero.mpr ⟨t, by rw [hn]⟩)
        rw [div, if_neg hn, Nat.zero_mul, ofRatio_zero _ (Nat.pos_of_ne_zero hn)]
        exact Sign.div_zero h
    · rw [Sign.div_any ha h]
      exact Bool.or_true _

/-- What the tables say of two floats being equal or in order. -/
theorem sign_compare (a b : Binary64) :
    (Truth.ofBool (a.eq b)).leq ((Sign.ofFloat a).eq (Sign.ofFloat b)) = true ∧
    (Truth.ofBool (a.lt b)).leq ((Sign.ofFloat a).lt (Sign.ofFloat b)) = true := by
  cases a with
  | nan => exact ⟨Bool.or_true _, Bool.or_true _⟩
  | infinite s =>
    cases b with
    | nan => cases s <;> exact ⟨rfl, rfl⟩
    | infinite t => cases s <;> cases t <;> exact ⟨rfl, rfl⟩
    | finite t n =>
      by_cases hn : n = 0 <;> cases s <;> cases t <;> simp [Sign.ofFloat, hn] <;> exact ⟨rfl, rfl⟩
  | finite s m =>
    cases b with
    | nan => cases Sign.ofFloat (.finite s m) <;> exact ⟨rfl, rfl⟩
    | infinite t =>
      by_cases hm : m = 0 <;> cases s <;> cases t <;> simp [Sign.ofFloat, hm] <;> exact ⟨rfl, rfl⟩
    | finite t n =>
      rw [sign_finite, sign_finite]
      exact Sign.ofInt_compare _ _

theorem sign_eq (a b : Binary64) :
    (Truth.ofBool (a.eq b)).leq ((Sign.ofFloat a).eq (Sign.ofFloat b)) = true :=
  (sign_compare a b).1

theorem sign_lt (a b : Binary64) :
    (Truth.ofBool (a.lt b)).leq ((Sign.ofFloat a).lt (Sign.ofFloat b)) = true :=
  (sign_compare a b).2

end Binary64

/-! Values: a result is described by what the analysis computes from descriptions of its
operands. -/

namespace Value

/-- The sign of a number. -/
def sign : Value → Sign
  | .int i => Sign.ofInt i.toInt
  | .float f => Sign.ofFloat f
  | .bool _ => .any

theorem abstract_eq {v : Value} {t : NumType} (h : v.type? = some t) :
    v.abstract = Analysis.signed t v.sign := by
  cases v with
  | int i =>
    cases h
    rfl
  | float f =>
    cases h
    cases f with
    | nan => rfl
    | infinite s => cases s <;> rfl
    | finite s n => by_cases hn : n = 0 <;> simp [abstract, Atom.ofFloat, sign, Sign.ofFloat, hn] <;> rfl
  | bool b => cases h

/-- What describes a number of a type is a sign of that type. -/
theorem eq_signed_of_leq {v : Value} {t : NumType} {x : Atom} (hv : v.type? = some t)
    (hx : v.abstract.leq x = true) : ∃ p, x = Analysis.signed t p ∧ v.sign.leq p = true := by
  rw [abstract_eq hv] at hx
  have hd : x.domain = Analysis.domainOf t := by
    rw [← Atom.domain_eq_of_leq hx, Analysis.domain_signed]
  obtain ⟨p, rfl⟩ := Analysis.eq_signed hd
  exact ⟨p, rfl, by rw [← Analysis.leq_signed t]; exact hx⟩

end Value

namespace Run

/-- Whole results that fit in 64 bits are not changed by wrapping around. -/
theorem bmod_of_fits {i : Int} (h : fits64 i = true) : i.bmod Int64.size = i := by
  simp only [fits64, Bool.and_eq_true, decide_eq_true_eq, Int64.toInt_minValue,
    Int64.toInt_maxValue] at h
  rw [Int64.size]
  exact Int.bmod_eq_of_le (by omega) (by omega)

/-- On integers the table is right whenever the result is exact. -/
theorem applyInt_sign {op : BinaryOp} {m n : Int64} {r : Sign}
    (hexact : (Observation.operation op (.int m) (.int n)).exact = true)
    (h : Analysis.table .int op (Sign.ofInt m.toInt) (Sign.ofInt n.toInt) = some r) :
    ∃ k, applyInt? op m n = some k ∧ (Sign.ofInt k.toInt).leq r = true := by
  cases op with
  | add =>
    obtain rfl := Option.some.inj h
    refine ⟨m + n, rfl, ?_⟩
    rw [Int64.toInt_add, bmod_of_fits hexact]
    exact Sign.ofInt_add _ _
  | sub =>
    obtain rfl := Option.some.inj h
    refine ⟨m - n, rfl, ?_⟩
    rw [Int64.toInt_sub, bmod_of_fits hexact, Int.sub_eq_add_neg, Sign.sub, ← Sign.ofInt_neg]
    exact Sign.ofInt_add _ _
  | mul =>
    obtain rfl := Option.some.inj h
    refine ⟨m * n, rfl, ?_⟩
    rw [Int64.toInt_mul, bmod_of_fits hexact, Sign.ofInt_mul]
    exact Sign.leq_refl _
  | div =>
    have h : Sign.div? (Sign.ofInt m.toInt) (Sign.ofInt n.toInt) = some r := h
    have hn : n ≠ 0 := by
      rintro rfl
      exact (Sign.div_legal h).1 rfl
    refine ⟨m / n, if_neg hn, ?_⟩
    by_cases hm : Sign.ofInt m.toInt = .zero
    · obtain rfl : m = 0 := by
        rcases Int.lt_trichotomy m.toInt 0 with h' | h' | h'
        · rw [Sign.ofInt_of_neg h'] at hm
          cases hm
        · exact Int64.toInt_inj.mp h'
        · rw [Sign.ofInt_of_pos h'] at hm
          cases hm
      rw [Int64.zero_div]
      exact Sign.div_zero h
    · rw [Sign.div_any hm h]
      exact Bool.or_true _

/-- On floats the table is right, unless a zero meets something not finite in a product. -/
theorem applyFloat_sign {op : BinaryOp} {x y : Binary64} {r : Sign}
    (hexact : (Observation.operation op (.float x) (.float y)).exact = true)
    (h : Analysis.table .float op (Sign.ofFloat x) (Sign.ofFloat y) = some r) :
    ∃ z, applyFloat? op x y = some z ∧ (Sign.ofFloat z).leq r = true := by
  cases op with
  | add =>
    obtain rfl := Option.some.inj h
    exact ⟨_, rfl, Binary64.sign_add x y⟩
  | sub =>
    obtain rfl := Option.some.inj h
    refine ⟨_, rfl, ?_⟩
    rw [Binary64.sub, Sign.sub, ← Binary64.sign_neg]
    exact Binary64.sign_add x y.neg
  | mul =>
    obtain rfl := Option.some.inj h
    exact ⟨_, rfl, Binary64.sign_mul (by simpa [Observation.exact] using hexact)⟩
  | div =>
    obtain ⟨hz, hr⟩ := Binary64.sign_div h
    exact ⟨x.div y, by simp [applyFloat?, hz], hr⟩

/-- An operation whose description is legal has a result, and is described by it. -/
theorem arith_sound {op : BinaryOp} {s : Span} {a b : Value} {t : NumType} {x y r : Atom}
    (ha : a.type? = some t) (hb : b.type? = some t) (hx : a.abstract.leq x = true)
    (hy : b.abstract.leq y = true) (hexact : (Observation.operation op a b).exact = true)
    (hop : Analysis.binary op x y = .ok r) (hr : r ≠ Atom.illegal) :
    ∃ v, arith op s a b = pure v ∧ v.type? = some t ∧ v.abstract.leq r = true := by
  obtain ⟨p, rfl, hp⟩ := Value.eq_signed_of_leq ha hx
  obtain ⟨q, rfl, hq⟩ := Value.eq_signed_of_leq hb hy
  rw [Analysis.binary_signed, Except.ok.injEq] at hop
  cases htable : Analysis.table t op p q with
  | none => exact absurd (by rw [← hop, htable]) hr
  | some w =>
    obtain rfl : Analysis.signed t w = r := by rw [← hop, htable]
    obtain ⟨u, hu, huw⟩ := Analysis.table_mono hp hq htable
    have hresult : ∃ v, arith op s a b = pure v ∧ v.type? = some t ∧ v.sign.leq u = true := by
      cases a <;> cases b <;> cases t <;> simp only [Value.type?, reduceCtorEq, Option.some.injEq] at ha hb
      · obtain ⟨k, hk, hsign⟩ := applyInt_sign hexact hu
        exact ⟨.int k, by simp [arith, hk], rfl, hsign⟩
      · obtain ⟨z, hz, hsign⟩ := applyFloat_sign hexact hu
        exact ⟨.float z, by simp [arith, hz], rfl, hsign⟩
    obtain ⟨v, hv, hvt, hsign⟩ := hresult
    refine ⟨v, hv, hvt, ?_⟩
    rw [Value.abstract_eq hvt, Analysis.leq_signed]
    exact Sign.leq_trans hsign huw

theorem negate_sound {v : Value} {t : NumType} {x r : Atom} (hv : v.type? = some t)
    (hx : v.abstract.leq x = true) (hexact : (Observation.negation v).exact = true)
    (hneg : x.neg = .ok r) : (negate v).abstract.leq r = true := by
  have hvt : (negate v).type? = some t := by rw [← hv]; cases v <;> rfl
  obtain ⟨p, rfl, hp⟩ := Value.eq_signed_of_leq hv hx
  rw [Analysis.neg_signed, Except.ok.injEq] at hneg
  have hsign : (negate v).sign = v.sign.flip := by
    cases v with
    | int i =>
      change Sign.ofInt (-i).toInt = _
      rw [Int64.toInt_neg, bmod_of_fits hexact]
      exact Sign.ofInt_neg _
    | float f => exact Binary64.sign_neg f
    | bool b => rfl
  rw [← hneg, Value.abstract_eq hvt, Analysis.leq_signed, hsign]
  exact Sign.flip_mono hp

theorem int_eq (m n : Int64) : (Truth.ofBool (decide (m = n))).leq
    ((Sign.ofInt m.toInt).eq (Sign.ofInt n.toInt)) = true := by
  have h := Sign.ofInt_eq m.toInt n.toInt
  simpa only [Int64.toInt_inj] using h

theorem int_lt (m n : Int64) : (Truth.ofBool (decide (m < n))).leq
    ((Sign.ofInt m.toInt).lt (Sign.ofInt n.toInt)) = true := by
  have h := Sign.ofInt_lt m.toInt n.toInt
  simpa only [Int64.lt_iff_toInt_lt] using h

theorem int_le (m n : Int64) : (Truth.ofBool (decide (m ≤ n))).leq
    ((Sign.ofInt m.toInt).le (Sign.ofInt n.toInt)) = true := by
  have h := Sign.le_of_lt_of_eq (Sign.ofInt_lt m.toInt n.toInt) (Sign.ofInt_eq m.toInt n.toInt)
  rw [← Bool.decide_or] at h
  simpa only [Int64.le_iff_toInt_le, Int.le_iff_lt_or_eq] using h

/-- The tables of comparisons are right for the signs of two numbers of one type. -/
theorem compare_sign (op : CompareOp) {a b : Value} {t : NumType} (ha : a.type? = some t)
    (hb : b.type? = some t) :
    (Truth.ofBool (compare op a b)).leq (Analysis.verdict op a.sign b.sign) = true := by
  cases a <;> cases b <;> cases t <;> simp only [Value.type?, reduceCtorEq, Option.some.injEq] at ha hb
  · next m n =>
    cases op with
    | eq => exact int_eq m n
    | ne =>
      change (Truth.ofBool (decide (m ≠ n))).leq _ = true
      rw [decide_not]
      exact Truth.not_mono (int_eq m n)
    | lt => exact int_lt m n
    | gt => exact int_lt n m
    | le => exact int_le m n
    | ge => exact int_le n m
  · next x y =>
    cases op with
    | eq => exact Binary64.sign_eq x y
    | ne => exact Truth.not_mono (Binary64.sign_eq x y)
    | lt => exact Binary64.sign_lt x y
    | gt => exact Binary64.sign_lt y x
    | le => exact Sign.le_of_lt_of_eq (Binary64.sign_lt x y) (Binary64.sign_eq x y)
    | ge => exact Sign.le_of_lt_of_eq (Binary64.sign_lt y x) (Binary64.sign_eq y x)

theorem compare_sound {op : CompareOp} {a b : Value} {t : NumType} {x y r : Atom}
    (ha : a.type? = some t) (hb : b.type? = some t) (hx : a.abstract.leq x = true)
    (hy : b.abstract.leq y = true) (hop : Analysis.compare op x y = .ok r) :
    (Atom.ofBool (compare op a b)).leq r = true := by
  obtain ⟨p, rfl, hp⟩ := Value.eq_signed_of_leq ha hx
  obtain ⟨q, rfl, hq⟩ := Value.eq_signed_of_leq hb hy
  rw [Analysis.compare_signed, Except.ok.injEq] at hop
  have hsign := compare_sign op ha hb
  have hmono := Analysis.verdict_mono op hp hq
  rw [← hop, Analysis.leq_ofBool]
  exact Truth.leq_trans hsign hmono

end Run
end Signum
