import Signum.Proofs.Analysis.Joining
import Signum.Analysis.Interpreter
/- Operators on atoms of one domain.

   The atoms in the domain of a type are that type's signs (`eq_signed`), and on them
   the operators are their tables: they give an atom of the same domain without a fault,
   or the illegal atom for a quotient whose divisor may be zero. Comparisons and logical
   operators give verdicts. -/
namespace Signum.Analysis

theorem domainOf_ne_invalid (t : NumType) : domainOf t ≠ .invalid := by cases t <;> decide

/-- The atom of a type with a given sign. -/
def signed (t : NumType) (s : Sign) : Atom := (topOf t).withSign s

@[simp] theorem domain_signed (t : NumType) (s : Sign) : (signed t s).domain = domainOf t := by
  cases t <;> rfl

/-- The atoms in a type's domain are the signs of the type. -/
theorem eq_signed {a : Atom} {t : NumType} (h : a.domain = domainOf t) : ∃ s, a = signed t s := by
  cases a <;> cases t <;> simp only [Atom.domain, domainOf, reduceCtorEq] at h
  · exact ⟨_, rfl⟩
  · exact ⟨_, rfl⟩

theorem arith_signed (op : Bytes) (table : Sign → Sign → Sign) (t : NumType) (s s' : Sign) :
    Atom.arith op table (signed t s) (signed t s') = .ok (signed t (table s s')) := by
  cases t <;> rfl

theorem div_signed (t : NumType) (s s' : Sign) : (signed t s).div (signed t s') =
    .ok (match Sign.div? s s' with
      | some r => signed t r
      | none => Atom.illegal) := by
  cases t <;> rfl

theorem neg_signed (t : NumType) (s : Sign) : (signed t s).neg = .ok (signed t s.flip) := by
  cases t <;> rfl

/-- The table of an arithmetic operator, when its result has a sign. -/
def table (t : NumType) : BinaryOp → Sign → Sign → Option Sign
  | .add, s, s' => some (s.add s')
  | .sub, s, s' => some (s.sub s')
  | .mul, s, s' => some (match t with
    | .int => s.mul s'
    | .float => s.floatMul s')
  | .div, s, s' => Sign.div? s s'

theorem binary_signed (op : BinaryOp) (t : NumType) (s s' : Sign) :
    binary op (signed t s) (signed t s') = .ok (match table t op s s' with
      | some r => signed t r
      | none => Atom.illegal) := by
  cases op with
  | add => exact arith_signed _ _ t s s'
  | sub => exact arith_signed _ _ t s s'
  | mul => cases t <;> rfl
  | div => exact div_signed t s s'

/-- Operands of one type give an atom of that type, unless it is the illegal one. -/
theorem binary_ok (op : BinaryOp) {a b : Atom} {t : NumType} (ha : a.domain = domainOf t)
    (hb : b.domain = domainOf t) :
    ∃ r, binary op a b = .ok r ∧ (r ≠ Atom.illegal → r.domain = domainOf t) := by
  obtain ⟨s, rfl⟩ := eq_signed ha
  obtain ⟨s', rfl⟩ := eq_signed hb
  refine ⟨_, binary_signed op t s s', fun hne => ?_⟩
  cases htable : table t op s s' with
  | none => exact absurd (by rw [htable]) hne
  | some r => exact domain_signed t r

theorem neg_ok {a : Atom} {t : NumType} (ha : a.domain = domainOf t) :
    ∃ r, a.neg = .ok r ∧ r.domain = domainOf t := by
  obtain ⟨s, rfl⟩ := eq_signed ha
  exact ⟨_, neg_signed t s, domain_signed t s.flip⟩

/-- The table of a comparison. -/
def verdict : CompareOp → Sign → Sign → Truth
  | .eq, s, s' => s.eq s'
  | .ne, s, s' => (s.eq s').not
  | .lt, s, s' => s.lt s'
  | .gt, s, s' => s'.lt s
  | .le, s, s' => s.le s'
  | .ge, s, s' => s'.le s

theorem compare_signed (op : CompareOp) (t : NumType) (s s' : Sign) :
    compare op (signed t s) (signed t s') = .ok (.bool (verdict op s s')) := by
  cases op <;> cases t <;> rfl

theorem compare_ok (op : CompareOp) {a b : Atom} {t : NumType} (ha : a.domain = domainOf t)
    (hb : b.domain = domainOf t) : ∃ r, compare op a b = .ok (.bool r) := by
  obtain ⟨s, rfl⟩ := eq_signed ha
  obtain ⟨s', rfl⟩ := eq_signed hb
  exact ⟨_, compare_signed op t s s'⟩

theorem logical_ok (op : LogicalOp) (r r' : Truth) :
    ∃ q, logical op (.bool r) (.bool r') = .ok (.bool q) := by
  cases op <;> exact ⟨_, rfl⟩

end Signum.Analysis
