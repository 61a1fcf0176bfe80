import Signum.Proofs.Sign.Soundness
/- The operators respect the order of the sign domain.

   A relation between atoms is `Respected` when operators and joins that succeed on the
   atoms of one side succeed on those of the other, with related results. Being equal is
   such a relation, and so is being `Below` in the order of a domain: what the operators make
   of larger operands is larger, a quotient that is legal for some operands is legal for all
   below them, and a join grows with what is joined. -/
namespace Signum

namespace Truth

theorem leq_not : ∀ {q q' : Truth}, q.leq q' = true → q.not.leq q'.not = true := by decide

theorem leq_and : ∀ {q q' r r' : Truth}, q.leq q' = true → r.leq r' = true →
    (q.and r).leq (q'.and r') = true := by decide

theorem leq_or : ∀ {q q' r r' : Truth}, q.leq q' = true → r.leq r' = true →
    (q.or r).leq (q'.or r') = true := by decide

end Truth

namespace Atom

/-- The order of the atoms that belong to a domain. -/
def Below (a b : Atom) : Prop := a.leq b = true ∧ a.domain ≠ .invalid

theorem leq_of_isTop {a b : Atom} (hd : a.domain = b.domain) (hb : b.isTop = true) :
    a.leq b = true := by
  simp [leq, hd, hb]

theorem eq_of_leq {a b : Atom} (h : a.leq b = true) (hb : ¬b.isTop = true) : a = b := by
  simp only [leq, Bool.or_eq_true, decide_eq_true_eq, Bool.and_eq_true] at h
  exact h.resolve_right fun htop => hb htop.2

theorem Below.trans {a b c : Atom} (h : a.Below b) (h' : b.Below c) : a.Below c :=
  ⟨leq_trans h.1 h'.1, h.2⟩

theorem Below.right {a b : Atom} (h : a.Below b) : b.Below b :=
  ⟨leq_refl b, domain_eq_of_leq h.1 ▸ h.2⟩

/-- Joining in an atom that is below already changes nothing. -/
theorem merge_eq_self {a b : Atom} (h : b.leq a = true) (ha : a.domain ≠ .invalid) :
    a.merge b = .ok a := by
  obtain ⟨c, hc⟩ := merge_ok (domain_eq_of_leq h).symm ha
  obtain ⟨-, ⟨-, rfl⟩ | ⟨hne, hd, htop⟩⟩ := merge_eq_ok hc
  · exact hc
  · have hatop : a.isTop = true := by
      by_contra hnot
      exact hne (eq_of_leq h hnot).symm
    have hca : c = a := by cases a <;> cases c <;> simp_all [isTop, domain]
    rw [hc, hca]

end Atom

namespace Analysis

/-- An operator that succeeds on some atoms succeeds on related ones, with a related
result. -/
def Respects (le : Atom → Atom → Prop) (f : Atom → Atom → Except SignFault Atom) : Prop :=
  ∀ {a a' b b' c'}, le a a' → le b b' → f a' b' = .ok c' → ∃ c, f a b = .ok c ∧ le c c'

/-- A relation of atoms that the operators of an analysis respect. -/
structure Respected (le : Atom → Atom → Prop) : Prop where
  domain : ∀ {a b}, le a b → a.domain = b.domain
  signed : ∀ t s, le (signed t s) (signed t s)
  neg : ∀ {a a' c'}, le a a' → a'.neg = .ok c' → ∃ c, a.neg = .ok c ∧ le c c'
  binary : ∀ op {a a' b b' c'}, le a a' → le b b' → binary op a' b' = .ok c' →
    c' ≠ Atom.illegal → ∃ c, binary op a b = .ok c ∧ c ≠ Atom.illegal ∧ le c c'
  compare : ∀ op, Respects le (compare op)
  logical : ∀ op, Respects le (logical op)
  not : ∀ {a a' c'}, le a a' → a'.not = .ok c' → ∃ c, a.not = .ok c ∧ le c c'
  merge : Respects le Atom.merge

theorem respects_eq (f : Atom → Atom → Except SignFault Atom) : Respects Eq f := by
  rintro a _ b _ c rfl rfl h
  exact ⟨c, h, rfl⟩

theorem respected_eq : Respected Eq where
  domain h := h ▸ rfl
  signed _ _ := rfl
  neg := by
    rintro a _ c rfl h
    exact ⟨c, h, rfl⟩
  binary := by
    rintro op a _ b _ c rfl rfl h hne
    exact ⟨c, h, hne, rfl⟩
  compare _ := respects_eq _
  logical _ := respects_eq _
  not := by
    rintro a _ c rfl h
    exact ⟨c, h, rfl⟩
  merge := respects_eq _

/-! Operators on larger operands give larger results. -/

theorem sameDomain_ok {op : Bytes} {a b : Atom} {u : Unit} (h : Atom.sameDomain op a b = .ok u) :
    a.domain = b.domain := by
  unfold Atom.sameDomain at h
  split at h
  · cases h
  · next hs =>
    simp only [Bool.or_eq_true, decide_eq_true_eq, not_or] at hs
    simpa using hs.2

/-- Operands whose signs can be taken together are of one type. -/
theorem operands_ok {op : Bytes} {a b c : Atom} {f : Sign → Sign → Atom}
    (h : (do
      Atom.sameDomain op a b
      let s ← a.sign
      let s' ← b.sign
      pure (f s s')) = .ok c) : ∃ t s s', a = signed t s ∧ b = signed t s' := by
  cases hd : Atom.sameDomain op a b with
  | error e => rw [hd] at h; cases h
  | ok u =>
    rw [hd] at h
    have hdom := sameDomain_ok hd
    cases a with
    | int s =>
      obtain ⟨s', rfl⟩ := eq_signed (t := .int) hdom.symm
      exact ⟨.int, s, s', rfl, rfl⟩
    | float s =>
      obtain ⟨s', rfl⟩ := eq_signed (t := .float) hdom.symm
      exact ⟨.float, s, s', rfl, rfl⟩
    | bool t => cases h
    | invalid code => cases h

theorem binary_operands {op : BinaryOp} {a b c : Atom} (h : binary op a b = .ok c) :
    ∃ t s s', a = signed t s ∧ b = signed t s' := by
  cases op <;> exact operands_ok h

theorem compare_operands {op : CompareOp} {a b c : Atom} (h : compare op a b = .ok c) :
    ∃ t s s', a = signed t s ∧ b = signed t s' := by
  cases op with
  | eq | lt | le => exact operands_ok h
  | gt | ge =>
    obtain ⟨t, s, s', hb, ha⟩ := operands_ok h
    exact ⟨t, s', s, ha, hb⟩
  | ne =>
    cases heq : a.eq b with
    | error e => simp only [compare, Atom.ne, heq] at h; cases h
    | ok v => exact operands_ok heq

theorem neg_operand {a c : Atom} (h : a.neg = .ok c) : ∃ t s, a = signed t s := by
  cases a with
  | int s => exact ⟨.int, s, rfl⟩
  | float s => exact ⟨.float, s, rfl⟩
  | bool t => cases h
  | invalid code => cases h

theorem not_operand {a c : Atom} (h : a.not = .ok c) : ∃ q, a = .bool q := by
  cases a with
  | bool q => exact ⟨q, rfl⟩
  | int s => cases h
  | float s => cases h
  | invalid code => cases h

theorem logical_operands {op : LogicalOp} {a b c : Atom} (h : logical op a b = .ok c) :
    ∃ q q', a = .bool q ∧ b = .bool q' := by
  cases a with
  | bool q =>
    cases b with
    | bool q' => exact ⟨q, q', rfl, rfl⟩
    | _ => cases op <;> cases h
  | _ => cases op <;> cases h

/-- The atoms below one of a type are of the type. -/
theorem below_signed {a : Atom} {t : NumType} {s' : Sign} (h : a.Below (signed t s')) :
    ∃ s, a = signed t s ∧ s.leq s' = true := by
  obtain ⟨s, rfl⟩ := eq_signed ((Atom.domain_eq_of_leq h.1).trans (domain_signed t s'))
  exact ⟨s, rfl, (leq_signed t s s').symm.trans h.1⟩

theorem signed_below {t : NumType} {s s' : Sign} (h : s.leq s' = true) :
    (signed t s).Below (signed t s') :=
  ⟨(leq_signed t s s').trans h, domain_signed t s ▸ domainOf_ne_invalid t⟩

theorem leq_bool (q q' : Truth) : (Atom.bool q).leq (.bool q') = q.leq q' := by
  cases q <;> cases q' <;> rfl

theorem below_bool {a : Atom} {q' : Truth} (h : a.Below (.bool q')) :
    ∃ q, a = .bool q ∧ q.leq q' = true := by
  cases a with
  | bool q => exact ⟨q, rfl, (leq_bool q q').symm.trans h.1⟩
  | _ => cases Atom.domain_eq_of_leq h.1

theorem bool_below {q q' : Truth} (h : q.leq q' = true) : (Atom.bool q).Below (.bool q') :=
  ⟨(leq_bool q q').trans h, nofun⟩

theorem merge_below : Respects Atom.Below Atom.merge := by
  intro a a' b b' c' ha hb h
  obtain ⟨hd, hcase⟩ := Atom.merge_eq_ok h
  have hda := Atom.domain_eq_of_leq ha.1
  have hdb := Atom.domain_eq_of_leq hb.1
  obtain ⟨c, hc⟩ := Atom.merge_ok (hda.trans (hd.trans hdb.symm)) ha.2
  refine ⟨c, hc, ?_⟩
  obtain ⟨hac, hbc⟩ := Atom.leq_of_merge hc
  refine ⟨?_, Atom.domain_eq_of_leq hac ▸ ha.2⟩
  rcases hcase with ⟨rfl, rfl⟩ | ⟨-, hc', htop⟩
  · obtain ⟨-, ⟨rfl, rfl⟩ | ⟨hne, hcd, -⟩⟩ := Atom.merge_eq_ok hc
    · exact ha.1
    · -- two different atoms are below one, which then is the top
      refine Atom.leq_of_isTop (hcd.trans hda) ?_
      by_contra hnot
      exact hne ((Atom.eq_of_leq ha.1 hnot).trans (Atom.eq_of_leq hb.1 hnot).symm)
  · exact Atom.leq_of_isTop ((Atom.domain_eq_of_leq hac).symm.trans (hda.trans hc'.symm)) htop

theorem respected_below : Respected Atom.Below where
  domain h := Atom.domain_eq_of_leq h.1
  signed _ s := signed_below (Sign.leq_refl s)
  neg := by
    intro a a' c' ha h
    obtain ⟨t, s', rfl⟩ := neg_operand h
    obtain ⟨s, rfl, hs⟩ := below_signed ha
    rw [neg_signed, Except.ok.injEq] at h
    exact ⟨_, neg_signed t s, h ▸ signed_below (Sign.flip_mono hs)⟩
  binary := by
    intro op a a' b b' c' ha hb h hne
    obtain ⟨t, s', r', rfl, rfl⟩ := binary_operands h
    obtain ⟨s, rfl, hs⟩ := below_signed ha
    obtain ⟨r, rfl, hr⟩ := below_signed hb
    rw [binary_signed, Except.ok.injEq] at h
    cases htable : table t op s' r' with
    | none => rw [htable] at h; exact absurd h.symm hne
    | some q' =>
      -- what is legal above is legal below
      obtain ⟨q, hq, hqq⟩ := table_mono hs hr htable
      rw [htable] at h
      have hbelow := signed_below (t := t) hqq
      refine ⟨signed t q, by rw [binary_signed, hq], fun heq => ?_, h ▸ hbelow⟩
      exact hbelow.2 (heq ▸ rfl)
  compare := by
    intro op a a' b b' c' ha hb h
    obtain ⟨t, s', r', rfl, rfl⟩ := compare_operands h
    obtain ⟨s, rfl, hs⟩ := below_signed ha
    obtain ⟨r, rfl, hr⟩ := below_signed hb
    rw [compare_signed, Except.ok.injEq] at h
    exact ⟨_, compare_signed op t s r, h ▸ bool_below (verdict_mono op hs hr)⟩
  logical := by
    intro op a a' b b' c' ha hb h
    obtain ⟨q', r', rfl, rfl⟩ := logical_operands h
    obtain ⟨q, rfl, hq⟩ := below_bool ha
    obtain ⟨r, rfl, hr⟩ := below_bool hb
    cases op with
    | and =>
      obtain rfl : Atom.bool (q'.and r') = c' := Except.ok.inj h
      exact ⟨_, rfl, bool_below (Truth.leq_and hq hr)⟩
    | or =>
      obtain rfl : Atom.bool (q'.or r') = c' := Except.ok.inj h
      exact ⟨_, rfl, bool_below (Truth.leq_or hq hr)⟩
  not := by
    intro a a' c' ha h
    obtain ⟨q', rfl⟩ := not_operand h
    obtain ⟨q, rfl, hq⟩ := below_bool ha
    obtain rfl : Atom.bool q'.not = c' := Except.ok.inj h
    exact ⟨_, rfl, bool_below (Truth.leq_not hq)⟩
  merge := merge_below

end Analysis

end Signum
