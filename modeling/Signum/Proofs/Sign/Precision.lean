import Signum.Proofs.Sign.Order
/- The tables for integers lose nothing.

   An atom describes some integers, and an operator has an outcome for every two integers that its
   operands describe. The atom in the table is the least one above all of these outcomes
   (`LeastOf`). That it is above them follows from the laws of signs. That nothing smaller is
   needs no more than a few integers of each sign (`samples`): an entry that says nothing is
   forced by two samples with different outcomes, and any other entry is itself an outcome.
   Quotients are not kept as precisely, but the illegal one stands exactly where the divisor may
   be zero. -/
namespace Signum

/-- The exact result of an operator on integers; quotients are cut off toward zero. -/
def BinaryOp.onIntegers : BinaryOp → Int → Int → Int
  | .add, m, n => m + n
  | .sub, m, n => m - n
  | .mul, m, n => m * n
  | .div, m, n => m.tdiv n

/-- Whether a comparison of integers holds. -/
def CompareOp.onIntegers : CompareOp → Int → Int → Bool
  | .eq, m, n => m = n
  | .ne, m, n => m ≠ n
  | .lt, m, n => m < n
  | .gt, m, n => n < m
  | .le, m, n => m ≤ n
  | .ge, m, n => n ≤ m

namespace Atom

/-- The atom describes the integer. -/
def Describes (a : Atom) (m : Int) : Prop := (ofInt m).leq a = true

/-- What an operation can come to on integers that two atoms describe. -/
def Outcome (a b : Atom) (f : Int → Int → Atom) (v : Atom) : Prop :=
  ∃ m n, a.Describes m ∧ b.Describes n ∧ v = f m n

/-- The least atom above all outcomes. -/
structure LeastOf (outcomes : Atom → Prop) (r : Atom) : Prop where
  covers : ∀ v, outcomes v → v.leq r = true
  least : ∀ c, (∀ v, outcomes v → v.leq c = true) → r.leq c = true

/-- Two different atoms are only below the top of their domain. -/
theorem isTop_of_two {v w c : Atom} (hne : v ≠ w) (hv : v.leq c = true) (hw : w.leq c = true) :
    c.isTop = true := by
  by_contra hc
  exact hne ((eq_of_leq hv hc).trans (eq_of_leq hw hc).symm)

/-- An atom above the outcomes is the least one if it is exact and there is an outcome, or if two
outcomes are different. -/
theorem LeastOf.intro {outcomes : Atom → Prop} {r : Atom}
    (hcovers : ∀ v, outcomes v → v.leq r = true) (hsome : ∃ v, outcomes v)
    (htwo : r.isTop = true → ∃ v w, outcomes v ∧ outcomes w ∧ v ≠ w) : LeastOf outcomes r := by
  refine ⟨hcovers, fun c hc => ?_⟩
  obtain ⟨v, hv⟩ := hsome
  by_cases htop : r.isTop = true
  · obtain ⟨w, w', hw, hw', hne⟩ := htwo htop
    have hdomain : r.domain = c.domain :=
      (domain_eq_of_leq (hcovers v hv)).symm.trans (domain_eq_of_leq (hc v hv))
    exact leq_of_isTop hdomain (isTop_of_two hne (hc w hw) (hc w' hw'))
  · rw [← eq_of_leq (hcovers v hv) htop]
    exact hc v hv

/-- Among truths, the least one above the outcomes says nothing exactly when both occur. -/
theorem LeastOf.maybe_iff {outcomes : Atom → Prop} {t : Truth} (h : LeastOf outcomes (.bool t))
    (hbool : ∀ v, outcomes v → ∃ b, v = ofBool b) :
    t = .maybe ↔ outcomes (ofBool true) ∧ outcomes (ofBool false) := by
  constructor
  · rintro rfl
    -- if one of the two does not occur, the other one is above all that do
    have hoccurs (b : Bool) : outcomes (ofBool b) := by
      by_contra hb
      have hother : ∀ v, outcomes v → v.leq (ofBool !b) = true := by
        intro v hv
        obtain ⟨b', rfl⟩ := hbool v hv
        obtain rfl : b' = !b := by
          by_contra hne
          obtain rfl : b' = b := by cases b <;> cases b' <;> simp_all
          exact hb hv
        exact leq_refl _
      have hleast := h.least _ hother
      cases b <;> cases hleast
    exact ⟨hoccurs true, hoccurs false⟩
  · rintro ⟨htrue, hfalse⟩
    have htop := isTop_of_two (by decide) (h.covers _ htrue) (h.covers _ hfalse)
    simpa [isTop] using htop

end Atom

namespace Sign

/-- A few integers of a sign. -/
def samples : Sign → List Int
  | .pos => [1, 2]
  | .neg => [-1, -2]
  | .zero => [0]
  | .any => [-2, 0, 2]

theorem samples_ne_nil (s : Sign) : s.samples ≠ [] := by cases s <;> simp [samples]

theorem describes_iff {s : Sign} {m : Int} : (Atom.int s).Describes m ↔ (ofInt m).leq s = true :=
  iff_of_eq (congrArg (· = true) (Analysis.leq_signed .int (ofInt m) s))

theorem describes_sample {s : Sign} {m : Int} (h : m ∈ s.samples) : (Atom.int s).Describes m := by
  have hsamples : ∀ s : Sign, ∀ m ∈ s.samples, (ofInt m).leq s = true := by decide
  exact describes_iff.mpr (hsamples s m h)

theorem ofInt_eq_zero {m : Int} : ofInt m = .zero ↔ m = 0 := by
  constructor
  · intro h
    rcases Int.lt_trichotomy m 0 with hm | hm | hm
    · rw [ofInt_of_neg hm] at h
      cases h
    · exact hm
    · rw [ofInt_of_pos hm] at h
      cases h
  · rintro rfl
    rfl

end Sign

namespace Analysis

open Sign (samples describes_iff describes_sample)

/-! What the tables say is right. -/

theorem table_onIntegers {op : BinaryOp} {m n : Int} {r : Sign}
    (h : table .int op (Sign.ofInt m) (Sign.ofInt n) = some r) :
    (Sign.ofInt (op.onIntegers m n)).leq r = true := by
  cases op with
  | add =>
    obtain rfl := Option.some.inj h
    exact Sign.ofInt_add m n
  | sub =>
    obtain rfl := Option.some.inj h
    rw [Sign.sub, ← Sign.ofInt_neg, BinaryOp.onIntegers, Int.sub_eq_add_neg]
    exact Sign.ofInt_add m (-n)
  | mul =>
    obtain rfl := Option.some.inj h
    rw [BinaryOp.onIntegers, Sign.ofInt_mul]
    exact Sign.leq_refl _
  | div =>
    by_cases hm : Sign.ofInt m = .zero
    · obtain rfl := Sign.ofInt_eq_zero.mp hm
      rw [BinaryOp.onIntegers, Int.zero_tdiv]
      exact Sign.div_zero h
    · rw [Sign.div_any hm h]
      exact Bool.or_true _

theorem verdict_onIntegers (op : CompareOp) (m n : Int) :
    (Truth.ofBool (op.onIntegers m n)).leq (verdict op (Sign.ofInt m) (Sign.ofInt n)) = true := by
  have hle (m n : Int) : (Truth.ofBool (decide (m ≤ n))).leq
      ((Sign.ofInt m).le (Sign.ofInt n)) = true := by
    have h := Sign.le_of_lt_of_eq (Sign.ofInt_lt m n) (Sign.ofInt_eq m n)
    rw [← Bool.decide_or] at h
    simpa only [Int.le_iff_lt_or_eq] using h
  cases op with
  | eq => exact Sign.ofInt_eq m n
  | ne =>
    rw [CompareOp.onIntegers, decide_not]
    exact Truth.not_mono (Sign.ofInt_eq m n)
  | lt => exact Sign.ofInt_lt m n
  | gt => exact Sign.ofInt_lt n m
  | le => exact hle m n
  | ge => exact hle n m

/-- What a table gives for two signs covers the result for all integers of these signs. -/
theorem table_covers {op : BinaryOp} {p q r : Sign} {m n : Int} (h : table .int op p q = some r)
    (hm : (Atom.int p).Describes m) (hn : (Atom.int q).Describes n) :
    (Atom.ofInt (op.onIntegers m n)).leq (.int r) = true := by
  obtain ⟨u, hu, hur⟩ := table_mono (describes_iff.mp hm) (describes_iff.mp hn) h
  exact describes_iff.mpr (Sign.leq_trans (table_onIntegers hu) hur)

theorem verdict_covers (op : CompareOp) {p q : Sign} {m n : Int} (hm : (Atom.int p).Describes m)
    (hn : (Atom.int q).Describes n) :
    (Atom.ofBool (op.onIntegers m n)).leq (.bool (verdict op p q)) = true := by
  rw [leq_ofBool]
  exact Truth.leq_trans (verdict_onIntegers op m n)
    (verdict_mono op (describes_iff.mp hm) (describes_iff.mp hn))

/-! Where they say nothing, there is nothing to say. -/

/-- Two samples of the operands are told apart. -/
def Differ {α : Type} (f : Int → Int → α) (p q : Sign) : Prop :=
  ∃ m ∈ p.samples, ∃ n ∈ q.samples, ∃ m' ∈ p.samples, ∃ n' ∈ q.samples, f m n ≠ f m' n'

instance {α : Type} [DecidableEq α] (f : Int → Int → α) (p q : Sign) : Decidable (Differ f p q) :=
  inferInstanceAs (Decidable (∃ m ∈ p.samples, _))

theorem table_differ (op : BinaryOp) (hop : op ≠ .div) : ∀ p q : Sign,
    table .int op p q = some .any → Differ (fun m n => Sign.ofInt (op.onIntegers m n)) p q := by
  cases op with
  | add | sub | mul => decide
  | div => exact absurd rfl hop

theorem verdict_differ (op : CompareOp) : ∀ p q : Sign,
    verdict op p q = .maybe → Differ op.onIntegers p q := by
  cases op <;> decide

/-- Samples of both operands have an outcome. -/
theorem exists_outcome (p q : Sign) (f : Int → Int → Atom) :
    ∃ v, Atom.Outcome (.int p) (.int q) f v := by
  obtain ⟨m, hm⟩ := List.exists_mem_of_ne_nil _ p.samples_ne_nil
  obtain ⟨n, hn⟩ := List.exists_mem_of_ne_nil _ q.samples_ne_nil
  exact ⟨f m n, m, n, describes_sample hm, describes_sample hn, rfl⟩

/-- Samples that are told apart have different outcomes, if these are told apart too. -/
theorem Differ.outcomes {α : Type} {f : Int → Int → α} {p q : Sign} (h : Differ f p q)
    {g : α → Atom} (hg : Function.Injective g) :
    ∃ v w, Atom.Outcome (.int p) (.int q) (fun m n => g (f m n)) v ∧
      Atom.Outcome (.int p) (.int q) (fun m n => g (f m n)) w ∧ v ≠ w := by
  obtain ⟨m, hm, n, hn, m', hm', n', hn', hne⟩ := h
  exact ⟨_, _, ⟨m, n, describes_sample hm, describes_sample hn, rfl⟩,
    ⟨m', n', describes_sample hm', describes_sample hn', rfl⟩, fun heq => hne (hg heq)⟩

theorem binary_leastOf {op : BinaryOp} (hop : op ≠ .div) (p q : Sign) :
    ∃ r, binary op (.int p) (.int q) = .ok r ∧
      Atom.LeastOf (Atom.Outcome (.int p) (.int q) fun m n => Atom.ofInt (op.onIntegers m n)) r := by
  obtain ⟨r, hr⟩ : ∃ r, table .int op p q = some r := by
    cases op with
    | add | sub | mul => exact ⟨_, rfl⟩
    | div => exact absurd rfl hop
  have hok : binary op (.int p) (.int q) = .ok (.int r) := by
    have h := binary_signed op .int p q
    rw [hr] at h
    exact h
  refine ⟨.int r, hok, .intro ?_ ?_ ?_⟩
  · rintro _ ⟨m, n, hm, hn, rfl⟩
    exact table_covers hr hm hn
  · exact exists_outcome p q _
  · intro htop
    obtain rfl : r = .any := by simpa [Atom.isTop] using htop
    exact (table_differ op hop p q hr).outcomes (g := Atom.int) fun _ _ h => Atom.int.inj h

theorem compare_leastOf (op : CompareOp) (p q : Sign) :
    Atom.LeastOf (Atom.Outcome (.int p) (.int q) fun m n => Atom.ofBool (op.onIntegers m n))
      (.bool (verdict op p q)) := by
  refine .intro ?_ (exists_outcome p q _) fun htop => ?_
  · rintro _ ⟨m, n, hm, hn, rfl⟩
    exact verdict_covers op hm hn
  · have hmaybe : verdict op p q = .maybe := by simpa [Atom.isTop] using htop
    refine (verdict_differ op p q hmaybe).outcomes (g := Atom.ofBool) fun b b' h => ?_
    cases b <;> cases b' <;> first | rfl | cases h

theorem neg_leastOf (p : Sign) :
    Atom.LeastOf (fun v => ∃ m, (Atom.int p).Describes m ∧ v = Atom.ofInt (-m)) (.int p.flip) := by
  have hoccurs {m : Int} (hm : m ∈ p.samples) :
      ∃ k, (Atom.int p).Describes k ∧ Atom.ofInt (-m) = Atom.ofInt (-k) :=
    ⟨m, describes_sample hm, rfl⟩
  refine .intro ?_ ?_ fun htop => ?_
  · rintro _ ⟨m, hm, rfl⟩
    refine describes_iff.mpr ?_
    rw [Sign.ofInt_neg]
    exact Sign.flip_mono (describes_iff.mp hm)
  · obtain ⟨m, hm⟩ := List.exists_mem_of_ne_nil _ p.samples_ne_nil
    exact ⟨_, hoccurs hm⟩
  · obtain rfl : p = .any := by cases p <;> first | rfl | cases htop
    exact ⟨_, _, hoccurs (m := 2) (by decide), hoccurs (m := 0) (by decide), by decide⟩

/-- No quotient is given exactly when the divisor may be zero. -/
theorem div?_eq_none {p q : Sign} : Sign.div? p q = none ↔ (Atom.int q).Describes 0 := by
  have hzero : ∀ p q : Sign, Sign.div? p q = none ↔ Sign.zero.leq q = true := by decide
  exact (hzero p q).trans (describes_iff (m := 0)).symm

/-- The tables for integers are sound and as precise as they can be. For all atoms of integers,
sums, differences, products, negations and comparisons succeed, and their result is the least atom
above what the operation comes to on any integers that the operands describe; a comparison says
nothing exactly when it can come out either way. A quotient is illegal exactly when the divisor may
be zero, and otherwise covers the quotient, cut off toward zero, of any integers described. -/
theorem integer_tables_are_least (p q : Sign) :
    (∀ op : BinaryOp, op ≠ .div → ∃ r, binary op (.int p) (.int q) = .ok r ∧
      Atom.LeastOf (Atom.Outcome (.int p) (.int q) fun m n => Atom.ofInt (op.onIntegers m n)) r) ∧
    (∃ r, (Atom.int p).neg = .ok r ∧
      Atom.LeastOf (fun v => ∃ m, (Atom.int p).Describes m ∧ v = Atom.ofInt (-m)) r) ∧
    (∀ op : CompareOp, ∃ r, compare op (.int p) (.int q) = .ok r ∧
      Atom.LeastOf (Atom.Outcome (.int p) (.int q) fun m n => Atom.ofBool (op.onIntegers m n)) r ∧
      (r = .bool .maybe ↔ ∀ b, ∃ m n, (Atom.int p).Describes m ∧ (Atom.int q).Describes n ∧
        op.onIntegers m n = b)) ∧
    ∃ r, (Atom.int p).div (.int q) = .ok r ∧ (r = Atom.illegal ↔ (Atom.int q).Describes 0) ∧
      (r ≠ Atom.illegal → ∀ m n, (Atom.int p).Describes m → (Atom.int q).Describes n →
        (Atom.ofInt (m.tdiv n)).leq r = true) := by
  refine ⟨fun op hop => binary_leastOf hop p q, ⟨_, neg_signed .int p, neg_leastOf p⟩,
    fun op => ?_, ?_⟩
  · have hleast := compare_leastOf op p q
    refine ⟨_, compare_signed op .int p q, hleast, ?_⟩
    have hmaybe := hleast.maybe_iff (by rintro _ ⟨m, n, -, -, rfl⟩; exact ⟨_, rfl⟩)
    have hoccurs (b : Bool) : Atom.Outcome (.int p) (.int q)
        (fun m n => Atom.ofBool (op.onIntegers m n)) (Atom.ofBool b) ↔
        ∃ m n, (Atom.int p).Describes m ∧ (Atom.int q).Describes n ∧ op.onIntegers m n = b := by
      have hinj {b b' : Bool} : Atom.ofBool b = Atom.ofBool b' ↔ b' = b := by
        cases b <;> cases b' <;> decide
      simp only [Atom.Outcome, hinj]
    rw [Atom.bool.injEq, hmaybe, hoccurs, hoccurs, Bool.forall_bool, and_comm]
  · refine ⟨_, div_signed .int p q, ?_⟩
    cases h : Sign.div? p q with
    | none =>
      exact ⟨iff_of_true rfl (div?_eq_none.mp h), fun hne => absurd rfl hne⟩
    | some r =>
      refine ⟨iff_of_false nofun fun hzero => ?_, fun _ m n hm hn => ?_⟩
      · rw [div?_eq_none.mpr hzero] at h
        cases h
      · have htable : table .int .div p q = some r := h
        exact table_covers htable hm hn

/-- Any integer less a negative one can be anything, and any integer can be divided by a negative
one, as -7 by -2. -/
theorem integer_tables_of_any_and_negative : BinaryOp.sub ≠ .div ∧
    (∃ r, binary .sub (.int .any) (.int .neg) = .ok r ∧ r = .int .any ∧
      Atom.LeastOf (Atom.Outcome (.int .any) (.int .neg) fun m n => Atom.ofInt (m - n)) r) ∧
    (Atom.int .any).Describes (-7) ∧ (Atom.int .neg).Describes (-2) ∧
    ∃ r, (Atom.int .any).div (.int .neg) = .ok r ∧ r ≠ Atom.illegal ∧
      (Atom.ofInt (Int.tdiv (-7) (-2))).leq r = true := by
  obtain ⟨harith, -, -, quotient, hdiv, -, hcovers⟩ := integer_tables_are_least .any .neg
  obtain ⟨r, hr, hleast⟩ := harith .sub (by decide)
  obtain rfl : .int .any = quotient := Except.ok.inj hdiv
  have hseven : (Atom.int .any).Describes (-7) := by unfold Atom.Describes; decide
  have htwo : (Atom.int .neg).Describes (-2) := by unfold Atom.Describes; decide
  exact ⟨by decide, ⟨r, hr, (Except.ok.inj hr).symm, hleast⟩, hseven, htwo, _, hdiv, by decide,
    hcovers (by decide) (-7) (-2) hseven htwo⟩

end Analysis
end Signum
