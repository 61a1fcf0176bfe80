import Signum.Text.CodePoint
/- What a code point takes of a text.

   The bytes that are read as a code point are read as it again in front of anything
   (`decode_append`), unless they are ill-formed, and the first of them says how many they are. A
   line feed is always a code point of its own: no other code point is read from bytes that hold
   one (`decode_newline`), so a reader who moves on code point by code point sees every line end. -/
namespace Signum
namespace CodePoint

theorem two?_append {a : UInt8} {rest : Bytes} {c : CodePoint} {n : Nat}
    (h : two? a rest = some (c, n + 1)) (y : Bytes) :
    two? a (rest.take n ++ y) = some (c, n + 1) := by
  have hw := (two?_width h).1
  match rest, h with
  | b :: rest, h =>
    obtain rfl : n = 1 := Nat.succ.inj hw
    exact h

theorem three?_append {a : UInt8} {rest : Bytes} {c : CodePoint} {n : Nat}
    (h : three? a rest = some (c, n + 1)) (y : Bytes) :
    three? a (rest.take n ++ y) = some (c, n + 1) := by
  have hw := (three?_width h).1
  match rest, h with
  | b :: b' :: rest, h =>
    obtain rfl : n = 2 := Nat.succ.inj hw
    exact h

theorem four?_append {a : UInt8} {rest : Bytes} {c : CodePoint} {n : Nat}
    (h : four? a rest = some (c, n + 1)) (y : Bytes) :
    four? a (rest.take n ++ y) = some (c, n + 1) := by
  have hw := (four?_width h).1
  match rest, h with
  | b :: b' :: b'' :: rest, h =>
    obtain rfl : n = 3 := Nat.succ.inj hw
    exact h

/-- The lead byte tells how long an encoding is. -/
theorem two?_lead {a : UInt8} {rest : Bytes} {r : CodePoint × Nat} (h : two? a rest = some r) :
    a ≤ 0xDF := by
  unfold two? at h
  split at h
  · split at h
    · next hb =>
      simp only [Bool.and_eq_true, decide_eq_true_eq] at hb
      exact hb.1.2
    · cases h
  · cases h

theorem three?_lead {a : UInt8} {rest : Bytes} {r : CodePoint × Nat} (h : three? a rest = some r) :
    0xE0 ≤ a ∧ a ≤ 0xEF := by
  unfold three? at h
  split at h
  · split at h
    · next hb =>
      simp only [Bool.and_eq_true, decide_eq_true_eq] at hb
      exact hb.1.1.1.1
    · cases h
  · cases h

theorem four?_lead {a : UInt8} {rest : Bytes} {r : CodePoint × Nat} (h : four? a rest = some r) :
    0xF0 ≤ a := by
  unfold four? at h
  split at h
  · split at h
    · next hb =>
      simp only [Bool.and_eq_true, decide_eq_true_eq] at hb
      exact hb.1.1.1.1.1.1
    · cases h
  · cases h

theorem two?_eq_none {a : UInt8} (h : 0xE0 ≤ a) (rest : Bytes) : two? a rest = none := by
  cases hr : two? a rest with
  | none => rfl
  | some r =>
    have := two?_lead hr
    simp only [UInt8.le_iff_toNat_le, UInt8.toNat_ofNat] at h this
    omega

theorem three?_eq_none {a : UInt8} (h : 0xF0 ≤ a) (rest : Bytes) : three? a rest = none := by
  cases hr : three? a rest with
  | none => rfl
  | some r =>
    have := three?_lead hr
    simp only [UInt8.le_iff_toNat_le, UInt8.toNat_ofNat] at h this
    omega

/-- A code point takes one byte and perhaps some more. -/
theorem decode_takes {x : Bytes} {c : CodePoint} {w : Nat} (hx : x ≠ []) (h : decode x = (c, w)) :
    ∃ n, w = n + 1 ∧ n + 1 ≤ x.length := by
  obtain ⟨a, rest, rfl⟩ := List.exists_cons_of_ne_nil hx
  have hw := @decode_width a rest
  rw [h] at hw
  obtain ⟨n, rfl⟩ := Nat.exists_eq_add_of_le' hw.1
  exact ⟨n, rfl, hw.2⟩

theorem length_take_decode {x : Bytes} {c : CodePoint} {w : Nat} (hx : x ≠ [])
    (h : decode x = (c, w)) : (x.take w).length = w := by
  obtain ⟨n, rfl, hw⟩ := decode_takes hx h
  rw [List.length_take]
  exact Nat.min_eq_left hw

/-- A code point is read from its own bytes. -/
theorem decode_append {x : Bytes} {c : CodePoint} {w : Nat} (h : decode x = (c, w))
    (hc : c ≠ replacement) (y : Bytes) : decode (x.take w ++ y) = (c, w) := by
  cases x with
  | nil =>
    cases h
    exact absurd rfl hc
  | cons a rest =>
    obtain ⟨n, rfl, -⟩ := decode_takes (List.cons_ne_nil a rest) h
    rw [List.take_succ_cons, List.cons_append]
    simp only [decode] at h ⊢
    split at h
    · next ha =>
      rw [if_pos ha]
      exact h
    · next ha =>
      rw [if_neg ha]
      split at h
      · next r hr =>
        subst h
        rw [two?_append hr y]
      · split at h
        · next r hr =>
          subst h
          rw [two?_eq_none (three?_lead hr).1, three?_append hr y]
        · cases hr : four? a rest with
          | none =>
            rw [hr] at h
            cases h
            exact absurd rfl hc
          | some r =>
            rw [hr] at h
            obtain rfl : r = (c, n + 1) := h
            have hlead := four?_lead hr
            have hlead' : 0xE0 ≤ a := UInt8.le_trans (by decide) hlead
            rw [two?_eq_none hlead', three?_eq_none hlead, four?_append hr y]
            rfl

/-- A code point below 128 is one byte. -/
theorem decode_ascii {a : UInt8} (h : a < 0x80) (rest : Bytes) :
    decode (a :: rest) = (a.toNat, 1) := by
  rw [decode, if_pos h]

/-! Longer encodings. -/

theorem two?_not_ascii {a : UInt8} {rest : Bytes} {r : CodePoint × Nat} (h : two? a rest = some r) :
    128 ≤ r.1 := by
  unfold two? at h
  split at h
  · next b rest =>
    split at h
    · next hb =>
      cases h
      simp only [Bool.and_eq_true, decide_eq_true_eq, UInt8.le_iff_toNat_le,
        UInt8.reduceToNat] at hb
      show (128 : Nat) ≤ (a.toNat - 0xC0) * 64 + payload b
      omega
    · cases h
  · cases h

theorem three?_not_ascii {a : UInt8} {rest : Bytes} {r : CodePoint × Nat}
    (h : three? a rest = some r) : 128 ≤ r.1 := by
  unfold three? at h
  split at h
  · next b c rest =>
    split at h
    · next hb =>
      cases h
      simp only [Bool.and_eq_true, Bool.or_eq_true, bne_iff_ne, decide_eq_true_eq, isContinuation,
        UInt8.le_iff_toNat_le, UInt8.reduceToNat, ne_eq, ← UInt8.toNat_inj] at hb
      show (128 : Nat) ≤ ((a.toNat - 0xE0) * 64 + b.toNat % 64) * 64 + c.toNat % 64
      omega
    · cases h
  · cases h

theorem four?_not_ascii {a : UInt8} {rest : Bytes} {r : CodePoint × Nat}
    (h : four? a rest = some r) : 128 ≤ r.1 := by
  unfold four? at h
  split at h
  · next b c d rest =>
    split at h
    · next hb =>
      cases h
      simp only [Bool.and_eq_true, Bool.or_eq_true, bne_iff_ne, decide_eq_true_eq, isContinuation,
        UInt8.le_iff_toNat_le, UInt8.reduceToNat, ne_eq, ← UInt8.toNat_inj] at hb
      show (128 : Nat) ≤
        (((a.toNat - 0xF0) * 64 + b.toNat % 64) * 64 + c.toNat % 64) * 64 + d.toNat % 64
      omega
    · cases h
  · cases h

/-- What can be read at the start of a text: one byte, one of the longer encodings, or the
replacement of a byte that starts none. -/
theorem decode_cases {a : UInt8} {rest : Bytes} {c : CodePoint} {n : Nat}
    (h : decode (a :: rest) = (c, n + 1)) :
    (c = a.toNat ∧ n = 0) ∨ two? a rest = some (c, n + 1) ∨ three? a rest = some (c, n + 1) ∨
      four? a rest = some (c, n + 1) ∨ (c = replacement ∧ n = 0) := by
  simp only [decode] at h
  split at h
  · cases h
    exact .inl ⟨rfl, rfl⟩
  · split at h
    · next hr =>
      subst h
      exact .inr (.inl hr)
    · split at h
      · next hr =>
        subst h
        exact .inr (.inr (.inl hr))
      · cases hr : four? a rest with
        | none =>
          rw [hr] at h
          cases h
          exact .inr (.inr (.inr (.inr ⟨rfl, rfl⟩)))
        | some r =>
          rw [hr] at h
          exact .inr (.inr (.inr (.inl (congrArg some h))))

/-- A code point below 128 is read from an ASCII byte only. -/
theorem ascii_of_decode {a : UInt8} {rest : Bytes} {c : CodePoint} {w : Nat}
    (h : decode (a :: rest) = (c, w)) (hc : c < 128) : a < 0x80 := by
  obtain ⟨n, rfl, -⟩ := decode_takes (List.cons_ne_nil a rest) h
  rcases decode_cases h with ⟨rfl, -⟩ | hr | hr | hr | ⟨rfl, -⟩
  · exact UInt8.lt_iff_toNat_lt.mpr hc
  · exact absurd hc (Nat.not_lt.mpr (two?_not_ascii hr))
  · exact absurd hc (Nat.not_lt.mpr (three?_not_ascii hr))
  · exact absurd hc (Nat.not_lt.mpr (four?_not_ascii hr))
  · exact absurd hc (by decide)

theorem not_continuation {a : UInt8} (h : a < 0x80) : isContinuation a = false := by
  simp only [isContinuation, Bool.and_eq_false_iff, decide_eq_false_iff_not]
  left
  exact UInt8.not_le.mpr h

theorem two?_tail {a : UInt8} {rest : Bytes} {c : CodePoint} {n : Nat}
    (h : two? a rest = some (c, n + 1)) : ∀ b ∈ rest.take n, isContinuation b = true := by
  unfold two? at h
  split at h
  · split at h
    · next hb =>
      cases h
      simp_all
    · cases h
  · cases h

theorem three?_tail {a : UInt8} {rest : Bytes} {c : CodePoint} {n : Nat}
    (h : three? a rest = some (c, n + 1)) : ∀ b ∈ rest.take n, isContinuation b = true := by
  unfold three? at h
  split at h
  · split at h
    · next hb =>
      cases h
      simp_all
    · cases h
  · cases h

theorem four?_tail {a : UInt8} {rest : Bytes} {c : CodePoint} {n : Nat}
    (h : four? a rest = some (c, n + 1)) : ∀ b ∈ rest.take n, isContinuation b = true := by
  unfold four? at h
  split at h
  · split at h
    · next hb =>
      cases h
      simp_all
    · cases h
  · cases h

/-- The bytes of a code point behind the first one only continue it. -/
theorem decode_tail {a : UInt8} {rest : Bytes} {c : CodePoint} {n : Nat}
    (h : decode (a :: rest) = (c, n + 1)) : ∀ b ∈ rest.take n, isContinuation b = true := by
  rcases decode_cases h with ⟨-, rfl⟩ | hr | hr | hr | ⟨-, rfl⟩
  · simp
  · exact two?_tail hr
  · exact three?_tail hr
  · exact four?_tail hr
  · simp

/-- A line feed is read as one, and nothing else is one or hides one. -/
theorem decode_newline {x : Bytes} {c : CodePoint} {w : Nat} (h : decode x = (c, w)) :
    (c = 10 ∧ x.take w = [Bytes.newline]) ∨ (c ≠ 10 ∧ Bytes.newline ∉ x.take w) := by
  cases x with
  | nil =>
    cases h
    exact .inr ⟨by decide, by simp⟩
  | cons a rest =>
    by_cases hlead : a = Bytes.newline
    · subst hlead
      cases h
      exact .inl ⟨rfl, rfl⟩
    · obtain ⟨n, rfl, -⟩ := decode_takes (List.cons_ne_nil a rest) h
      right
      constructor
      · rintro rfl
        have ha := ascii_of_decode h (by decide)
        rw [decode_ascii ha] at h
        exact hlead (UInt8.toNat_inj.mp (Prod.mk.inj h).1)
      · rw [List.take_succ_cons, List.mem_cons, not_or]
        refine ⟨fun heq => hlead heq.symm, fun hmem => ?_⟩
        exact absurd (decode_tail h _ hmem) (by decide)

end CodePoint
end Signum
