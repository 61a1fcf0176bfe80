import Signum.Proofs.Stack
/- Joining environments.

   Atoms of one domain are joined without a fault, and the join is above both. A join
   of environments works cell by cell: a variable bound on both sides takes the join of
   its values, every other variable of the first environment stays as it is. So a join
   never lowers what the first environment knows (`Raises`), a join that reports no
   change makes none, and every join that reports a change leaves fewer variables that
   can still rise. `identical` compares the bound cells of the first environment. -/
namespace Signum

namespace Atom

theorem leq_refl (a : Atom) : a.leq a = true := by simp [leq]

theorem domain_eq_of_leq {a b : Atom} (h : a.leq b = true) : a.domain = b.domain := by
  simp only [leq, Bool.or_eq_true, decide_eq_true_eq, Bool.and_eq_true] at h
  rcases h with rfl | ⟨hd, -⟩
  · rfl
  · exact hd

theorem leq_trans {a b c : Atom} (hab : a.leq b = true) (hbc : b.leq c = true) :
    a.leq c = true := by
  have hd := domain_eq_of_leq hab
  simp only [leq, Bool.or_eq_true, decide_eq_true_eq, Bool.and_eq_true] at hab hbc ⊢
  rcases hbc with rfl | ⟨hbc, htop⟩
  · exact hab
  · exact .inr ⟨hd.trans hbc, htop⟩

/-- The top of a domain is in it and says nothing. -/
theorem top_eq_ok {d : Domain} {a : Atom} (h : d.top = .ok a) : a.domain = d ∧ a.isTop = true := by
  cases d <;> cases h <;> exact ⟨rfl, rfl⟩

theorem merge_ok {a b : Atom} (hd : a.domain = b.domain) (hv : a.domain ≠ .invalid) :
    ∃ c, a.merge b = .ok c := by
  have hs : sameDomain "merge" a b = .ok () := by simp [sameDomain, hd, hd ▸ hv]
  simp only [merge, hs]
  by_cases hab : a = b
  · exact ⟨a, by simp [hab, bind, Except.bind, pure, Except.pure]⟩
  · cases hda : a.domain <;> simp_all [bind, Except.bind, Domain.top]

/-- The join of two different atoms is the top of their domain. -/
theorem merge_eq_ok {a b c : Atom} (h : a.merge b = .ok c) :
    a.domain = b.domain ∧ ((a = b ∧ c = a) ∨ (a ≠ b ∧ c.domain = a.domain ∧ c.isTop = true)) := by
  unfold merge sameDomain at h
  split at h
  · cases h
  · next hs =>
    simp only [Bool.or_eq_true, decide_eq_true_eq, not_or] at hs
    refine ⟨by simpa using hs.2, ?_⟩
    by_cases hab : a = b
    · simp only [hab, bind, Except.bind, if_true, pure, Except.pure, Except.ok.injEq] at h
      exact .inl ⟨hab, by rw [hab, h]⟩
    · simp only [hab, bind, Except.bind, if_false] at h
      obtain ⟨hd, ht⟩ := top_eq_ok h
      exact .inr ⟨hab, hd, ht⟩

theorem leq_of_merge {a b c : Atom} (h : a.merge b = .ok c) : a.leq c = true ∧ b.leq c = true := by
  obtain ⟨hd, ⟨rfl, rfl⟩ | ⟨-, hc, ht⟩⟩ := merge_eq_ok h
  · exact ⟨leq_refl _, leq_refl _⟩
  · simp only [leq, Bool.or_eq_true, decide_eq_true_eq, Bool.and_eq_true]
    exact ⟨.inr ⟨hc.symm, ht⟩, .inr ⟨hd.symm.trans hc.symm, ht⟩⟩

end Atom

namespace Slot

/-- What a join makes of a slot. -/
structure Joined (mine : Slot) (theirs : Option Slot) (out : Slot) : Prop where
  domain : out.domain = mine.domain
  bound : out.value.isSome = mine.value.isSome
  above : ∀ a, mine.value = some a → ∃ b, out.value = some b ∧ a.leq b = true
  covers : ∀ t a, theirs = some t → t.value = some a → mine.value.isSome →
    ∃ b, out.value = some b ∧ a.leq b = true
  rise : out = mine ∨ (mine.canRise = true ∧ out.canRise = false)

theorem joined_of_ok {mine out : Slot} {theirs : Option Slot} (h : mine.join theirs = .ok out) :
    Joined mine theirs out := by
  unfold join at h
  split at h
  · next a b ha hb =>
    obtain ⟨c, hc, rfl⟩ : ∃ c, a.merge b = .ok c ∧ { mine with value := some c } = out := by
      cases hm : a.merge b with
      | error f => rw [hm] at h; cases h
      | ok c => rw [hm] at h; cases h; exact ⟨c, rfl, rfl⟩
    obtain ⟨hac, hbc⟩ := Atom.leq_of_merge hc
    refine ⟨rfl, by simp [ha], ?_, ?_, ?_⟩
    · intro a' ha'
      obtain rfl : a = a' := by simpa [ha] using ha'
      exact ⟨c, rfl, hac⟩
    · intro t b' ht hb' _
      obtain rfl : b' = b := by simpa [ht, hb'] using hb
      exact ⟨c, rfl, hbc⟩
    · obtain ⟨-, ⟨-, rfl⟩ | ⟨hne, hd, ht⟩⟩ := Atom.merge_eq_ok hc
      · left
        rw [← ha]
      · by_cases htop : a.isTop = true
        · left
          have : c = a := by cases a <;> cases c <;> simp_all [Atom.isTop, Atom.domain]
          rw [this, ← ha]
        · right
          simp [canRise, ha, ht, htop]
  · next hno =>
    cases h
    refine ⟨rfl, rfl, fun a ha => ⟨a, ha, Atom.leq_refl a⟩, ?_, .inl rfl⟩
    intro t a ht ha hs
    obtain ⟨b, hb⟩ := Option.isSome_iff_exists.mp hs
    exact absurd (by simp [ht, ha]) (hno b a hb)

/-- Slots that hold values of one domain are joined without a fault. -/
theorem join_ok {mine : Slot} {theirs : Option Slot}
    (h : ∀ a t b, mine.value = some a → theirs = some t → t.value = some b →
      a.domain = b.domain ∧ a.domain ≠ .invalid) : ∃ out, mine.join theirs = .ok out := by
  unfold join
  split
  · next a b ha hb =>
    obtain ⟨t, ht, hb⟩ := Option.bind_eq_some_iff.mp hb
    obtain ⟨hd, hv⟩ := h a t b ha ht hb
    obtain ⟨c, hc⟩ := Atom.merge_ok hd hv
    exact ⟨_, by rw [hc]; rfl⟩
  · exact ⟨_, rfl⟩

end Slot

namespace Environment

/-- Scopes that differ cell by cell as joining with `theirs` makes them. -/
structure JoinedScope (theirs mine out : Scope) (changed : Bool) : Prop where
  names : out.map Prod.fst = mine.map Prod.fst
  absent : ∀ n, mine.lookup n = none → out.lookup n = none
  present : ∀ n slot, mine.lookup n = some slot →
    ∃ slot', out.lookup n = some slot' ∧ slot.Joined (theirs.lookup n) slot'
  same : changed = false → out = mine
  slack : out.countP (fun p => p.2.canRise) + changed.toNat ≤ mine.countP (fun p => p.2.canRise)

/-- A joined slot in front of a joined scope. -/
theorem JoinedScope.cons {theirs rest out : Scope} {name : Bytes} {slot slot' : Slot} {c : Bool}
    (hslot : slot.Joined (theirs.lookup name) slot') (h : JoinedScope theirs rest out c) :
    JoinedScope theirs ((name, slot) :: rest) ((name, slot') :: out)
      (decide (slot' ≠ slot) || c) := by
  refine ⟨by simp [h.names], ?_, ?_, ?_, ?_⟩
  · intro n hn
    by_cases hnn : n = name
    · simp [hnn] at hn
    · have hb : (n == name) = false := by simp [hnn]
      simp only [List.lookup_cons, hb] at hn ⊢
      exact h.absent n hn
  · intro n s hs
    by_cases hnn : n = name
    · subst hnn
      simp only [List.lookup_cons, beq_self_eq_true, Option.some.injEq] at hs ⊢
      subst hs
      exact ⟨slot', rfl, hslot⟩
    · have hb : (n == name) = false := by simp [hnn]
      simp only [List.lookup_cons, hb] at hs ⊢
      exact h.present n s hs
  · intro hfalse
    obtain ⟨hsame, rfl⟩ : slot' = slot ∧ c = false := by simpa using hfalse
    rw [hsame, h.same rfl]
  · have hs := h.slack
    rw [List.countP_cons, List.countP_cons]
    rcases hslot.rise with heq | ⟨hup, hdown⟩
    · simp only [heq, ne_eq, not_true_eq_false, decide_false, Bool.false_or]
      omega
    · -- the slot could rise and no longer can, which pays for the change
      have := Bool.toNat_le (decide (slot' ≠ slot) || c)
      simp only [hup, hdown, if_true, Bool.false_eq_true, if_false]
      omega

theorem joinScope_joined {theirs mine out : Scope} {changed : Bool}
    (h : joinScope theirs mine = (out, .ok changed)) : JoinedScope theirs mine out changed := by
  induction mine generalizing out changed with
  | nil =>
    cases h
    exact ⟨rfl, fun _ h => h, by simp, fun _ => rfl, by simp⟩
  | cons e rest ih =>
    obtain ⟨name, slot⟩ := e
    unfold joinScope at h
    split at h
    · cases h
    · next slot' hj =>
      obtain ⟨rfl, hch⟩ := Prod.mk.inj h
      cases hr : (joinScope theirs rest).2 with
      | error f => rw [hr] at hch; cases hch
      | ok c =>
        rw [hr] at hch
        cases hch
        exact .cons (Slot.joined_of_ok hj) (ih (Prod.ext rfl hr))

/-- Scopes in which every entry meets one of its own domain are joined without a fault. -/
theorem joinScope_ok {theirs mine : Scope}
    (h : ∀ n slot t a b, (n, slot) ∈ mine → theirs.lookup n = some t → slot.value = some a →
      t.value = some b → a.domain = b.domain ∧ a.domain ≠ .invalid) :
    ∃ out changed, joinScope theirs mine = (out, .ok changed) := by
  induction mine with
  | nil => exact ⟨[], false, rfl⟩
  | cons e rest ih =>
    obtain ⟨name, slot⟩ := e
    obtain ⟨slot', hj⟩ : ∃ out, slot.join (theirs.lookup name) = .ok out :=
      Slot.join_ok fun a t b ha ht hb => h name slot t a b (by simp) ht ha hb
    obtain ⟨out, c, hr⟩ := ih fun n s t a b hm => h n s t a b (List.mem_cons_of_mem _ hm)
    refine ⟨(name, slot') :: out, decide (slot' ≠ slot) || c, ?_⟩
    unfold joinScope
    simp only [hj, hr]
    rfl

/-- Stacks that differ cell by cell as joining with `theirs` makes them. -/
structure JoinedStack (theirs mine out : List Scope) (changed : Bool) : Prop where
  names : out.map (·.map Prod.fst) = mine.map (·.map Prod.fst)
  absent : ∀ i n, cell mine i n = none → cell out i n = none
  present : ∀ i n slot, cell mine i n = some slot →
    ∃ slot', cell out i n = some slot' ∧ slot.Joined (cell theirs i n) slot'
  same : changed = false → out = mine
  slack : slackOf out + changed.toNat ≤ slackOf mine

/-- A joined scope on top of a joined stack. -/
theorem JoinedStack.cons {t s s' : Scope} {ts ss ss' : List Scope} {inner outer : Bool}
    (hs : JoinedScope t s s' inner) (h : JoinedStack ts ss ss' outer) :
    JoinedStack (t :: ts) (s :: ss) (s' :: ss') (outer || inner) := by
  refine ⟨by simp [hs.names, h.names], ?_, ?_, ?_, ?_⟩
  · intro i n hn
    cases i with
    | zero => exact hs.absent n hn
    | succ i => exact h.absent i n hn
  · intro i n slot hn
    cases i with
    | zero => exact hs.present n slot hn
    | succ i => exact h.present i n slot hn
  · intro hfalse
    obtain ⟨ho, hi⟩ : outer = false ∧ inner = false := by simpa using hfalse
    rw [hs.same hi, h.same ho]
  · have h₁ := hs.slack
    have h₂ := h.slack
    have : (outer || inner).toNat ≤ outer.toNat + inner.toNat := by
      cases outer <;> cases inner <;> simp
    simp only [slackOf]
    omega

theorem joinScopes_joined {theirs mine out : List Scope} {changed : Bool}
    (hlen : mine.length = theirs.length) (h : joinScopes mine theirs = (out, .ok changed)) :
    JoinedStack theirs mine out changed := by
  induction mine generalizing theirs out changed with
  | nil =>
    unfold joinScopes at h
    cases h
    exact ⟨rfl, fun _ _ h => h, by simp, fun _ => rfl, Nat.le_refl 0⟩
  | cons s ss ih =>
    cases theirs with
    | nil => simp at hlen
    | cons t ts =>
      simp only [List.length_cons, Nat.add_right_cancel_iff] at hlen
      unfold joinScopes at h
      split at h
      · cases h
      · next ss' outer hss =>
        obtain ⟨rfl, hch⟩ := Prod.mk.inj h
        cases hr : (joinScope t s).2 with
        | error f => rw [hr] at hch; cases hch
        | ok inner =>
          rw [hr] at hch
          cases hch
          exact .cons (joinScope_joined (Prod.ext rfl hr)) (ih hlen hss)

theorem joinScopes_ok {theirs mine : List Scope}
    (h : ∀ (i : Nat) s t, mine[i]? = some s → theirs[i]? = some t →
      ∃ out changed, joinScope t s = (out, .ok changed)) :
    ∃ out changed, joinScopes mine theirs = (out, .ok changed) := by
  induction mine generalizing theirs with
  | nil => exact ⟨[], false, by unfold joinScopes; rfl⟩
  | cons s ss ih =>
    cases theirs with
    | nil => exact ⟨s :: ss, false, by unfold joinScopes; rfl⟩
    | cons t ts =>
      obtain ⟨ss', outer, hss⟩ := ih fun i s' t' hs ht => h (i + 1) s' t' hs ht
      obtain ⟨s', c, hs⟩ := h 0 s t rfl rfl
      refine ⟨s' :: ss', outer || c, ?_⟩
      unfold joinScopes
      simp only [hss, hs]
      rfl

/-- Joining environments of one height joins their stacks and nothing else. -/
theorem join_eq {e o : Environment} (hlen : e.scopes.length = o.scopes.length) :
    e.join o = ((joinScopes e.scopes o.scopes).2,
      { e with scopes := (joinScopes e.scopes o.scopes).1 }) := by
  unfold join
  simp [hlen]

theorem join_joined {e o e' : Environment} {changed : Bool}
    (hlen : e.scopes.length = o.scopes.length) (h : e.join o = (.ok changed, e')) :
    JoinedStack o.scopes e.scopes e'.scopes changed ∧ e'.stashed = e.stashed := by
  rw [join_eq hlen] at h
  obtain ⟨hch, rfl⟩ := Prod.mk.inj h
  exact ⟨joinScopes_joined hlen (Prod.ext rfl hch), rfl⟩

/-- Environments of one height that are identical on the bound cells of the first. -/
theorem identical_cell {e o : Environment} (hlen : e.scopes.length = o.scopes.length)
    (h : e.identical o = true) {i : Nat} {n : Bytes} {slot : Slot} {a : Atom}
    (hslot : cell e.scopes i n = some slot) (ha : slot.value = some a) :
    ∃ t, cell o.scopes i n = some t ∧ t.value = some a := by
  have hagree : scopesAgree e.scopes o.scopes = true := by
    unfold identical at h
    simpa [hlen] using h
  generalize e.scopes = mine at hagree hslot hlen
  generalize o.scopes = theirs at hagree hlen ⊢
  induction mine generalizing theirs i with
  | nil => cases hslot
  | cons s ss ih =>
    cases theirs with
    | nil => simp at hlen
    | cons t ts =>
      simp only [scopesAgree, Bool.and_eq_true] at hagree
      cases i with
      | zero =>
        have hmem : (n, slot) ∈ s := by
          obtain ⟨l₁, l₂, rfl, -⟩ := List.lookup_eq_some_iff.mp hslot
          simp
        have hs := List.all_eq_true.mp hagree.1 _ hmem
        simp only [Slot.agrees, ha, reduceCtorEq, decide_false, Bool.false_or,
          decide_eq_true_eq] at hs
        exact Option.bind_eq_some_iff.mp hs
      | succ i =>
        exact ih hslot ts hagree.2 (by simpa using hlen)

/-- The atom a stack holds for the variable `n` of scope `i`, when it is bound. -/
def held (scopes : List Scope) (i : Nat) (n : Bytes) : Option Atom :=
  (cell scopes i n).bind (·.value)

theorem held_eq_some {scopes : List Scope} {i : Nat} {n : Bytes} {a : Atom} :
    held scopes i n = some a ↔ ∃ slot, cell scopes i n = some slot ∧ slot.value = some a :=
  Option.bind_eq_some_iff

/-- Every bound variable stays bound, to an atom that says no more, and every unbound
one stays unbound. -/
structure Raises (scopes scopes' : List Scope) : Prop where
  bound : ∀ i n a, held scopes i n = some a → ∃ b, held scopes' i n = some b ∧ a.leq b = true
  unbound : ∀ i n, held scopes i n = none → held scopes' i n = none

theorem Raises.refl (scopes : List Scope) : Raises scopes scopes :=
  ⟨fun _ _ a ha => ⟨a, ha, Atom.leq_refl a⟩, fun _ _ h => h⟩

theorem Raises.trans {s s' s'' : List Scope} (h : Raises s s') (h' : Raises s' s'') :
    Raises s s'' := by
  refine ⟨fun i n a ha => ?_, fun i n hn => h'.unbound i n (h.unbound i n hn)⟩
  obtain ⟨b, hb, hab⟩ := h.bound i n a ha
  obtain ⟨c, hc, hbc⟩ := h'.bound i n b hb
  exact ⟨c, hc, Atom.leq_trans hab hbc⟩

namespace JoinedStack
variable {theirs mine out : List Scope} {changed : Bool}

theorem raises (h : JoinedStack theirs mine out changed) : Raises mine out := by
  refine ⟨fun i n a ha => ?_, fun i n hn => ?_⟩
  · obtain ⟨slot, hslot, ha⟩ := held_eq_some.mp ha
    obtain ⟨slot', hslot', hj⟩ := h.present i n slot hslot
    obtain ⟨b, hb, hab⟩ := hj.above a ha
    exact ⟨b, held_eq_some.mpr ⟨slot', hslot', hb⟩, hab⟩
  · cases hc : cell mine i n with
    | none => simp [held, h.absent i n hc]
    | some slot =>
      obtain ⟨slot', hslot', hj⟩ := h.present i n slot hc
      have hs : slot.value = none := by simpa [held, hc] using hn
      have hb := hj.bound
      rw [hs] at hb
      simpa [held, hslot'] using hb

/-- What the other side holds is covered where the first side holds something too. -/
theorem covers (h : JoinedStack theirs mine out changed) {i : Nat} {n : Bytes} {a : Atom}
    (ha : held theirs i n = some a) (hm : (held mine i n).isSome) :
    ∃ b, held out i n = some b ∧ a.leq b = true := by
  obtain ⟨t, ht, ha⟩ := held_eq_some.mp ha
  obtain ⟨m, hm⟩ := Option.isSome_iff_exists.mp hm
  obtain ⟨slot, hslot, hm⟩ := held_eq_some.mp hm
  obtain ⟨slot', hslot', hj⟩ := h.present i n slot hslot
  obtain ⟨b, hb, hab⟩ := hj.covers t a ht ha (by simp [hm])
  exact ⟨b, held_eq_some.mpr ⟨slot', hslot', hb⟩, hab⟩

end JoinedStack

/-- A stack takes in another: what it holds only rises, and where it holds something, what
the other holds is covered. -/
structure Absorbs (theirs mine out : List Scope) : Prop where
  raises : Raises mine out
  covers : ∀ i n a, held theirs i n = some a → (held mine i n).isSome →
    ∃ b, held out i n = some b ∧ a.leq b = true

theorem JoinedStack.absorbs {theirs mine out : List Scope} {changed : Bool}
    (h : JoinedStack theirs mine out changed) : Absorbs theirs mine out :=
  ⟨h.raises, fun _ _ _ ha hm => h.covers ha hm⟩

/-- An environment identical to another has taken it in already. -/
theorem identical_absorbs {e o : Environment} (hlen : e.scopes.length = o.scopes.length)
    (h : e.identical o = true) : Absorbs o.scopes e.scopes e.scopes := by
  refine ⟨.refl _, fun i n a ha hm => ?_⟩
  obtain ⟨b, hb⟩ := Option.isSome_iff_exists.mp hm
  obtain ⟨slot, hslot, hb'⟩ := held_eq_some.mp hb
  obtain ⟨t, ht, htb⟩ := identical_cell hlen h hslot hb'
  obtain rfl : b = a := by
    have := held_eq_some.mpr ⟨t, ht, htb⟩
    simpa [ha] using this.symm
  exact ⟨b, hb, Atom.leq_refl b⟩

end Environment
end Signum
