import Signum.Proofs.Analysis.Failing
/- Joining one environment after another is taking a least upper bound.

   Joins match variables by name and by depth, counted from the outermost scope, whatever the
   heights of the two environments. So a join is first written in terms of what the other
   environment has at a depth (`joinAt`), and what it does is then said of the snapshot, one
   variable at a time (`Merged`). After any number of joins a variable that was bound holds the
   least atom above what it held and above what it holds in each of the environments joined in
   (`Gathers`). There is one such atom, so neither order nor repetition matters. -/
namespace Signum

namespace Atom

theorem leq_antisymm {a b : Atom} (h : a.leq b = true) (h' : b.leq a = true) : a = b := by
  by_cases hb : b.isTop = true
  · by_cases ha : a.isTop = true
    · have hd := domain_eq_of_leq h
      cases a <;> cases b <;> simp_all [isTop, domain]
    · exact (eq_of_leq h' ha).symm
  · exact eq_of_leq h hb

/-- The join of two atoms is below everything above both. -/
theorem merge_leq {a b c u : Atom} (h : a.merge b = .ok c) (ha : a.leq u = true)
    (hb : b.leq u = true) : c.leq u = true := by
  obtain ⟨-, ⟨rfl, rfl⟩ | ⟨hne, hd, htop⟩⟩ := merge_eq_ok h
  · exact ha
  · -- two different atoms are below `u`, which then is the top of their domain
    apply leq_of_isTop (hd.trans (domain_eq_of_leq ha))
    by_contra hu
    exact hne ((eq_of_leq ha hu).trans (eq_of_leq hb hu).symm)

/-- The least atom above `a` and above all of the others. -/
structure LeastAbove (a : Atom) (others : Atom → Prop) (c : Atom) : Prop where
  self : a.leq c = true
  above : ∀ b, others b → b.leq c = true
  least : ∀ u, a.leq u = true → (∀ b, others b → b.leq u = true) → c.leq u = true

theorem LeastAbove.unique {a c c' : Atom} {others others' : Atom → Prop}
    (h : LeastAbove a others c) (h' : LeastAbove a others' c')
    (hsame : ∀ b, others b ↔ others' b) : c = c' := by
  apply leq_antisymm
  · exact h.least c' h'.self fun b hb => h'.above b ((hsame b).mp hb)
  · exact h'.least c h.self fun b hb => h.above b ((hsame b).mpr hb)

end Atom

namespace Environment

/-! What stands where. -/

/-- The scope at a depth, counted from the outermost one; empty when there is none. -/
def scopeAt (e : Environment) (depth : Nat) : Scope := (e.scopes.reverse[depth]?).getD []

/-- What an environment has for a name at a depth. -/
def slotAt (e : Environment) (depth : Nat) (name : Bytes) : Option Slot :=
  (e.scopeAt depth).lookup name

/-- What a name is bound to at a depth. -/
def valueAtDepth (e : Environment) (depth : Nat) (name : Bytes) : Option Atom :=
  (e.slotAt depth name).bind (·.value)

/-- A variable of a scope at some depth. -/
def Binding.of (depth : Nat) (p : Bytes × Slot) : Binding := ⟨depth, p.1, p.2.domain, p.2.value⟩

/-- What a binding holds. -/
def Binding.slot (b : Binding) : Slot := ⟨b.domain, b.value⟩

/-- The variables of a stack, outermost scope first. -/
def bindings : List Scope → List Binding
  | [] => []
  | s :: rest => bindings rest ++ s.map (.of rest.length)

theorem snapshot_eq (e : Environment) : e.snapshot = bindings e.scopes := by
  unfold snapshot
  generalize e.scopes = scopes
  induction scopes with
  | nil => rfl
  | cons s rest ih =>
    rw [List.reverse_cons, List.zipIdx_append, List.flatMap_append, ih]
    simp only [List.length_reverse, List.zipIdx_singleton, List.flatMap_cons, List.flatMap_nil,
      List.append_nil, Nat.zero_add]
    rfl

theorem depth_lt {scopes : List Scope} {b : Binding} (h : b ∈ bindings scopes) :
    b.depth < scopes.length := by
  induction scopes with
  | nil => cases h
  | cons s rest ih =>
    rcases List.mem_append.mp h with h | h
    · have := ih h
      simp only [List.length_cons]
      omega
    · obtain ⟨p, -, rfl⟩ := List.mem_map.mp h
      exact Nat.lt_succ_self _

/-- A stack can be told from its height and its variables. -/
theorem bindings_injective {scopes scopes' : List Scope} (hlen : scopes.length = scopes'.length)
    (h : bindings scopes = bindings scopes') : scopes = scopes' := by
  induction scopes generalizing scopes' with
  | nil => exact (List.length_eq_zero_iff.mp hlen.symm).symm
  | cons s rest ih =>
    cases scopes' with
    | nil => simp at hlen
    | cons s' rest' =>
      have hrest : rest.length = rest'.length := Nat.succ.inj hlen
      -- the variables of the scopes around are those at smaller depths
      have houter (t : Scope) (ts : List Scope) :
          (bindings (t :: ts)).filter (·.depth < ts.length) = bindings ts := by
        rw [bindings, List.filter_append, List.filter_eq_self.mpr, List.filter_eq_nil_iff.mpr,
          List.append_nil]
        · intro b hb
          obtain ⟨p, -, rfl⟩ := List.mem_map.mp hb
          simp [Binding.of]
        · intro b hb
          simpa using depth_lt hb
      have hsame : bindings rest = bindings rest' := by
        rw [← houter s rest, ← houter s' rest', h, hrest]
      simp only [bindings, hsame, hrest, List.append_cancel_left_eq] at h
      have hscope : s = s' := by
        refine List.map_injective_iff.mpr ?_ h
        intro p q hpq
        obtain ⟨n, d, v⟩ := p
        obtain ⟨m, d', v'⟩ := q
        simpa [Binding.of] using hpq
      rw [hscope, ih hrest hsame]

/-! Joining by depth. -/

/-- Merges into a stack what another environment has at the same depths. -/
def joinAt (o : Environment) : List Scope → List Scope × Except SignFault Bool
  | [] => ([], .ok false)
  | s :: rest =>
    match joinAt o rest with
    | (rest', .error fault) => (s :: rest', .error fault)
    | (rest', .ok outer) =>
      let (s', changed) := joinScope (o.scopeAt rest.length) s
      (s' :: rest', changed.map (outer || ·))

/-- Of a stack that is as high as another or higher, the part of one height starts with the
scope at that depth. -/
theorem drop_scopes {o : Environment} {n : Nat} (h : n < o.scopes.length) :
    o.scopes.drop (o.scopes.length - (n + 1)) =
      o.scopeAt n :: o.scopes.drop (o.scopes.length - n) := by
  have hlt : o.scopes.length - (n + 1) < o.scopes.length := by omega
  rw [List.drop_eq_getElem_cons hlt, scopeAt, List.getElem?_reverse h]
  have hi : o.scopes.length - 1 - n = o.scopes.length - (n + 1) := by omega
  have hn : o.scopes.length - (n + 1) + 1 = o.scopes.length - n := by omega
  rw [hi, hn, List.getElem?_eq_getElem hlt]
  rfl

theorem scopeAt_eq_nil {o : Environment} {n : Nat} (h : o.scopes.length ≤ n) :
    o.scopeAt n = [] := by
  rw [scopeAt, List.getElem?_eq_none (by simpa using h)]
  rfl

theorem joinAt_eq {o : Environment} {mine : List Scope} (h : mine.length ≤ o.scopes.length) :
    joinAt o mine = joinScopes mine (o.scopes.drop (o.scopes.length - mine.length)) := by
  induction mine with
  | nil => simp [joinAt, joinScopes]
  | cons s rest ih =>
    rw [List.length_cons] at h ⊢
    rw [drop_scopes (by omega)]
    have hrest := ih (by omega)
    unfold joinAt joinScopes
    generalize joinScopes rest _ = joined at hrest ⊢
    obtain ⟨rest', changed⟩ := joined
    cases changed <;> simp only [hrest]

theorem joinScope_nil (s : Scope) : joinScope [] s = (s, .ok false) := by
  induction s with
  | nil => rfl
  | cons p rest ih =>
    obtain ⟨name, slot⟩ := p
    have hslot : slot.join none = .ok slot := by
      unfold Slot.join
      cases slot.value <;> rfl
    unfold joinScope
    simp [hslot, ih, Except.map]

/-- Nothing is merged into scopes that the other environment does not have. -/
theorem joinAt_append {o : Environment} (top : List Scope) {mine : List Scope}
    (h : o.scopes.length ≤ mine.length) :
    joinAt o (top ++ mine) = (top ++ (joinAt o mine).1, (joinAt o mine).2) := by
  induction top with
  | nil => rfl
  | cons s rest ih =>
    rw [List.cons_append, joinAt, ih]
    have hnil : o.scopeAt (rest ++ mine).length = [] := by
      apply scopeAt_eq_nil
      simp only [List.length_append]
      omega
    rw [hnil, joinScope_nil]
    cases (joinAt o mine).2 with
    | error fault => rfl
    | ok outer => simp [Except.map]

/-- A join merges what the other environment has at each depth. -/
theorem join_eq_joinAt (e o : Environment) :
    e.join o = ((joinAt o e.scopes).2, { e with scopes := (joinAt o e.scopes).1 }) := by
  unfold join
  dsimp only
  by_cases h : o.scopes.length ≤ e.scopes.length
  · have hlen : (e.scopes.drop (e.scopes.length - o.scopes.length)).length = o.scopes.length := by
      rw [List.length_drop]
      omega
    have hsplit := joinAt_append (e.scopes.take (e.scopes.length - o.scopes.length)) hlen.ge
    rw [List.take_append_drop, joinAt_eq hlen.le, hlen, Nat.sub_self, List.drop_zero] at hsplit
    rw [hsplit, Nat.sub_eq_zero_of_le h, List.drop_zero]
  · rw [Nat.sub_eq_zero_of_le (by omega : e.scopes.length ≤ o.scopes.length), List.drop_zero,
      List.take_zero, List.nil_append, joinAt_eq (by omega)]

/-! What a join does to one variable. -/

/-- A variable after merging in what an environment has for it. -/
structure Merged (o : Environment) (b b' : Binding) : Prop where
  depth : b'.depth = b.depth
  name : b'.name = b.name
  slot : b.slot.join (o.slotAt b.depth b.name) = .ok b'.slot

theorem joinScope_merged {o : Environment} {depth : Nat} {s out : Scope} {changed : Bool}
    (h : joinScope (o.scopeAt depth) s = (out, .ok changed)) :
    List.Forall₂ (Merged o) (s.map (.of depth)) (out.map (.of depth)) := by
  induction s generalizing out changed with
  | nil =>
    cases h
    exact .nil
  | cons p rest ih =>
    obtain ⟨name, slot⟩ := p
    unfold joinScope at h
    split at h
    · cases h
    · next slot' hj =>
      obtain ⟨hout, hch⟩ := Prod.mk.inj h
      cases hr : (joinScope (o.scopeAt depth) rest).2 with
      | error f => rw [hr] at hch; cases hch
      | ok c =>
        rw [← hout]
        exact .cons ⟨rfl, rfl, hj⟩ (ih (Prod.ext rfl hr))

theorem joinAt_merged {o : Environment} {scopes out : List Scope} {changed : Bool}
    (h : joinAt o scopes = (out, .ok changed)) :
    out.length = scopes.length ∧ List.Forall₂ (Merged o) (bindings scopes) (bindings out) := by
  induction scopes generalizing out changed with
  | nil =>
    cases h
    exact ⟨rfl, .nil⟩
  | cons s rest ih =>
    unfold joinAt at h
    split at h
    · cases h
    · next rest' outer hrest =>
      obtain ⟨hlen, hmerged⟩ := ih hrest
      obtain ⟨hout, hch⟩ := Prod.mk.inj h
      cases hr : (joinScope (o.scopeAt rest.length) s).2 with
      | error f => rw [hr] at hch; cases hch
      | ok c =>
        rw [← hout]
        refine ⟨by simp [hlen], ?_⟩
        unfold bindings
        rw [hlen]
        exact List.rel_append hmerged (joinScope_merged (Prod.ext rfl hr))

/-- A join that comes to its end merges every variable, and leaves all else. -/
theorem join_merged {e o e' : Environment} {changed : Bool} (h : e.join o = (.ok changed, e')) :
    e'.depth = e.depth ∧ e'.stashed = e.stashed ∧
      List.Forall₂ (Merged o) e.snapshot e'.snapshot := by
  rw [join_eq_joinAt] at h
  obtain ⟨hch, rfl⟩ := Prod.mk.inj h
  obtain ⟨hlen, hmerged⟩ := joinAt_merged (Prod.ext rfl hch)
  rw [snapshot_eq, snapshot_eq]
  exact ⟨hlen, rfl, hmerged⟩

/-- Where both environments have a variable bound, it is to values of one domain. -/
def Compatible (e o : Environment) : Prop :=
  ∀ b ∈ e.snapshot, ∀ a ∈ b.value, ∀ c ∈ o.valueAtDepth b.depth b.name,
    a.domain = c.domain ∧ a.domain ≠ .invalid

instance (e o : Environment) : Decidable (e.Compatible o) := by
  unfold Compatible
  infer_instance

theorem joinAt_ok {o : Environment} {scopes : List Scope}
    (h : ∀ b ∈ bindings scopes, ∀ a ∈ b.value, ∀ c ∈ o.valueAtDepth b.depth b.name,
      a.domain = c.domain ∧ a.domain ≠ .invalid) :
    ∃ out changed, joinAt o scopes = (out, .ok changed) := by
  induction scopes with
  | nil => exact ⟨[], false, rfl⟩
  | cons s rest ih =>
    obtain ⟨rest', outer, hrest⟩ := ih fun b hb => h b (List.mem_append_left _ hb)
    obtain ⟨s', c, hs⟩ : ∃ s' c, joinScope (o.scopeAt rest.length) s = (s', .ok c) := by
      apply joinScope_ok
      intro n slot t a c hmem ht ha hc
      refine h (.of rest.length (n, slot)) ?_ a ha c ?_
      · exact List.mem_append_right _ (List.mem_map_of_mem hmem)
      · exact Option.bind_eq_some_iff.mpr ⟨t, ht, hc⟩
    refine ⟨s' :: rest', outer || c, ?_⟩
    unfold joinAt
    simp only [hrest, hs]
    rfl

theorem join_ok {e o : Environment} (h : e.Compatible o) :
    ∃ changed e', e.join o = (.ok changed, e') := by
  unfold Compatible at h
  rw [snapshot_eq] at h
  obtain ⟨out, changed, hj⟩ := joinAt_ok h
  rw [join_eq_joinAt, hj]
  exact ⟨changed, _, rfl⟩

/-- What merging makes of a variable: one that is not bound on both sides stays as it is, and one
that is takes the join of the two values. -/
theorem Merged.cases {o : Environment} {b b' : Binding} (h : Merged o b b') :
    b'.domain = b.domain ∧
    (b'.value = b.value ∧ (b.value = none ∨ o.valueAtDepth b.depth b.name = none) ∨
      ∃ a v c, b.value = some a ∧ o.valueAtDepth b.depth b.name = some v ∧ a.merge v = .ok c ∧
        b'.value = some c) := by
  obtain ⟨depth, name, domain, value⟩ := b
  obtain ⟨depth', name', domain', value'⟩ := b'
  have hslot : Slot.join ⟨domain, value⟩ (o.slotAt depth name) = .ok ⟨domain', value'⟩ := h.slot
  have hvalue : o.valueAtDepth depth name = (o.slotAt depth name).bind (·.value) := rfl
  unfold Slot.join at hslot
  rw [← hvalue] at hslot
  split at hslot
  · next a v ha hv =>
    cases hm : a.merge v with
    | error f =>
      rw [hm] at hslot
      cases hslot
    | ok c =>
      rw [hm] at hslot
      cases hslot
      exact ⟨rfl, .inr ⟨a, v, c, ha, hv, hm, rfl⟩⟩
  · next hnot =>
    cases hslot
    refine ⟨rfl, .inl ⟨rfl, ?_⟩⟩
    cases value with
    | none => exact .inl rfl
    | some a => exact .inr (Option.eq_none_iff_forall_ne_some.mpr fun v => hnot a v rfl)

/-- Merging keeps the domain of what is bound. -/
theorem Merged.bound {o : Environment} {b b' : Binding} (h : Merged o b b') {c : Atom}
    (hc : b'.value = some c) : ∃ a, b.value = some a ∧ a.domain = c.domain := by
  obtain ⟨-, ⟨hsame, -⟩ | ⟨a, v, c', ha, -, hm, hc'⟩⟩ := h.cases
  · exact ⟨c, hsame ▸ hc, rfl⟩
  · obtain rfl : c = c' := Option.some.inj (hc.symm.trans hc')
    exact ⟨a, ha, Atom.domain_eq_of_leq (Atom.leq_of_merge hm).1⟩

/-- What could be joined in before a join can be joined in after it. -/
theorem Compatible.joined {e o o' e' : Environment} {changed : Bool} (h : e.Compatible o')
    (hj : e.join o = (.ok changed, e')) : e'.Compatible o' := by
  intro b' hb' c hc v hv
  obtain ⟨b, hb, hmerged⟩ := exists_of_mem_right (join_merged hj).2.2 hb'
  obtain ⟨a, ha, hd⟩ := hmerged.bound hc
  rw [hmerged.depth, hmerged.name] at hv
  exact hd ▸ h b hb a ha v hv

/-! Joining in a list of environments. -/

/-- Joins environments in, one after another. -/
def joinAll (e : Environment) : List Environment → Except SignFault Environment
  | [] => .ok e
  | o :: os =>
    match e.join o with
    | (.ok _, e') => joinAll e' os
    | (.error fault, _) => .error fault

/-- A variable after some environments were joined in. One that was unbound still is; one that was
bound holds the least atom above what it held and what it holds in each of them. -/
structure Gathers (os : List Environment) (b b' : Binding) : Prop where
  depth : b'.depth = b.depth
  name : b'.name = b.name
  domain : b'.domain = b.domain
  unbound : b.value = none → b'.value = none
  bound : ∀ a, b.value = some a → ∃ c, b'.value = some c ∧
    a.LeastAbove (fun v => ∃ o ∈ os, o.valueAtDepth b.depth b.name = some v) c

theorem Gathers.nil (b : Binding) : Gathers [] b b := by
  refine ⟨rfl, rfl, rfl, id, fun a ha => ⟨a, ha, Atom.leq_refl a, ?_, fun u hu _ => hu⟩⟩
  rintro v ⟨o, ho, -⟩
  cases ho

theorem Gathers.cons {o : Environment} {os : List Environment} {b b₁ b' : Binding}
    (h : Merged o b b₁) (hs : Gathers os b₁ b') : Gathers (o :: os) b b' := by
  obtain ⟨hdomain, hvalue⟩ := h.cases
  have hbound := hs.bound
  rw [h.depth, h.name] at hbound
  refine ⟨hs.depth.trans h.depth, hs.name.trans h.name, hs.domain.trans hdomain, ?_, ?_⟩
  · intro hnone
    rcases hvalue with ⟨hsame, -⟩ | ⟨a, v, c, ha, -⟩
    · exact hs.unbound (hsame.trans hnone)
    · rw [hnone] at ha
      cases ha
  · intro a ha
    rcases hvalue with ⟨hsame, hnone⟩ | ⟨a', v, c₁, ha', hv, hm, hc₁⟩
    · -- the first environment has nothing to add
      obtain ⟨c, hc, hleast⟩ := hbound a (hsame.trans ha)
      have hnot : o.valueAtDepth b.depth b.name = none := by
        rcases hnone with hnone | hnone
        · rw [hnone] at ha
          cases ha
        · exact hnone
      refine ⟨c, hc, hleast.self, ?_, fun u hau hu => hleast.least u hau ?_⟩
      · rintro v ⟨p, hp, hv⟩
        rcases List.mem_cons.mp hp with rfl | hp
        · rw [hnot] at hv
          cases hv
        · exact hleast.above v ⟨p, hp, hv⟩
      · rintro v ⟨p, hp, hv⟩
        exact hu v ⟨p, List.mem_cons_of_mem _ hp, hv⟩
    · -- what it has is merged first, and everything after is above that
      obtain rfl : a = a' := Option.some.inj (ha.symm.trans ha')
      obtain ⟨c, hc, hleast⟩ := hbound c₁ hc₁
      obtain ⟨hac, hvc⟩ := Atom.leq_of_merge hm
      refine ⟨c, hc, Atom.leq_trans hac hleast.self, ?_, fun u hau hu => hleast.least u ?_ ?_⟩
      · rintro w ⟨p, hp, hw⟩
        rcases List.mem_cons.mp hp with rfl | hp
        · obtain rfl : v = w := Option.some.inj (hv.symm.trans hw)
          exact Atom.leq_trans hvc hleast.self
        · exact hleast.above w ⟨p, hp, hw⟩
      · exact Atom.merge_leq hm hau (hu v ⟨o, List.mem_cons_self, hv⟩)
      · rintro w ⟨p, hp, hw⟩
        exact hu w ⟨p, List.mem_cons_of_mem _ hp, hw⟩

/-- The least atom is one, so the result is settled by what was joined in. -/
theorem Gathers.unique {os os' : List Environment} {b b' b'' : Binding} (h : Gathers os b b')
    (h' : Gathers os' b b'') (hsame : ∀ o, o ∈ os' ↔ o ∈ os) : b' = b'' := by
  have hvalue : b'.value = b''.value := by
    cases hv : b.value with
    | none => rw [h.unbound hv, h'.unbound hv]
    | some a =>
      obtain ⟨c, hc, hleast⟩ := h.bound a hv
      obtain ⟨c', hc', hleast'⟩ := h'.bound a hv
      rw [hc, hc', hleast.unique hleast' fun v => by simp only [hsame]]
  obtain ⟨depth, name, domain, value⟩ := b'
  obtain ⟨depth', name', domain', value'⟩ := b''
  simp only [Binding.mk.injEq]
  exact ⟨h.depth.trans h'.depth.symm, h.name.trans h'.name.symm, h.domain.trans h'.domain.symm,
    hvalue⟩

/-- Joining in environments that fit succeeds, and every variable gathers what they have. -/
theorem joinAll_gathers {e : Environment} {os : List Environment} (h : ∀ o ∈ os, e.Compatible o) :
    ∃ e', e.joinAll os = .ok e' ∧ e'.depth = e.depth ∧ e'.stashed = e.stashed ∧
      List.Forall₂ (Gathers os) e.snapshot e'.snapshot := by
  induction os generalizing e with
  | nil => exact ⟨e, rfl, rfl, rfl, List.forall₂_same.mpr fun b _ => .nil b⟩
  | cons o os ih =>
    obtain ⟨changed, e₁, hj⟩ := join_ok (h o List.mem_cons_self)
    obtain ⟨hdepth, hstashed, hmerged⟩ := join_merged hj
    obtain ⟨e', hall, hdepth', hstashed', hgathers⟩ :=
      ih fun p hp => (h p (List.mem_cons_of_mem _ hp)).joined hj
    refine ⟨e', ?_, hdepth'.trans hdepth, hstashed'.trans hstashed, ?_⟩
    · rw [joinAll, hj]
      exact hall
    · refine forall₂_comp ?_ hmerged hgathers
      intro b b₁ b' h hs
      exact .cons h hs

theorem forall₂_right_unique {α β : Type} {R S : α → β → Prop}
    (hRS : ∀ a b c, R a b → S a c → b = c) {xs : List α} {ys zs : List β}
    (h : List.Forall₂ R xs ys) (h' : List.Forall₂ S xs zs) : ys = zs := by
  induction h generalizing zs with
  | nil =>
    cases h'
    rfl
  | cons hxy _ ih =>
    cases h' with
    | cons hxz hrest => rw [hRS _ _ _ hxy hxz, ih hrest]

theorem eq_of_snapshot {e e' : Environment} (hdepth : e.depth = e'.depth)
    (hstashed : e.stashed = e'.stashed) (h : e.snapshot = e'.snapshot) : e = e' := by
  obtain ⟨scopes, stashed⟩ := e
  obtain ⟨scopes', stashed'⟩ := e'
  rw [snapshot_eq, snapshot_eq] at h
  obtain rfl : scopes = scopes' := bindings_injective hdepth h
  obtain rfl : stashed = stashed' := hstashed
  rfl

/-- Joining in the same environments, in any order and any number of times, gives the same. -/
theorem joinAll_congr {e : Environment} {os os' : List Environment}
    (h : ∀ o ∈ os, e.Compatible o) (hsame : ∀ o, o ∈ os' ↔ o ∈ os) :
    e.joinAll os' = e.joinAll os := by
  obtain ⟨e', hall, hdepth, hstashed, hgathers⟩ := joinAll_gathers h
  obtain ⟨e'', hall', hdepth', hstashed', hgathers'⟩ :=
    joinAll_gathers fun o ho => h o ((hsame o).mp ho)
  have hsnapshot : e'.snapshot = e''.snapshot :=
    forall₂_right_unique (fun _ _ _ hb hb' => hb.unique hb' hsame) hgathers hgathers'
  rw [hall, hall', eq_of_snapshot (hdepth.trans hdepth'.symm) (hstashed.trans hstashed'.symm)
    hsnapshot]

/-! What a join answers. -/

/-- A join tells whether it changed something that can be seen. -/
theorem join_changed {e o e' : Environment} {changed : Bool} (h : e.join o = (.ok changed, e')) :
    changed = true ↔ e'.snapshot ≠ e.snapshot := by
  obtain ⟨hdepth, hstashed, -⟩ := join_merged h
  constructor
  · rintro rfl heq
    have hslack := join_slack h
    rw [eq_of_snapshot hdepth hstashed heq] at hslack
    exact Nat.lt_irrefl _ hslack
  · intro hne
    cases changed with
    | true => rfl
    | false =>
      rw [join_same h] at hne
      exact absurd rfl hne

/-- Whether a variable is unbound or bound in another environment to the same value. -/
def agreesWith (o : Environment) (b : Binding) : Bool := b.slot.agrees (o.slotAt b.depth b.name)

theorem all_bindings_cons (o : Environment) (s : Scope) (rest : List Scope) :
    (bindings (s :: rest)).all (agreesWith o) =
      (scopeAgrees (o.scopeAt rest.length) s && (bindings rest).all (agreesWith o)) := by
  rw [bindings, List.all_append, Bool.and_comm, List.all_map]
  rfl

theorem scopesAgree_eq {o : Environment} {mine : List Scope} (h : mine.length ≤ o.scopes.length) :
    scopesAgree mine (o.scopes.drop (o.scopes.length - mine.length)) =
      (bindings mine).all (agreesWith o) := by
  induction mine with
  | nil => simp [scopesAgree, bindings]
  | cons s rest ih =>
    rw [List.length_cons] at h ⊢
    rw [drop_scopes (by omega), scopesAgree, ih (by omega), all_bindings_cons]

/-- Nothing agrees with scopes that the other environment does not have. -/
theorem topAgree_eq {o : Environment} (top : List Scope) {mine : List Scope}
    (h : o.scopes.length ≤ mine.length) :
    (bindings (top ++ mine)).all (agreesWith o) =
      (top.all (scopeAgrees []) && (bindings mine).all (agreesWith o)) := by
  induction top with
  | nil => rfl
  | cons s rest ih =>
    have hnil : o.scopeAt (rest ++ mine).length = [] := by
      apply scopeAt_eq_nil
      simp only [List.length_append]
      omega
    rw [List.cons_append, all_bindings_cons, ih, hnil, List.all_cons, Bool.and_assoc]

/-- Environments are compared variable by variable. -/
theorem identical_eq_all (e o : Environment) :
    e.identical o = (bindings e.scopes).all (agreesWith o) := by
  unfold identical
  dsimp only
  by_cases hlen : o.scopes.length ≤ e.scopes.length
  · have hdrop : (e.scopes.drop (e.scopes.length - o.scopes.length)).length = o.scopes.length := by
      rw [List.length_drop]
      omega
    have hmine := scopesAgree_eq hdrop.le
    rw [hdrop, Nat.sub_self, List.drop_zero] at hmine
    rw [Nat.sub_eq_zero_of_le hlen, List.drop_zero, hmine, ← topAgree_eq _ hdrop.ge,
      List.take_append_drop]
  · have hzero : e.scopes.length - o.scopes.length = 0 := by omega
    rw [hzero, List.drop_zero, List.take_zero, List.all_nil, Bool.true_and,
      scopesAgree_eq (by omega)]

theorem identical_agrees {e o : Environment} (h : e.identical o = true) :
    ∀ b ∈ e.snapshot, b.slot.agrees (o.slotAt b.depth b.name) = true := by
  rw [identical_eq_all, List.all_eq_true] at h
  rw [snapshot_eq]
  exact h

/-- Joining in an identical environment changes nothing. -/
theorem join_of_identical {e o : Environment} (hc : e.Compatible o) (h : e.identical o = true) :
    e.join o = (.ok false, e) := by
  obtain ⟨changed, e', hj⟩ := join_ok hc
  obtain ⟨hdepth, hstashed, hmerged⟩ := join_merged hj
  have hsame : e'.snapshot = e.snapshot := by
    refine forall₂_right_unique (S := fun b c => b ∈ e.snapshot ∧ b = c) ?_ hmerged ?_
    · rintro b b' _ hm ⟨hb, rfl⟩
      obtain ⟨hdomain, hvalue⟩ := hm.cases
      have hval : b'.value = b.value := by
        rcases hvalue with ⟨hsame, -⟩ | ⟨a, v, c, ha, hv, hmerge, hbc⟩
        · exact hsame
        · have hcovers := agrees_covers (identical_agrees h b hb) a v ha hv
          rw [Atom.merge_eq_self hcovers (hc b hb a ha v hv).2] at hmerge
          rw [hbc, ha, Except.ok.inj hmerge]
      obtain ⟨depth, name, domain, value⟩ := b
      obtain ⟨depth', name', domain', value'⟩ := b'
      simp only [Binding.mk.injEq]
      exact ⟨hm.depth, hm.name, hdomain, hval⟩
    · exact List.forall₂_same.mpr fun b hb => ⟨hb, rfl⟩
  obtain rfl : e' = e := eq_of_snapshot hdepth hstashed hsame
  cases changed with
  | false => exact hj
  | true => exact absurd rfl ((join_changed hj).mp rfl)

/-- Joining in environments one after another takes least upper bounds. When each of them fits, the
joins succeed; the result is the same for every list of the same environments, in whatever order
and however often they are named; every variable that was bound holds the least atom above what it
held and above what each of them binds it to; and names, domains, unbound variables, the scopes and
the states set aside are as they were. A join that answers tells truly whether it changed the
snapshot, and it changes nothing when the environment joined in is identical. -/
theorem joins_are_least_upper_bounds :
    (∀ (e : Environment) (os : List Environment), (∀ o ∈ os, e.Compatible o) →
      ∃ e', e.joinAll os = .ok e' ∧
        (∀ os', (∀ o, o ∈ os' ↔ o ∈ os) → e.joinAll os' = .ok e') ∧
        e'.depth = e.depth ∧ e'.stashed = e.stashed ∧
        List.Forall₂ (Gathers os) e.snapshot e'.snapshot) ∧
    (∀ (e o e' : Environment) (changed : Bool), e.join o = (.ok changed, e') →
      (changed = true ↔ e'.snapshot ≠ e.snapshot)) ∧
    ∀ e o : Environment, e.Compatible o → e.identical o = true → e.join o = (.ok false, e) := by
  refine ⟨fun e os h => ?_, fun e o e' changed => join_changed, fun e o => join_of_identical⟩
  obtain ⟨e', hall, hdepth, hstashed, hgathers⟩ := joinAll_gathers h
  refine ⟨e', hall, fun os' hsame => ?_, hdepth, hstashed, hgathers⟩
  rw [joinAll_congr h hsame, hall]

/-! A variable that is bound in environments of different heights, beside one that is not bound
everywhere. -/

namespace Heights

/-- One scope, with `x` negative and `y` unbound. -/
def low : Environment := ⟨[[([120], ⟨.int, some (.int .neg)⟩), ([121], ⟨.float, none⟩)]], []⟩

/-- Two scopes, with `x` positive and `y` unbound in the outer one and `z` in the inner one. -/
def middle : Environment :=
  ⟨[[([122], ⟨.bool, some (.bool .yes)⟩)],
    [([120], ⟨.int, some (.int .pos)⟩), ([121], ⟨.float, none⟩)]], [[[]]]⟩

/-- Three scopes, with another `x` in the second one. -/
def high : Environment :=
  ⟨[[], [([120], ⟨.float, some (.float .zero)⟩), ([122], ⟨.bool, some (.bool .yes)⟩)],
    [([121], ⟨.float, some (.float .pos)⟩)]], []⟩

/-- The lower and the higher environment are joined in, in either order and also twice; `x` may
then be anything, and `y` stays unbound. The first of the joins reports a change. -/
theorem joined_in_any_order : (∀ o ∈ [low, high], middle.Compatible o) ∧
    middle.joinAll [low, high] = .ok ⟨[[([122], ⟨.bool, some (.bool .yes)⟩)],
      [([120], ⟨.int, some (.int .any)⟩), ([121], ⟨.float, none⟩)]], [[[]]]⟩ ∧
    middle.joinAll [high, low, high] = middle.joinAll [low, high] ∧
    (middle.join low).2.snapshot ≠ middle.snapshot ∧
    middle.identical middle = true ∧ middle.join middle = (.ok false, middle) := by
  obtain ⟨hall, hchanged, hidentical⟩ := joins_are_least_upper_bounds
  have hfits : ∀ o ∈ [low, high], middle.Compatible o := by decide
  obtain ⟨e', he', hsame, -⟩ := hall middle [low, high] hfits
  refine ⟨hfits, rfl, ?_, (hchanged middle low _ true rfl).mp rfl, by decide, ?_⟩
  · rw [hsame [high, low, high] (by intro o; simp; tauto), he']
  · exact hidentical middle middle (by decide) (by decide)

end Heights
end Environment
end Signum
