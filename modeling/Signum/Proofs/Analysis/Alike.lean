import Signum.Proofs.Sign.Order
import Mathlib.Data.List.Forall2
/- Environments of one shape.

   Two stacks of scopes are `Alike` when they have the same names and domains in the same
   places, the same variables are bound, and the atoms of a bound variable are related. For a
   relation that the operators respect, every operation on environments takes environments
   that are alike to such ones.

   For the order of atoms more is known. A join is above what it was made from, joining in
   what is identical changes nothing, and a join that changes something leaves fewer
   variables that can still rise, whatever the heights of the two environments. -/
namespace Signum

/-- Slots of one domain, both unbound or both bound, to related atoms. -/
structure Slot.Alike (le : Atom → Atom → Prop) (mine theirs : Slot) : Prop where
  domain : mine.domain = theirs.domain
  value : Option.Rel le mine.value theirs.value

/-- What a slot is bound to is above what the other is bound to, if both are. -/
def Slot.Covers (mine : Slot) (theirs : Option Slot) : Prop :=
  ∀ a b, mine.value = some a → theirs.bind (·.value) = some b → b.leq a = true

namespace Environment

open Analysis (Respected)

/-- Scopes with the same variables in the same order. -/
def ScopeAlike (le : Atom → Atom → Prop) : Scope → Scope → Prop :=
  List.Forall₂ fun p q => p.1 = q.1 ∧ p.2.Alike le q.2

/-- Stacks of one shape, with the same variables bound, to related atoms. -/
def Alike (le : Atom → Atom → Prop) : List Scope → List Scope → Prop :=
  List.Forall₂ (ScopeAlike le)

section Alike
variable {le : Atom → Atom → Prop} {s s' t t' : Scope} {scopes scopes' : List Scope}

theorem lookup_alike (h : ScopeAlike le s s') (n : Bytes) :
    Option.Rel (Slot.Alike le) (s.lookup n) (s'.lookup n) := by
  induction h with
  | nil => exact .none
  | @cons p q s s' hpq _ ih =>
    obtain ⟨m, slot⟩ := p
    obtain ⟨m', slot'⟩ := q
    obtain ⟨rfl, hslot⟩ := hpq
    rw [List.lookup_cons, List.lookup_cons]
    cases n == m with
    | true => exact .some hslot
    | false => exact ih

theorem held_alike (h : ScopeAlike le s s') (n : Bytes) :
    Option.Rel le ((s.lookup n).bind (·.value)) ((s'.lookup n).bind (·.value)) := by
  have hl := lookup_alike h n
  generalize s.lookup n = x at hl
  generalize s'.lookup n = y at hl
  cases hl with
  | none => exact .none
  | some hslot => exact hslot.value

/-- What is found for a name is related. -/
theorem lookup?_alike {e e' : Environment} (h : Alike le e.scopes e'.scopes) (n : Bytes) :
    Option.Rel le (e.lookup? n) (e'.lookup? n) := by
  unfold lookup?
  generalize e.scopes = scopes at h
  generalize e'.scopes = scopes' at h
  induction h with
  | nil => exact .none
  | @cons s s' _ _ hs _ ih =>
    have hv := held_alike hs n
    rw [List.findSome?_cons, List.findSome?_cons]
    generalize (s.lookup n).bind (·.value) = x at hv
    generalize (s'.lookup n).bind (·.value) = y at hv
    cases hv with
    | none => exact ih
    | some hab => exact .some hab

theorem set_alike {a a' : Atom} (h : ScopeAlike le s s') (ha : le a a') (n : Bytes) :
    ScopeAlike le (Scope.set n a s) (Scope.set n a' s') := by
  unfold Scope.set
  refine List.forall₂_map_left_iff.mpr (List.forall₂_map_right_iff.mpr (h.imp ?_))
  rintro ⟨m, slot⟩ ⟨m', slot'⟩ ⟨rfl, hslot⟩
  dsimp only
  split
  · exact ⟨rfl, hslot.domain, .some ha⟩
  · exact ⟨rfl, hslot⟩

theorem bindIn_alike (hle : Respected le) {a a' : Atom} (ha : le a a') {n : Bytes}
    (h : Alike le scopes scopes') {out' : List Scope} (hb : bindIn n a' scopes' = .ok out') :
    ∃ out, bindIn n a scopes = .ok out ∧ Alike le out out' := by
  induction h generalizing out' with
  | nil => cases hb
  | @cons s s' rest rest' hs hrest ih =>
    have hl := lookup_alike hs n
    unfold bindIn at hb ⊢
    generalize s.lookup n = x at hl
    generalize s'.lookup n = y at hl hb
    cases hl with
    | none =>
      cases hr : bindIn n a' rest' with
      | error f => rw [hr] at hb; cases hb
      | ok out₁' =>
        rw [hr] at hb
        cases hb
        obtain ⟨out₁, hout, halike⟩ := ih hr
        exact ⟨s :: out₁, by rw [hout]; rfl, .cons hs halike⟩
    | @some slot slot' hslot =>
      dsimp only at hb ⊢
      rw [hle.domain ha, hslot.domain]
      split at hb
      · next hd =>
        cases hb
        rw [if_pos hd]
        exact ⟨_, rfl, .cons (set_alike hs ha n) hrest⟩
      · cases hb

theorem bind_alike (hle : Respected le) {a a' : Atom} (ha : le a a') {n : Bytes}
    {e e' out' : Environment} (h : Alike le e.scopes e'.scopes) (hb : e'.bind n a' = .ok out') :
    ∃ out, e.bind n a = .ok out ∧ Alike le out.scopes out'.scopes := by
  unfold bind at hb ⊢
  cases hr : bindIn n a' e'.scopes with
  | error f => rw [hr] at hb; cases hb
  | ok scopes' =>
    rw [hr] at hb
    cases hb
    obtain ⟨scopes, hout, halike⟩ := bindIn_alike hle ha h hr
    exact ⟨{ e with scopes }, by rw [hout]; rfl, halike⟩

theorem declare_alike {e e' out' : Environment} {n : Bytes} {d : Domain} {isNew : Bool}
    (h : Alike le e.scopes e'.scopes) (hd : e'.declare n d = (isNew, out')) :
    ∃ out, e.declare n d = (isNew, out) ∧ Alike le out.scopes out'.scopes := by
  obtain ⟨scopes, stashed⟩ := e
  obtain ⟨scopes', stashed'⟩ := e'
  cases h with
  | nil =>
    cases hd
    exact ⟨_, rfl, .nil⟩
  | @cons s s' rest rest' hs hrest =>
    have hl := lookup_alike hs n
    unfold declare at hd ⊢
    dsimp only at hd ⊢
    generalize s.lookup n = x at hl
    generalize s'.lookup n = y at hl hd
    cases hl with
    | some _ =>
      cases hd
      exact ⟨_, rfl, .cons hs hrest⟩
    | none =>
      cases hd
      refine ⟨_, rfl, .cons (List.rel_append hs (.cons ⟨rfl, rfl, .none⟩ .nil)) hrest⟩

theorem exit_alike {e e' : Environment} (h : Alike le e.scopes e'.scopes) :
    Alike le e.exit.2.scopes e'.exit.2.scopes := by
  obtain ⟨scopes, stashed⟩ := e
  obtain ⟨scopes', stashed'⟩ := e'
  unfold exit
  cases h with
  | nil => exact .nil
  | cons hs hrest =>
    cases hrest with
    | nil => exact .cons hs .nil
    | cons hs' hrest' => exact .cons hs' hrest'

theorem joinSlot_alike (hle : Respected le) {mine mine' out' : Slot} {theirs theirs' : Option Slot}
    (hm : mine.Alike le mine') (ht : Option.Rel (Slot.Alike le) theirs theirs')
    (h : mine'.join theirs' = .ok out') :
    ∃ out, mine.join theirs = .ok out ∧ out.Alike le out' := by
  obtain ⟨d, v⟩ := mine
  obtain ⟨d', v'⟩ := mine'
  obtain ⟨hd, hv⟩ := hm
  obtain rfl : d = d' := hd
  have hb : Option.Rel le (theirs.bind (·.value)) (theirs'.bind (·.value)) := by
    cases ht with
    | none => exact .none
    | some hslot => exact hslot.value
  unfold Slot.join at h ⊢
  dsimp only at h ⊢ hv
  generalize theirs.bind (·.value) = x at hb
  generalize theirs'.bind (·.value) = y at hb h
  cases hv with
  | none =>
    cases h
    exact ⟨_, rfl, rfl, .none⟩
  | @some a a' ha =>
    cases hb with
    | none =>
      cases h
      exact ⟨_, rfl, rfl, .some ha⟩
    | @some b b' hb =>
      dsimp only at h ⊢
      cases hm : a'.merge b' with
      | error f => rw [hm] at h; cases h
      | ok c' =>
        rw [hm] at h
        cases h
        obtain ⟨c, hc, hcc⟩ := hle.merge ha hb hm
        exact ⟨⟨d, some c⟩, by simp [hc, Except.map], rfl, .some hcc⟩

theorem joinScope_alike (hle : Respected le) (ht : ScopeAlike le t t') (hs : ScopeAlike le s s')
    {out' : Scope} {changed' : Bool} (h : joinScope t' s' = (out', .ok changed')) :
    ∃ out changed, joinScope t s = (out, .ok changed) ∧ ScopeAlike le out out' := by
  induction hs generalizing out' changed' with
  | nil =>
    cases h
    exact ⟨_, _, rfl, .nil⟩
  | @cons p q s s' hpq _ ih =>
    obtain ⟨m, slot⟩ := p
    obtain ⟨m', slot'⟩ := q
    obtain ⟨rfl, hslot⟩ := hpq
    unfold joinScope at h ⊢
    cases hj : slot'.join (t'.lookup m) with
    | error f => simp only [hj] at h; cases h
    | ok joined' =>
      obtain ⟨joined, hj₁, halike⟩ := joinSlot_alike hle hslot (lookup_alike ht m) hj
      simp only [hj] at h
      obtain ⟨hout, hch⟩ := Prod.mk.inj h
      cases hr : (joinScope t' s').2 with
      | error f => rw [hr] at hch; cases hch
      | ok c' =>
        obtain ⟨out, c, hrest, hout₁⟩ := ih (Prod.ext rfl hr)
        refine ⟨_, _, by simp only [hj₁, hrest]; rfl, ?_⟩
        rw [← hout]
        exact .cons ⟨rfl, halike⟩ hout₁

theorem joinScopes_alike (hle : Respected le) {theirs theirs' : List Scope}
    (ht : Alike le theirs theirs') (hm : Alike le scopes scopes') {out' : List Scope}
    {changed' : Bool} (h : joinScopes scopes' theirs' = (out', .ok changed')) :
    ∃ out changed, joinScopes scopes theirs = (out, .ok changed) ∧ Alike le out out' := by
  induction hm generalizing theirs theirs' out' changed' with
  | nil =>
    unfold joinScopes at h ⊢
    cases h
    exact ⟨_, _, rfl, .nil⟩
  | @cons s s' ss ss' hs hss ih =>
    cases ht with
    | nil =>
      unfold joinScopes at h ⊢
      cases h
      exact ⟨_, _, rfl, .cons hs hss⟩
    | @cons t t' ts ts' ht hts =>
      unfold joinScopes at h ⊢
      cases hr : joinScopes ss' ts' with
      | mk rest' result =>
        cases result with
        | error f => simp only [hr] at h; cases h
        | ok outer' =>
          simp only [hr] at h
          obtain ⟨rest, outer, hrest, halike⟩ := ih hts hr
          obtain ⟨hout, hch⟩ := Prod.mk.inj h
          cases hj : (joinScope t' s').2 with
          | error f => rw [hj] at hch; cases hch
          | ok c' =>
            obtain ⟨out, c, hscope, hout₁⟩ := joinScope_alike hle ht hs (Prod.ext rfl hj)
            refine ⟨_, _, by simp only [hrest, hscope]; rfl, ?_⟩
            rw [← hout]
            exact .cons hout₁ halike

/-- Joining in what is alike succeeds as well, and gives what is alike. -/
theorem join_alike (hle : Respected le) {e e' o o' out' : Environment} {changed' : Bool}
    (he : Alike le e.scopes e'.scopes) (ho : Alike le o.scopes o'.scopes)
    (h : e'.join o' = (.ok changed', out')) :
    ∃ changed out, e.join o = (.ok changed, out) ∧ Alike le out.scopes out'.scopes := by
  have hel : e.scopes.length = e'.scopes.length := List.Forall₂.length_eq he
  have hol : o.scopes.length = o'.scopes.length := List.Forall₂.length_eq ho
  unfold join at h ⊢
  simp only at h ⊢
  obtain ⟨hch, rfl⟩ := Prod.mk.inj h
  rw [hel, hol]
  obtain ⟨out, changed, hj, halike⟩ := joinScopes_alike hle
    (List.forall₂_drop (o'.scopes.length - e'.scopes.length) ho)
    (List.forall₂_drop (e'.scopes.length - o'.scopes.length) he) (Prod.ext rfl hch)
  rw [hj]
  exact ⟨changed, _, rfl, List.rel_append (List.forall₂_take _ he) halike⟩

/-- A join depends on the scopes only. -/
theorem join_congr {e e' o o' : Environment} (he : e.scopes = e'.scopes)
    (ho : o.scopes = o'.scopes) :
    e.join o = ((e'.join o').1, { e with scopes := (e'.join o').2.scopes }) := by
  unfold join
  rw [he, ho]

theorem identical_congr {e e' o o' : Environment} (he : e.scopes = e'.scopes)
    (ho : o.scopes = o'.scopes) : e.identical o = e'.identical o' := by
  unfold identical
  rw [he, ho]

end Alike

/-! Stacks that are alike for the order. A stack is alike to itself when its atoms belong
to domains. -/

section Order
variable {s s' t : Scope} {scopes scopes' scopes'' : List Scope}

theorem Alike.trans (h : Alike Atom.Below scopes scopes') (h' : Alike Atom.Below scopes' scopes'') :
    Alike Atom.Below scopes scopes'' := by
  have hslot {x y z : Slot} (hxy : x.Alike Atom.Below y) (hyz : y.Alike Atom.Below z) :
      x.Alike Atom.Below z := by
    refine ⟨hxy.domain.trans hyz.domain, ?_⟩
    have hv := hxy.value
    have hv' := hyz.value
    generalize x.value = a at hv
    generalize y.value = b at hv hv'
    generalize z.value = c at hv'
    cases hv with
    | none => exact hv'
    | some hab =>
      cases hv' with
      | some hbc => exact .some (hab.trans hbc)
  have hscope : ∀ {s s' s'' : Scope}, ScopeAlike Atom.Below s s' → ScopeAlike Atom.Below s' s'' →
      ScopeAlike Atom.Below s s'' := by
    intro s s' s'' h h'
    induction h generalizing s'' with
    | nil => exact h'
    | cons hp _ ih =>
      cases h' with
      | cons hq hrest => exact .cons ⟨hp.1.trans hq.1, hslot hp.2 hq.2⟩ (ih hrest)
  induction h generalizing scopes'' with
  | nil => exact h'
  | cons hs _ ih =>
    cases h' with
    | cons hs' hrest => exact .cons (hscope hs hs') (ih hrest)

theorem Alike.right (h : Alike Atom.Below scopes scopes') : Alike Atom.Below scopes' scopes' := by
  induction h with
  | nil => exact .nil
  | cons hs _ ih =>
    refine .cons ?_ ih
    induction hs with
    | nil => exact .nil
    | @cons p q _ _ hpq _ ih =>
      refine .cons ⟨rfl, rfl, ?_⟩ ih
      have hv := hpq.2.value
      generalize p.2.value = a at hv
      generalize q.2.value = b at hv
      cases hv with
      | none => exact .none
      | some hab => exact .some hab.right

theorem joinScope_above {out : Scope} {changed : Bool} (hs : ScopeAlike Atom.Below s s)
    (h : joinScope t s = (out, .ok changed)) : ScopeAlike Atom.Below s out := by
  induction s generalizing out changed with
  | nil =>
    cases h
    exact .nil
  | cons p rest ih =>
    obtain ⟨name, slot⟩ := p
    cases hs with
    | cons hp hrest =>
      unfold joinScope at h
      split at h
      · cases h
      · next joined hj =>
        obtain ⟨hout, hch⟩ := Prod.mk.inj h
        cases hr : (joinScope t rest).2 with
        | error f => rw [hr] at hch; cases hch
        | ok c =>
          rw [← hout]
          refine .cons ⟨rfl, ?_⟩ (ih hrest (Prod.ext rfl hr))
          have hjoined := Slot.joined_of_ok hj
          refine ⟨hjoined.domain.symm, ?_⟩
          have hb := hjoined.bound
          cases hv : slot.value with
          | none =>
            rw [hv, Option.isSome_none, Option.isSome_eq_false_iff, Option.isNone_iff_eq_none] at hb
            rw [hb]
            exact .none
          | some a =>
            obtain ⟨b, hb, hab⟩ := hjoined.above a hv
            have hself := hp.2.value
            simp only [hv] at hself
            rw [hb]
            cases hself with
            | some haa => exact .some ⟨hab, haa.2⟩

theorem joinScopes_above {theirs out : List Scope} {changed : Bool}
    (hs : Alike Atom.Below scopes scopes) (h : joinScopes scopes theirs = (out, .ok changed)) :
    Alike Atom.Below scopes out := by
  induction scopes generalizing theirs out changed with
  | nil =>
    unfold joinScopes at h
    cases h
    exact .nil
  | cons s ss ih =>
    cases theirs with
    | nil =>
      unfold joinScopes at h
      cases h
      exact hs
    | cons t ts =>
      cases hs with
      | cons hs hss =>
        unfold joinScopes at h
        split at h
        · cases h
        · next rest outer hrest =>
          obtain ⟨hout, hch⟩ := Prod.mk.inj h
          cases hj : (joinScope t s).2 with
          | error f => rw [hj] at hch; cases hch
          | ok c =>
            rw [← hout]
            exact .cons (joinScope_above hs (Prod.ext rfl hj)) (ih hss hrest)

/-- What a join that succeeds does: it joins the parts of the two stacks that are of one
height, and leaves the scopes above alone. -/
theorem join_parts {e o e' : Environment} {changed : Bool} (h : e.join o = (.ok changed, e')) :
    ∃ top mine theirs out, e.scopes = top ++ mine ∧ mine.length = theirs.length ∧
      joinScopes mine theirs = (out, .ok changed) ∧ e' = { e with scopes := top ++ out } := by
  unfold join at h
  obtain ⟨hch, he'⟩ := Prod.mk.inj h
  refine ⟨_, _, _, _, (List.take_append_drop (e.scopes.length - o.scopes.length) e.scopes).symm, ?_,
    Prod.ext rfl hch, he'.symm⟩
  rw [List.length_drop, List.length_drop]
  omega

theorem join_above {e o e' : Environment} {changed : Bool} (he : Alike Atom.Below e.scopes e.scopes)
    (h : e.join o = (.ok changed, e')) : Alike Atom.Below e.scopes e'.scopes := by
  obtain ⟨top, mine, theirs, out, hscopes, -, hj, rfl⟩ := join_parts h
  rw [hscopes] at he ⊢
  have hall := List.forall₂_same.mp he
  have hmine : Alike Atom.Below mine mine :=
    List.forall₂_same.mpr fun s hs => hall s (List.mem_append_right top hs)
  have htop : Alike Atom.Below top top :=
    List.forall₂_same.mpr fun s hs => hall s (List.mem_append_left mine hs)
  exact List.rel_append htop (joinScopes_above hmine hj)

/-- A join that reports no change makes none. -/
theorem join_same {e o e' : Environment} (h : e.join o = (.ok false, e')) : e' = e := by
  obtain ⟨top, mine, theirs, out, hscopes, hlen, hj, rfl⟩ := join_parts h
  rw [(joinScopes_joined hlen hj).same rfl, ← hscopes]

theorem slackOf_append (xs ys : List Scope) : slackOf (xs ++ ys) = slackOf xs + slackOf ys := by
  induction xs with
  | nil => simp [slackOf]
  | cons s rest ih =>
    rw [List.cons_append, slackOf, slackOf, ih, Nat.add_assoc]

/-- A join that changes something leaves fewer variables that can still rise. -/
theorem join_slack {e o e' : Environment} (h : e.join o = (.ok true, e')) : e'.slack < e.slack := by
  obtain ⟨top, mine, theirs, out, hscopes, hlen, hj, rfl⟩ := join_parts h
  have hslack := (joinScopes_joined hlen hj).slack
  rw [Bool.toNat_true] at hslack
  rw [slack, slack, hscopes, slackOf_append, slackOf_append]
  omega

theorem joinSlot_covered {mine : Slot} {theirs : Option Slot} (hv : mine.Alike Atom.Below mine)
    (h : mine.Covers theirs) : mine.join theirs = .ok mine := by
  obtain ⟨d, v⟩ := mine
  have hv := hv.value
  dsimp only at hv
  unfold Slot.join
  cases hv with
  | none => rfl
  | @some a _ haa =>
    cases hb : theirs.bind (·.value) with
    | none => rfl
    | some b =>
      dsimp only
      rw [Atom.merge_eq_self (h a b rfl hb) haa.2]
      rfl

theorem joinScope_covered (hs : ScopeAlike Atom.Below s s)
    (h : ∀ p ∈ s, p.2.Covers (t.lookup p.1)) : joinScope t s = (s, .ok false) := by
  induction s with
  | nil => rfl
  | cons p rest ih =>
    obtain ⟨name, slot⟩ := p
    cases hs with
    | cons hp hrest =>
      have hslot := joinSlot_covered hp.2 (h (name, slot) (by simp))
      unfold joinScope
      simp [hslot, ih hrest fun q hq => h q (List.mem_cons_of_mem _ hq), Except.map]

/-- Joining in what is covered changes nothing. -/
theorem joinScopes_covered {theirs : List Scope} (hs : Alike Atom.Below scopes scopes)
    (h : ∀ (i : Nat) s t, scopes[i]? = some s → theirs[i]? = some t →
      ∀ p ∈ s, p.2.Covers (t.lookup p.1)) : joinScopes scopes theirs = (scopes, .ok false) := by
  induction scopes generalizing theirs with
  | nil =>
    unfold joinScopes
    rfl
  | cons s ss ih =>
    cases theirs with
    | nil =>
      unfold joinScopes
      rfl
    | cons t ts =>
      cases hs with
      | cons hs hss =>
        have hrest := ih hss fun i s t hs ht => h (i + 1) s t hs ht
        unfold joinScopes
        simp [hrest, joinScope_covered hs (h 0 s t rfl rfl), Except.map]

theorem agrees_covers {mine : Slot} {theirs : Option Slot} (h : mine.agrees theirs = true) :
    mine.Covers theirs := by
  intro a b ha hb
  simp only [Slot.agrees, ha, hb, reduceCtorEq, decide_false, Bool.false_or, decide_eq_true_eq,
    Option.some.injEq] at h
  exact h ▸ Atom.leq_refl b

theorem scopesAgree_covers {theirs : List Scope} (h : scopesAgree scopes theirs = true) {i : Nat}
    (hs : scopes[i]? = some s) (ht : theirs[i]? = some t) :
    ∀ p ∈ s, p.2.Covers (t.lookup p.1) := by
  induction scopes generalizing theirs i with
  | nil => cases hs
  | cons s' ss ih =>
    cases theirs with
    | nil => cases ht
    | cons t' ts =>
      simp only [scopesAgree, Bool.and_eq_true] at h
      cases i with
      | zero =>
        cases hs
        cases ht
        exact fun p hp => agrees_covers (List.all_eq_true.mp h.1 p hp)
      | succ i => exact ih h.2 hs ht

/-- Joining in an environment that is identical changes nothing. -/
theorem join_identical {e o : Environment} (he : Alike Atom.Below e.scopes e.scopes)
    (h : e.identical o = true) : e.join o = (.ok false, e) := by
  unfold identical at h
  simp only [Bool.and_eq_true] at h
  unfold join
  have hcovered := joinScopes_covered (List.forall₂_drop _ he) fun i s t hs ht =>
    scopesAgree_covers h.2 hs ht
  simp only [hcovered, List.take_append_drop]

end Order
end Environment
end Signum
