import Signum.Proofs.Analysis.Monotone
/- A loop computes the least state that its body keeps.

   Running a statement leaves the open scopes open and their bound variables bound
   (`Persistent`). So the state at which a loop ends is not only unchanged by joining in what
   the body makes of it: where it holds something, the body's result holds something too, and
   what that is lies below. And as the heads of a loop climb by joins only, and the body is
   monotone, they stay below every state above the first head that its body keeps. -/
namespace Signum

namespace Environment

/-- An environment as analyses have them: a scope is open, no scope has two variables of one
name, and what a variable is bound to belongs to a domain. -/
structure Proper (e : Environment) : Prop where
  opened : e.scopes ≠ []
  names : ∀ s ∈ e.scopes, (s.map Prod.fst).Nodup
  atoms : ∀ s ∈ e.scopes, ∀ p ∈ s, ∀ a, p.2.value = some a → a.domain ≠ .invalid

/-- The first stack lies below the second on every variable that is bound there. -/
def Within (inner outer : List Scope) : Prop :=
  ∀ i n a, held outer i n = some a → ∃ b, held inner i n = some b ∧ b.leq a = true

/-- The scopes stay open and what is bound stays bound. -/
structure Persists (scopes scopes' : List Scope) : Prop where
  height : scopes'.length = scopes.length
  bound : ∀ i n, (held scopes i n).isSome → (held scopes' i n).isSome

theorem Proper.alike {e : Environment} (h : e.Proper) : Alike Atom.Below e.scopes e.scopes := by
  refine List.forall₂_same.mpr fun s hs => List.forall₂_same.mpr fun p hp => ⟨rfl, rfl, ?_⟩
  cases hv : p.2.value with
  | none => exact .none
  | some a => exact .some ⟨Atom.leq_refl a, h.atoms s hs p hp a hv⟩

theorem Alike.names {le : Atom → Atom → Prop} {scopes scopes' : List Scope}
    (h : Alike le scopes scopes') :
    scopes'.map (·.map Prod.fst) = scopes.map (·.map Prod.fst) := stackNames_forall₂ And.left h

/-- What is alike to a proper environment is proper. -/
theorem Alike.proper {e e' : Environment} (h : Alike Atom.Below e.scopes e'.scopes)
    (he : e.Proper) : e'.Proper := by
  refine ⟨fun hnil => ?_, Analysis.nodup_of_names h.names he.names, fun s hs p hp a ha => ?_⟩
  · have hlen : e.scopes.length = e'.scopes.length := List.Forall₂.length_eq h
    rw [hnil] at hlen
    exact he.opened (List.length_eq_zero_iff.mp hlen)
  · have hself := List.forall₂_same.mp (List.forall₂_same.mp h.right s hs) p hp
    have hv := hself.2.value
    rw [ha] at hv
    cases hv with
    | some haa => exact haa.2

/-- Joining in what lies below changes nothing. -/
theorem join_within {e o : Environment} (he : e.Proper) (hlen : o.scopes.length = e.scopes.length)
    (h : Within o.scopes e.scopes) : e.join o = (.ok false, e) := by
  have hcovered : joinScopes e.scopes o.scopes = (e.scopes, .ok false) := by
    refine joinScopes_covered he.alike fun i s t hs ht p hp a b ha hb => ?_
    have hlook := Analysis.lookup_of_nodup (he.names s (List.mem_of_getElem? hs)) hp
    obtain ⟨b', hb', hle⟩ := h i p.1 a (by simp [held, cell, hs, hlook, ha])
    obtain rfl : b' = b := by simpa [held, cell, ht, hb] using hb'.symm
    exact hle
  rw [join_eq hlen.symm, hcovered]

namespace Persists
variable {scopes scopes' scopes'' : List Scope}

theorem refl (scopes : List Scope) : Persists scopes scopes := ⟨rfl, fun _ _ h => h⟩

theorem trans (h : Persists scopes scopes') (h' : Persists scopes' scopes'') :
    Persists scopes scopes'' :=
  ⟨h'.height.trans h.height, fun i n hn => h'.bound i n (h.bound i n hn)⟩

theorem ne_nil (h : Persists scopes scopes') (hs : scopes ≠ []) : scopes' ≠ [] := by
  intro hnil
  have := h.height
  rw [hnil] at this
  exact hs (List.length_eq_zero_iff.mp this.symm)

theorem of_sets {i : Nat} {n : Bytes} {slot : Slot} (h : Sets scopes i n slot scopes')
    (hv : slot.value.isSome ∨ held scopes i n = none) : Persists scopes scopes' := by
  refine ⟨h.length, fun j m hm => ?_⟩
  unfold held at hm ⊢
  rw [h.cell j m]
  split
  · next heq =>
    obtain ⟨rfl, rfl⟩ := heq
    rcases hv with hv | hv
    · exact hv
    · rw [held] at hv
      rw [hv] at hm
      cases hm
  · exact hm

theorem of_join {e o e' : Environment} {changed : Bool} (h : e.join o = (.ok changed, e')) :
    Persists e.scopes e'.scopes := by
  obtain ⟨top, mine, theirs, out, hscopes, hlen, hj, rfl⟩ := join_parts h
  have hjoined := joinScopes_joined hlen hj
  rw [hscopes]
  refine ⟨?_, fun i n hn => ?_⟩
  · have hnames := congrArg List.length hjoined.names
    simp only [List.length_map] at hnames
    simp [hnames]
  · unfold held cell at hn ⊢
    rw [List.getElem?_append] at hn ⊢
    split
    · next hi =>
      rw [if_pos hi] at hn
      exact hn
    · next hi =>
      rw [if_neg hi] at hn
      obtain ⟨a, ha⟩ := Option.isSome_iff_exists.mp hn
      obtain ⟨b, hb, -⟩ := hjoined.raises.bound (i - top.length) n a ha
      exact Option.isSome_iff_exists.mpr ⟨b, hb⟩

theorem exit {e : Environment} {s : Scope} (hs : scopes ≠ [])
    (h : Persists (s :: scopes) e.scopes) : Persists scopes e.exit.2.scopes := by
  have hlen := h.height
  have hpos := List.length_pos_of_ne_nil hs
  rw [List.length_cons] at hlen
  rw [Environment.exit_scopes (by omega)]
  refine ⟨by rw [List.length_tail, hlen, Nat.add_sub_cancel], fun i n hn => ?_⟩
  have hbound := h.bound (i + 1) n hn
  unfold held at hbound ⊢
  rwa [cell_tail]

end Persists
end Environment

namespace Analysis

open Environment (Alike Persists Within)

/-- The step leaves the scopes open and what is bound bound. -/
def Persistent {α : Type} (m : M α) : Prop :=
  ∀ ⦃s s' : State⦄ ⦃a : α⦄, s.env.scopes ≠ [] → Succeeds m s a s' →
    Persists s.env.scopes s'.env.scopes

section Persistent
variable {α β : Type}

theorem Quiet.persistent {m : M α} (h : Quiet m) : Persistent m := by
  intro s s' a _ hm
  rw [(h.of_succeeds hm).1]
  exact .refl _

theorem Persistent.bind {x : M α} {f : α → M β} (hx : Persistent x) (hf : ∀ a, Persistent (f a)) :
    Persistent (x >>= f) := by
  intro s s' b hs hm
  obtain ⟨a, t, hxa, hfb⟩ := succeeds_bind.mp hm
  have ht := hx hs hxa
  exact ht.trans (hf a (ht.ne_nil hs) hfb)

theorem Persistent.update {f : State → State} (h : ∀ s, (f s).env = s.env) :
    Persistent (modify f : M PUnit) := by
  intro s s' u _ hm
  rw [← succeeds_modify.mp hm, h]
  exact .refl _

theorem bind_persistent (name : Bytes) (a : Atom) : Persistent (bind name a) := by
  intro s s' u _ hm
  obtain ⟨env, hb, rfl⟩ := succeeds_bindName.mp hm
  unfold Environment.bind at hb
  cases hr : Environment.bindIn name a s.env.scopes with
  | error f => rw [hr] at hb; cases hb
  | ok scopes =>
    rw [hr] at hb
    cases hb
    obtain ⟨i, slot, -, -, -, hset⟩ := Environment.bindIn_eq_ok hr
    exact .of_sets hset (.inl rfl)

theorem introduce_persistent (d : Decl) : Persistent (introduce d) := by
  intro s s' u _ hm
  obtain ⟨env, hd, rfl⟩ := succeeds_introduce.mp hm
  unfold Environment.declare at hd
  split at hd
  · next here rest hscopes =>
    split at hd
    · cases hd
    · next hnew =>
      cases hd
      have hlook : here.lookup d.name = none := Option.not_isSome_iff_eq_none.mp hnew
      rw [hscopes]
      refine .of_sets (sets_append hlook) (.inr ?_)
      simp [Environment.held, hlook]
  · cases hd

theorem joinIn_persistent (other : Environment) : Persistent (joinIn other) := by
  intro s s' changed _ hm
  obtain ⟨env, hj, rfl⟩ := succeeds_joinIn.mp hm
  exact .of_join hj

theorem settle_persistent (after : Environment) : Persistent (settle after) := by
  intro s s' stable _ hm
  rcases succeeds_settle.mp hm with ⟨-, -, rfl⟩ | ⟨-, env, hj, rfl⟩
  · exact .refl _
  · exact .of_join hj

theorem within_persistent {m : M Unit} (h : Persistent m) : Persistent (within m) := by
  intro s s' u hs hm
  obtain ⟨t, ht, rfl⟩ := succeeds_within.mp hm
  exact Persists.exit hs (h (List.cons_ne_nil _ _) ht)

/-- A branch leaves the environment alone, and what it hands back has come out of it. -/
theorem branch_persistent {m : M Unit} (hbal : Balanced m) (h : Persistent m) {s s' : State}
    {fork : Environment} (hs : s.env.scopes ≠ []) (hm : Succeeds (branch m) s fork s') :
    s'.env = s.env ∧ Persists s.env.scopes fork.scopes := by
  obtain ⟨t, ht, rfl, rfl⟩ := branch_succeeds hbal hm
  exact ⟨rfl, h (s := { s with env := s.env.fork }) hs ht⟩

theorem rounds_persistent {config : Config} {span : Span} {c : Cond} {body : M Unit}
    (hbal : Balanced body) (h : Persistent body) (left number : Nat) :
    Persistent (rounds config span c body left number) := by
  induction left generalizing number with
  | zero => exact (Quiet.throw _).persistent
  | succ left ih =>
    intro s s' u hs hm
    obtain ⟨verdict, s₁, after, s₂, stable, s₃, hcond, hbranch, hsettle, hrest⟩ :=
      rounds_succeeds hm
    have henv₁ := ((cond_quiet config c).of_succeeds hcond).1
    have henv₂ := (branch_persistent hbal h (henv₁ ▸ hs) hbranch).1.trans henv₁
    have hhead := settle_persistent after (henv₂ ▸ hs) hsettle
    rw [henv₂] at hhead
    cases stable with
    | true =>
      obtain rfl : s' = _ := hrest
      exact hhead
    | false =>
      rw [if_neg nofun] at hrest
      have hnext := fun hopen => ih (number + 1) hopen hrest
      exact hhead.trans (hnext (hhead.ne_nil hs))

mutual

/-- A statement leaves the scopes open and what is bound bound. -/
theorem stmt_persistent (config : Config) : (s : Stmt) → Persistent (stmt config s)
  | .assign name value s => by
    simp only [stmt]
    exact .bind (expr_quiet config value).persistent fun v => bind_persistent name v
  | .print value s => by
    simp only [stmt]
    refine .bind (expr_quiet config value).persistent fun v => ?_
    exact .bind (.update fun _ => rfl) fun _ => .update fun _ => rfl
  | .block body s => by
    simp only [stmt]
    exact within_persistent (items_persistent config body)
  | .ite c yes none s => by
    simp only [stmt]
    refine .bind (cond_quiet config c).persistent fun v => .bind (.update fun _ => rfl) fun _ => ?_
    refine .bind (fun _ _ _ hs hm => ?_) fun inYes => ?_
    · rw [(branch_persistent (stmt_balanced config yes) (stmt_persistent config yes) hs hm).1]
      exact .refl _
    · exact .bind (joinIn_persistent inYes) fun _ => (Quiet.pure _).persistent
  | .ite c yes (some no) s => by
    simp only [stmt]
    refine .bind (cond_quiet config c).persistent fun v => .bind (.update fun _ => rfl) fun _ => ?_
    intro st st' u hst hm
    obtain ⟨inYes, st₁, hyes, hm⟩ := succeeds_bind.mp hm
    obtain ⟨inNo, st₂, hno, hm⟩ := succeeds_bind.mp hm
    obtain ⟨changed, joined, hj, rfl⟩ := succeeds_adopt.mp hm
    have hpersists :=
      branch_persistent (stmt_balanced config yes) (stmt_persistent config yes) hst hyes
    have hjoined : Persists inYes.scopes joined.scopes := .of_join hj
    exact hpersists.2.trans hjoined
  | .loop c body s => by
    simp only [stmt]
    refine .bind Quiet.get.persistent fun st => ?_
    exact rounds_persistent (stmt_balanced config body) (stmt_persistent config body) _ 1

theorem item_persistent (config : Config) : (u : Item) → Persistent (item config u)
  | .decl d => by
    simp only [item, decl_eq]
    refine .bind (introduce_persistent d) fun _ => ?_
    cases d.init with
    | none => exact (Quiet.pure _).persistent
    | some e => exact .bind (expr_quiet config e).persistent fun v => bind_persistent d.name v
  | .stmt s => by
    simp only [item]
    exact stmt_persistent config s

theorem items_persistent (config : Config) : (us : List Item) → Persistent (items config us)
  | [] => by
    simp only [items]
    exact (Quiet.pure _).persistent
  | u :: rest => by
    simp only [items]
    exact .bind (item_persistent config u) fun _ => items_persistent config rest

end
end Persistent

section Loop
variable {config : Config} {span : Span} {c : Cond} {body : Stmt}

/-- Whether a state is settled depends on its scopes only. -/
theorem Settled.congr {head s : State} (h : Settled config c (stmt config body) head)
    (henv : s.env.scopes = head.env.scopes) (hhead : ReadsTop head.reads) (hs : ReadsTop s.reads) :
    Settled config c (stmt config body) s := by
  obtain ⟨verdict, t₁, after, t₂, hcond, hbranch, hjoin⟩ := h
  obtain ⟨s₁, after', s₂, hcond', hbranch', hafter, -⟩ := round_again henv hhead hs hcond hbranch
  refine ⟨verdict, s₁, after', s₂, hcond', hbranch', ?_⟩
  rw [Environment.join_congr henv hafter, hjoin, ← henv]

/-- The body keeps a state that one more round leaves as it is. -/
theorem Settled.kept {s : State} (h : Settled config c (stmt config body) s)
    (hopen : s.env.scopes ≠ []) (hs : ReadsTop s.reads) :
    ∃ s₁, Succeeds (stmt config body) s () s₁ ∧ Within s₁.env.scopes s.env.scopes := by
  obtain ⟨verdict, t₁, after, t₂, hcond, hbranch, hjoin⟩ := h
  have henv₁ := ((cond_quiet config c).of_succeeds hcond).1
  have hreads₁ := (cond_mirrors respected_eq c).reads hs hcond
  obtain ⟨t, ht, rfl, -⟩ := branch_succeeds (stmt_balanced config body) hbranch
  -- the body runs on the state as it did on the fork
  have hpar : Parallel Eq s { t₁ with env := t₁.env.fork } := by
    refine ⟨alike_eq.mpr ?_, hs, hreads₁⟩
    rw [← henv₁]
    rfl
  obtain ⟨_, s₁, hbody, -, hpar₁⟩ := (stmt_lockstep body).run hpar ht
  have heq := alike_eq.mp hpar₁.env
  have hpersists := stmt_persistent config body hopen hbody
  refine ⟨s₁, hbody, fun i n a ha => ?_⟩
  obtain ⟨b, hb⟩ := Option.isSome_iff_exists.mp (hpersists.bound i n (by simp [ha]))
  obtain ⟨hjoined, -⟩ := Environment.join_joined (by rw [← heq]; exact hpersists.height.symm) hjoin
  obtain ⟨a', ha', hle⟩ := hjoined.covers (heq ▸ hb) (by simp [ha])
  obtain rfl : a = a' := by simpa [ha] using ha'
  exact ⟨b, hb, hle⟩

/-- A loop entered in a state that one more round leaves as it is takes one round. -/
theorem Settled.again {s : State} (h : Settled config c (stmt config body) s)
    (hs : Alike Atom.Below s.env.scopes s.env.scopes) :
    ∃ s₁ verdict, Succeeds (stmt config (.loop c body span)) s () s₁ ∧ s₁.env = s.env ∧
      s₁.trace.back? = some (.round span c 1 verdict true) := by
  obtain ⟨verdict, t₁, after, t₂, hcond, hbranch, hjoin⟩ := h
  have henv₁ := ((cond_quiet config c).of_succeeds hcond).1
  obtain ⟨t, -, rfl, rfl⟩ := branch_succeeds (stmt_balanced config body) hbranch
  obtain ⟨left, hleft⟩ : ∃ left, roundLimit config s.env = left + 1 := by
    refine Nat.exists_eq_add_one.mpr ?_
    unfold roundLimit
    split <;> omega
  have hsettle : Succeeds (settle ⟨t.env.scopes, []⟩) { t with env := t₁.env } true
      { t with env := s.env } := by
    rw [henv₁]
    exact (succeeds_settle_iff (s := { t with env := s.env }) hs).mpr ⟨s.env, hjoin, rfl⟩
  refine ⟨{ t with env := s.env, trace := t.trace.push (.round span c 1 verdict true) },
    verdict, ?_, rfl, Array.back?_push⟩
  simp only [stmt, succeeds_get_bind, hleft]
  exact run_round hcond hbranch hsettle

/-- The heads of a loop stay below every state above the first that the body keeps. -/
theorem rounds_least {s s' y y' : State} {u : Unit} {left number : Nat}
    (hs : Parallel Atom.Below s y) (hy : Succeeds (stmt config body) y () y')
    (hkept : y.env.join ⟨y'.env.scopes, []⟩ = (.ok false, y.env))
    (h : Succeeds (rounds config span c (stmt config body) left number) s u s') :
    Alike Atom.Below s'.env.scopes y.env.scopes := by
  have hbal := stmt_balanced config body
  induction left generalizing number s with
  | zero => exact (succeeds_throw.mp h).elim
  | succ left ih =>
    obtain ⟨verdict, s₁, after, s₂, stable, s₃, hcond, hbranch, hsettle, hrest⟩ := rounds_succeeds h
    have henv₁ := ((cond_quiet config c).of_succeeds hcond).1
    have hreads₁ := (cond_mirrors respected_eq c).reads hs.reads hcond
    obtain ⟨t, ht, rfl, rfl⟩ := branch_succeeds hbal hbranch
    have hfork : Parallel Atom.Below { s₁ with env := s₁.env.fork } y := by
      refine ⟨?_, hreads₁, hs.reads'⟩
      change Alike Atom.Below s₁.env.scopes y.env.scopes
      rw [henv₁]
      exact hs.env
    -- the body made no more of the head than of the state above
    rcases (stmt_mirrors respected_below (loops_below config) body).follow hfork hy with
      ⟨_, t', ht', -, hpar⟩ | ⟨e, t', ht', -⟩
    · obtain ⟨-, rfl⟩ := ht.unique ht'
      obtain ⟨stable', env, hsettle', hbelow, -⟩ :=
        settle_below (s := { t with env := s₁.env }) (henv₁ ▸ hs.env) hpar.env hkept
      obtain ⟨rfl, rfl⟩ := hsettle'.unique hsettle
      cases stable' with
      | true =>
        obtain rfl : s' = _ := hrest
        exact hbelow
      | false =>
        rw [if_neg nofun] at hrest
        have hnext := fun hpar => ih hpar hrest
        exact hnext ⟨hbelow, hpar.reads, hs.reads'⟩
    · rw [ht] at ht'
      cases ht'

/-- A loop computes the least state above the one it is entered in that its body keeps. Its
exit is of the shape of its entry, with the same variables bound, and lies above it. From the
exit the body runs to values below it, and the loop takes one round and changes nothing. And
the exit lies below every state above the entry from which the body runs to values below. -/
theorem loop_is_least {st st' : State} (hst : st.env.Proper) (hreads : ReadsTop st.reads)
    (h : Succeeds (stmt config (.loop c body span)) st () st') :
    Alike Atom.Below st.env.scopes st'.env.scopes ∧
    (∀ s, s.env.scopes = st'.env.scopes → ReadsTop s.reads →
      (∃ s₁, Succeeds (stmt config body) s () s₁ ∧ Within s₁.env.scopes s.env.scopes) ∧
      ∃ s₁ verdict, Succeeds (stmt config (.loop c body span)) s () s₁ ∧ s₁.env = s.env ∧
        s₁.trace.back? = some (.round span c 1 verdict true)) ∧
    ∀ y y', Alike Atom.Below st.env.scopes y.env.scopes → ReadsTop y.reads →
      Succeeds (stmt config body) y () y' → Within y'.env.scopes y.env.scopes →
      Alike Atom.Below st'.env.scopes y.env.scopes := by
  simp only [stmt, succeeds_get_bind] at h
  obtain ⟨head, hhead, hr, henv, hup, -⟩ := rounds_settled (stmt_balanced config body)
    (stmt_lockstep body) hst.alike hreads h
  refine ⟨hup, fun s hs hsr => ?_, fun y y' hy hyr hbody hwithin => ?_⟩
  · have hsettled := hhead.congr (hs.trans (by rw [henv])) hr hsr
    have hproper : s.env.Proper := Alike.proper (hs ▸ hup) hst
    exact ⟨hsettled.kept hproper.opened hsr, hsettled.again hproper.alike⟩
  · have hproper := hy.proper hst
    have hheight := (stmt_persistent config body hproper.opened hbody).height
    exact rounds_least ⟨hy, hreads, hyr⟩ hbody
      (Environment.join_within (o := ⟨y'.env.scopes, []⟩) hproper hheight hwithin) h

end Loop

namespace Descent

/-- From a positive `x` the loop ends with nothing known of `x`; that is what the body keeps, and
no state above the entry is lower. -/
theorem loop_least : (state .pos).env.Proper ∧ ∃ st',
    Succeeds (stmt ⟨0, false⟩ loop) (state .pos) () st' ∧
    Alike Atom.Below (state .pos).env.scopes st'.env.scopes ∧
    ∃ s₁ verdict, Succeeds (stmt ⟨0, false⟩ loop) (state .any) () s₁ ∧ s₁.env = (state .any).env ∧
      s₁.trace.back? = some (.round (.inRow 0 11 38) (.compare .gt (.readInt (.inRow 0 18 25))
        (.int 0 (.inRow 0 28 29)) (.inRow 0 18 29)) 1 verdict true) := by
  have hproper : (state .pos).env.Proper := by
    refine ⟨nofun, by decide, ?_⟩
    decide
  have hrun : Succeeds (stmt ⟨0, false⟩ loop) (state .pos) ()
      ((stmt ⟨0, false⟩ loop).run.run (state .pos)).2 := Prod.ext (by decide +kernel) rfl
  have hleast := loop_is_least hproper nofun hrun
  exact ⟨hproper, _, hrun, hleast.1, (hleast.2.1 (state .any) (by decide +kernel) nofun).2⟩

end Descent
end Analysis
end Signum
