import Signum.Proofs.Analysis.Alike
import Signum.Proofs.Analysis.Safety
/- Two runs of an analysis side by side.

   Two states are `Parallel` when their environments are alike and their reads say nothing.
   A step `Mirrors` another when, from parallel states, it does what the other does: if the
   other succeeds, so does the step, with a related value and again in parallel, unless it
   stops in a way that is allowed. The rules below carry this through every construct but
   loops. Two runs of a loop need not take the same number of rounds, so what becomes of
   loops is left to a hypothesis of `stmt_mirrors`. -/
namespace Signum.Analysis

open Environment (Alike)

/-- States with environments that are alike, whose reads say nothing beyond their types. -/
structure Parallel (le : Atom → Atom → Prop) (st st' : State) : Prop where
  env : Alike le st.env.scopes st'.env.scopes
  reads : ReadsTop st.reads
  reads' : ReadsTop st'.reads

/-- From parallel states, the first step succeeds when the second does, with a related value
and in a parallel state, or stops in a way that is allowed. -/
structure Mirrors {α : Type} (le : Atom → Atom → Prop) (stop : Halt → Prop) (R : α → α → Prop)
    (m m' : M α) : Prop where
  follow : ∀ {st st' a' st₁'}, Parallel le st st' → Succeeds m' st' a' st₁' →
    (∃ a st₁, Succeeds m st a st₁ ∧ R a a' ∧ Parallel le st₁ st₁') ∨
      ∃ e st₁, m.run.run st = (.error e, st₁) ∧ stop e

/-- Any two values of a step without one of interest. -/
def Anyhow {α : Type} (_ _ : α) : Prop := True

namespace Mirrors
variable {α β : Type} {le : Atom → Atom → Prop} {stop : Halt → Prop} {R : α → α → Prop}

theorem of_succeeds {m m' : M α} (h : ∀ ⦃st st' a' st₁'⦄, Parallel le st st' →
    Succeeds m' st' a' st₁' → ∃ a st₁, Succeeds m st a st₁ ∧ R a a' ∧ Parallel le st₁ st₁') :
    Mirrors le stop R m m' :=
  ⟨fun hst hm' => .inl (h hst hm')⟩

theorem pure {a a' : α} (h : R a a') : Mirrors le stop R (Pure.pure a) (Pure.pure a') := by
  refine of_succeeds fun st st' b' st₁' hst hm' => ?_
  obtain ⟨rfl, rfl⟩ := succeeds_pure.mp hm'
  exact ⟨a, st, succeeds_pure.mpr ⟨rfl, rfl⟩, h, hst⟩

theorem throw {R : α → α → Prop} {m : M α} {e : Halt} : Mirrors le stop R m (MonadExcept.throw e) :=
  ⟨fun _ hm' => (succeeds_throw.mp hm').elim⟩

theorem bind {S : β → β → Prop} {x x' : M α} {f f' : α → M β} (hx : Mirrors le stop R x x')
    (hf : ∀ a a', R a a' → Mirrors le stop S (f a) (f' a')) :
    Mirrors le stop S (x >>= f) (x' >>= f') := by
  refine ⟨fun {st st' b' st₂'} hst hm' => ?_⟩
  obtain ⟨a', st₁', hx', hf'⟩ := succeeds_bind.mp hm'
  rcases hx.follow hst hx' with ⟨a, st₁, hxa, haa, hst₁⟩ | ⟨e, st₁, hxe, he⟩
  · rcases (hf a a' haa).follow hst₁ hf' with ⟨b, st₂, hfb, hbb, hst₂⟩ | ⟨e, st₂, hfe, he⟩
    · exact .inl ⟨b, st₂, succeeds_bind.mpr ⟨a, st₁, hxa, hfb⟩, hbb, hst₂⟩
    · refine .inr ⟨e, st₂, ?_, he⟩
      rw [run_bind, hxa]
      exact hfe
  · refine .inr ⟨e, st₁, ?_, he⟩
    rw [run_bind, hxe]

/-- A step that leaves the environment and the reads alone. -/
theorem update {f f' : State → State} (henv : ∀ s, (f s).env = s.env)
    (henv' : ∀ s, (f' s).env = s.env) (hreads : ∀ s, (f s).reads = s.reads)
    (hreads' : ∀ s, (f' s).reads = s.reads) :
    Mirrors le stop Anyhow (modify f : M PUnit) (modify f') := by
  refine of_succeeds fun st st' u st₁' hst hm' => ?_
  obtain rfl := succeeds_modify.mp hm'
  refine ⟨⟨⟩, f st, succeeds_modify.mpr rfl, trivial, ?_, ?_, ?_⟩
  · rw [henv, henv']
    exact hst.env
  · rw [hreads]
    exact hst.reads
  · rw [hreads']
    exact hst.reads'

theorem report (e e' : Event) : Mirrors le stop Anyhow (report e) (report e') :=
  .update (fun _ => rfl) (fun _ => rfl) (fun _ => rfl) fun _ => rfl

theorem ofSign {r r' : Except SignFault α} (h : ∀ c', r' = .ok c' → ∃ c, r = .ok c ∧ R c c') :
    Mirrors le stop R (ofSign r) (ofSign r') := by
  refine of_succeeds fun st st' c' st₁' hst hm' => ?_
  obtain ⟨hr', rfl⟩ := succeeds_ofSign.mp hm'
  obtain ⟨c, hr, hc⟩ := h c' hr'
  exact ⟨c, st, succeeds_ofSign.mpr ⟨hr, rfl⟩, hc, hst⟩

theorem within {m m' : M Unit} (h : Mirrors le stop Anyhow m m') :
    Mirrors le stop Anyhow (within m) (within m') := by
  refine ⟨fun {st st' u st₁'} hst hm' => ?_⟩
  obtain ⟨t', ht', rfl⟩ := succeeds_within.mp hm'
  have hopen : Parallel le { st with env := st.env.enter } { st' with env := st'.env.enter } :=
    ⟨.cons .nil hst.env, hst.reads, hst.reads'⟩
  rcases h.follow hopen ht' with ⟨u, t, ht, -, hpar⟩ | ⟨e, t, ht, he⟩
  · refine .inl ⟨(), _, succeeds_within.mpr ⟨t, ht, rfl⟩, trivial, ?_, hpar.reads, hpar.reads'⟩
    exact Environment.exit_alike hpar.env
  · refine .inr ⟨e, { t with env := t.env.exit.2 }, ?_, he⟩
    rw [run_within, ht]

theorem branch {m m' : M Unit} (hb : Balanced m) (hb' : Balanced m')
    (h : Mirrors le stop Anyhow m m') :
    Mirrors le stop (fun e e' => Alike le e.scopes e'.scopes) (branch m) (branch m') := by
  refine ⟨fun {st st' fork' st₁'} hst hm' => ?_⟩
  obtain ⟨t', ht', rfl, rfl⟩ := branch_succeeds hb' hm'
  have hfork : Parallel le { st with env := st.env.fork } { st' with env := st'.env.fork } :=
    ⟨hst.env, hst.reads, hst.reads'⟩
  rcases h.follow hfork ht' with ⟨u, t, ht, -, hpar⟩ | ⟨e, t, ht, he⟩
  · refine .inl ⟨⟨t.env.scopes, []⟩, { t with env := st.env }, ?_, hpar.env, hst.env, hpar.reads,
      hpar.reads'⟩
    unfold Succeeds at ht ⊢
    rw [run_branch_balanced hb, ht]
    rfl
  · refine .inr ?_
    rw [run_branch_balanced hb, ht]
    cases e with
    | failed kind span => exact ⟨_, _, rfl, he⟩
    | fault f => exact ⟨_, _, rfl, he⟩

end Mirrors

section Steps
variable {le : Atom → Atom → Prop} {stop : Halt → Prop} {config : Config}

theorem bind_mirrors (hle : Respected le) {a a' : Atom} (ha : le a a') (name : Bytes) :
    Mirrors le stop Anyhow (bind name a) (bind name a') := by
  refine .of_succeeds fun st st' u st₁' hst hm' => ?_
  obtain ⟨env', hb', rfl⟩ := succeeds_bindName.mp hm'
  obtain ⟨env, hb, halike⟩ := Environment.bind_alike hle ha hst.env hb'
  exact ⟨(), _, succeeds_bindName.mpr ⟨env, hb, rfl⟩, trivial, halike, hst.reads, hst.reads'⟩

theorem introduce_mirrors (d : Decl) : Mirrors le stop Anyhow (introduce d) (introduce d) := by
  refine .of_succeeds fun st st' u st₁' hst hm' => ?_
  obtain ⟨env', hd', rfl⟩ := succeeds_introduce.mp hm'
  obtain ⟨env, hd, halike⟩ := Environment.declare_alike hst.env hd'
  exact ⟨(), _, succeeds_introduce.mpr ⟨env, hd, rfl⟩, trivial, halike, hst.reads, hst.reads'⟩

theorem joinIn_mirrors (hle : Respected le) {o o' : Environment}
    (ho : Alike le o.scopes o'.scopes) : Mirrors le stop Anyhow (joinIn o) (joinIn o') := by
  refine .of_succeeds fun st st' c' st₁' hst hm' => ?_
  obtain ⟨env', hj', rfl⟩ := succeeds_joinIn.mp hm'
  obtain ⟨changed, env, hj, halike⟩ := Environment.join_alike hle hst.env ho hj'
  exact ⟨changed, _, succeeds_joinIn.mpr ⟨env, hj, rfl⟩, trivial, halike, hst.reads, hst.reads'⟩

theorem adopt_mirrors (hle : Respected le) {yes yes' no no' : Environment}
    (hyes : Alike le yes.scopes yes'.scopes) (hno : Alike le no.scopes no'.scopes) :
    Mirrors le stop Anyhow (adopt yes no) (adopt yes' no') := by
  refine .of_succeeds fun st st' u st₁' hst hm' => ?_
  obtain ⟨changed', joined', hj', rfl⟩ := succeeds_adopt.mp hm'
  obtain ⟨changed, joined, hj, halike⟩ := Environment.join_alike hle hyes hno hj'
  exact ⟨(), _, succeeds_adopt.mpr ⟨changed, joined, hj, rfl⟩, trivial, halike, hst.reads,
    hst.reads'⟩

theorem read_mirrors (hle : Respected le) (t : NumType) (span : Span) :
    Mirrors le stop le (read config t span) (read config t span) := by
  refine .of_succeeds fun st st' a' st₁' hst hm' => ?_
  obtain ⟨s, hs, henv, hreads⟩ := read_top config t span hst.reads
  obtain ⟨s', hs', henv', hreads'⟩ := read_top config t span hst.reads'
  obtain ⟨rfl, rfl⟩ := hs'.unique hm'
  refine ⟨topOf t, s, hs, ?_, ?_, hreads, hreads'⟩
  · cases t
    · exact hle.signed .int .any
    · exact hle.signed .float .any
  · rw [henv, henv']
    exact hst.env

theorem expr_mirrors (hle : Respected le) (e : Expr) :
    Mirrors le stop le (expr config e) (expr config e) := by
  induction e with
  | int v s => exact .pure (hle.signed .int _)
  | float v text s =>
    refine .pure ?_
    cases v <;> exact hle.signed .float _
  | readInt s => exact read_mirrors hle .int s
  | readFloat s => exact read_mirrors hle .float s
  | var name s =>
    refine .of_succeeds fun st st' a' st₁' hst hm' => ?_
    simp only [expr, succeeds_get_bind] at hm' ⊢
    have hlook := Environment.lookup?_alike hst.env name
    generalize st.env.lookup? name = x at hlook
    generalize st'.env.lookup? name = y at hlook hm'
    cases hlook with
    | none => exact (succeeds_throw.mp hm').elim
    | @some a b hab =>
      obtain ⟨rfl, rfl⟩ := succeeds_pure.mp hm'
      exact ⟨a, st, succeeds_pure.mpr ⟨rfl, rfl⟩, hab, hst⟩
  | neg e s ih => exact .bind ih fun a a' ha => .ofSign fun c' hc' => hle.neg ha hc'
  | binary op l r s ihl ihr =>
    refine .bind ihl fun a a' ha => .bind ihr fun b b' hb => ?_
    refine .of_succeeds fun st st' v' st₁' hst hm' => ?_
    obtain ⟨c', t', hc', hm'⟩ := succeeds_bind.mp hm'
    obtain ⟨hop', rfl⟩ := succeeds_ofSign.mp hc'
    split at hm'
    · exact (succeeds_throw.mp hm').elim
    · next hne =>
      obtain ⟨rfl, rfl⟩ := succeeds_pure.mp hm'
      obtain ⟨c, hop, hlegal, hcc⟩ := hle.binary op ha hb hop' hne
      refine ⟨c, st, succeeds_bind.mpr ⟨c, st, succeeds_ofSign.mpr ⟨hop, rfl⟩, ?_⟩, hcc, hst⟩
      rw [if_neg hlegal]
      exact succeeds_pure.mpr ⟨rfl, rfl⟩

theorem cond_mirrors (hle : Respected le) (c : Cond) :
    Mirrors le stop le (cond config c) (cond config c) := by
  induction c with
  | compare op l r s =>
    refine .bind (expr_mirrors hle l) fun a a' ha => .bind (expr_mirrors hle r) fun b b' hb => ?_
    exact .ofSign fun c' hc' => hle.compare op ha hb hc'
  | logical op l r s ihl ihr =>
    refine .bind ihl fun a a' ha => .bind ihr fun b b' hb => ?_
    exact .ofSign fun c' hc' => hle.logical op ha hb hc'
  | not c s ih => exact .bind ih fun a a' ha => .ofSign fun c' hc' => hle.not ha hc'

theorem decl_mirrors (hle : Respected le) (d : Decl) :
    Mirrors le stop Anyhow (decl config d) (decl config d) := by
  rw [decl_eq]
  refine .bind (introduce_mirrors d) fun _ _ _ => ?_
  cases d.init with
  | none => exact .pure trivial
  | some e => exact .bind (expr_mirrors hle e) fun a a' ha => bind_mirrors hle ha d.name

theorem branch_mirrors {s : Stmt} (h : Mirrors le stop Anyhow (stmt config s) (stmt config s)) :
    Mirrors le stop (fun e e' => Alike le e.scopes e'.scopes) (branch (stmt config s))
      (branch (stmt config s)) :=
  .branch (stmt_balanced config s) (stmt_balanced config s) h

end Steps

/-- A loop mirrors itself when its body does. -/
def LoopsMirror (le : Atom → Atom → Prop) (stop : Halt → Prop) (config : Config) : Prop :=
  ∀ c body span, Mirrors le stop Anyhow (stmt config body) (stmt config body) →
    Mirrors le stop Anyhow (stmt config (.loop c body span)) (stmt config (.loop c body span))

section Statements
variable {le : Atom → Atom → Prop} {stop : Halt → Prop} {config : Config}

mutual

/-- A statement mirrors itself, when loops do whose bodies do. -/
theorem stmt_mirrors (hle : Respected le) (hloop : LoopsMirror le stop config) :
    (s : Stmt) → Mirrors le stop Anyhow (stmt config s) (stmt config s)
  | .assign name value s => by
    simp only [stmt]
    exact .bind (expr_mirrors hle value) fun a a' ha => bind_mirrors hle ha name
  | .print value s => by
    simp only [stmt]
    refine .bind (expr_mirrors hle value) fun a a' _ => .bind (.report _ _) fun _ _ _ => ?_
    exact .update (fun _ => rfl) (fun _ => rfl) (fun _ => rfl) fun _ => rfl
  | .block body s => by
    simp only [stmt]
    exact .within (items_mirrors hle hloop body)
  | .ite c yes none s => by
    simp only [stmt]
    refine .bind (cond_mirrors hle c) fun v v' _ => .bind (.report _ _) fun _ _ _ => ?_
    refine .bind (branch_mirrors (stmt_mirrors hle hloop yes)) fun inYes inYes' hyes => ?_
    exact .bind (joinIn_mirrors hle hyes) fun _ _ _ => .pure trivial
  | .ite c yes (some no) s => by
    simp only [stmt]
    refine .bind (cond_mirrors hle c) fun v v' _ => .bind (.report _ _) fun _ _ _ => ?_
    refine .bind (branch_mirrors (stmt_mirrors hle hloop yes)) fun inYes inYes' hyes => ?_
    refine .bind (branch_mirrors (stmt_mirrors hle hloop no)) fun inNo inNo' hno => ?_
    exact adopt_mirrors hle hyes hno
  | .loop c body s => hloop c body s (stmt_mirrors hle hloop body)

theorem item_mirrors (hle : Respected le) (hloop : LoopsMirror le stop config) :
    (u : Item) → Mirrors le stop Anyhow (item config u) (item config u)
  | .decl d => by
    simp only [item]
    exact decl_mirrors hle d
  | .stmt s => by
    simp only [item]
    exact stmt_mirrors hle hloop s

theorem items_mirrors (hle : Respected le) (hloop : LoopsMirror le stop config) :
    (us : List Item) → Mirrors le stop Anyhow (items config us) (items config us)
  | [] => by
    simp only [items]
    exact .pure trivial
  | u :: rest => by
    simp only [items]
    exact .bind (item_mirrors hle hloop u) fun _ _ _ => items_mirrors hle hloop rest

end

end Statements

/-! Two runs from the same scopes go the same way, round by round. -/

theorem alike_eq {scopes scopes' : List Scope} : Alike Eq scopes scopes' ↔ scopes = scopes' := by
  have hslot (slot slot' : Slot) : slot.Alike Eq slot' ↔ slot = slot' := by
    obtain ⟨d, v⟩ := slot
    obtain ⟨d', v'⟩ := slot'
    constructor
    · rintro ⟨rfl, hv⟩
      cases hv with
      | none => rfl
      | some h => rw [h]
    · intro h
      cases h
      refine ⟨rfl, ?_⟩
      cases v with
      | none => exact .none
      | some a => exact .some rfl
  have hscope : (Environment.ScopeAlike Eq) = Eq := by
    unfold Environment.ScopeAlike
    simp only [hslot, ← Prod.ext_iff]
    exact List.forall₂_eq_eq_eq
  rw [Alike, hscope, List.forall₂_eq_eq_eq]

/-- No way to stop. -/
def Never (_ : Halt) : Prop := False

theorem Mirrors.run {α : Type} {le : Atom → Atom → Prop} {R : α → α → Prop} {m m' : M α}
    (h : Mirrors le Never R m m') {st st' st₁' : State} {a' : α} (hst : Parallel le st st')
    (hm' : Succeeds m' st' a' st₁') :
    ∃ a st₁, Succeeds m st a st₁ ∧ R a a' ∧ Parallel le st₁ st₁' :=
  (h.follow hst hm').resolve_right fun ⟨_, _, _, he⟩ => he

theorem Parallel.refl {st : State} (h : ReadsTop st.reads) : Parallel Eq st st :=
  ⟨alike_eq.mpr rfl, h, h⟩

/-- A step that mirrors itself leaves reads that say nothing. -/
theorem Mirrors.reads {α : Type} {R : α → α → Prop} {m : M α} (h : Mirrors Eq Never R m m)
    {st st' : State} {a : α} (hst : ReadsTop st.reads) (hm : Succeeds m st a st') :
    ReadsTop st'.reads := by
  obtain ⟨_, _, -, -, hpar⟩ := h.run (.refl hst) hm
  exact hpar.reads'

section Lockstep
variable {stop : Halt → Prop} {config : Config}

theorem settle_lockstep {after after' : Environment} (h : Alike Eq after.scopes after'.scopes) :
    Mirrors Eq stop Eq (settle after) (settle after') := by
  refine .of_succeeds fun st st' stable st₁' hst hm' => ?_
  have henv := alike_eq.mp hst.env
  have hafter := alike_eq.mp h
  have hid := Environment.identical_congr henv hafter
  rcases succeeds_settle.mp hm' with ⟨hid', rfl, rfl⟩ | ⟨hid', env', hj', rfl⟩
  · exact ⟨true, st, succeeds_settle.mpr (.inl ⟨hid.trans hid', rfl, rfl⟩), rfl, hst⟩
  · have hj : st.env.join after = (.ok !stable, { st.env with scopes := env'.scopes }) := by
      rw [Environment.join_congr henv hafter, hj']
    refine ⟨stable, _, succeeds_settle.mpr (.inr ⟨hid.trans hid', _, hj, rfl⟩), rfl, ?_⟩
    exact ⟨alike_eq.mpr rfl, hst.reads, hst.reads'⟩

theorem rounds_lockstep {span : Span} {c : Cond} {body : Stmt}
    (h : Mirrors Eq stop Anyhow (stmt config body) (stmt config body)) (left number : Nat) :
    Mirrors Eq stop Anyhow (rounds config span c (stmt config body) left number)
      (rounds config span c (stmt config body) left number) := by
  induction left generalizing number with
  | zero => exact .throw
  | succ left ih =>
    rw [rounds_succ]
    refine .bind (cond_mirrors respected_eq c) fun verdict verdict' _ => ?_
    refine .bind (branch_mirrors h) fun after after' hafter => ?_
    refine .bind (settle_lockstep hafter) fun stable _ heq => ?_
    subst heq
    refine .bind (.report _ _) fun _ _ _ => ?_
    cases stable with
    | true => exact .pure trivial
    | false => exact ih (number + 1)

theorem loops_lockstep : LoopsMirror Eq stop config := by
  refine fun c body span h => ⟨fun {st st' u st₁'} hst hm' => ?_⟩
  have hlimit : roundLimit config st.env = roundLimit config st'.env := by
    unfold roundLimit Environment.slack
    rw [alike_eq.mp hst.env]
  simp only [stmt, succeeds_get_bind] at hm'
  have hrun : (stmt config (.loop c body span)).run.run st =
      (rounds config span c (stmt config body) (roundLimit config st'.env) 1).run.run st := by
    simp only [stmt, run_bind, run_get, hlimit]
  unfold Succeeds
  rw [hrun]
  exact (rounds_lockstep h _ 1).follow hst hm'

/-- What a statement does depends on the scopes only. -/
theorem stmt_lockstep (s : Stmt) : Mirrors Eq stop Anyhow (stmt config s) (stmt config s) :=
  stmt_mirrors respected_eq loops_lockstep s

end Lockstep
end Signum.Analysis
