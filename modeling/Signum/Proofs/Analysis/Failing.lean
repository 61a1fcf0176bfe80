import Signum.Proofs.Analysis.Parallel
import Signum.Proofs.Safety
/- What a failure leaves behind.

   A step `Fails` when it stops for a failure of the program. Binding, joining and adopting
   either succeed or end in a fault, so a failure comes from an expression or a condition,
   and these leave the environment alone. On its way out it undoes what stands around it: a
   branch goes back to the state it set aside, so an `if` leaves nothing of the branches it
   has run. Only the head of a loop has moved by then, by one join for each round that was
   completed (`HeadAfter`), and joins only raise (`Raised`). -/
namespace Signum

theorem forall₂_comp {α β γ : Type} {R : α → β → Prop} {S : β → γ → Prop} {T : α → γ → Prop}
    (hT : ∀ a b c, R a b → S b c → T a c) {xs : List α} {ys : List β} {zs : List γ}
    (h : List.Forall₂ R xs ys) (h' : List.Forall₂ S ys zs) : List.Forall₂ T xs zs := by
  induction h generalizing zs with
  | nil =>
    cases h'
    exact .nil
  | cons hxy _ ih =>
    cases h' with
    | cons hyz hrest => exact .cons (hT _ _ _ hxy hyz) (ih hrest)

theorem forall₂_trans {α : Type} {R : α → α → Prop} (hR : ∀ {a b c}, R a b → R b c → R a c)
    {xs ys zs : List α} (h : List.Forall₂ R xs ys) (h' : List.Forall₂ R ys zs) :
    List.Forall₂ R xs zs :=
  forall₂_comp (R := R) (S := R) (T := R) (fun _ _ _ => hR) h h'

theorem exists_of_mem_right {α β : Type} {R : α → β → Prop} {xs : List α} {ys : List β}
    (h : List.Forall₂ R xs ys) {y : β} (hy : y ∈ ys) : ∃ x ∈ xs, R x y := by
  induction h with
  | nil => cases hy
  | cons hxy _ ih =>
    rcases List.mem_cons.mp hy with rfl | hy
    · exact ⟨_, List.mem_cons_self, hxy⟩
    · obtain ⟨x, hx, hxy⟩ := ih hy
      exact ⟨x, List.mem_cons_of_mem _ hx, hxy⟩

namespace Environment

/-- Stacks of one shape with the same variables bound, each to what it was or to something
above. -/
def Raised : List Scope → List Scope → Prop := Alike fun a b => a.leq b = true

theorem Raised.refl (scopes : List Scope) : Raised scopes scopes := by
  refine List.forall₂_same.mpr fun s _ => List.forall₂_same.mpr fun p _ => ⟨rfl, rfl, ?_⟩
  cases p.2.value with
  | none => exact .none
  | some a => exact .some (Atom.leq_refl a)

theorem Raised.trans {scopes scopes' scopes'' : List Scope} (h : Raised scopes scopes')
    (h' : Raised scopes' scopes'') : Raised scopes scopes'' := by
  refine forall₂_trans (forall₂_trans ?_) h h'
  intro p q r hpq hqr
  refine ⟨hpq.1.trans hqr.1, hpq.2.domain.trans hqr.2.domain, ?_⟩
  have hv := hpq.2.value
  have hv' := hqr.2.value
  generalize p.2.value = x at hv
  generalize q.2.value = y at hv hv'
  generalize r.2.value = z at hv'
  cases hv with
  | none => exact hv'
  | some hab =>
    cases hv' with
    | some hbc => exact .some (Atom.leq_trans hab hbc)

theorem joinSlot_raised {mine out : Slot} {theirs : Option Slot}
    (h : mine.join theirs = .ok out) : mine.Alike (fun a b => a.leq b = true) out := by
  have hjoined := Slot.joined_of_ok h
  refine ⟨hjoined.domain.symm, ?_⟩
  have hbound := hjoined.bound
  cases hv : mine.value with
  | none =>
    rw [hv, Option.isSome_none, Option.isSome_eq_false_iff, Option.isNone_iff_eq_none] at hbound
    rw [hbound]
    exact .none
  | some a =>
    obtain ⟨b, hb, hab⟩ := hjoined.above a hv
    rw [hb]
    exact .some hab

theorem joinScope_raised (theirs mine : Scope) :
    ScopeAlike (fun a b => a.leq b = true) mine (joinScope theirs mine).1 := by
  induction mine with
  | nil => exact .nil
  | cons p rest ih =>
    obtain ⟨name, slot⟩ := p
    unfold joinScope
    cases hj : slot.join (theirs.lookup name) with
    | error f => exact List.forall₂_same.mp (Raised.refl [(name, slot) :: rest]) _ (by simp)
    | ok slot' => exact .cons ⟨rfl, joinSlot_raised hj⟩ ih

theorem joinScopes_raised (mine theirs : List Scope) :
    Raised mine (joinScopes mine theirs).1 := by
  induction mine generalizing theirs with
  | nil =>
    unfold joinScopes
    exact .nil
  | cons s ss ih =>
    cases theirs with
    | nil =>
      unfold joinScopes
      exact .refl _
    | cons t ts =>
      have hrest := ih ts
      unfold joinScopes
      generalize joinScopes ss ts = out at hrest
      obtain ⟨ss', outer⟩ := out
      cases outer with
      | error f => exact .cons (List.forall₂_same.mp (Raised.refl [s]) s (by simp)) hrest
      | ok outer => exact .cons (joinScope_raised t s) hrest

/-- A join only raises, whether or not it comes to its end. -/
theorem join_raised (e o : Environment) : Raised e.scopes (e.join o).2.scopes := by
  unfold join
  dsimp only
  generalize e.scopes.length - o.scopes.length = extra
  have hjoined := joinScopes_raised (e.scopes.drop extra)
    (o.scopes.drop (o.scopes.length - e.scopes.length))
  have htop := Raised.refl (e.scopes.take extra)
  have hall : Raised (e.scopes.take extra ++ e.scopes.drop extra) _ :=
    List.rel_append htop hjoined
  rw [List.take_append_drop] at hall
  exact hall

end Environment

namespace Analysis

open Environment (Raised)

/-- The step, taken in `s`, stops for a failure of the program and leaves `s'`. -/
def Fails {α : Type} (m : M α) (s : State) (kind : ErrorKind) (span : Span) (s' : State) : Prop :=
  m.run.run s = (.error (.failed kind span), s')

section Fails
variable {α β : Type} {s s' : State} {kind : ErrorKind} {span : Span}

theorem fails_pure {a : α} : Fails (pure a) s kind span s' ↔ False := by
  change ((Except.ok a : Except Halt α), s) = (.error _, s') ↔ _
  simp

theorem fails_fault {f : Fault} : Fails (throw (.fault f) : M α) s kind span s' ↔ False := by
  change ((Except.error (.fault f) : Except Halt α), s) = (.error _, s') ↔ _
  simp

theorem fails_modify {f : State → State} :
    Fails (modify f : M PUnit) s kind span s' ↔ False := by
  change ((Except.ok PUnit.unit : Except Halt PUnit), f s) = (.error _, s') ↔ _
  simp

theorem fails_bind {x : M α} {f : α → M β} : Fails (x >>= f) s kind span s' ↔
    Fails x s kind span s' ∨ ∃ a t, Succeeds x s a t ∧ Fails (f a) t kind span s' := by
  unfold Fails Succeeds
  rw [run_bind]
  constructor
  · intro h
    split at h
    · next a t hx => exact .inr ⟨a, t, hx, h⟩
    · next e t hx =>
      cases h
      exact .inl hx
  · intro h
    rcases h with hx | ⟨a, t, hx, hf⟩
    · rw [hx]
    · rw [hx]
      exact hf

theorem fails_get_bind {f : State → M β} :
    Fails (get >>= f) s kind span s' ↔ Fails (f s) s kind span s' := Iff.rfl

theorem fails_report {e : Event} : Fails (report e) s kind span s' ↔ False := fails_modify

theorem fails_ofSign {r : Except SignFault α} : Fails (ofSign r) s kind span s' ↔ False := by
  cases r with
  | ok a => exact fails_pure
  | error f => exact fails_fault

theorem fails_bindName {name : Bytes} {a : Atom} :
    Fails (bind name a) s kind span s' ↔ False := by
  unfold bind
  rw [fails_get_bind]
  cases s.env.bind name a with
  | ok env => exact fails_modify
  | error f => exact fails_fault

theorem fails_joinIn {other : Environment} : Fails (joinIn other) s kind span s' ↔ False := by
  unfold joinIn
  rw [fails_get_bind]
  simp only [fails_bind, fails_modify, fails_ofSign, and_false, exists_false, or_false]

theorem fails_settle {after : Environment} : Fails (settle after) s kind span s' ↔ False := by
  unfold settle
  rw [fails_get_bind]
  split
  · exact fails_pure
  · simp only [fails_bind, fails_joinIn, fails_pure, and_false, exists_false, or_false]

theorem fails_adopt {inYes inNo : Environment} :
    Fails (adopt inYes inNo) s kind span s' ↔ False := by
  unfold adopt
  simp only [fails_bind, fails_modify, fails_ofSign, and_false, exists_false, or_false]

theorem fails_introduce {d : Decl} : Fails (introduce d) s kind span s' ↔ False := by
  unfold introduce
  rw [fails_get_bind]
  cases s.env.declare d.name (domainOf d.type) with
  | mk isNew env =>
    cases isNew with
    | false => exact fails_fault
    | true => exact fails_modify

theorem fails_within {m : M Unit} : Fails (within m) s kind span s' ↔
    ∃ t, Fails m { s with env := s.env.enter } kind span t ∧
      s' = { t with env := t.env.exit.2 } := by
  unfold Fails
  rw [run_within]
  generalize m.run.run { s with env := s.env.enter } = out
  obtain ⟨r, t⟩ := out
  constructor
  · intro h
    obtain ⟨rfl, rfl⟩ := Prod.mk.inj h
    exact ⟨t, rfl, rfl⟩
  · intro ⟨u, h, hs'⟩
    obtain ⟨rfl, rfl⟩ := Prod.mk.inj h
    rw [hs']

/-- A branch fails when its body does, and goes back to the environment before it. -/
theorem fails_branch {m : M Unit} (hbal : Balanced m) : Fails (branch m) s kind span s' ↔
    ∃ t, Fails m { s with env := s.env.fork } kind span t ∧ s' = { t with env := s.env } := by
  unfold Fails
  rw [run_branch_balanced hbal]
  generalize m.run.run { s with env := s.env.fork } = out
  obtain ⟨(⟨kind', span'⟩ | f) | u, t⟩ := out
  · constructor
    · intro h
      obtain ⟨hr, rfl⟩ := Prod.mk.inj h
      cases hr
      exact ⟨t, rfl, rfl⟩
    · intro ⟨u, h, hs'⟩
      cases h
      rw [hs']
      rfl
  all_goals
    constructor
    · intro h
      cases (Prod.mk.inj h).1
    · intro ⟨u, h, _⟩
      cases (Prod.mk.inj h).1

/-- A quiet step that fails leaves the environment alone. -/
theorem Quiet.of_fails {m : M α} (h : Quiet m) (hm : Fails m s kind span s') :
    s'.env = s.env := by
  have := (h s).1
  rw [hm] at this
  exact this

end Fails

section Statements
variable {config : Config} {st st' : State} {kind : ErrorKind} {span : Span}

theorem branch_fails_same {m : M Unit} (hbal : Balanced m) (h : Fails (branch m) st kind span st') :
    st'.env = st.env := by
  obtain ⟨t, -, rfl⟩ := (fails_branch hbal).mp h
  rfl

theorem assign_fails {name : Bytes} {value : Expr} {place : Span}
    (h : Fails (stmt config (.assign name value place)) st kind span st') : st'.env = st.env := by
  simp only [stmt, fails_bind, fails_bindName, and_false, exists_false, or_false] at h
  exact (expr_quiet config value).of_fails h

theorem print_fails {value : Expr} {place : Span}
    (h : Fails (stmt config (.print value place)) st kind span st') : st'.env = st.env := by
  simp only [stmt, fails_bind, fails_report, fails_modify, and_false, exists_false, or_false] at h
  exact (expr_quiet config value).of_fails h

/-- Whatever a branch has done by the time of a failure, nothing of it is left. -/
theorem ite_fails {c : Cond} {yes : Stmt} {no : Option Stmt} {place : Span}
    (h : Fails (stmt config (.ite c yes no place)) st kind span st') : st'.env = st.env := by
  have hquiet := cond_quiet config c
  cases no with
  | none =>
    simp only [stmt, fails_bind, fails_report, fails_joinIn, fails_pure, false_or, and_false,
      exists_false, or_false] at h
    rcases h with hc | ⟨verdict, st₁, hc, u, st₂, hreport, hyes⟩
    · exact hquiet.of_fails hc
    · obtain rfl := succeeds_report.mp hreport
      exact (branch_fails_same (stmt_balanced config yes) hyes).trans (hquiet.of_succeeds hc).1
  | some no =>
    simp only [stmt] at h
    rcases fails_bind.mp h with hc | ⟨verdict, st₁, hc, h⟩
    · exact hquiet.of_fails hc
    have henv := (hquiet.of_succeeds hc).1
    rcases fails_bind.mp h with hreport | ⟨u, st₂, hreport, h⟩
    · exact (fails_report.mp hreport).elim
    obtain rfl := succeeds_report.mp hreport
    rcases fails_bind.mp h with hyes | ⟨inYes, st₃, hyes, h⟩
    · exact (branch_fails_same (stmt_balanced config yes) hyes).trans henv
    obtain ⟨t, -, -, rfl⟩ := branch_stmt_succeeds hyes
    rcases fails_bind.mp h with hno | ⟨inNo, st₄, -, h⟩
    · exact (branch_fails_same (stmt_balanced config no) hno).trans henv
    · exact (fails_adopt.mp h).elim

end Statements

/-! The rounds of a loop up to a failure. -/

/-- The round of a loop with this number goes on. From the head of the round its condition and
its body succeed, the body on a fork of the head, and joining in what the body leaves changes
the head to the next one. -/
def Completes (config : Config) (place : Span) (c : Cond) (body : Stmt) (number : Nat)
    (head next : State) : Prop :=
  ∃ verdict s₁ after s₂, Succeeds (cond config c) head verdict s₁ ∧
    Succeeds (branch (stmt config body)) s₁ after s₂ ∧ head.env.identical after = false ∧
    head.env.join after = (.ok true, next.env) ∧
    next = { s₂ with
      env := next.env, trace := s₂.trace.push (.round place c number verdict false) }

/-- The head of a loop after so many rounds that went on, the first of them from `entry`. -/
inductive HeadAfter (config : Config) (place : Span) (c : Cond) (body : Stmt) (entry : State) :
    Nat → State → Prop where
  | entry : HeadAfter config place c body entry 0 entry
  | next {rounds : Nat} {head next : State} : HeadAfter config place c body entry rounds head →
    Completes config place c body (rounds + 1) head next →
    HeadAfter config place c body entry (rounds + 1) next

/-- A round of a loop fails, in its condition or in its body. -/
def RoundFails (config : Config) (c : Cond) (body : Stmt) (head : State) (kind : ErrorKind)
    (span : Span) (s' : State) : Prop :=
  Fails (cond config c) head kind span s' ∨ ∃ verdict s₁, Succeeds (cond config c) head verdict s₁ ∧
    Fails (branch (stmt config body)) s₁ kind span s'

section Loop
variable {config : Config} {place span : Span} {c : Cond} {body : Stmt} {kind : ErrorKind}
  {st st' : State}

/-- Heads only rise, and no round touches what forks have set aside. -/
theorem HeadAfter.raised {rounds : Nat} {head : State}
    (h : HeadAfter config place c body st rounds head) :
    Raised st.env.scopes head.env.scopes ∧ head.env.stashed = st.env.stashed := by
  induction h with
  | entry => exact ⟨.refl _, rfl⟩
  | @next _ head next _ hround ih =>
    obtain ⟨verdict, s₁, after, s₂, -, -, -, hjoin, -⟩ := hround
    obtain ⟨hup, hstashed⟩ := ih
    have henv : next.env = (head.env.join after).2 := by rw [hjoin]
    have hstep := Environment.join_raised head.env after
    rw [← henv] at hstep
    refine ⟨hup.trans hstep, ?_⟩
    rw [henv]
    exact hstashed

theorem RoundFails.env {head : State} (h : RoundFails config c body head kind span st') :
    st'.env = head.env := by
  have hquiet := cond_quiet config c
  rcases h with hc | ⟨verdict, s₁, hc, hbody⟩
  · exact hquiet.of_fails hc
  · exact (branch_fails_same (stmt_balanced config body) hbody).trans (hquiet.of_succeeds hc).1

/-- Rounds that fail go on for a while, and then one of them fails. -/
theorem rounds_fails {left done : Nat} {head : State}
    (hhead : HeadAfter config place c body st done head)
    (h : Fails (rounds config place c (stmt config body) left (done + 1)) head kind span st') :
    ∃ done' head', HeadAfter config place c body st done' head' ∧
      RoundFails config c body head' kind span st' := by
  induction left generalizing done head with
  | zero => exact (fails_fault.mp h).elim
  | succ left ih =>
    rw [rounds_succ] at h
    rcases fails_bind.mp h with hc | ⟨verdict, s₁, hc, h⟩
    · exact ⟨done, head, hhead, .inl hc⟩
    rcases fails_bind.mp h with hbody | ⟨after, s₂, hbody, h⟩
    · exact ⟨done, head, hhead, .inr ⟨verdict, s₁, hc, hbody⟩⟩
    rcases fails_bind.mp h with hsettle | ⟨stable, s₃, hsettle, h⟩
    · exact (fails_settle.mp hsettle).elim
    rcases fails_bind.mp h with hreport | ⟨u, s₄, hreport, h⟩
    · exact (fails_report.mp hreport).elim
    obtain rfl := succeeds_report.mp hreport
    -- a loop that has settled fails no more
    cases stable with
    | true => exact (fails_pure.mp h).elim
    | false =>
      have henv : s₂.env = head.env := by
        obtain ⟨t, -, -, rfl⟩ := branch_stmt_succeeds hbody
        exact ((cond_quiet config c).of_succeeds hc).1
      obtain ⟨hid, env, hjoin, rfl⟩ : s₂.env.identical after = false ∧
          ∃ env, s₂.env.join after = (.ok true, env) ∧ s₃ = { s₂ with env := env } := by
        rcases succeeds_settle.mp hsettle with ⟨-, hstable, -⟩ | hgoes
        · cases hstable
        · exact hgoes
      rw [henv] at hid hjoin
      exact ih (hhead.next ⟨verdict, s₁, after, s₂, hc, hbody, hid, hjoin, rfl⟩) h

/-- A loop that fails leaves the head of the round that fails. -/
theorem loop_fails (h : Fails (stmt config (.loop c body place)) st kind span st') :
    ∃ done head, HeadAfter config place c body st done head ∧
      RoundFails config c body head kind span st' := by
  simp only [stmt] at h
  rw [fails_get_bind] at h
  exact rounds_fails .entry h

end Loop

/-- A failure leaves a well-defined state. Expressions and conditions never change the
environment. An assignment, a print and an `if` that fail, in whatever part of their branches,
leave all of it as it was. A loop that fails leaves the head of the round that fails, which is
the state it was entered with after one join for each round before; the same variables are
bound there, each to what it was at the entry or to something above. -/
theorem failure_leaves_head (config : Config) (st : State) :
    (∀ e, ((expr config e).run.run st).2.env = st.env) ∧
    (∀ c, ((cond config c).run.run st).2.env = st.env) ∧
    (∀ name value place kind span st',
      Fails (stmt config (.assign name value place)) st kind span st' → st'.env = st.env) ∧
    (∀ value place kind span st',
      Fails (stmt config (.print value place)) st kind span st' → st'.env = st.env) ∧
    (∀ c yes no place kind span st',
      Fails (stmt config (.ite c yes no place)) st kind span st' → st'.env = st.env) ∧
    ∀ c body place kind span st', Fails (stmt config (.loop c body place)) st kind span st' →
      ∃ done head, HeadAfter config place c body st done head ∧
        RoundFails config c body head kind span st' ∧ st'.env = head.env ∧
        Raised st.env.scopes st'.env.scopes ∧ st'.env.stashed = st.env.stashed := by
  refine ⟨fun e => (expr_quiet config e st).1, fun c => (cond_quiet config c st).1,
    fun _ _ _ _ _ _ => assign_fails, fun _ _ _ _ _ => print_fails,
    fun _ _ _ _ _ _ _ => ite_fails, ?_⟩
  intro c body place kind span st' h
  obtain ⟨done, head, hhead, hround⟩ := loop_fails h
  have henv := hround.env
  obtain ⟨hup, hstashed⟩ := hhead.raised
  rw [henv]
  exact ⟨done, head, hhead, hround, rfl, hup, hstashed⟩

namespace Fading

/-- The condition `readint > 0` in a given place. -/
def more (first : Nat) : Cond :=
  .compare .gt (.readInt (.inRow 0 first (first + 7)))
    (.int 0 (.inRow 0 (first + 10) (first + 11))) (.inRow 0 first (first + 11))

/-- The statement `if (readint > 0) x = 0; else print 1 / x;`. -/
def choice : Stmt :=
  .ite (more 35) (.assign [120] (.int 0 (.inRow 0 52 53)) (.inRow 0 48 54))
    (some (.print (.binary .div (.int 1 (.inRow 0 66 67)) (.var [120] (.inRow 0 70 71))
      (.inRow 0 66 71)) (.inRow 0 60 72))) (.inRow 0 31 72)

/-- The loop `while (readint > 0)` around the choice. -/
def loop : Stmt := .loop (more 18) choice (.inRow 0 11 72)

/-- A state in which `x` has the given sign and another state is set aside. -/
def state (s : Sign) : State :=
  ⟨⟨[[([120], ⟨.int, some (.int s)⟩)]], [[[]]]⟩, [], #[], #[]⟩

/-- With an unknown `x` the `else` branch fails after the other has run, and the environment is
as it was. With a positive `x` the loop around it fails in its second round, and `x` is left
unknown by the one join of the first. -/
theorem leaves_head :
    (∃ st', Fails (stmt ⟨0, false⟩ choice) (state .any) .divisionByZero (.inRow 0 66 71) st' ∧
      st'.env = (state .any).env) ∧
    ∃ st', Fails (stmt ⟨0, false⟩ loop) (state .pos) .divisionByZero (.inRow 0 66 71) st' ∧
      st'.env = (state .any).env ∧
      ∃ done head, HeadAfter ⟨0, false⟩ (.inRow 0 11 72) (more 18) choice (state .pos) done head ∧
        RoundFails ⟨0, false⟩ (more 18) choice head .divisionByZero (.inRow 0 66 71) st' ∧
        st'.env = head.env ∧ Raised (state .pos).env.scopes st'.env.scopes := by
  obtain ⟨-, -, -, -, hite, -⟩ := failure_leaves_head ⟨0, false⟩ (state .any)
  obtain ⟨-, -, -, -, -, hloop⟩ := failure_leaves_head ⟨0, false⟩ (state .pos)
  constructor
  · have hrun : Fails (stmt ⟨0, false⟩ choice) (state .any) .divisionByZero (.inRow 0 66 71)
        ((stmt ⟨0, false⟩ choice).run.run (state .any)).2 := Prod.ext (by decide +kernel) rfl
    exact ⟨_, hrun, hite _ _ _ _ _ _ _ hrun⟩
  · have hrun : Fails (stmt ⟨0, false⟩ loop) (state .pos) .divisionByZero (.inRow 0 66 71)
        ((stmt ⟨0, false⟩ loop).run.run (state .pos)).2 := Prod.ext (by decide +kernel) rfl
    obtain ⟨done, head, hhead, hround, henv, hup, -⟩ := hloop _ _ _ _ _ _ hrun
    exact ⟨_, hrun, by decide +kernel, done, head, hhead, hround, henv, hup⟩

end Fading
end Analysis
end Signum
