import Signum.Proofs.Steps
import Signum.Analysis.Interpreter
/- What the steps of an analysis change.

   Larger steps are made of parts that have names here: to settle a round, to introduce a
   variable, to adopt the join of two branches. Evaluating an expression or a condition changes
   nothing but the reads that are remembered (`OnlyReads`), also when it fails. So it is `Quiet`:
   it leaves the environment and the trace alone. Every step is `Balanced`: unless it ends in a
   fault, the states set aside by forks are the ones that were there before. So a branch always
   finds the state it set aside and goes back to it, and what it hands back is the stack its body
   left (`branch_succeeds`). -/
namespace Signum.Analysis

/-! The parts of larger steps. -/

/-- Takes the result of a body into the state at a loop's head, and tells whether it
added nothing. -/
def settle (after : Environment) : M Bool := do
  if (← get).env.identical after then pure true
  else do pure !(← joinIn after)

/-- Adds the variable of a declaration. -/
def introduce (d : Decl) : M Unit := do
  let (isNew, env) := (← get).env.declare d.name (domainOf d.type)
  if !isNew then throw (.fault (.redeclared d.name d.span))
  modify fun s => { s with env }

/-- Makes the join of two branches the present state. -/
def adopt (inYes inNo : Environment) : M Unit := do
  let (changed, joined) := inYes.join inNo
  let _ ← ofSign changed
  modify fun st => { st with env := { st.env with scopes := joined.scopes } }

/-- A round of a loop, and what follows it. -/
theorem rounds_succ (config : Config) (span : Span) (c : Cond) (body : M Unit) (left number : Nat) :
    rounds config span c body (left + 1) number = (do
      let verdict ← cond config c
      let after ← branch body
      let stable ← settle after
      report (.round span c number verdict stable)
      if stable then pure () else rounds config span c body left (number + 1)) := by
  simp only [rounds, settle, bind_assoc, ite_bind]

theorem decl_eq (config : Config) (d : Decl) : decl config d = (do
    introduce d
    match d.init with
    | some e =>
      let v ← expr config e
      bind d.name v
    | none => pure ()) := by
  obtain ⟨t, name, init, span⟩ := d
  cases init with
  | none => simp only [decl, introduce, bind_assoc, ite_bind, throw_bind]
  | some e => simp only [decl, introduce, bind_assoc, ite_bind, throw_bind]

/-- The result of the second branch is joined into that of the first. -/
theorem stmt_iteElse (config : Config) (c : Cond) (yes no : Stmt) (s : Span) :
    stmt config (.ite c yes (some no) s) = (do
      let verdict ← cond config c
      report (.branch s c verdict)
      let inYes ← branch (stmt config yes)
      let inNo ← branch (stmt config no)
      adopt inYes inNo) := by
  rw [stmt]
  rfl

theorem run_within (m : M Unit) (s : State) : (within m).run.run s =
    ((m.run.run { s with env := s.env.enter }).1,
      { (m.run.run { s with env := s.env.enter }).2 with
        env := (m.run.run { s with env := s.env.enter }).2.env.exit.2 }) := rfl

/-- A step on a fork, and what becomes of the fork. -/
theorem run_branch (m : M Unit) (s : State) : (branch m).run.run s =
    match m.run.run { s with env := s.env.fork } with
    | (.error (.fault f), t) => (.error (.fault f), t)
    | (r, t) => match t.env.restore with
      | .error f => (.error (.fault (.environment f)), t)
      | .ok (env, fork) => (r.map fun _ => fork, { t with env }) := by
  unfold branch
  simp only [ExceptT.run_mk, StateT.run_bind, StateT.run_modify, pure_bind, StateT.run_get]
  generalize m.run.run { s with env := s.env.fork } = p
  obtain ⟨(⟨kind, span⟩ | f) | u, t⟩ := p
  all_goals
    dsimp only [Bind.bind, pure]
    cases t.env.restore <;> rfl

/-- The step changes nothing but the remembered reads, however it ends. -/
def OnlyReads {α : Type} (m : M α) : Prop :=
  ∀ s, ∃ reads, (m.run.run s).2 = { s with reads := reads }

/-- The step leaves the environment and the trace alone, however it ends. -/
def Quiet {α : Type} (m : M α) : Prop :=
  ∀ s, (m.run.run s).2.env = s.env ∧ (m.run.run s).2.trace = s.trace

/-- Unless it ends in a fault, the step taken in `s` leaves what forks set aside alone. -/
def BalancedAt {α : Type} (m : M α) (s : State) : Prop :=
  match m.run.run s with
  | (.error (.fault _), _) => True
  | (_, s') => s'.env.stashed = s.env.stashed

/-- Unless it ends in a fault, the step leaves what forks set aside alone. -/
def Balanced {α : Type} (m : M α) : Prop := ∀ s, BalancedAt m s

section OnlyReads
variable {α β : Type}

theorem OnlyReads.pure (a : α) : OnlyReads (Pure.pure a : M α) := fun s => ⟨s.reads, rfl⟩

theorem OnlyReads.throw (h : Halt) : OnlyReads (MonadExcept.throw h : M α) :=
  fun s => ⟨s.reads, rfl⟩

theorem OnlyReads.get_bind {f : State → M α} (h : ∀ s, OnlyReads (f s)) :
    OnlyReads (get >>= f) := fun s => h s s

theorem OnlyReads.bind {x : M α} {f : α → M β} (hx : OnlyReads x) (hf : ∀ a, OnlyReads (f a)) :
    OnlyReads (x >>= f) := by
  intro s
  rw [run_bind]
  have h := hx s
  generalize x.run.run s = out at h
  obtain ⟨e | a, t⟩ := out
  · exact h
  · obtain ⟨reads, rfl⟩ := h
    exact hf a _

theorem OnlyReads.ofSign (r : Except SignFault α) : OnlyReads (ofSign r) := by
  cases r with
  | ok a => exact .pure a
  | error f => exact .throw _

theorem read_onlyReads (config : Config) (t : NumType) (span : Span) :
    OnlyReads (read config t span) := by
  unfold Analysis.read
  split
  · exact .pure _
  · refine .get_bind fun s => ?_
    split
    · exact .pure _
    · exact .bind (fun _ => ⟨_, rfl⟩) fun _ => .pure _

theorem expr_onlyReads (config : Config) (e : Expr) : OnlyReads (expr config e) := by
  induction e with
  | int v s | float v t s => exact .pure _
  | readInt s | readFloat s => exact read_onlyReads config _ s
  | var name s =>
    refine .get_bind fun st => ?_
    cases st.env.lookup? name with
    | some v => exact .pure v
    | none => exact .throw _
  | neg e s ih => exact .bind ih fun a => .ofSign _
  | binary op l r s ihl ihr =>
    refine .bind ihl fun a => .bind ihr fun b => .bind (.ofSign _) fun v => ?_
    split
    · exact .throw _
    · exact .pure v

theorem cond_onlyReads (config : Config) (c : Cond) : OnlyReads (cond config c) := by
  induction c with
  | compare op l r s =>
    exact .bind (expr_onlyReads config l) fun a => .bind (expr_onlyReads config r) fun b => .ofSign _
  | logical op l r s ihl ihr => exact .bind ihl fun a => .bind ihr fun b => .ofSign _
  | not c s ih => exact .bind ih fun a => .ofSign _

end OnlyReads

section Quiet
variable {α β : Type}

theorem Quiet.pure (a : α) : Quiet (Pure.pure a : M α) := fun _ => ⟨rfl, rfl⟩

theorem Quiet.get : Quiet (MonadState.get : M State) := fun _ => ⟨rfl, rfl⟩

theorem Quiet.throw (h : Halt) : Quiet (MonadExcept.throw h : M α) := fun _ => ⟨rfl, rfl⟩

theorem OnlyReads.quiet {m : M α} (h : OnlyReads m) : Quiet m := by
  intro s
  obtain ⟨reads, hs⟩ := h s
  rw [hs]
  exact ⟨rfl, rfl⟩

theorem Quiet.ofSign (r : Except SignFault α) : Quiet (ofSign r) := (OnlyReads.ofSign r).quiet

theorem expr_quiet (config : Config) (e : Expr) : Quiet (expr config e) :=
  (expr_onlyReads config e).quiet

theorem cond_quiet (config : Config) (c : Cond) : Quiet (cond config c) :=
  (cond_onlyReads config c).quiet

/-- What a quiet step leaves when it succeeds. -/
theorem Quiet.of_succeeds {m : M α} (h : Quiet m) {s s' : State} {a : α} (hm : Succeeds m s a s') :
    s'.env = s.env ∧ s'.trace = s.trace := by
  have := h s
  rw [hm] at this
  exact this

end Quiet

section Balanced
variable {α β : Type}

theorem Quiet.balanced {m : M α} (h : Quiet m) : Balanced m := by
  intro s
  have := (h s).1
  unfold BalancedAt
  generalize m.run.run s = out at this
  obtain ⟨(⟨kind, span⟩ | f) | a, t⟩ := out
  · exact congrArg Environment.stashed this
  · trivial
  · exact congrArg Environment.stashed this

theorem Balanced.update {f : State → State} (h : ∀ s, (f s).env.stashed = s.env.stashed) :
    Balanced (modify f : M PUnit) := h

theorem Balanced.bind {x : M α} {f : α → M β} (hx : Balanced x) (hf : ∀ a, Balanced (f a)) :
    Balanced (x >>= f) := by
  intro s
  have h := hx s
  unfold BalancedAt at h ⊢
  rw [run_bind]
  generalize x.run.run s = out at h
  obtain ⟨(⟨kind, span⟩ | fault) | a, t⟩ := out
  · exact h
  · trivial
  · have h' := hf a t
    change t.env.stashed = s.env.stashed at h
    rw [← h]
    exact h'

theorem Balanced.ite {c : Prop} [Decidable c] {x y : M α} (hx : Balanced x) (hy : Balanced y) :
    Balanced (if c then x else y) := by
  split
  · exact hx
  · exact hy

theorem Balanced.get_bind {f : State → M α} (h : ∀ s, BalancedAt (f s) s) :
    Balanced (get >>= f) := h

theorem bind_balanced (name : Bytes) (value : Atom) : Balanced (bind name value) := by
  refine .get_bind fun s => ?_
  unfold Environment.bind
  cases Environment.bindIn name value s.env.scopes with
  | error f => exact (Quiet.throw _).balanced s
  | ok scopes => exact rfl

theorem joinIn_balanced (other : Environment) : Balanced (joinIn other) := by
  refine .get_bind fun s => ?_
  unfold BalancedAt
  dsimp only
  rw [run_bind, run_modify]
  cases (s.env.join other).1 with
  | error f => trivial
  | ok changed => rfl

theorem adopt_balanced (inYes inNo : Environment) : Balanced (adopt inYes inNo) :=
  .bind (Quiet.ofSign _).balanced fun _ => .update fun _ => rfl

theorem stashed_declare (name : Bytes) (domain : Domain) (env : Environment) :
    (env.declare name domain).2.stashed = env.stashed := by
  unfold Environment.declare
  split
  · split <;> rfl
  · rfl

theorem introduce_balanced (d : Decl) : Balanced (introduce d) := by
  refine .get_bind fun s => ?_
  have hd := stashed_declare d.name (domainOf d.type) s.env
  generalize s.env.declare d.name (domainOf d.type) = out at hd
  obtain ⟨isNew, env⟩ := out
  cases isNew with
  | false => exact (Quiet.throw _).balanced s
  | true => exact hd

theorem within_balanced {m : M Unit} (h : Balanced m) : Balanced (within m) := by
  intro s
  have hm := h { s with env := s.env.enter }
  unfold BalancedAt at hm ⊢
  rw [run_within]
  generalize m.run.run { s with env := s.env.enter } = out at hm
  have hexit (env : Environment) : env.exit.2.stashed = env.stashed := by
    unfold Environment.exit
    split <;> rfl
  obtain ⟨(⟨kind, span⟩ | f) | a, t⟩ := out
  · exact (hexit t.env).trans hm
  · trivial
  · exact (hexit t.env).trans hm

/-- A branch finds the state it set aside, and leaves it as the present one. -/
theorem run_branch_balanced {m : M Unit} (h : Balanced m) (s : State) : (branch m).run.run s =
    match m.run.run { s with env := s.env.fork } with
    | (.error (.fault f), t) => (.error (.fault f), t)
    | (r, t) => (r.map fun _ => ⟨t.env.scopes, []⟩, { t with env := s.env }) := by
  rw [run_branch]
  have hm := h { s with env := s.env.fork }
  unfold BalancedAt at hm
  generalize m.run.run { s with env := s.env.fork } = out at hm
  obtain ⟨(⟨kind, span⟩ | f) | a, t⟩ := out
  · change t.env.stashed = s.env.scopes :: s.env.stashed at hm
    simp [Environment.restore, hm]
  · rfl
  · change t.env.stashed = s.env.scopes :: s.env.stashed at hm
    simp [Environment.restore, hm]

theorem branch_balanced {m : M Unit} (h : Balanced m) : Balanced (branch m) := by
  intro s
  unfold BalancedAt
  rw [run_branch_balanced h]
  generalize m.run.run { s with env := s.env.fork } = out
  obtain ⟨(⟨kind, span⟩ | f) | a, t⟩ := out
  · rfl
  · trivial
  · rfl

theorem settle_balanced (after : Environment) : Balanced (settle after) := by
  refine .bind Quiet.get.balanced fun s => .ite (Quiet.pure _).balanced ?_
  exact .bind (joinIn_balanced after) fun _ => (Quiet.pure _).balanced

theorem rounds_balanced {config : Config} {span : Span} {c : Cond} {body : M Unit}
    (h : Balanced body) (left number : Nat) :
    Balanced (rounds config span c body left number) := by
  induction left generalizing number with
  | zero => exact (Quiet.throw _).balanced
  | succ left ih =>
    rw [rounds_succ]
    refine .bind (cond_quiet config c).balanced fun verdict => .bind (branch_balanced h) fun after => ?_
    refine .bind (settle_balanced after) fun stable => .bind (.update fun _ => rfl) fun _ => ?_
    exact .ite (Quiet.pure _).balanced (ih _)

mutual

theorem stmt_balanced (config : Config) : (s : Stmt) → Balanced (stmt config s)
  | .assign name value s => by
    simp only [stmt]
    exact .bind (expr_quiet config value).balanced fun v => bind_balanced name v
  | .print value s => by
    simp only [stmt]
    refine .bind (expr_quiet config value).balanced fun v => ?_
    exact .bind (.update fun _ => rfl) fun _ => .update fun _ => rfl
  | .block body s => by
    simp only [stmt]
    exact within_balanced (items_balanced config body)
  | .ite c yes none s => by
    simp only [stmt]
    refine .bind (cond_quiet config c).balanced fun v => .bind (.update fun _ => rfl) fun _ => ?_
    refine .bind (branch_balanced (stmt_balanced config yes)) fun inYes => ?_
    exact .bind (joinIn_balanced inYes) fun _ => (Quiet.pure _).balanced
  | .ite c yes (some no) s => by
    simp only [stmt]
    refine .bind (cond_quiet config c).balanced fun v => .bind (.update fun _ => rfl) fun _ => ?_
    refine .bind (branch_balanced (stmt_balanced config yes)) fun inYes => ?_
    exact .bind (branch_balanced (stmt_balanced config no)) fun inNo => adopt_balanced inYes inNo
  | .loop c body s => by
    simp only [stmt]
    exact .bind Quiet.get.balanced fun _ => rounds_balanced (stmt_balanced config body) _ _

theorem item_balanced (config : Config) : (u : Item) → Balanced (item config u)
  | .decl d => by
    rw [item, decl_eq]
    refine .bind (introduce_balanced d) fun _ => ?_
    cases d.init with
    | none => exact (Quiet.pure _).balanced
    | some e => exact .bind (expr_quiet config e).balanced fun v => bind_balanced d.name v
  | .stmt s => by
    simp only [item]
    exact stmt_balanced config s

theorem items_balanced (config : Config) : (us : List Item) → Balanced (items config us)
  | [] => by
    simp only [items]
    exact (Quiet.pure _).balanced
  | u :: rest => by
    simp only [items]
    exact .bind (item_balanced config u) fun _ => items_balanced config rest

end

/-- What a branch that succeeds does: its body succeeds on a copy, whose stack is handed
back, and the environment is as it was. -/
theorem branch_succeeds {m : M Unit} (h : Balanced m) {s s' : State} {fork : Environment}
    (hm : Succeeds (branch m) s fork s') : ∃ t, Succeeds m { s with env := s.env.fork } () t ∧
      fork = ⟨t.env.scopes, []⟩ ∧ s' = { t with env := s.env } := by
  unfold Succeeds at hm ⊢
  rw [run_branch_balanced h] at hm
  generalize m.run.run { s with env := s.env.fork } = out at hm
  obtain ⟨(⟨kind, span⟩ | f) | a, t⟩ := out
  · cases hm
  · cases hm
  · cases hm
    exact ⟨t, rfl, rfl, rfl⟩

/-- What a branch of a statement that succeeds does. -/
theorem branch_stmt_succeeds {config : Config} {yes : Stmt} {s s' : State} {fork : Environment}
    (h : Succeeds (branch (stmt config yes)) s fork s') :
    ∃ t, Succeeds (stmt config yes) { s with env := s.env.fork } () t ∧
      fork = ⟨t.env.scopes, []⟩ ∧ s' = { t with env := s.env } :=
  branch_succeeds (stmt_balanced config yes) h

end Balanced

/-! When the small steps succeed, and what they leave. -/

section Succeeds
variable {s s' : State}

theorem succeeds_ofSign {α : Type} {r : Except SignFault α} {a : α} :
    Succeeds (ofSign r) s a s' ↔ r = .ok a ∧ s = s' := by
  cases r with
  | ok b => simp [ofSign, succeeds_pure]
  | error f => simp [ofSign, succeeds_throw]

theorem succeeds_bindName {name : Bytes} {a : Atom} {u : Unit} :
    Succeeds (bind name a) s u s' ↔
      ∃ env, s.env.bind name a = .ok env ∧ s' = { s with env := env } := by
  unfold bind
  rw [succeeds_get_bind]
  cases s.env.bind name a with
  | ok env => simp [succeeds_modify, eq_comm]
  | error f => simp [succeeds_throw]

theorem succeeds_joinIn {other : Environment} {changed : Bool} :
    Succeeds (joinIn other) s changed s' ↔
      ∃ env, s.env.join other = (.ok changed, env) ∧ s' = { s with env := env } := by
  unfold joinIn
  rw [succeeds_get_bind]
  cases s.env.join other with
  | mk r env =>
    simp only [succeeds_bind, succeeds_modify, succeeds_ofSign, Prod.mk.injEq]
    constructor
    · rintro ⟨_, _, rfl, rfl, rfl⟩
      exact ⟨env, ⟨rfl, rfl⟩, rfl⟩
    · rintro ⟨_, ⟨rfl, rfl⟩, rfl⟩
      exact ⟨(), _, rfl, rfl, rfl⟩

theorem succeeds_settle {after : Environment} {stable : Bool} :
    Succeeds (settle after) s stable s' ↔
      (s.env.identical after = true ∧ stable = true ∧ s' = s) ∨
      (s.env.identical after = false ∧
        ∃ env, s.env.join after = (.ok !stable, env) ∧ s' = { s with env := env }) := by
  unfold settle
  rw [succeeds_get_bind]
  cases s.env.identical after with
  | true => simp [succeeds_pure, eq_comm]
  | false =>
    simp only [Bool.false_eq_true, if_false, succeeds_bind, succeeds_joinIn, succeeds_pure,
      false_and, false_or, true_and]
    constructor
    · rintro ⟨changed, _, ⟨env, hj, rfl⟩, rfl, rfl⟩
      exact ⟨env, by rw [Bool.not_not]; exact hj, rfl⟩
    · rintro ⟨env, hj, rfl⟩
      exact ⟨!stable, _, ⟨env, hj, rfl⟩, Bool.not_not stable, rfl⟩

theorem succeeds_adopt {inYes inNo : Environment} {u : Unit} :
    Succeeds (adopt inYes inNo) s u s' ↔ ∃ changed joined, inYes.join inNo = (.ok changed, joined) ∧
      s' = { s with env := { s.env with scopes := joined.scopes } } := by
  unfold adopt
  cases inYes.join inNo with
  | mk r joined =>
    simp only [succeeds_bind, succeeds_modify, succeeds_ofSign, Prod.mk.injEq]
    constructor
    · rintro ⟨changed, _, ⟨rfl, rfl⟩, rfl⟩
      exact ⟨changed, joined, ⟨rfl, rfl⟩, rfl⟩
    · rintro ⟨changed, _, ⟨rfl, rfl⟩, rfl⟩
      exact ⟨changed, _, ⟨rfl, rfl⟩, rfl⟩

theorem succeeds_introduce {d : Decl} {u : Unit} :
    Succeeds (introduce d) s u s' ↔
      ∃ env, s.env.declare d.name (domainOf d.type) = (true, env) ∧ s' = { s with env := env } := by
  unfold introduce
  rw [succeeds_get_bind]
  cases s.env.declare d.name (domainOf d.type) with
  | mk isNew env =>
    cases isNew with
    | false => simp [succeeds_throw]
    | true => simp [succeeds_modify, eq_comm]

theorem succeeds_within {m : M Unit} {u : Unit} :
    Succeeds (within m) s u s' ↔ ∃ t, Succeeds m { s with env := s.env.enter } () t ∧
      s' = { t with env := t.env.exit.2 } := by
  unfold Succeeds
  rw [run_within]
  generalize m.run.run { s with env := s.env.enter } = out
  obtain ⟨r, t⟩ := out
  constructor
  · intro h
    obtain ⟨rfl, rfl⟩ := Prod.mk.inj h
    exact ⟨t, rfl, rfl⟩
  · rintro ⟨_, h, rfl⟩
    obtain ⟨rfl, rfl⟩ := Prod.mk.inj h
    rfl

theorem succeeds_report {e : Event} {u : Unit} :
    Succeeds (report e) s u s' ↔ s' = { s with trace := s.trace.push e } := by
  unfold report
  rw [succeeds_modify, eq_comm]

/-- What the first round of a loop that ends does. -/
theorem rounds_succeeds {config : Config} {span : Span} {c : Cond} {body : M Unit}
    {left number : Nat} {u : Unit}
    (h : Succeeds (rounds config span c body (left + 1) number) s u s') :
    ∃ verdict s₁ after s₂ stable s₃, Succeeds (cond config c) s verdict s₁ ∧
      Succeeds (branch body) s₁ after s₂ ∧ Succeeds (settle after) s₂ stable s₃ ∧
      if stable then s' = { s₃ with trace := s₃.trace.push (.round span c number verdict true) }
      else Succeeds (rounds config span c body left (number + 1))
        { s₃ with trace := s₃.trace.push (.round span c number verdict false) } () s' := by
  rw [rounds_succ] at h
  simp only [succeeds_bind, succeeds_report] at h
  obtain ⟨verdict, s₁, hcond, after, s₂, hbranch, stable, s₃, hsettle, _, _, rfl, hrest⟩ := h
  refine ⟨verdict, s₁, after, s₂, stable, s₃, hcond, hbranch, hsettle, ?_⟩
  cases stable with
  | true => exact (succeeds_pure.mp hrest).2.symm
  | false => exact hrest

end Succeeds
end Signum.Analysis
