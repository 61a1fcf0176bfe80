import Signum.Proofs.Analysis.Safety
import Signum.Proofs.Scoping.Resolution
/- The slots an analysis reaches.

   The instrument `tracing` carries the origins of the slots of an analysis and notes the
   visits to them. An analysis adds a variable before it looks at its initializer and reads
   the innermost bound slot of a name, so a slot that is not bound yet is passed over; it
   binds the nearest slot, bound or not.

   In an accepted program both are the slot of the declaration the checker has in mind.
   For a binding this follows from the slots being where the checker's variables are.
   For a read it also takes that the variable is assigned, so that its slot is bound
   after any branches and joins (`Ready`), and that the slot of a declaration whose
   initializer is looked at is unbound, so that it hides nothing (`Leads.declare`). -/
namespace Signum.Analysis

open Logged (Erases Keeps Yields)
open Check (Coherent TypedCond SeesExpr SeesCond)
open Traced (plain mark visit visiting plain_erases mark_erases visit_erases plain_keeps visit_keeps
  mark_keeps also_keeps)

/-- A step of an analysis that carries the origins of the slots. -/
abbrev Tracing := Traced Halt State

/-- Reads a variable from the innermost slot of its name that is bound. -/
def traceVar (name : Bytes) (s : Span) : Tracing Atom := do
  let st ← plain get
  let place := Environment.boundAt? name st.env.scopes
  visit (.read name s) name place
  match place.bind (Environment.valueAt name st.env.scopes) with
  | some v => pure v
  | none => plain (fail .uninitialized s)

/-- Evaluates with a note of every slot that is read. -/
def tracer : Reader (State × Origins) Visit where
  lift := plain
  var := traceVar
  computed _ a := pure a

/-- Binds the nearest slot of the name that an assignment has. -/
def traceAssign (o : Occurrence) (name : Bytes) (value : Atom) : Tracing Unit := do
  let st ← plain get
  let place := nearest? name st.env.scopes
  visit o name place
  match place.elim (.error (.undeclared name)) (Environment.bindAt name value st.env.scopes) with
  | .ok scopes => plain (modify fun s => { s with env := { st.env with scopes } })
  | .error f => plain (throw (.fault (.environment f)))

/-- Runs in a scope of its own. -/
def traceWithin : Tracing Unit → Tracing Unit :=
  Logged.around (fun s => ({ s.1 with env := s.1.env.enter }, s.2.enter))
    fun s => ({ s.1 with env := s.1.env.exit.2 }, s.2.exit)

/-- Runs on a fork of the environment and hands back the fork, with the origins of its
slots. -/
def traceBranch (x : Tracing Unit) : Tracing (Environment × List (List (Bytes × Decl))) := fun s =>
  let out := x ({ s.1 with env := s.1.env.fork }, s.2.fork)
  match out.result, out.state.1.env.restore with
  | .error (.fault f), _ => ⟨.error (.fault f), out.state, out.history⟩
  | _, .error f => ⟨.error (.fault (.environment f)), out.state, out.history⟩
  | result, .ok (env, fork) =>
    ⟨result.map fun _ => (fork, out.state.2.scopes),
      ({ out.state.1 with env }, out.state.2.restore), out.history⟩

/-- Analyses with the origins of the slots and a note of every visit to one. After an `if` the
slots gone on with are those of the first branch. -/
def tracing (config : Config) :
    Instrument (State × Origins) Visit (Environment × List (List (Bytes × Decl))) Unit where
  config := config
  lift := plain
  expr := tracer.expr config
  cond := tracer.cond config
  assign name value s v := traceAssign (.assign name value s) name v
  introduce d := do
    plain (introduce d)
    mark (Origins.declare d)
  within := traceWithin
  branch := traceBranch
  environment := Prod.fst
  adopt inYes inNo := do
    plain (adopt inYes.1 inNo.1)
    mark fun o => { o with scopes := inYes.2 }
  limit := roundLimit config
  settle _ := settle
  opened _ _ _ := ()
  during _ x := x
  tell _ _ := pure ()

/-- Analyses a program, with the origins of its slots. -/
def traced (config : Config) (p : Program) : Outcome Halt (State × Origins) Visit Unit :=
  (tracing config).items p.units (State.start, Origins.fresh)

/-- The slots that the names of a program reach when it is analysed, in order. -/
def visits (config : Config) (p : Program) : List Visit := (traced config p).history

/-! The slots are those of the analysis: without origins and visits a traced step is
the step. -/

section Erases
variable {x : Tracing Unit} {m : M Unit}

theorem var_erases (config : Config) (name : Bytes) (s : Span) :
    Erases Prod.fst (traceVar name s) (expr config (.var name s)) := by
  unfold expr
  refine Erases.bind (plain_erases _) fun st => .skip (visit_erases _ _ _) ?_
  rw [Environment.lookup?_eq_valueAt]
  cases (Environment.boundAt? name st.env.scopes).bind
      (Environment.valueAt name st.env.scopes) with
  | some v => exact .pure v
  | none => exact plain_erases _

theorem assign_erases (o : Occurrence) (name : Bytes) (value : Atom) :
    Erases Prod.fst (traceAssign o name value) (bind name value) := by
  unfold bind
  refine Erases.bind (plain_erases get) fun st => .skip (visit_erases _ _ _) ?_
  rw [Environment.bind, Environment.bindIn_eq_bindAt]
  cases (nearest? name st.env.scopes).elim (.error (.undeclared name))
      (Environment.bindAt name value st.env.scopes) with
  | ok scopes => exact plain_erases _
  | error f => exact plain_erases _

theorem within_erases (h : Erases Prod.fst x m) : Erases Prod.fst (traceWithin x) (within m) := by
  intro s
  have hx := h ({ s.1 with env := s.1.env.enter }, s.2.enter)
  rw [run_within, ← hx]
  rfl

theorem branch_erases (h : Erases Prod.fst x m) :
    Erases Prod.fst (Prod.fst <$> traceBranch x) (branch m) := by
  intro s
  rw [run_branch, ← h ({ s.1 with env := s.1.env.fork }, s.2.fork), map_eq_pure_bind]
  simp only [Bind.bind, traceBranch]
  generalize x ({ s.1 with env := s.1.env.fork }, s.2.fork) = out
  obtain ⟨(⟨kind, span⟩ | f) | u, ⟨t, o⟩, hist⟩ := out
  · dsimp only
    cases t.env.restore <;> rfl
  · rfl
  · dsimp only
    cases t.env.restore <;> rfl

theorem tracer_faithful (config : Config) : tracer.Faithful config Prod.fst where
  lift := plain_erases
  var := var_erases config
  computed _ a := .pure a

theorem tracing_faithful (config : Config) : (tracing config).Faithful config Prod.fst where
  config_eq := rfl
  lift := plain_erases
  expr := (tracer_faithful config).expr
  cond := (tracer_faithful config).cond
  assign name value s v := assign_erases (.assign name value s) name v
  introduce _ := .noted (plain_erases _) fun _ => mark_erases _
  within := within_erases
  branch := branch_erases
  adopt _ _ := .noted (plain_erases _) fun _ => mark_erases _
  limit := rfl
  settle _ := rfl
  during _ _ := rfl
  tell _ _ := .pure ()

end Erases

/-- A traced analysis ends as the analysis does. -/
theorem traced_eq_run (config : Config) (p : Program) :
    ((traced config p).result, (traced config p).state.1) = run config p :=
  (tracing_faithful config).items p.units _

/-! The visits of an accepted program find the declarations of the checker. -/

/-- The assigned variables in sight are read from slots of their declarations. -/
def Leads (notes : List Finding) (scopes : Scopes) (assigned : List Nat) (env : Environment)
    (o : Origins) : Prop :=
  ∀ name v, scopes.search? name = some (.variable v) → v.number ∈ assigned →
    ∃ i d, Environment.boundAt? name env.scopes = some i ∧ cell o.scopes i name = some d ∧
      .declared d v ∈ notes

section Leads
variable {notes : List Finding} {scopes : Scopes} {assigned : List Nat} {env : Environment}
  {o o' : Origins}

theorem leads_of_fits (hfit : Fits (SlotFits assigned) scopes.items env.scopes)
    (ho : OriginsFit notes scopes o) : Leads notes scopes assigned env o := by
  intro name v hv ha
  obtain ⟨i, slot, hcell, hi, hslot, hf⟩ := hfit.nearest hv
  obtain ⟨d, hd, hmade⟩ := ho.known i name v hcell
  exact ⟨i, d, Environment.boundAt?_eq_some hi hslot (hf.bound ha), hd, hmade⟩

/-- A slot that is not bound yet hides no slot that is read. -/
theorem Leads.declare (h : Leads notes scopes assigned env o) {name : Bytes} {domain : Domain}
    {d : Decl} {scopes' : List Scope} (hfree : cell env.scopes 0 name = none)
    (henv : Sets env.scopes 0 name ⟨domain, none⟩ scopes')
    (ho : Sets o.scopes 0 name d o'.scopes) :
    Leads notes scopes assigned { env with scopes := scopes' } o' := by
  intro n v hv ha
  obtain ⟨i, d, hplace, hd, hmade⟩ := h n v hv ha
  have hvalue (j : Nat) : Environment.valueAt n scopes' j = Environment.valueAt n env.scopes j := by
    unfold Environment.valueAt
    rw [henv.cell j n]
    split
    · next hjn => simp [hjn.1, hjn.2, hfree]
    · rfl
  refine ⟨i, d, (Environment.boundAt?_congr henv.length hvalue).trans hplace, ?_, hmade⟩
  rw [ho.other, hd]
  -- the slot that is read is bound, and there was none where the new one is
  rintro ⟨rfl, rfl⟩
  have hbound := Environment.boundAt?_bound hplace
  simp [Environment.valueAt, hfree] at hbound

end Leads

section Expressions
variable {config : Config} {notes : List Finding} {scopes : Scopes} {assigned : List Nat}
  {st : State} {o : Origins}

theorem var_keeps {name : Bytes} {s : Span} {v : Variable}
    (hv : scopes.search? name = some (.variable v)) (ha : v.number ∈ assigned)
    (hn : .resolved (.read name s) v ∈ notes) (h : Leads notes scopes assigned st.env o) :
    Keeps (visiting (Found notes)) (traceVar name s) (st, o) fun _ s' => s' = (st, o) := by
  obtain ⟨i, d, hplace, hd, hmade⟩ := h name v hv ha
  refine Keeps.bind (plain_keeps fun _ _ hget => ?_)
  obtain ⟨rfl, rfl⟩ := succeeds_get.mp hget
  refine Keeps.bind (visit_keeps ⟨d, v, ?_, hn, hmade⟩ ?_)
  · rw [hplace]
    exact hd
  · cases (Environment.boundAt? name st.env.scopes).bind
        (Environment.valueAt name st.env.scopes) with
    | some a => exact Keeps.pure rfl
    | none => exact plain_keeps fun _ _ hfail => (succeeds_throw.mp hfail).elim

theorem ofSign_keeps {α : Type} {env : Environment} {P : Visit → Prop} (r : Except SignFault α)
    (h : st.env = env) :
    Keeps (visiting P) (plain (ofSign r)) (st, o) fun _ s' => ∃ t, s' = (t, o) ∧ t.env = env := by
  refine plain_keeps fun _ t hsign => ?_
  obtain ⟨-, rfl⟩ := succeeds_ofSign.mp hsign
  exact ⟨st, rfl, h⟩

/-- The names of an expression reach the slots the checker means. -/
theorem expr_keeps {e : Expr} (he : SeesExpr notes scopes assigned e)
    (h : Leads notes scopes assigned st.env o) :
    Keeps (visiting (Found notes)) ((tracing config).expr e) (st, o) fun _ s' =>
      ∃ t, s' = (t, o) ∧ t.env = st.env := by
  induction e generalizing st with
  | var name s =>
    obtain ⟨v, hv, ha, hn⟩ := he
    exact Keeps.bind ((var_keeps hv ha hn h).mono fun _ _ hs => Keeps.pure ⟨st, hs, rfl⟩)
  | neg e s ih =>
    refine Keeps.bind ((ih he h).mono ?_)
    rintro a _ ⟨st₁, rfl, henv⟩
    exact Keeps.bind ((ofSign_keeps _ henv).mono fun _ _ hs => Keeps.pure hs)
  | binary op l r s ihl ihr =>
    refine Keeps.bind ((ihl he.1 h).mono ?_)
    rintro a _ ⟨st₁, rfl, henv₁⟩
    refine Keeps.bind ((ihr he.2 (by rw [henv₁]; exact h)).mono ?_)
    rintro b _ ⟨st₂, rfl, henv₂⟩
    refine Keeps.bind ((ofSign_keeps _ (henv₂.trans henv₁)).mono ?_)
    rintro v _ ⟨st₃, rfl, henv₃⟩
    split
    · exact plain_keeps fun _ _ hfail => (succeeds_throw.mp hfail).elim
    · exact Keeps.pure ⟨st₃, rfl, henv₃⟩
  | _ =>
    refine Keeps.bind (plain_keeps fun _ t hexpr => Keeps.pure ?_)
    exact ⟨t, rfl, ((expr_quiet config _).of_succeeds hexpr).1⟩

theorem cond_keeps {b : Cond} (hb : SeesCond notes scopes assigned b)
    (h : Leads notes scopes assigned st.env o) :
    Keeps (visiting (Found notes)) ((tracing config).cond b) (st, o) fun _ s' =>
      ∃ t, s' = (t, o) ∧ t.env = st.env := by
  induction b generalizing st with
  | compare op l r s =>
    refine Keeps.bind ((expr_keeps hb.1 h).mono ?_)
    rintro a _ ⟨st₁, rfl, henv₁⟩
    refine Keeps.bind ((expr_keeps hb.2 (by rw [henv₁]; exact h)).mono ?_)
    rintro b _ ⟨st₂, rfl, henv₂⟩
    exact ofSign_keeps _ (henv₂.trans henv₁)
  | logical op l r s ihl ihr =>
    refine Keeps.bind ((ihl hb.1 h).mono ?_)
    rintro a _ ⟨st₁, rfl, henv₁⟩
    refine Keeps.bind ((ihr hb.2 (by rw [henv₁]; exact h)).mono ?_)
    rintro b _ ⟨st₂, rfl, henv₂⟩
    exact ofSign_keeps _ (henv₂.trans henv₁)
  | not b s ih =>
    refine Keeps.bind ((ih hb h).mono ?_)
    rintro a _ ⟨st₁, rfl, henv⟩
    exact ofSign_keeps _ henv

end Expressions

section Statements
variable {config : Config} {notes : List Finding} {c c' : Context} {u : Unit} {st : State}
  {o : Origins}

theorem Ready.leads (hst : Ready c st) (ho : OriginsFit notes c.scopes o) :
    Leads notes c.scopes c.assigned st.env o :=
  leads_of_fits hst.env.cells ho

/-- Reporting an event changes nothing that counts. -/
theorem Ready.reported (hst : Ready c st) (e : Event) :
    Ready c { st with trace := st.trace.push e } :=
  ⟨hst.env, hst.reads⟩

/-- A condition leaves the analysis ready. -/
theorem cond_tracks {b : Cond} {types : List (Expr × NumType)}
    (hb : TypedCond c.scopes c.assigned types b) (hsees : SeesCond notes c.scopes c.assigned b)
    (hst : Ready c st) (ho : OriginsFit notes c.scopes o) :
    Keeps (visiting (Found notes)) ((tracing config).cond b) (st, o) fun _ s' =>
      ∃ t, s' = (t, o) ∧ Ready c t := by
  have hreads (r : Atom) (t : State) (hrun : Succeeds (cond config b) st r t) :
      ReadsTop t.reads := by
    exact ((cond_safe hb hst.readable hst.reads).of_succeeds (fun _ => trivial)
      ((observing_faithful config).cond b) hrun).2.2
  have hcond := (tracing_faithful config).cond b
  refine (also_keeps (cond_keeps hsees (hst.leads ho)) hcond hreads).mono ?_
  rintro r _ ⟨⟨t, rfl, henv⟩, ht⟩
  exact ⟨t, rfl, henv ▸ hst.env, ht⟩

/-- An assignment visits the slot of the variable in sight. -/
theorem traceAssign_keeps {occurrence : Occurrence} {name : Bytes} {v : Variable} {value : Atom}
    (hfit : EnvironmentFits c st.env) (ho : OriginsFit notes c.scopes o)
    (hv : c.scopes.search? name = some (.variable v)) (hn : .resolved occurrence v ∈ notes) :
    Keeps (visiting (Found notes)) (traceAssign occurrence name value) (st, o) fun _ s' =>
      s'.2 = o := by
  obtain ⟨i, slot, hcell, hi, -, -⟩ := hfit.cells.nearest hv
  refine Keeps.bind (plain_keeps fun _ _ hget => ?_)
  obtain ⟨rfl, rfl⟩ := succeeds_get.mp hget
  refine Keeps.bind (visit_keeps ?_ ?_)
  · rw [nearest?_eq_some hi]
    exact ho.found hcell hn
  · split
    · exact plain_keeps fun _ _ _ => rfl
    · exact plain_keeps fun _ _ _ => rfl

/-- A branch goes back to the origins from before it, and hands back those of its body. -/
theorem traceBranch_keeps {P : Visit → Prop} {x : Tracing Unit} {m : M Unit}
    {Q : Environment × List (List (Bytes × Decl)) → State × Origins → Prop}
    (hx : Erases Prod.fst x m) (hm : Balanced m)
    (h : Keeps (visiting P) x ({ st with env := st.env.fork }, o.fork) fun _ s' =>
      Q (⟨s'.1.env.scopes, []⟩, s'.2.scopes) ({ s'.1 with env := st.env }, s'.2.restore)) :
    Keeps (visiting P) (traceBranch x) (st, o) Q := by
  have hrun := hx ({ st with env := st.env.fork }, o.fork)
  have hbal := hm { st with env := st.env.fork }
  unfold BalancedAt at hbal
  rw [← hrun] at hbal
  unfold Keeps at h ⊢
  unfold traceBranch
  generalize x ({ st with env := st.env.fork }, o.fork) = out at h hbal
  obtain ⟨(⟨kind, span⟩ | f) | u, ⟨t, o'⟩, hist⟩ := out
  · dsimp only
    cases t.env.restore with
    | error f => exact ⟨h.1, fun _ => trivial⟩
    | ok r => exact ⟨h.1, fun _ => trivial⟩
  · exact ⟨h.1, fun _ => trivial⟩
  · -- the body leaves what was set aside, so the stack taken back is the one from before
    change t.env.stashed = st.env.scopes :: st.env.stashed at hbal
    have hrestore : t.env.restore = .ok (st.env, ⟨t.env.scopes, []⟩) := by
      simp [Environment.restore, hbal]
    simp only [hrestore]
    exact ⟨h.1, fun _ => h.2 fun _ _ => trivial⟩

/-- A statement visits the slots the checker means, and leaves the origins alone. -/
def KeepsOrigins (config : Config) (notes : List Finding) (s : Stmt) : Prop :=
  ∀ ⦃c c' : Context⦄ ⦃u : Unit⦄ ⦃st : State⦄ ⦃o : Origins⦄,
    Yields notes (Check.resolveStmt s) c u c' → Coherent c → Ready c st →
    OriginsFit notes c.scopes o →
    Keeps (visiting (Found notes)) ((tracing config).stmt s) (st, o) fun _ s' => s'.2 = o

/-- A branch leaves the origins alone when its body does; that the analysis stays ready
is known already. -/
theorem KeepsOrigins.branch {s : Stmt} (h : KeepsOrigins config notes s)
    {Q : Environment × List (List (Bytes × Decl)) → State × Origins → Prop}
    (hs : Yields notes (Check.resolveStmt s) c u c') (hc : Coherent c) (hst : Ready c st)
    (ho : OriginsFit notes c.scopes o)
    (hq : ∀ t, Ready c' t → Q (⟨t.env.scopes, []⟩, o.scopes) ({ t with env := st.env }, o)) :
    Keeps (visiting (Found notes)) (traceBranch ((tracing config).stmt s)) (st, o) Q := by
  have hfork : Ready c { st with env := st.env.fork } :=
    ⟨hst.env.weaken rfl (fun _ hx => hx) rfl, hst.reads⟩
  have hready (w : Unit) (t : State)
      (hrun : Succeeds (stmt config s) { st with env := st.env.fork } w t) : Ready c' t := by
    exact (stmt_safe s (Check.stmt_checked hs) hc (fun _ hx => hx) hfork).of_succeeds
      (fun _ => trivial) ((observing_faithful config).stmt s) hrun
  have hbody := h hs hc hfork (show OriginsFit notes c.scopes o.fork from ho)
  refine traceBranch_keeps ((tracing_faithful config).stmt s)
    (stmt_balanced config s) ?_
  refine (also_keeps hbody ((tracing_faithful config).stmt s) hready).mono ?_
  rintro _ ⟨t, o'⟩ ⟨ho', ht⟩
  obtain rfl : o' = o.fork := ho'
  exact hq t ht

theorem assign_origins (name : Bytes) (value : Expr) (s : Span) :
    KeepsOrigins config notes (.assign name value s) := by
  intro c c' u st o h hc hst ho
  obtain ⟨v, hv, hn, hsees⟩ := Check.assign_yields h
  unfold Instrument.stmt
  refine Keeps.bind ((expr_keeps hsees (hst.leads ho)).mono ?_)
  rintro a _ ⟨st₁, rfl, henv⟩
  exact traceAssign_keeps (henv ▸ hst.env) ho hv hn

theorem print_origins (value : Expr) (s : Span) :
    KeepsOrigins config notes (.print value s) := by
  intro c c' u st o h hc hst ho
  have hsees := Check.print_yields h
  unfold Instrument.stmt
  refine Keeps.bind ((expr_keeps hsees (hst.leads ho)).mono ?_)
  rintro a _ ⟨st₁, rfl, -⟩
  exact Keeps.bind (plain_keeps fun _ _ _ => plain_keeps fun _ _ _ => rfl)

theorem ite_origins {b : Cond} {yes : Stmt} {s : Span} (ih : KeepsOrigins config notes yes) :
    KeepsOrigins config notes (.ite b yes none s) := by
  intro c c' u st o h hc hst ho
  obtain ⟨c₁, c₂, hr, hb, hsees, hyes, rfl⟩ :=
    Check.guarded_yields (by simpa only [Check.resolveStmt] using h)
  have hc₁ := (Check.Extends.of_records hr).coherent hc
  obtain ⟨more, rfl⟩ := hr
  unfold Instrument.stmt
  refine Keeps.bind ((cond_tracks hb hsees hst ho).mono ?_)
  rintro verdict _ ⟨st₁, rfl, hst₁⟩
  refine Keeps.bind (plain_keeps fun _ st₂ hreport => ?_)
  obtain rfl := succeeds_report.mp hreport
  refine Keeps.bind (ih.branch hyes hc₁ ((hst₁.reported _).weaken rfl fun _ hx => hx) ho
    fun t ht => ?_)
  exact Keeps.bind (plain_keeps fun _ _ _ => Keeps.pure rfl)

theorem iteElse_origins {b : Cond} {yes no : Stmt} {s : Span}
    (ihy : KeepsOrigins config notes yes) (ihn : KeepsOrigins config notes no) :
    KeepsOrigins config notes (.ite b yes (some no) s) := by
  intro c c' u st o h hc hst ho
  obtain ⟨c₁, c₂, c₃, hr, hb, hsees, hyes, hno, rfl⟩ := Check.iteElse_yields h
  obtain ⟨ext, hscopes⟩ := Check.stmt_extends yes (Check.stmt_checked hyes)
  have hc₁ := (Check.Extends.of_records hr).coherent hc
  obtain ⟨more, rfl⟩ := hr
  unfold Instrument.stmt
  refine Keeps.bind ((cond_tracks hb hsees hst ho).mono ?_)
  rintro verdict _ ⟨st₁, rfl, hst₁⟩
  refine Keeps.bind (plain_keeps fun _ st₂ hreport => ?_)
  obtain rfl := succeeds_report.mp hreport
  refine Keeps.bind (ihy.branch hyes hc₁ ((hst₁.reported _).weaken rfl fun _ hx => hx) ho
    fun t ht => ?_)
  -- the second branch starts in the environment from before the first
  have hready : Ready { c₂ with assigned := c.assigned } { t with env := st₁.env } :=
    ⟨hst₁.env.weaken hscopes (fun _ hx => hx) rfl, ht.reads⟩
  have ho₂ : OriginsFit notes c₂.scopes o := by
    rw [hscopes]
    exact ho
  refine Keeps.bind (ihn.branch hno (ext.restored.coherent hc₁) hready ho₂ fun t' ht' => ?_)
  exact Keeps.bind (plain_keeps fun _ _ _ => mark_keeps rfl)

/-- Every round of a loop starts ready and with the same origins. -/
theorem rounds_origins {b : Cond} {body : Stmt} {span : Span} {types : List (Expr × NumType)}
    (ih : KeepsOrigins config notes body) (hb : TypedCond c.scopes c.assigned types b)
    (hsees : SeesCond notes c.scopes c.assigned b)
    (hbody : Yields notes (Check.resolveStmt body) c u c') (hc : Coherent c)
    (ho : OriginsFit notes c.scopes o) (left number : Nat) (hst : Ready c st) :
    Keeps (visiting (Found notes))
      ((tracing config).rounds span b ((tracing config).stmt body) left number ())
      (st, o) fun _ s' => s'.2 = o := by
  induction left generalizing number st with
  | zero => exact plain_keeps fun _ _ hstop => (succeeds_throw.mp hstop).elim
  | succ left loop =>
    rw [Instrument.rounds_untold _ (fun _ _ => rfl) fun _ _ => rfl]
    refine Keeps.bind ((cond_tracks hb hsees hst ho).mono ?_)
    rintro verdict _ ⟨st₁, rfl, hst₁⟩
    refine Keeps.bind (ih.branch hbody hc hst₁ ho fun t ht => ?_)
    refine Keeps.bind (plain_keeps fun stable st₃ hsettle => ?_)
    -- what the body made is joined in slot by slot, so the stack still fits
    have hafter : EnvironmentFits c' ⟨t.env.scopes, []⟩ := ht.env.alone
    have hscopes := (Check.stmt_extends body (Check.stmt_checked hbody)).2
    have hhead : EnvironmentFits c ({ t with env := st₁.env } : State).env := hst₁.env
    obtain ⟨env₃, rfl, hfit, -, -⟩ := settle_absorbs hhead hafter hscopes hsettle
    refine Keeps.bind (plain_keeps fun _ st₄ hreport => ?_)
    obtain rfl := succeeds_report.mp hreport
    cases stable with
    | true => exact Keeps.pure rfl
    | false => exact loop (number + 1) ⟨hfit, ht.reads⟩

theorem loop_origins {b : Cond} {body : Stmt} {s : Span} (ih : KeepsOrigins config notes body) :
    KeepsOrigins config notes (.loop b body s) := by
  intro c c' u st o h hc hst ho
  obtain ⟨c₁, c₂, hr, hb, hsees, hbody, rfl⟩ :=
    Check.guarded_yields (by simpa only [Check.resolveStmt] using h)
  have hc₁ := (Check.Extends.of_records hr).coherent hc
  obtain ⟨more, rfl⟩ := hr
  unfold Instrument.stmt
  refine Keeps.bind (plain_keeps fun _ _ hget => ?_)
  obtain ⟨rfl, rfl⟩ := succeeds_get.mp hget
  exact rounds_origins (c := { c with types := c.types ++ more }) ih hb hsees hbody hc₁ ho _ 1
    (hst.weaken rfl fun _ hx => hx)

theorem block_origins {body : List Item} {s : Span}
    (ih : ∀ {c c' : Context} {u : Unit} {st : State} {o : Origins},
      Yields notes (Check.resolveItems body) c u c' → Coherent c → Ready c st →
      OriginsFit notes c.scopes o →
      Keeps (visiting (Found notes)) ((tracing config).items body) (st, o) fun _ s' =>
        OriginsGrow notes c'.scopes o s'.2) :
    KeepsOrigins config notes (.block body s) := by
  intro c c' u st o h hc hst ho
  obtain ⟨c₁, hbody, rfl⟩ := Check.within_yields (by simpa only [Check.resolveStmt] using h)
  unfold Instrument.stmt
  change Keeps _ (traceWithin ((tracing config).items body)) (st, o) _
  refine Keeps.around ?_
  refine (ih hbody (Check.push_coherent hc) hst.push ho.enter).mono fun _ s' hs' => ?_
  exact hs'.exit (ho.ne_nil hc.nested)

/-- A declaration adds its slot, and its initializer does not see it. -/
theorem decl_origins {d : Decl} (h : Yields notes (Check.resolveDecl d) c u c') (hc : Coherent c)
    (hst : Ready c st) (ho : OriginsFit notes c.scopes o) :
    Keeps (visiting (Found notes)) ((tracing config).item (.decl d)) (st, o) fun _ s' =>
      OriginsGrow notes c'.scopes o s'.2 := by
  obtain ⟨hmade, hsees⟩ := Check.decl_yields h
  obtain ⟨c₁, hd, -, -, rfl⟩ := Check.decl_accepted (Check.forget_resolveDecl d ▸ h.1)
  obtain ⟨scopes', hdeclare, hset, -, -⟩ := declare_fits hst.env hc hd
  have hfree := hst.env.cells.free (Check.sets_declared (o := .type .int) hd hc.items_ne_nil).1
  have hgrow := OriginsGrow.declare ho hc.nested hd hmade
  unfold Instrument.item
  refine Keeps.bind (Keeps.bind (plain_keeps fun _ st₁ hintro => ?_))
  obtain ⟨env, heq, rfl⟩ := succeeds_introduce.mp hintro
  rw [hdeclare] at heq
  obtain ⟨-, rfl⟩ := Prod.mk.inj heq
  refine mark_keeps ?_
  cases he : d.init with
  | none => exact Keeps.pure hgrow
  | some e =>
    -- the initializer is looked at with the slot there, and was checked without it
    have hleads := (hst.leads ho).declare hfree hset (ho.declare_sets hc.nested d)
    refine Keeps.bind ((expr_keeps (hsees e he) hleads).mono ?_)
    rintro a _ ⟨st₂, rfl, -⟩
    exact plain_keeps fun _ _ _ => hgrow

mutual

/-- A statement visits the slots the checker means. -/
theorem stmt_origins : (s : Stmt) → KeepsOrigins config notes s
  | .assign name value s => assign_origins name value s
  | .print value s => print_origins value s
  | .block body _ => block_origins (items_origins body)
  | .ite _ yes none _ => ite_origins (stmt_origins yes)
  | .ite _ yes (some no) _ => iteElse_origins (stmt_origins yes) (stmt_origins no)
  | .loop _ body _ => loop_origins (stmt_origins body)

theorem item_origins : (i : Item) → ∀ {c c' : Context} {u : Unit} {st : State} {o : Origins},
    Yields notes (Check.resolveItem i) c u c' → Coherent c → Ready c st →
    OriginsFit notes c.scopes o →
    Keeps (visiting (Found notes)) ((tracing config).item i) (st, o) fun _ s' =>
      OriginsGrow notes c'.scopes o s'.2
  | .decl d, c, c', u, st, o, h, hc, hst, ho =>
    decl_origins (by simpa only [Check.resolveItem] using h) hc hst ho
  | .stmt s, c, c', u, st, o, h, hc, hst, ho => by
    have hs : Yields notes (Check.resolveStmt s) c u c' := by
      simpa only [Check.resolveItem] using h
    unfold Instrument.item
    refine (stmt_origins s hs hc hst ho).mono fun _ s' hs' => ?_
    rw [(Check.stmt_extends s (Check.stmt_checked hs)).2, hs']
    exact .refl ho

theorem items_origins : (us : List Item) →
    ∀ {c c' : Context} {u : Unit} {st : State} {o : Origins},
    Yields notes (Check.resolveItems us) c u c' → Coherent c → Ready c st →
    OriginsFit notes c.scopes o →
    Keeps (visiting (Found notes)) ((tracing config).items us) (st, o) fun _ s' =>
      OriginsGrow notes c'.scopes o s'.2
  | [], c, c', u, st, o, h, hc, hst, ho => by
    obtain ⟨-, rfl⟩ := Logged.yields_pure.mp (by simpa only [Check.resolveItems] using h)
    unfold Instrument.items
    exact Keeps.pure (.refl ho)
  | i :: rest, c, c', u, st, o, h, hc, hst, ho => by
    simp only [Check.resolveItems, Logged.yields_bind] at h
    obtain ⟨_, c₁, hi, hrest⟩ := h
    have hchecked := Check.item_checked hi
    have hc₁ := (Check.item_extends i hc.items_ne_nil hchecked).coherent hc
    have hready (w : Unit) (t : State) (hrun : Succeeds (item config i) st w t) : Ready c₁ t := by
      exact (item_safe i hchecked hc (fun _ hx => hx) hst).of_succeeds (fun _ => trivial)
        ((observing_faithful config).item i) hrun
    unfold Instrument.items
    refine Keeps.bind ((also_keeps (item_origins i hi hc hst ho) ((tracing_faithful config).item i)
      hready).mono ?_)
    rintro _ ⟨st₁, o₁⟩ ⟨hgrow, hst₁⟩
    exact (items_origins rest hrest hc₁ hst₁ hgrow.fits).mono fun _ _ hs => hgrow.trans hs

end

end Statements
end Signum.Analysis
