import Signum.Proofs.Run.Safety
import Signum.Proofs.Scoping.Resolution
/- The slots a run reaches.

   The instrument `tracing` carries the origins of the slots of a run and notes the visits to
   them. A run looks at an initializer before it adds the variable, and it reads and binds the
   nearest slot of a name, bound or not. In an accepted program the slots are where the checker's
   variables are, so this is the slot of the declaration the checker has in mind,
   however often a loop opens the scope it is in. -/
namespace Signum.Run

open Logged (Erases Keeps Yields)
open Check (Coherent TypedCond SeesExpr SeesCond)
open Traced (plain mark visit visiting plain_erases mark_erases visit_erases plain_keeps visit_keeps
  mark_keeps also_keeps)

/-- A step of a run that carries the origins of the slots. -/
abbrev Tracing := Traced Halt State

/-- Reads a variable from the nearest slot of its name. -/
def traceVar (name : Bytes) (s : Span) : Tracing Value := do
  let st ← plain get
  let place := nearest? name st.store.scopes
  visit (.read name s) name place
  match place.bind (Store.valueAt name st.store.scopes) with
  | some v => pure v
  | none => plain (fail .uninitialized s)

/-- Binds the nearest slot of the name that an assignment has. -/
def traceAssign (o : Occurrence) (name : Bytes) (v : Value) (s : Span) : Tracing Unit := do
  let st ← plain get
  let place := nearest? name st.store.scopes
  visit o name place
  match place.map (Store.bindAt name v st.store.scopes) with
  | some scopes => plain (modify fun st => { st with store := ⟨scopes⟩ })
  | none => plain (fail .uninitialized s)

/-- Runs in a scope of its own. -/
def traceWithin : Tracing Unit → Tracing Unit :=
  Logged.around (fun s => ({ s.1 with store := s.1.store.enter }, s.2.enter))
    fun s => ({ s.1 with store := s.1.store.exit.2 }, s.2.exit)

/-- Runs with the origins of the slots and a note of every visit to one. -/
def tracing : Instrument (State × Origins) Visit where
  lift := plain
  note _ := pure ()
  var := traceVar
  assign name value s v := traceAssign (.assign name value s) name v s
  introduce d v := do
    plain (introduce d v)
    mark (Origins.declare d)
  within := traceWithin

/-- Runs a program on some input, with the origins of its slots. -/
def traced (fuel : Nat) (p : Program) (input : Input) :
    Outcome Halt (State × Origins) Visit Unit :=
  tracing.items fuel p.units (State.start input, Origins.fresh)

/-- The slots that the names of a program reach when it runs on some input, in order. -/
def visits (fuel : Nat) (p : Program) (input : Input) : List Visit := (traced fuel p input).history

/-! The slots are those of the run: without origins and visits a traced step is the
step. -/

section Erases
variable {x : Tracing Unit} {m : M Unit}

theorem var_erases (name : Bytes) (s : Span) :
    Erases Prod.fst (traceVar name s) (expr (.var name s)) := by
  unfold expr
  refine Erases.bind (plain_erases _) fun st => .skip (visit_erases _ _ _) ?_
  rw [Store.lookup?_eq_valueAt]
  cases (nearest? name st.store.scopes).bind (Store.valueAt name st.store.scopes) with
  | some v => exact .pure v
  | none => exact plain_erases _

theorem assign_erases (o : Occurrence) (name : Bytes) (v : Value) (s : Span) :
    Erases Prod.fst (traceAssign o name v s) (assign name v s) := by
  unfold assign
  refine Erases.bind (plain_erases get) fun st => .skip (visit_erases _ _ _) ?_
  rw [Store.bind?, Store.bindIn_eq_bindAt]
  cases (nearest? name st.store.scopes).map (Store.bindAt name v st.store.scopes) with
  | some scopes => exact plain_erases _
  | none => exact plain_erases _

theorem run_within (m : M Unit) (s : State) : (within m).run.run s =
    ((m.run.run { s with store := s.store.enter }).1,
      { (m.run.run { s with store := s.store.enter }).2 with
        store := (m.run.run { s with store := s.store.enter }).2.store.exit.2 }) := rfl

theorem within_erases (h : Erases Prod.fst x m) : Erases Prod.fst (traceWithin x) (within m) := by
  intro s
  have hx := h ({ s.1 with store := s.1.store.enter }, s.2.enter)
  rw [run_within, ← hx]
  rfl

theorem tracing_faithful : tracing.Faithful Prod.fst where
  lift := plain_erases
  note _ := .pure ()
  var := var_erases
  assign name value s v := assign_erases (.assign name value s) name v s
  introduce _ _ := .noted (plain_erases _) fun _ => mark_erases _
  within := within_erases

end Erases

/-- A traced run ends as the run does. -/
theorem traced_eq_run (fuel : Nat) (p : Program) (input : Input) :
    ((traced fuel p input).result, (traced fuel p input).state.1) = run fuel p input :=
  tracing_faithful.items fuel p.units _

/-! The visits of an accepted program find the declarations of the checker. -/

section Expressions
variable {notes : List Finding} {scopes : Scopes} {assigned : List Nat} {st : State} {o : Origins}

theorem var_keeps {name : Bytes} {s : Span} {v : Variable}
    (hv : scopes.search? name = some (.variable v)) (hn : .resolved (.read name s) v ∈ notes)
    (hfit : Fits (CellFits assigned) scopes.items st.store.scopes)
    (ho : OriginsFit notes scopes o) :
    Keeps (visiting (Found notes)) (traceVar name s) (st, o) fun _ s' => s' = (st, o) := by
  obtain ⟨i, w, hcell, hi, -, -⟩ := hfit.nearest hv
  refine Keeps.bind (plain_keeps fun _ _ hget => ?_)
  obtain ⟨rfl, rfl⟩ := succeeds_get.mp hget
  refine Keeps.bind (visit_keeps ?_ ?_)
  · rw [nearest?_eq_some hi]
    exact ho.found hcell hn
  · cases (nearest? name st.store.scopes).bind (Store.valueAt name st.store.scopes) with
    | some v => exact Keeps.pure rfl
    | none => exact plain_keeps fun _ _ hfail => (succeeds_throw.mp hfail).elim

theorem computed_keeps {P : Visit → Prop} {e : Expr} {v : Value} {s : State × Origins}
    {Q : Value → State × Origins → Prop} (h : Q v s) :
    Keeps (visiting P) (tracing.computed e v) s Q :=
  Keeps.bind (Keeps.pure (Keeps.pure h))

/-- Reading input leaves the store alone. -/
theorem take_store {α : Type} {read : Input → Option α × Input} {s : Span} {a : α} {t : State}
    (h : Succeeds (take read s) st a t) : t.store = st.store := by
  have hsafe := take_safe st read s
  rw [h] at hsafe
  exact hsafe

theorem arith_store {op : BinaryOp} {s : Span} {a b v : Value} {t : State}
    (h : Succeeds (arith op s a b) st v t) : t.store = st.store := by
  unfold arith at h
  split at h
  · split at h
    · rw [(succeeds_pure.mp h).2]
    · exact (succeeds_throw.mp h).elim
  · split at h
    · rw [(succeeds_pure.mp h).2]
    · exact (succeeds_throw.mp h).elim
  · exact (succeeds_throw.mp h).elim

/-- The names of an expression reach the slots the checker means. -/
theorem expr_keeps {e : Expr} (he : SeesExpr notes scopes assigned e)
    (hfit : Fits (CellFits assigned) scopes.items st.store.scopes)
    (ho : OriginsFit notes scopes o) :
    Keeps (visiting (Found notes)) (tracing.expr e) (st, o) fun _ s' =>
      ∃ t, s' = (t, o) ∧ t.store = st.store := by
  induction e generalizing st with
  | var name s =>
    obtain ⟨v, hv, -, hn⟩ := he
    exact Keeps.bind ((var_keeps hv hn hfit ho).mono fun _ _ hs => computed_keeps ⟨st, hs, rfl⟩)
  | neg e s ih =>
    refine Keeps.bind ((ih he hfit).mono ?_)
    rintro a _ ⟨st₁, rfl, hstore⟩
    exact Keeps.bind (Keeps.pure (computed_keeps ⟨st₁, rfl, hstore⟩))
  | binary op l r s ihl ihr =>
    refine Keeps.bind ((ihl he.1 hfit).mono ?_)
    rintro a _ ⟨st₁, rfl, hstore₁⟩
    refine Keeps.bind ((ihr he.2 (by rw [hstore₁]; exact hfit)).mono ?_)
    rintro b _ ⟨st₂, rfl, hstore₂⟩
    refine Keeps.bind (Keeps.pure (Keeps.bind (plain_keeps fun v t harith => ?_)))
    refine computed_keeps ⟨t, rfl, ?_⟩
    exact ((arith_store harith).trans hstore₂).trans hstore₁
  | int | float =>
    refine Keeps.bind (plain_keeps fun v t hpure => computed_keeps ⟨t, rfl, ?_⟩)
    exact congrArg State.store (succeeds_pure.mp hpure).2.symm
  | readInt s | readFloat s =>
    refine Keeps.bind (plain_keeps fun v t hread => computed_keeps ⟨t, rfl, ?_⟩)
    simp only [expr, succeeds_bind, succeeds_pure] at hread
    obtain ⟨_, _, htake, -, rfl⟩ := hread
    exact take_store htake

theorem cond_keeps {b : Cond} (hb : SeesCond notes scopes assigned b)
    (hfit : Fits (CellFits assigned) scopes.items st.store.scopes)
    (ho : OriginsFit notes scopes o) :
    Keeps (visiting (Found notes)) (tracing.cond b) (st, o) fun _ s' =>
      ∃ t, s' = (t, o) ∧ t.store = st.store := by
  induction b generalizing st with
  | compare op l r s =>
    refine Keeps.bind ((expr_keeps hb.1 hfit ho).mono ?_)
    rintro a _ ⟨st₁, rfl, hstore₁⟩
    refine Keeps.bind ((expr_keeps hb.2 (by rw [hstore₁]; exact hfit) ho).mono ?_)
    rintro b _ ⟨st₂, rfl, hstore₂⟩
    exact Keeps.pure ⟨st₂, rfl, hstore₂.trans hstore₁⟩
  | logical op l r s ihl ihr =>
    have hright {st₁ : State} (hstore₁ : st₁.store = st.store) :
        Keeps (visiting (Found notes)) (tracing.cond r) (st₁, o) fun _ s' =>
          ∃ t, s' = (t, o) ∧ t.store = st.store := by
      refine (ihr hb.2 (by rw [hstore₁]; exact hfit)).mono ?_
      rintro _ _ ⟨t, rfl, hstore⟩
      exact ⟨t, rfl, hstore.trans hstore₁⟩
    cases op with
    | and =>
      refine Keeps.bind ((ihl hb.1 hfit).mono ?_)
      rintro holds _ ⟨st₁, rfl, hstore₁⟩
      cases holds with
      | true => exact hright hstore₁
      | false => exact Keeps.pure ⟨st₁, rfl, hstore₁⟩
    | or =>
      refine Keeps.bind ((ihl hb.1 hfit).mono ?_)
      rintro holds _ ⟨st₁, rfl, hstore₁⟩
      cases holds with
      | true => exact Keeps.pure ⟨st₁, rfl, hstore₁⟩
      | false => exact hright hstore₁
  | not b s ih =>
    refine Keeps.bind ((ih hb hfit).mono ?_)
    rintro holds _ ⟨st₁, rfl, hstore⟩
    exact Keeps.pure ⟨st₁, rfl, hstore⟩

end Expressions

section Statements
variable {fuel : Nat} {notes : List Finding} {c c' : Context} {u : Unit} {st : State} {o : Origins}

/-- An assignment visits the slot of the variable in sight. -/
theorem traceAssign_keeps {occurrence : Occurrence} {name : Bytes} {v : Variable} {x : Value}
    {s : Span} (hfit : StoreFits c st.store) (ho : OriginsFit notes c.scopes o)
    (hv : c.scopes.search? name = some (.variable v)) (hn : .resolved occurrence v ∈ notes) :
    Keeps (visiting (Found notes)) (traceAssign occurrence name x s) (st, o) fun _ s' =>
      s'.2 = o := by
  obtain ⟨i, w, hcell, hi, -, -⟩ := Fits.nearest hfit hv
  refine Keeps.bind (plain_keeps fun _ _ hget => ?_)
  obtain ⟨rfl, rfl⟩ := succeeds_get.mp hget
  refine Keeps.bind (visit_keeps ?_ ?_)
  · rw [nearest?_eq_some hi]
    exact ho.found hcell hn
  · split
    · exact plain_keeps fun _ _ _ => rfl
    · exact plain_keeps fun _ _ _ => rfl

/-- A statement visits the slots the checker means, and leaves the origins alone. -/
def KeepsOrigins (fuel : Nat) (notes : List Finding) (s : Stmt) : Prop :=
  ∀ ⦃c c' : Context⦄ ⦃u : Unit⦄ ⦃st : State⦄ ⦃o : Origins⦄,
    Yields notes (Check.resolveStmt s) c u c' → Coherent c → StoreFits c st.store →
    OriginsFit notes c.scopes o →
    Keeps (visiting (Found notes)) (tracing.stmt fuel s) (st, o) fun _ s' => s'.2 = o

theorem assign_origins (name : Bytes) (value : Expr) (s : Span) :
    KeepsOrigins fuel notes (.assign name value s) := by
  intro c c' u st o h hc hfit ho
  obtain ⟨v, hv, hn, hsees⟩ := Check.assign_yields h
  unfold Instrument.stmt
  refine Keeps.bind ((expr_keeps hsees hfit ho).mono ?_)
  rintro a _ ⟨st₁, rfl, hstore⟩
  exact traceAssign_keeps (hstore ▸ hfit) ho hv hn

theorem print_origins (value : Expr) (s : Span) : KeepsOrigins fuel notes (.print value s) := by
  intro c c' u st o h hc hfit ho
  have hsees := Check.print_yields h
  unfold Instrument.stmt
  refine Keeps.bind ((expr_keeps hsees hfit ho).mono ?_)
  rintro a _ ⟨st₁, rfl, -⟩
  exact Keeps.bind (Keeps.pure (plain_keeps fun _ _ _ => rfl))

theorem block_origins {body : List Item} {s : Span}
    (ih : ∀ {c c' : Context} {u : Unit} {st : State} {o : Origins},
      Yields notes (Check.resolveItems body) c u c' → Coherent c → StoreFits c st.store →
      OriginsFit notes c.scopes o →
      Keeps (visiting (Found notes)) (tracing.items fuel body) (st, o) fun _ s' =>
        OriginsGrow notes c'.scopes o s'.2) :
    KeepsOrigins fuel notes (.block body s) := by
  intro c c' u st o h hc hfit ho
  obtain ⟨c₁, hbody, rfl⟩ := Check.within_yields (by simpa only [Check.resolveStmt] using h)
  have hfit₁ : StoreFits { c with scopes := c.scopes.push } st.store.enter := Fits.push hfit
  unfold Instrument.stmt
  change Keeps _ (traceWithin (tracing.items fuel body)) (st, o) _
  refine Keeps.around ?_
  refine (ih hbody (Check.push_coherent hc) hfit₁ ho.enter).mono fun _ s' hs' => ?_
  exact hs'.exit (ho.ne_nil hc.nested)

theorem ite_origins {b : Cond} {yes : Stmt} {s : Span} (ih : KeepsOrigins fuel notes yes) :
    KeepsOrigins fuel notes (.ite b yes none s) := by
  intro c c' u st o h hc hfit ho
  obtain ⟨c₁, c₂, hr, -, hsees, hyes, rfl⟩ :=
    Check.guarded_yields (by simpa only [Check.resolveStmt] using h)
  have hc₁ := (Check.Extends.of_records hr).coherent hc
  obtain ⟨more, rfl⟩ := hr
  unfold Instrument.stmt
  refine Keeps.bind ((cond_keeps hsees hfit ho).mono ?_)
  rintro holds _ ⟨st₁, rfl, hstore⟩
  refine Keeps.bind (Keeps.pure ?_)
  rw [← hstore] at hfit
  cases holds with
  | true => exact ih hyes hc₁ hfit ho
  | false => exact Keeps.pure rfl

theorem iteElse_origins {b : Cond} {yes no : Stmt} {s : Span}
    (ihy : KeepsOrigins fuel notes yes) (ihn : KeepsOrigins fuel notes no) :
    KeepsOrigins fuel notes (.ite b yes (some no) s) := by
  intro c c' u st o h hc hfit ho
  obtain ⟨c₁, c₂, c₃, hr, -, hsees, hyes, hno, rfl⟩ := Check.iteElse_yields h
  obtain ⟨ext, hscopes⟩ := Check.stmt_extends yes (Check.stmt_checked hyes)
  have hc₁ := (Check.Extends.of_records hr).coherent hc
  obtain ⟨more, rfl⟩ := hr
  unfold Instrument.stmt
  refine Keeps.bind ((cond_keeps hsees hfit ho).mono ?_)
  rintro holds _ ⟨st₁, rfl, hstore⟩
  refine Keeps.bind (Keeps.pure ?_)
  rw [← hstore] at hfit
  cases holds with
  | true => exact ihy hyes hc₁ hfit ho
  | false =>
    have ho₂ : OriginsFit notes c₂.scopes o := by
      rw [hscopes]
      exact ho
    exact ihn hno (ext.restored.coherent hc₁) (hfit.weaken hscopes fun _ hx => hx) ho₂

/-- Every round of a loop starts with a store that fits and with the same origins. -/
theorem loop_origins {b : Cond} {body : Stmt} {s : Span} (ih : KeepsOrigins fuel notes body) :
    KeepsOrigins fuel notes (.loop b body s) := by
  intro c c' u st o h hc hfit ho
  obtain ⟨c₁, c₂, hr, -, hsees, hbody, rfl⟩ :=
    Check.guarded_yields (by simpa only [Check.resolveStmt] using h)
  have hchecked := Check.stmt_checked hbody
  obtain ⟨ext, hscopes⟩ := Check.stmt_extends body hchecked
  have hc₁ := (Check.Extends.of_records hr).coherent hc
  obtain ⟨more, rfl⟩ := hr
  unfold Instrument.stmt
  -- a round may assign more, but the next one starts from what the test was checked with
  refine tracing.repeats_keeps (P := fun s => StoreFits c s.1.store ∧ s.2 = o)
    (fun _ _ => plain_keeps fun _ _ hstop => (succeeds_throw.mp hstop).elim) ?_ fuel ⟨hfit, rfl⟩
  rintro ⟨st₁, o₁⟩ ⟨hfit₁, ho₁⟩
  obtain rfl : o₁ = o := ho₁
  refine Keeps.bind ((cond_keeps hsees hfit₁ ho).mono ?_)
  rintro holds _ ⟨st₂, rfl, hstore⟩
  refine Keeps.bind (Keeps.pure ?_)
  rw [← hstore] at hfit₁
  cases holds with
  | false => exact Keeps.pure rfl
  | true =>
    have hafter (w : Unit) (t : State) (hrun : Succeeds (stmt fuel body) st₂ w t) :
        StoreFits c t.store := by
      have hfit₂ := (stmt_safe body hchecked hc₁ (fun _ hx => hx) hfit₁).of_succeeds
        (fun _ => trivial) (observing_faithful.stmt fuel body) hrun
      exact hfit₂.weaken hscopes.symm ext.assigned
    refine Keeps.bind ((also_keeps (ih hbody hc₁ hfit₁ ho) (tracing_faithful.stmt fuel body)
      hafter).mono fun _ s' hs' => ?_)
    exact Keeps.pure ⟨hs'.2, hs'.1⟩

/-- A declaration looks at its initializer, and then adds its slot. -/
theorem decl_origins {d : Decl} (h : Yields notes (Check.resolveDecl d) c u c') (hc : Coherent c)
    (hfit : StoreFits c st.store) (ho : OriginsFit notes c.scopes o) :
    Keeps (visiting (Found notes)) (tracing.item fuel (.decl d)) (st, o) fun _ s' =>
      OriginsGrow notes c'.scopes o s'.2 := by
  obtain ⟨hmade, hsees⟩ := Check.decl_yields h
  obtain ⟨c₁, hd, -, -, rfl⟩ := Check.decl_accepted (Check.forget_resolveDecl d ▸ h.1)
  have hinit : Keeps (visiting (Found notes)) (tracing.init d.init) (st, o) fun _ s' =>
      s'.2 = o := by
    cases he : d.init with
    | none => exact Keeps.pure rfl
    | some e =>
      refine Keeps.bind ((expr_keeps (hsees e he) hfit ho).mono ?_)
      rintro v _ ⟨st₁, rfl, -⟩
      exact Keeps.pure rfl
  unfold Instrument.item
  refine Keeps.bind (hinit.mono ?_)
  rintro init ⟨st₁, o₁⟩ ho₁
  obtain rfl : o₁ = o := ho₁
  refine Keeps.bind (plain_keeps fun _ _ _ => mark_keeps ?_)
  exact OriginsGrow.declare ho hc.nested hd hmade

mutual

/-- A statement visits the slots the checker means. -/
theorem stmt_origins : (s : Stmt) → KeepsOrigins fuel notes s
  | .assign name value s => assign_origins name value s
  | .print value s => print_origins value s
  | .block body _ => block_origins (items_origins body)
  | .ite _ yes none _ => ite_origins (stmt_origins yes)
  | .ite _ yes (some no) _ => iteElse_origins (stmt_origins yes) (stmt_origins no)
  | .loop _ body _ => loop_origins (stmt_origins body)

theorem item_origins : (i : Item) → ∀ {c c' : Context} {u : Unit} {st : State} {o : Origins},
    Yields notes (Check.resolveItem i) c u c' → Coherent c → StoreFits c st.store →
    OriginsFit notes c.scopes o →
    Keeps (visiting (Found notes)) (tracing.item fuel i) (st, o) fun _ s' =>
      OriginsGrow notes c'.scopes o s'.2
  | .decl d, c, c', u, st, o, h, hc, hfit, ho =>
    decl_origins (by simpa only [Check.resolveItem] using h) hc hfit ho
  | .stmt s, c, c', u, st, o, h, hc, hfit, ho => by
    have hs : Yields notes (Check.resolveStmt s) c u c' := by
      simpa only [Check.resolveItem] using h
    unfold Instrument.item
    refine (stmt_origins s hs hc hfit ho).mono fun _ s' hs' => ?_
    rw [(Check.stmt_extends s (Check.stmt_checked hs)).2, hs']
    exact .refl ho

theorem items_origins : (us : List Item) →
    ∀ {c c' : Context} {u : Unit} {st : State} {o : Origins},
    Yields notes (Check.resolveItems us) c u c' → Coherent c → StoreFits c st.store →
    OriginsFit notes c.scopes o →
    Keeps (visiting (Found notes)) (tracing.items fuel us) (st, o) fun _ s' =>
      OriginsGrow notes c'.scopes o s'.2
  | [], c, c', u, st, o, h, hc, hfit, ho => by
    obtain ⟨-, rfl⟩ := Logged.yields_pure.mp (by simpa only [Check.resolveItems] using h)
    unfold Instrument.items
    exact Keeps.pure (.refl ho)
  | i :: rest, c, c', u, st, o, h, hc, hfit, ho => by
    simp only [Check.resolveItems, Logged.yields_bind] at h
    obtain ⟨_, c₁, hi, hrest⟩ := h
    have hchecked := Check.item_checked hi
    have hc₁ := (Check.item_extends i hc.items_ne_nil hchecked).coherent hc
    have hafter (w : Unit) (t : State) (hrun : Succeeds (item fuel i) st w t) :
        StoreFits c₁ t.store := by
      exact (item_safe i hchecked hc (fun _ hx => hx) hfit).of_succeeds (fun _ => trivial)
        (observing_faithful.item fuel i) hrun
    unfold Instrument.items
    refine Keeps.bind ((also_keeps (item_origins i hi hc hfit ho) (tracing_faithful.item fuel i)
      hafter).mono ?_)
    rintro _ ⟨st₁, o₁⟩ ⟨hgrow, hfit₁⟩
    exact (items_origins rest hrest hc₁ hfit₁ hgrow.fits).mono fun _ _ hs => hgrow.trans hs

end

end Statements
end Signum.Run
