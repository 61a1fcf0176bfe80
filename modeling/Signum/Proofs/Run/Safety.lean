import Signum.Proofs.Fits
import Signum.Proofs.Run.History
/- Accepted programs run safely.

   A store fits the checker's context when it has the variables in sight, each with a
   value of its type and with one at all when the variable is assigned. Every step of an
   accepted program keeps the store fitting the context the checker had at that point;
   so no variable is read before it has a value, no operands differ in type, nothing is
   declared twice, and each expression gets a value of its recorded type. What is left
   to stop a run is a division by zero, input that cannot be read, or the number of
   rounds it is followed for. -/
namespace Signum.Run

open Logged (Keeps)
open Check (Typed TypedCond Coherent)

/-- A run may stop in this way although its program was accepted. -/
def Halt.Harmless : Halt → Prop
  | .failed .divisionByZero _ => True
  | .failed .failedRead _ => True
  | .unfinished => True
  | _ => False

/-- What is promised of accepted programs: values have their recorded types. -/
def safety (types : List (Expr × NumType)) : Promise Halt Observation where
  seen
    | .value e v => ∃ t, (e, t) ∈ types ∧ v.type? = some t
    | _ => True
  fair _ := True
  stop := Halt.Harmless

section Expressions
variable {scopes : Scopes} {assigned : List Nat} {types : List (Expr × NumType)} {st : State}

theorem computed_safe {e : Expr} {v : Value} {t : NumType} {Q : Value → State → Prop}
    (hrec : (e, t) ∈ types) (hv : v.type? = some t) (hq : Q v st) :
    Keeps (safety types) (observing.computed e v) st Q :=
  Keeps.bind (Keeps.note ⟨t, hrec, hv⟩ fun _ => Keeps.pure hq)

/-- Operands of one type give a value of that type, unless a division is by zero. -/
theorem arith_safe {op : BinaryOp} {s : Span} {a b : Value} {t : NumType}
    (ha : a.type? = some t) (hb : b.type? = some t) :
    Keeps (safety types) (Logged.lift (arith op s a b)) st
      fun v st' => v.type? = some t ∧ st' = st := by
  refine Keeps.lift ?_
  cases a <;> cases b <;> cases t <;> simp only [Value.type?, reduceCtorEq, Option.some.injEq] at ha hb
  · unfold arith
    dsimp only
    cases applyInt? op _ _ with
    | some r => exact ⟨rfl, rfl⟩
    | none => trivial
  · unfold arith
    dsimp only
    cases applyFloat? op _ _ with
    | some r => exact ⟨rfl, rfl⟩
    | none => trivial

theorem negate_type (v : Value) : (negate v).type? = v.type? := by cases v <;> rfl

/-- A variable that is assigned is found in a store that fits, with a value of its
type. -/
theorem lookup?_fits {name : Bytes} {v : Variable} {store : Store}
    (hfit : Fits (CellFits assigned) scopes.items store.scopes)
    (hv : scopes.search? name = some (.variable v)) (ha : v.number ∈ assigned) :
    ∃ x, store.lookup? name = some x ∧ x.type? = some v.type := by
  obtain ⟨i, w, -, hi, hw, hcell⟩ := hfit.nearest hv
  obtain ⟨x, rfl⟩ := Option.isSome_iff_exists.mp (hcell.bound ha)
  exact ⟨x, by rw [Store.lookup?_eq_cell hi, hw]; rfl, hcell.value x rfl⟩

theorem take_safe {α : Type} (st : State) (read : Input → Option α × Input) (s : Span) :
    match (take read s).run.run st with
    | (.ok _, st') => st'.store = st.store
    | (.error h, _) => h.Harmless := by
  simp only [take, run_bind, run_get, run_modify]
  cases (read st.input).1 with
  | some a => rfl
  | none => trivial

theorem expr_safe {e : Expr} {t : NumType} (ht : Typed scopes assigned types e t)
    (hfit : Fits (CellFits assigned) scopes.items st.store.scopes) :
    Keeps (safety types) (observing.expr e) st fun v st' =>
      v.type? = some t ∧ st'.store = st.store := by
  induction ht generalizing st with
  | int hm | float hm =>
    refine Keeps.bind (Keeps.lift_ok (succeeds_pure.mpr ⟨rfl, rfl⟩) ?_)
    exact computed_safe hm rfl ⟨rfl, rfl⟩
  | @readInt s hm =>
    refine Keeps.bind (Keeps.lift ?_)
    have h := take_safe st Input.readInt s
    simp only [expr, run_bind]
    generalize (take Input.readInt s).run.run st = out at h
    obtain ⟨r | i, st'⟩ := out
    · exact h
    · exact computed_safe hm rfl ⟨rfl, h⟩
  | @readFloat s hm =>
    refine Keeps.bind (Keeps.lift ?_)
    have h := take_safe st Input.readFloat s
    simp only [expr, run_bind]
    generalize (take Input.readFloat s).run.run st = out at h
    obtain ⟨r | f, st'⟩ := out
    · exact h
    · exact computed_safe hm rfl ⟨rfl, h⟩
  | @var name s v hv ha hm =>
    obtain ⟨x, hx, hxt⟩ := lookup?_fits hfit hv ha
    refine Keeps.bind (Keeps.lift_ok (a := x) (t := st) ?_ (computed_safe hm hxt ⟨hxt, rfl⟩))
    simp only [expr, succeeds_bind, succeeds_get]
    exact ⟨st, st, ⟨rfl, rfl⟩, by rw [hx]; exact succeeds_pure.mpr ⟨rfl, rfl⟩⟩
  | neg _ hm ih =>
    refine Keeps.bind ((ih hfit).mono ?_)
    rintro v st₁ ⟨hv, hst⟩
    refine Keeps.bind (Keeps.note trivial fun _ => ?_)
    have hn := (negate_type v).trans hv
    exact computed_safe hm hn ⟨hn, hst⟩
  | binary _ _ hm ihl ihr =>
    refine Keeps.bind ((ihl hfit).mono ?_)
    rintro a st₁ ⟨ha, hst₁⟩
    refine Keeps.bind ((ihr (by rw [hst₁]; exact hfit)).mono ?_)
    rintro b st₂ ⟨hb, hst₂⟩
    refine Keeps.bind (Keeps.note trivial fun _ => ?_)
    refine Keeps.bind ((arith_safe ha hb).mono ?_)
    rintro v st₃ ⟨hv, hst₃⟩
    exact computed_safe hm hv ⟨hv, by rw [hst₃, hst₂, hst₁]⟩

theorem cond_safe {b : Cond} (hb : TypedCond scopes assigned types b)
    (hfit : Fits (CellFits assigned) scopes.items st.store.scopes) :
    Keeps (safety types) (observing.cond b) st fun _ st' => st'.store = st.store := by
  induction hb generalizing st with
  | compare hl hr =>
    refine Keeps.bind ((expr_safe hl hfit).mono ?_)
    rintro a st₁ ⟨-, hst₁⟩
    refine Keeps.bind ((expr_safe hr (by rw [hst₁]; exact hfit)).mono ?_)
    rintro b st₂ ⟨-, hst₂⟩
    exact Keeps.pure (hst₂.trans hst₁)
  | @logical op l r s _ _ ihl ihr =>
    cases op with
    | and =>
      refine Keeps.bind ((ihl hfit).mono fun holds st₁ hst₁ => ?_)
      cases holds with
      | true => exact (ihr (by rw [hst₁]; exact hfit)).mono fun _ _ h => h.trans hst₁
      | false => exact Keeps.pure hst₁
    | or =>
      refine Keeps.bind ((ihl hfit).mono fun holds st₁ hst₁ => ?_)
      cases holds with
      | true => exact Keeps.pure hst₁
      | false => exact (ihr (by rw [hst₁]; exact hfit)).mono fun _ _ h => h.trans hst₁
  | not _ ih => exact Keeps.bind ((ih hfit).mono fun _ _ h => Keeps.pure h)

end Expressions

/-! A store goes on fitting: the steps that change it. -/

/-- Assigning a variable in sight succeeds, and the variable counts as assigned. -/
theorem assign_safe {c : Context} {store : Store} {name : Bytes} {v : Variable} {x : Value}
    (hfit : StoreFits c store) (hc : Coherent c) (hv : c.scopes.search? name = some (.variable v))
    (hx : x.type? = some v.type) : ∃ i store', store.bind? name x = some store' ∧
      cell c.scopes.items i name = some (.variable v) ∧
      Sets store.scopes i name (some x) store'.scopes ∧
      StoreFits { c with assigned := c.assigned.insert v.number } store' := by
  obtain ⟨i, w, hcell, hi, hw, -⟩ := Fits.nearest hfit hv
  obtain ⟨scopes', hb⟩ := Store.bindIn_isSome (v := x) hi
  obtain ⟨j, hj, hset⟩ := Store.bindIn_eq_some hb
  obtain rfl := nearest_unique hi hj
  refine ⟨i, ⟨scopes'⟩, by simp [Store.bind?, hb], hcell, hset, ?_⟩
  refine Fits.set hfit hcell hset ⟨fun y hy => ?_, fun _ => rfl⟩ fun k m u y hkm hu hy => ?_
  · obtain rfl : x = y := by simpa using hy
    exact hx
  · exact hy.weaken (hc.mem_insert hcell hu hkm)

/-- Declaring a variable succeeds in a store that fits. -/
theorem declare_safe {c : Context} {store : Store} {d : Decl} (hfit : StoreFits c store)
    (hc : Coherent c) (hd : c.scopes.declaredHere d.name = false) :
    ∃ store', store.declare d.name = (true, store') ∧
      Sets store.scopes 0 d.name none store'.scopes ∧ StoreFits { c with
        scopes := c.scopes.add d.name (.variable (Check.declared c d)),
        «variables» := c.variables.push (Check.declared c d) } store' := by
  have hn := hc.nested
  have hh := Fits.height hfit
  obtain ⟨hfree, hnames, -⟩ := Check.sets_declared (o := .variable (Check.declared c d)) hd
    hc.items_ne_nil
  obtain ⟨scopes⟩ := store
  cases scopes with
  | nil => simp only [List.length_nil] at hh; omega
  | cons here rest =>
    have hhere : here.lookup d.name = none := Fits.free hfit hfree
    have hset := sets_cons here rest d.name (none : Option Value)
    refine ⟨⟨((d.name, none) :: here) :: rest⟩, by simp [Store.declare, hhere], hset, ?_⟩
    refine Fits.declare hfit hnames hset
      ⟨fun _ h => (by cases h), fun hm => ?_⟩ fun _ _ _ _ _ hy => hy
    exact absurd (hc.assigned_lt _ hm) (Nat.lt_irrefl _)

theorem exit_safe {c : Context} {store : Store} (hfit : StoreFits c store)
    (hn : 3 ≤ c.scopes.items.length) :
    StoreFits { c with scopes := c.scopes.pop } store.exit.2 := by
  have hh := Fits.height hfit
  unfold StoreFits
  rw [hfit.exit_scopes hn]
  exact Fits.pop hfit (List.ne_nil_of_length_pos (by omega))

/-- Adding the variable of an accepted declaration succeeds. -/
theorem introduce_safe {c : Context} {st : State} {d : Decl} {init : Option Value}
    (hfit : StoreFits c st.store) (hc : Coherent c)
    (hd : c.scopes.declaredHere d.name = false)
    (hinit : ∀ x, init = some x → x.type? = some d.type) :
    ∃ store', Succeeds (introduce d init) st () { st with store := store' } ∧
      Sets st.store.scopes 0 d.name init store'.scopes ∧ StoreFits { c with
        scopes := c.scopes.add d.name (.variable (Check.declared c d)),
        «variables» := c.variables.push (Check.declared c d),
        assigned := if init.isSome then c.assigned.insert c.variables.size else c.assigned } store' := by
  obtain ⟨store₁, hdecl, hset₁, hfit₁⟩ := declare_safe hfit hc hd
  cases init with
  | none =>
    refine ⟨store₁, ?_, hset₁, hfit₁⟩
    simp [introduce, succeeds_get_bind, hdecl, succeeds_modify]
  | some x =>
    have hc₁ := Check.decl_coherent hd hc
    obtain ⟨i, store₂, hbind, hcell, hset₂, hfit₂⟩ := assign_safe hfit₁ hc₁
      (Check.search?_add hc.items_ne_nil) (hinit x rfl)
    obtain ⟨rfl, -⟩ := hc₁.same_cell hcell (Check.cell_add hc.items_ne_nil) rfl
    refine ⟨store₂, ?_, hset₁.again hset₂, hfit₂⟩
    simp [introduce, succeeds_get_bind, hdecl, succeeds_modify, hbind]

section Statements
variable {types : List (Expr × NumType)} {fuel : Nat}

theorem init_safe {scopes : Scopes} {assigned : List Nat} {st : State} {t : NumType}
    (init : Option Expr) (ht : ∀ e, init = some e → Typed scopes assigned types e t)
    (hfit : Fits (CellFits assigned) scopes.items st.store.scopes) :
    Keeps (safety types) (observing.init init) st fun x st' =>
      (∀ v, x = some v → v.type? = some t) ∧ x.isSome = init.isSome ∧ st'.store = st.store := by
  cases init with
  | none => exact Keeps.pure ⟨fun _ h => (by cases h), rfl, rfl⟩
  | some e =>
    refine Keeps.bind ((expr_safe (ht e rfl) hfit).mono ?_)
    rintro v st' ⟨hv, hst⟩
    refine Keeps.pure ⟨fun w hw => ?_, rfl, hst⟩
    obtain rfl : v = w := by simpa using hw
    exact hv

theorem decl_safe {d : Decl} {c c' : Context} {u : Unit} {st : State}
    (h : Succeeds (Check.decl d) c u c') (hc : Coherent c) (ht : c'.types.toList ⊆ types)
    (hfit : StoreFits c st.store) :
    Keeps (safety types) (observing.item fuel (.decl d)) st fun _ st' =>
      StoreFits c' st'.store := by
  obtain ⟨c₁, hd, -, hinit, rfl⟩ := Check.decl_accepted h
  unfold Instrument.item
  refine Keeps.bind ((init_safe d.init (fun e he => (hinit e he).mono ht) hfit).mono ?_)
  rintro x st₁ ⟨hx, hsome, hst⟩
  rw [← hst] at hfit
  obtain ⟨store', hintro, -, hfit'⟩ := introduce_safe hfit hc hd hx
  rw [hsome] at hfit'
  exact Keeps.lift_ok hintro hfit'

/-- In the checker's contexts before and after it, a statement keeps the store fitting. -/
def KeepsFitting (types : List (Expr × NumType)) (fuel : Nat) (s : Stmt) : Prop :=
  ∀ {c c' : Context} {u : Unit} {st : State}, Succeeds (Check.stmt s) c u c' → Coherent c →
    c'.types.toList ⊆ types → StoreFits c st.store →
    Keeps (safety types) (observing.stmt fuel s) st fun _ st' => StoreFits c' st'.store

theorem assign_fitting (name : Bytes) (value : Expr) (s : Span) :
    KeepsFitting types fuel (.assign name value s) := by
  intro c c' u st h hc ht hfit
  obtain ⟨v, c₁, hv, ⟨more, rfl⟩, hvalue, rfl⟩ := Check.assign_accepted h
  unfold Instrument.stmt
  refine Keeps.bind ((expr_safe (hvalue.mono ht) hfit).mono ?_)
  rintro x st₁ ⟨hx, hst⟩
  obtain ⟨-, store', hbind, -, -, hfit'⟩ := assign_safe hfit hc hv hx
  refine Keeps.lift_ok (a := ()) (t := { st₁ with store := store' }) ?_ hfit'
  simp [assign, succeeds_get_bind, hst, hbind, succeeds_modify]

theorem print_fitting (value : Expr) (s : Span) : KeepsFitting types fuel (.print value s) := by
  intro c c' u st h hc ht hfit
  obtain ⟨⟨more, rfl⟩, t, hvalue⟩ := Check.print_accepted h
  unfold Instrument.stmt
  refine Keeps.bind ((expr_safe (hvalue.mono ht) hfit).mono ?_)
  rintro x st₁ ⟨hx, hst⟩
  refine Keeps.bind (Keeps.note trivial fun _ => ?_)
  rw [← hst] at hfit
  exact Keeps.lift_ok (a := ()) (succeeds_modify.mpr rfl) hfit

theorem block_fitting {body : List Item} {s : Span}
    (ih : ∀ {c c' : Context} {u : Unit} {st : State}, Succeeds (Check.items body) c u c' →
      Coherent c → c'.types.toList ⊆ types → StoreFits c st.store →
      Keeps (safety types) (observing.items fuel body) st fun _ st' => StoreFits c' st'.store) :
    KeepsFitting types fuel (.block body s) := by
  intro c c' u st h hc ht hfit
  obtain ⟨c₁, hbody, rfl⟩ := Check.within_accepted (by simpa only [Check.stmt] using h)
  have ext := Check.items_extends body (by simp [Scopes.push]) hbody
  unfold Instrument.stmt
  change Keeps _ (inScope (observing.items fuel body)) st _
  refine Keeps.around ?_
  have hfit₁ : StoreFits { c with scopes := c.scopes.push } st.store.enter := Fits.push hfit
  refine (ih hbody (Check.push_coherent hc) ht hfit₁).mono ?_
  intro _ st' hfit'
  refine exit_safe hfit' ?_
  rw [ext.height]
  exact Nat.succ_le_succ hc.nested

theorem ite_fitting {b : Cond} {yes : Stmt} {s : Span} (ih : KeepsFitting types fuel yes) :
    KeepsFitting types fuel (.ite b yes none s) := by
  intro c c' u st h hc ht hfit
  obtain ⟨c₁, c₂, hr, hb, hyes, rfl⟩ := Check.ite_accepted h
  obtain ⟨ext, hscopes⟩ := Check.stmt_extends yes hyes
  have hc₁ := (Check.Extends.of_records hr).coherent hc
  obtain ⟨more, rfl⟩ := hr
  unfold Instrument.stmt
  refine Keeps.bind ((cond_safe (hb.mono fun _ hx => ht (ext.types hx)) hfit).mono ?_)
  intro holds st₁ hst
  refine Keeps.bind (Keeps.note trivial fun _ => ?_)
  rw [← hst] at hfit
  -- what the branch assigns does not count afterwards, whether it is taken or not
  cases holds with
  | true =>
    refine (ih hyes hc₁ ht hfit).mono fun _ st' hfit' => ?_
    exact hfit'.weaken rfl ext.assigned
  | false => exact Keeps.pure (hfit.weaken hscopes fun _ hx => hx)

theorem iteElse_fitting {b : Cond} {yes no : Stmt} {s : Span} (ihy : KeepsFitting types fuel yes)
    (ihn : KeepsFitting types fuel no) : KeepsFitting types fuel (.ite b yes (some no) s) := by
  intro c c' u st h hc ht hfit
  obtain ⟨c₁, c₂, c₃, hr, hb, hyes, hno, rfl⟩ := Check.iteElse_accepted h
  obtain ⟨ext, hscopes⟩ := Check.stmt_extends yes hyes
  obtain ⟨ext', hscopes'⟩ := Check.stmt_extends no hno
  have hc₁ := (Check.Extends.of_records hr).coherent hc
  obtain ⟨more, rfl⟩ := hr
  unfold Instrument.stmt
  refine Keeps.bind ((cond_safe (hb.mono fun _ hx => ht (ext'.types (ext.types hx))) hfit).mono ?_)
  intro holds st₁ hst
  refine Keeps.bind (Keeps.note trivial fun _ => ?_)
  rw [← hst] at hfit
  cases holds with
  | true =>
    refine (ihy hyes hc₁ (fun _ hx => ht (ext'.types hx)) hfit).mono fun _ st' hfit' => ?_
    exact hfit'.weaken hscopes' fun _ hk => (Check.assigned_both ext.assigned ext'.assigned hk).1
  | false =>
    -- the checker looks at the second branch with what was assigned before the first
    refine (ihn hno (ext.restored.coherent hc₁) ht
      (hfit.weaken hscopes fun _ hx => hx)).mono fun _ st' hfit' => ?_
    exact hfit'.weaken rfl fun _ hk => (Check.assigned_both ext.assigned ext'.assigned hk).2

theorem loop_fitting {b : Cond} {body : Stmt} {s : Span} (ih : KeepsFitting types fuel body) :
    KeepsFitting types fuel (.loop b body s) := by
  intro c c' u st h hc ht hfit
  obtain ⟨c₁, c₂, hr, hb, hbody, rfl⟩ := Check.loop_accepted h
  obtain ⟨ext, hscopes⟩ := Check.stmt_extends body hbody
  have hc₁ := (Check.Extends.of_records hr).coherent hc
  obtain ⟨more, rfl⟩ := hr
  unfold Instrument.stmt
  -- the invariant of the rounds is that the store fits the context before the loop
  refine observing.repeats_keeps (P := fun st => StoreFits c st.store)
    (fun _ _ => Keeps.lift (by trivial)) ?_ fuel hfit
  intro st hfit
  refine Keeps.bind ((cond_safe (hb.mono fun _ hx => ht (ext.types hx)) hfit).mono ?_)
  intro holds st₁ hst
  refine Keeps.bind (Keeps.note trivial fun _ => ?_)
  rw [← hst] at hfit
  cases holds with
  | true =>
    refine Keeps.bind ((ih hbody hc₁ ht hfit).mono fun _ st' hfit' => ?_)
    exact Keeps.pure (hfit'.weaken hscopes.symm ext.assigned)
  | false => exact Keeps.pure (hfit.weaken hscopes fun _ hx => hx)

mutual

/-- A statement keeps the store fitting. -/
theorem stmt_safe : (s : Stmt) → KeepsFitting types fuel s
  | .assign name value s => assign_fitting name value s
  | .print value s => print_fitting value s
  | .block body _ => block_fitting (items_safe body)
  | .ite _ yes none _ => ite_fitting (stmt_safe yes)
  | .ite _ yes (some no) _ => iteElse_fitting (stmt_safe yes) (stmt_safe no)
  | .loop _ body _ => loop_fitting (stmt_safe body)

theorem item_safe : (i : Item) → ∀ {c c' : Context} {u : Unit} {st : State},
    Succeeds (Check.item i) c u c' → Coherent c → c'.types.toList ⊆ types →
    StoreFits c st.store →
    Keeps (safety types) (observing.item fuel i) st fun _ st' => StoreFits c' st'.store
  | .decl d, c, c', u, st, h, hc, ht, hfit =>
    decl_safe (by simpa only [Check.item] using h) hc ht hfit
  | .stmt s, c, c', u, st, h, hc, ht, hfit => by
    unfold Instrument.item
    exact stmt_safe s (by simpa only [Check.item] using h) hc ht hfit

theorem items_safe : (us : List Item) → ∀ {c c' : Context} {u : Unit} {st : State},
    Succeeds (Check.items us) c u c' → Coherent c → c'.types.toList ⊆ types →
    StoreFits c st.store →
    Keeps (safety types) (observing.items fuel us) st fun _ st' => StoreFits c' st'.store
  | [], c, c', u, st, h, hc, ht, hfit => by
    obtain ⟨-, rfl⟩ := succeeds_pure.mp (by simpa only [Check.items] using h)
    unfold Instrument.items
    exact Keeps.pure hfit
  | i :: rest, c, c', u, st, h, hc, ht, hfit => by
    simp only [Check.items, succeeds_bind] at h
    obtain ⟨_, c₁, hi, hrest⟩ := h
    have ext := Check.item_extends i hc.items_ne_nil hi
    have hc₁ := ext.coherent hc
    have ext' := Check.items_extends rest hc₁.items_ne_nil hrest
    unfold Instrument.items
    refine Keeps.bind ((item_safe i hi hc (fun _ hx => ht (ext'.types hx)) hfit).mono ?_)
    intro _ st₁ hfit₁
    exact items_safe rest hrest hc₁ ht hfit₁

end

end Statements
end Signum.Run
