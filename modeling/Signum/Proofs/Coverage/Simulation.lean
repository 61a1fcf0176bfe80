import Signum.Proofs.Coverage.Expressions
/- The analysis of a program covers its runs, statement by statement.

   `Simulates` relates one step of an analysis to the same step of a run: whatever state of
   the run the analysis tracked before the step, it tracks the state after it, and the
   trace of the step covers what the run showed. The rules follow the statements. In a loop
   every round of the run is held against the last round of the analysis: the state at the
   head only rises from round to round, so it covers where the run entered the loop, and
   when it no longer changes it covers what the body makes of it. -/
namespace Signum

open Logged (Keeps)
open Check (Coherent TypedCond)
open Analysis (Ready)

/-- A step of the analysis from `a` to `a'` covers a step of a run. -/
structure Simulates (sites : List Site) (x : Bytes) (t t' : Standing) (c c' : Context)
    (a a' : Analysis.State) (run : Run.Observed Unit) : Prop where
  ready : Ready c' a'
  stands : Stands x t' c' a'.env.scopes
  covers : ∃ trace, a'.trace.toList = a.trace.toList ++ trace ∧ (∀ e ∈ trace, e.site ∈ sites) ∧
    ∀ st : Run.State, StoreFits c st.store → Tracks x t c a.env.scopes st.store →
      Keeps (coverage sites trace) run st fun _ st' =>
        StoreFits c' st'.store ∧ Tracks x t' c' a'.env.scopes st'.store

namespace Simulates
variable {sites sites' : List Site} {x : Bytes} {t t' t'' : Standing} {c c' c'' : Context}
  {a a' a'' : Analysis.State} {run run' : Run.Observed Unit}

theorem refl (hready : Ready c a) (hstands : Stands x t c a.env.scopes) :
    Simulates [] x t t c c a a (pure ()) :=
  ⟨hready, hstands, [], by simp, by simp, fun _ hfit htracks => Keeps.pure ⟨hfit, htracks⟩⟩

/-- One step after another. -/
theorem seq (h : Simulates sites x t t' c c' a a' run)
    (h' : Simulates sites' x t' t'' c' c'' a' a'' run') :
    Simulates (sites ++ sites') x t t'' c c'' a a'' (run >>= fun _ => run') := by
  obtain ⟨trace, htrace, hsites, hrun⟩ := h.covers
  obtain ⟨trace', htrace', hsites', hrun'⟩ := h'.covers
  refine ⟨h'.ready, h'.stands, trace ++ trace', ?_, sites_append hsites hsites',
    fun st hfit htracks => ?_⟩
  · rw [htrace', htrace, List.append_assoc]
  · refine Keeps.bind ((Coverage.before (hrun st hfit htracks) hsites hsites').mono ?_)
    rintro _ st₁ ⟨hfit₁, htracks₁⟩
    exact Coverage.after _ _ (hrun' st₁ hfit₁ htracks₁)

end Simulates

section Statements
variable {config : Analysis.Config} {fuel : Nat} {x : Bytes} {t t' : Standing} {c c' : Context}
  {a a' : Analysis.State} {u w : Unit}

/-- The analysis of a statement covers its runs, wherever it succeeds. -/
def CoversRuns (config : Analysis.Config) (fuel : Nat) (x : Bytes) (s : Stmt) : Prop :=
  ∀ {t : Standing} {c c' : Context} {a a' : Analysis.State}, Succeeds (Check.stmt s) c () c' →
    Coherent c → Ready c a → Stands x t c a.env.scopes →
    Succeeds (Analysis.stmt config s) a () a' →
    Simulates s.sites x t (s.track x t) c c' a a' (Run.observing.stmt fuel s)

theorem stmt_ready {s : Stmt} (h : Succeeds (Check.stmt s) c u c') (hc : Coherent c)
    (hready : Ready c a) (hrun : Succeeds (Analysis.stmt config s) a w a') : Ready c' a' := by
  exact (Analysis.stmt_safe s h hc (fun _ hx => hx) hready).of_succeeds (fun _ => trivial)
    ((Analysis.observing_faithful config).stmt s) hrun

/-- That the analysis stays ready and the store fitting is known already. -/
theorem Simulates.of_stmt {s : Stmt} (h : Succeeds (Check.stmt s) c u c') (hc : Coherent c)
    (hready : Ready c a) (hrun : Succeeds (Analysis.stmt config s) a w a')
    (hstands : Stands x t' c' a'.env.scopes)
    (hcovers : ∃ trace, a'.trace.toList = a.trace.toList ++ trace ∧
      (∀ e ∈ trace, e.site ∈ s.sites) ∧
      ∀ st : Run.State, StoreFits c st.store → Tracks x t c a.env.scopes st.store →
        Keeps (coverage s.sites trace) (Run.observing.stmt fuel s) st fun _ st' =>
          Tracks x t' c' a'.env.scopes st'.store) :
    Simulates s.sites x t t' c c' a a' (Run.observing.stmt fuel s) := by
  obtain ⟨trace, htrace, hsites, hkeeps⟩ := hcovers
  refine ⟨stmt_ready h hc hready hrun, hstands, trace, htrace, hsites, fun st hfit htracks => ?_⟩
  refine Keeps.mono (Keeps.and (hkeeps st hfit htracks) (Run.stmt_safe s h hc (fun _ hx => hx) hfit)
    fun _ => trivial) fun _ _ hst => ⟨hst.2, hst.1⟩

/-- A condition leaves the environment and the trace alone, so a branch after it starts in the
environment that the statement started in. -/
theorem cond_leaves {b : Cond} {types : List (Expr × NumType)} {verdict : Atom}
    {a₁ : Analysis.State} (hready : Ready c a) (hb : TypedCond c.scopes c.assigned types b)
    (hcond : Succeeds (Analysis.cond config b) a verdict a₁) :
    a₁.env = a.env ∧ a₁.trace = a.trace ∧
      ∀ trace, Ready c { a₁ with env := a.env.fork, trace := trace } := by
  obtain ⟨-, henv, hreads⟩ := cond_reads hb hready.readable hready.reads hcond
  refine ⟨henv, ((Analysis.cond_quiet config b).of_succeeds hcond).2, fun trace => ?_⟩
  exact ⟨hready.env.weaken rfl (fun _ hx => hx) rfl, hreads⟩

theorem assign_simulates {name : Bytes} {value : Expr} {s : Span} :
    CoversRuns config fuel x (.assign name value s) := by
  intro t c c' a a' h hc hready hstands hrun
  obtain ⟨v, c₁, hv, ⟨more, rfl⟩, hvalue, rfl⟩ := Check.assign_accepted h
  have hinv := hrun
  simp only [Analysis.stmt, succeeds_bind, Analysis.succeeds_bindName] at hinv
  obtain ⟨r, a₁, hexpr, env, hbind, rfl⟩ := hinv
  obtain ⟨hd, henv, -⟩ := expr_reads hvalue hready.readable hready.reads hexpr
  have htrace := ((Analysis.expr_quiet config value).of_succeeds hexpr).2
  obtain ⟨i, dom, scopes', hbind', hcell, hset, -⟩ := Analysis.bind_fits hready.env hc hv hd
  rw [henv, hbind'] at hbind
  obtain rfl := Except.ok.inj hbind
  refine Simulates.of_stmt h hc hready hrun ?_ ⟨[], by simp [htrace], by simp, ?_⟩
  · exact (hstands.assign hc hv hcell hset).weaken rfl
  intro st hfit htracks
  unfold Run.Instrument.stmt
  refine Keeps.bind ((expr_covered hvalue (htracks.agrees hc hready.env hfit) hready.reads
    hexpr).mono ?_)
  rintro y st₁ ⟨hy, hle, hst⟩
  obtain ⟨j, store', hstore, hcell', hset', -⟩ := Run.assign_safe hfit hc hv hy
  obtain ⟨rfl, -⟩ := hc.same_cell hcell hcell' rfl
  refine Keeps.lift_ok (a := ()) (t := { st₁ with store := store' }) ?_ ?_
  · simp [Run.assign, succeeds_get_bind, hst, hstore, succeeds_modify]
  · exact (htracks.assign hstands hc hv hcell hset hset' hle).weaken rfl (fun _ hx => hx) id

theorem print_simulates {value : Expr} {s : Span} :
    CoversRuns config fuel x (.print value s) := by
  intro t c c' a a' h hc hready hstands hrun
  obtain ⟨⟨more, rfl⟩, ty, hvalue⟩ := Check.print_accepted h
  have hinv := hrun
  simp only [Analysis.stmt, succeeds_bind, Analysis.succeeds_report, succeeds_modify] at hinv
  obtain ⟨r, a₁, hexpr, _, _, rfl, rfl⟩ := hinv
  obtain ⟨henv, htrace⟩ := (Analysis.expr_quiet config value).of_succeeds hexpr
  refine Simulates.of_stmt h hc hready hrun ?_ ⟨[.print s value r], by simp [htrace], ?_, ?_⟩
  · rw [henv]
    exact hstands.weaken rfl
  · simp [Stmt.sites, Analysis.Event.site]
  intro st hfit htracks
  unfold Run.Instrument.stmt
  refine Keeps.bind ((expr_covered hvalue (htracks.agrees hc hready.env hfit) hready.reads
    hexpr).mono ?_)
  rintro y st₁ ⟨-, hle, hst⟩
  refine Keeps.bind (Keeps.note ?_ fun _ => ?_)
  · exact Coverage.first (e := .print s value r) rfl hle (by simp)
  · refine Keeps.lift_ok (a := ()) (succeeds_modify.mpr rfl) ?_
    rw [henv, hst]
    exact htracks.weaken rfl (fun _ hx => hx) id

theorem block_simulates {body : List Item} {s : Span}
    (ih : ∀ {t : Standing} {c c' : Context} {a a' : Analysis.State},
      Succeeds (Check.items body) c () c' → Coherent c → Ready c a → Stands x t c a.env.scopes →
      c.outermost ≠ 0 → Succeeds (Analysis.items config body) a () a' →
      Simulates (sitesOf body) x t (trackItems x false t body) c c' a a'
        (Run.observing.items fuel body)) :
    CoversRuns config fuel x (.block body s) := by
  intro t c c' a a' h hc hready hstands hrun
  obtain ⟨c₁, hbody, rfl⟩ := Check.within_accepted (by simpa only [Check.stmt] using h)
  have hinv := hrun
  simp only [Analysis.stmt, Analysis.succeeds_within] at hinv
  obtain ⟨a₁, hitems, rfl⟩ := hinv
  have ext := Check.items_extends body (by simp [Scopes.push]) hbody
  have hscopes : c₁.scopes.pop = c.scopes := by
    rw [Scopes.pop, ext.outer]
    rfl
  have hlen : 3 ≤ c₁.scopes.items.length := by
    rw [ext.height]
    exact Nat.succ_le_succ hc.nested
  have houter : c₁.outermost = c.outermost + 1 := by
    rw [← outermost_push hc, Context.outermost, ext.height]
    rfl
  have hsim := ih hbody (Check.push_coherent hc) hready.push (hstands.push hc)
    (by rw [outermost_push hc]; omega) hitems
  obtain ⟨trace, htrace, hsites, hkeeps⟩ := hsim.covers
  have hexit := hsim.ready.env.exit_scopes hlen
  unfold Stmt.track
  refine Simulates.of_stmt h hc hready hrun ?_ ⟨trace, htrace, ?_, ?_⟩
  · rw [hexit]
    exact hsim.stands.pop hstands hscopes houter
  · unfold Stmt.sites
    exact hsites
  intro st hfit htracks
  have hfit₁ : StoreFits { c with scopes := c.scopes.push } st.store.enter := Fits.push hfit
  unfold Run.Instrument.stmt Stmt.sites
  change Keeps _ (Run.inScope (Run.observing.items fuel body)) st _
  refine Keeps.around ((hkeeps { st with store := st.store.enter } hfit₁ (htracks.push hc)).mono ?_)
  rintro _ st' ⟨hfit', htracks'⟩
  rw [hexit]
  exact htracks'.pop hscopes houter (hfit'.exit_scopes hlen)

/-- An `if` without `else`: the branch is joined into the state before it. -/
theorem ite_simulates {b : Cond} {yes : Stmt} {s : Span} (ih : CoversRuns config fuel x yes) :
    CoversRuns config fuel x (.ite b yes none s) := by
  intro t c c' a a' h hc hready hstands hrun
  obtain ⟨c₁, c₂, hr, hb, hyes, rfl⟩ := Check.ite_accepted h
  obtain ⟨ext, hscopes⟩ := Check.stmt_extends yes hyes
  have hc₁ := (Check.Extends.of_records hr).coherent hc
  obtain ⟨more, rfl⟩ := hr
  have hinv := hrun
  simp only [Analysis.stmt, succeeds_bind, Analysis.succeeds_report, Analysis.succeeds_joinIn,
    succeeds_pure] at hinv
  obtain ⟨verdict, a₁, hcond, _, _, rfl, inYes, _, hbranch, changed, _, ⟨env, hjoin, rfl⟩, _, rfl⟩ :=
    hinv
  obtain ⟨a₂, hstmt, rfl, rfl⟩ := Analysis.branch_stmt_succeeds hbranch
  obtain ⟨henv, htrace₁, hready₁⟩ :=
    cond_leaves (c := { c with types := c.types ++ more }) (hready.weaken rfl fun _ hx => hx) hb hcond
  dsimp only at hstmt hjoin
  rw [henv] at hstmt hjoin
  have hsim := ih hyes hc₁ (hready₁ _) (hstands.weaken rfl) hstmt
  obtain ⟨trace, htrace, hsites, hkeeps⟩ := hsim.covers
  -- the result of the branch is joined into the state before it
  obtain ⟨changed', env', hjoin', -, hjoined⟩ :=
    Analysis.join_fits hready.env hsim.ready.env.alone hscopes
  rw [hjoin'] at hjoin
  obtain ⟨rfl, rfl⟩ : changed' = changed ∧ env' = env := by simpa using hjoin
  unfold Stmt.track
  refine Simulates.of_stmt h hc hready hrun ?_ ⟨.branch s b verdict :: trace, ?_, ?_, ?_⟩
  · exact ((hstands.raise hjoined.raises).join _).weaken hscopes
  · rw [htrace]
    simp [htrace₁]
  · unfold Stmt.sites
    exact sites_cons (.branch s b verdict) hsites
  intro st hfit htracks
  unfold Run.Instrument.stmt Stmt.sites
  refine Keeps.bind ((cond_covered hb (htracks.agrees hc hready.env hfit) hready.reads
    hcond).mono ?_)
  rintro holds st₁ ⟨hle, hst⟩
  refine Keeps.bind (Keeps.note ?_ fun _ => ?_)
  · exact Coverage.first (e := .branch s b verdict) rfl hle hsites
  rw [← hst] at hfit htracks
  cases holds with
  | true =>
    refine Coverage.after [.branch s b] [.branch s b verdict]
      ((hkeeps st₁ hfit (htracks.weaken rfl (fun _ hx => hx) id)).mono ?_)
    rintro _ st' ⟨-, htracks'⟩
    refine htracks'.absorbed hjoined.absorbs rfl ext.assigned (fun i n v hv hm => ?_)
      (hstands.weaken hscopes) hsim.stands
    rw [hscopes] at hv
    exact hready.env.held_isSome hv hm
  | false =>
    refine Keeps.pure ((htracks.raise hjoined.raises).weaken hscopes (fun _ hx => hx) fun hl => ?_)
    exact (Standing.join_not_lost hl).1

/-- An `if` with `else`: the second branch is joined into what the first one left. -/
theorem iteElse_simulates {b : Cond} {yes no : Stmt} {s : Span}
    (ihy : CoversRuns config fuel x yes) (ihn : CoversRuns config fuel x no) :
    CoversRuns config fuel x (.ite b yes (some no) s) := by
  intro t c c' a a' h hc hready hstands hrun
  obtain ⟨c₁, c₂, c₃, hr, hb, hyes, hno, rfl⟩ := Check.iteElse_accepted h
  obtain ⟨ext, hscopes⟩ := Check.stmt_extends yes hyes
  obtain ⟨ext', hscopes'⟩ := Check.stmt_extends no hno
  have hc₁ := (Check.Extends.of_records hr).coherent hc
  obtain ⟨more, rfl⟩ := hr
  have hinv := hrun
  rw [Analysis.stmt_iteElse] at hinv
  simp only [succeeds_bind, Analysis.succeeds_report, Analysis.succeeds_adopt] at hinv
  obtain ⟨verdict, a₁, hcond, _, _, rfl, inYes, _, hbranch, inNo, _, hbranch', changed, joined,
    hjoin, rfl⟩ := hinv
  obtain ⟨a₂, hstmt, rfl, rfl⟩ := Analysis.branch_stmt_succeeds hbranch
  obtain ⟨a₃, hstmt', rfl, rfl⟩ := Analysis.branch_stmt_succeeds hbranch'
  obtain ⟨henv, htrace₁, hready₁⟩ :=
    cond_leaves (c := { c with types := c.types ++ more }) (hready.weaken rfl fun _ hx => hx) hb hcond
  -- both branches start where the `if` does
  dsimp only at hstmt hstmt'
  rw [henv] at hstmt hstmt'
  have hsim := ihy hyes hc₁ (hready₁ _) (hstands.weaken rfl) hstmt
  have hready₂ : Ready { c₂ with assigned := c.assigned } { a₂ with env := a.env.fork } :=
    ⟨hready.env.weaken hscopes (fun _ hx => hx) rfl, hsim.ready.reads⟩
  have hsim' := ihn hno (ext.restored.coherent hc₁) hready₂ (hstands.weaken hscopes) hstmt'
  obtain ⟨trace, htrace, hsites, hkeeps⟩ := hsim.covers
  obtain ⟨trace', htrace', hsites', hkeeps'⟩ := hsim'.covers
  -- the second result is joined into the first
  have hyes₂ : EnvironmentFits c₂ ⟨a₂.env.scopes, []⟩ := hsim.ready.env.alone
  obtain ⟨changed', joined', hjoin', -, hjoined⟩ :=
    Analysis.join_fits hyes₂ hsim'.ready.env.alone hscopes'
  rw [hjoin'] at hjoin
  obtain ⟨rfl, rfl⟩ : changed' = changed ∧ joined' = joined := by simpa using hjoin
  have hboth (k : Nat) := Check.assigned_both (k := k) ext.assigned ext'.assigned
  unfold Stmt.track
  refine Simulates.of_stmt h hc hready hrun ?_
    ⟨.branch s b verdict :: (trace ++ trace'), ?_, ?_, ?_⟩
  · exact ((hsim.stands.raise hjoined.raises).join _).weaken hscopes'
  · rw [htrace', htrace]
    simp [htrace₁]
  · unfold Stmt.sites
    exact sites_cons (.branch s b verdict) (sites_append hsites hsites')
  intro st hfit htracks
  unfold Run.Instrument.stmt Stmt.sites
  refine Keeps.bind ((cond_covered hb (htracks.agrees hc hready.env hfit) hready.reads
    hcond).mono ?_)
  rintro holds st₁ ⟨hle, hst⟩
  refine Keeps.bind (Keeps.note ?_ fun _ => ?_)
  · exact Coverage.first (e := .branch s b verdict) rfl hle (sites_append hsites hsites')
  rw [← hst] at hfit htracks
  refine Coverage.after [.branch s b] [.branch s b verdict] ?_
  cases holds with
  | true =>
    have hkeeps₁ := hkeeps st₁ hfit (htracks.weaken rfl (fun _ hx => hx) id)
    refine Coverage.before (hkeeps₁.mono ?_) hsites hsites'
    rintro _ st' ⟨-, htracks'⟩
    refine (htracks'.raise hjoined.raises).weaken hscopes' (fun k hk => (hboth k hk).1) fun hl => ?_
    exact (Standing.join_not_lost hl).1
  | false =>
    have hkeeps₂ := hkeeps' st₁ (hfit.weaken hscopes fun _ hx => hx)
      (htracks.weaken hscopes (fun _ hx => hx) id)
    refine Coverage.after _ _ (hkeeps₂.mono ?_)
    rintro _ st' ⟨-, htracks'⟩
    refine htracks'.absorbed hjoined.absorbs rfl (fun k hk => (hboth k hk).2)
      (fun i n v hv hm => ?_) (hsim.stands.weaken hscopes') hsim'.stands
    rw [hscopes'] at hv
    exact hyes₂.held_isSome hv (hboth _ hm).1

/-! A loop is analysed by its last round. -/

/-- The last round of the analysis of a loop. Its head is above where the loop was entered
and takes in what the body makes of it. -/
structure LastRound (config : Analysis.Config) (s : Span) (b : Cond) (body : Stmt) (c : Context)
    (a a' head : Analysis.State) (earlier : List Analysis.Event) : Prop where
  ready : Ready c head
  raises : Environment.Raises a.env.scopes head.env.scopes
  trace : head.trace.toList = a.trace.toList ++ earlier
  sites : ∀ e ∈ earlier, e.site ∈ Site.loop s b :: body.sites
  settled : ∃ number verdict a₁ a₂, Succeeds (Analysis.cond config b) head verdict a₁ ∧
    Succeeds (Analysis.stmt config body) { a₁ with env := a₁.env.fork } () a₂ ∧
    Environment.Absorbs a₂.env.scopes head.env.scopes head.env.scopes ∧
    a' = { a₂ with env := head.env, trace := a₂.trace.push (.round s b number verdict true) }

/-- An analysis of a loop that ends has a last round. -/
theorem rounds_last {s : Span} {b : Cond} {body : Stmt} {types : List (Expr × NumType)}
    (hb : TypedCond c.scopes c.assigned types b) (hscopes : c'.scopes = c.scopes)
    (hbody : ∀ {a a' : Analysis.State}, Ready c a → Stands x t c a.env.scopes →
      Succeeds (Analysis.stmt config body) a () a' →
      Simulates body.sites x t t' c c' a a' (Run.observing.stmt fuel body))
    (left number : Nat) (hready : Ready c a) (hstands : Stands x t c a.env.scopes)
    (hrun : Succeeds (Analysis.rounds config s b (Analysis.stmt config body) left number) a u a') :
    ∃ head earlier, LastRound config s b body c a a' head earlier := by
  induction left generalizing number a with
  | zero =>
    simp only [Analysis.rounds, succeeds_throw] at hrun
  | succ left ih =>
    obtain ⟨verdict, a₁, inBody, _, stable, a₃, hcond, hbranch, hsettle, hrest⟩ :=
      Analysis.rounds_succeeds hrun
    obtain ⟨a₂, hstmt, rfl, rfl⟩ := Analysis.branch_stmt_succeeds hbranch
    obtain ⟨henv, htrace₁, hready₁⟩ := cond_leaves hready hb hcond
    have hforked := hstmt
    rw [henv] at hforked hsettle
    have hsim := hbody (hready₁ _) hstands hforked
    obtain ⟨trace, htrace, hsites, -⟩ := hsim.covers
    have hstart : EnvironmentFits c { a₂ with env := a.env }.env := hready.env
    obtain ⟨env, rfl, hfit, habsorbs, hsame⟩ :=
      Analysis.settle_absorbs hstart hsim.ready.env.alone hscopes hsettle
    dsimp only at habsorbs hsame
    cases stable with
    | true =>
      obtain rfl := hsame rfl
      exact ⟨a, [], hready, .refl _, by simp, by simp, number, verdict, a₁, a₂, hcond, hstmt,
        habsorbs, hrest⟩
    | false =>
      obtain ⟨head, earlier, hlast⟩ := ih (number + 1) (a := { a₂ with
        env := env, trace := a₂.trace.push (.round s b number verdict false) })
        ⟨hfit, hsim.ready.reads⟩ (hstands.raise habsorbs.raises) hrest
      refine ⟨head, trace ++ .round s b number verdict false :: earlier, hlast.ready,
        habsorbs.raises.trans hlast.raises, ?_, ?_, hlast.settled⟩
      · rw [hlast.trace]
        simp [htrace, htrace₁]
      · have hbelow : ∀ e ∈ trace, e.site ∈ Site.loop s b :: body.sites := fun e he =>
          List.mem_cons_of_mem _ (hsites e he)
        exact List.forall_mem_append.mpr ⟨hbelow, List.forall_mem_cons.mpr
          ⟨List.mem_cons_self, hlast.sites⟩⟩

/-- A round of the run, held against the last round of the analysis: from a state that the
head tracks it leads to such a state again, whether it goes on or leaves the loop. -/
theorem round_covered {s : Span} {b : Cond} {body : Stmt} {head a₁ a₂ : Analysis.State}
    {types : List (Expr × NumType)} {verdict : Atom} (hb : TypedCond c.scopes c.assigned types b)
    (hc : Coherent c) (hready : Ready c head) (hstands : Stands x t c head.env.scopes)
    (hcond : Succeeds (Analysis.cond config b) head verdict a₁)
    (hsim : Simulates body.sites x t t' c c' { a₁ with env := head.env.fork } a₂
      (Run.observing.stmt fuel body))
    (habsorbs : Environment.Absorbs a₂.env.scopes head.env.scopes head.env.scopes)
    (hscopes : c'.scopes = c.scopes) (hassigned : c.assigned ⊆ c'.assigned)
    (hagain : t.lost = false → (t.join t').lost = false) :
    ∃ trace, a₂.trace.toList = head.trace.toList ++ trace ∧ (∀ e ∈ trace, e.site ∈ body.sites) ∧
      ∀ earlier number st, StoreFits c st.store → Tracks x t c head.env.scopes st.store →
        Keeps (coverage (.loop s b :: body.sites)
          (earlier ++ (trace ++ [.round s b number verdict true])))
          (Run.observing.round s b (Run.observing.stmt fuel body)) st fun _ st' =>
            StoreFits c st'.store ∧ Tracks x t c head.env.scopes st'.store := by
  obtain ⟨-, htrace₁, -⟩ := cond_leaves hready hb hcond
  obtain ⟨trace, htrace, hsites, hkeeps⟩ := hsim.covers
  refine ⟨trace, by simp [htrace, htrace₁], hsites, fun earlier number st hfit htracks => ?_⟩
  unfold Run.Instrument.round
  refine Keeps.bind ((cond_covered hb (htracks.agrees hc hready.env hfit) hready.reads
    hcond).mono ?_)
  rintro holds st₁ ⟨hle, hst⟩
  refine Keeps.bind (Keeps.note ?_ fun _ => ?_)
  · exact Coverage.last (e := .round s b number verdict true) rfl hle
  rw [← hst] at hfit htracks
  cases holds with
  | true =>
    refine Keeps.bind (Coverage.within earlier rfl ((hkeeps st₁ hfit htracks).mono ?_) hsites)
    rintro _ st' ⟨hfit', htracks'⟩
    -- what the body leaves is absorbed at the head, so the head tracks it again
    refine Keeps.pure ⟨hfit'.weaken hscopes.symm hassigned, ?_⟩
    refine Tracks.weaken (htracks'.absorbed habsorbs hscopes.symm hassigned ?_
      hstands hsim.stands) rfl (fun _ hx => hx) hagain
    exact fun i n v hv hm => hready.env.held_isSome hv hm
  | false => exact Keeps.pure ⟨hfit, htracks⟩

/-- A loop keeps what its last round keeps, as often as the run goes around. -/
theorem loop_simulates {b : Cond} {body : Stmt} {s : Span} (ih : CoversRuns config fuel x body) :
    CoversRuns config fuel x (.loop b body s) := by
  intro t c c' a a' h hc hready hstands hrun
  obtain ⟨c₁, c₂, hr, hb, hyes, rfl⟩ := Check.loop_accepted h
  obtain ⟨ext, hscopes⟩ := Check.stmt_extends body hyes
  have hc₁ := (Check.Extends.of_records hr).coherent hc
  obtain ⟨more, rfl⟩ := hr
  have hinv := hrun
  simp only [Analysis.stmt, succeeds_get_bind] at hinv
  unfold Stmt.track
  -- the standing at the head is the one after the loop: the body adds nothing to it
  generalize hjoin : t.join (body.track x t) = res
  have hres : Stands x res c a.env.scopes := hjoin ▸ hstands.join _
  have hagain : res.lost = false → (res.join (body.track x res)).lost = false := by
    intro hl
    have hself : res = t := by
      rw [← hjoin] at hl ⊢
      exact Standing.join_eq_self hl
    rw [hself, hjoin]
    exact hl
  have hbody {a a' : Analysis.State} (hready : Ready { c with types := c.types ++ more } a)
      (hst : Stands x res { c with types := c.types ++ more } a.env.scopes)
      (hrun : Succeeds (Analysis.stmt config body) a () a') :
      Simulates body.sites x res (body.track x res) { c with types := c.types ++ more } c₂ a a'
        (Run.observing.stmt fuel body) := ih hyes hc₁ hready hst hrun
  obtain ⟨head, earlier, hlast⟩ := rounds_last (c := { c with types := c.types ++ more }) hb hscopes
    hbody _ 1 (hready.weaken rfl fun _ hx => hx) (hres.weaken rfl) hinv
  obtain ⟨number, verdict, a₁, a₂, hcond, hstmt, habsorbs, rfl⟩ := hlast.settled
  obtain ⟨henv, -, hready₁⟩ := cond_leaves hlast.ready hb hcond
  rw [henv] at hstmt
  have hhead : Stands x res { c with types := c.types ++ more } head.env.scopes :=
    (hres.raise hlast.raises).weaken rfl
  have hsim := hbody (hready₁ _) hhead hstmt
  obtain ⟨trace, htrace, hsites, hround⟩ := round_covered (s := s)
    (c := { c with types := c.types ++ more }) hb hc₁ hlast.ready hhead hcond hsim habsorbs hscopes
    ext.assigned hagain
  refine Simulates.of_stmt h hc hready hrun (hhead.weaken hscopes)
    ⟨earlier ++ (trace ++ [.round s b number verdict true]), ?_, ?_, ?_⟩
  · simp [htrace, hlast.trace]
  · unfold Stmt.sites
    refine List.forall_mem_append.mpr ⟨hlast.sites, List.forall_mem_append.mpr ⟨fun e he => ?_, ?_⟩⟩
    · exact List.mem_cons_of_mem _ (hsites e he)
    · exact List.forall_mem_singleton.mpr List.mem_cons_self
  intro st hfit htracks
  unfold Run.Instrument.stmt Stmt.sites
  -- the run enters below the head of the last round, and every round stays below it
  refine Run.observing.repeats_keeps
    (P := fun st => StoreFits c st.store ∧ Tracks x res c head.env.scopes st.store)
    (fun _ _ => Keeps.lift (by exact fun _ => nofun)) ?_ fuel ⟨hfit, ?_⟩
  · rintro st ⟨hfit, htracks⟩
    refine (hround earlier number st hfit (htracks.weaken rfl (fun _ hx => hx) id)).mono ?_
    rintro go st' ⟨hfit', htracks'⟩
    cases go with
    | true => exact ⟨hfit', htracks'.weaken rfl (fun _ hx => hx) id⟩
    | false => exact htracks'.weaken hscopes (fun _ hx => hx) id
  · refine (htracks.raise hlast.raises).weaken rfl (fun _ hx => hx) fun hl => ?_
    rw [← hjoin] at hl
    exact (Standing.join_not_lost hl).1

/-! A declaration adds one name, and its initializer is looked at before the name counts. -/

/-- What the analysis of a declaration leaves. -/
theorem decl_leaves {d : Decl} (h : Succeeds (Check.decl d) c u c') (hc : Coherent c)
    (hready : Ready c a) (hrun : Succeeds (Analysis.item config (.decl d)) a w a') :
    ∃ slot, Sets a.env.scopes 0 d.name slot a'.env.scopes ∧ a'.trace = a.trace ∧
      slot.value.isSome = d.init.isSome ∧ ∀ e, d.init = some e → ∃ r a₁ a₂,
        (∀ n, a₁.env.lookup? n = a.env.lookup? n) ∧ a₁.reads = a.reads ∧
        Succeeds (Analysis.expr config e) a₁ r a₂ ∧ slot.value = some r := by
  obtain ⟨c₁, hd, -, hinit, -⟩ := Check.decl_accepted h
  obtain ⟨scopes₁, hdeclare, hset₁, hfit₁, hlook⟩ := Analysis.declare_fits hready.env hc hd
  rw [Analysis.item, Analysis.decl_eq] at hrun
  simp only [succeeds_bind, Analysis.succeeds_introduce] at hrun
  obtain ⟨_, _, ⟨env, hdeclare', rfl⟩, hrun⟩ := hrun
  rw [hdeclare] at hdeclare'
  obtain rfl := (Prod.mk.inj hdeclare').2
  cases he : d.init with
  | none =>
    rw [he] at hrun
    obtain ⟨-, rfl⟩ := succeeds_pure.mp hrun
    exact ⟨_, hset₁, rfl, rfl, fun _ h => by cases h⟩
  | some e =>
    rw [he] at hrun
    simp only [succeeds_bind, Analysis.succeeds_bindName] at hrun
    obtain ⟨r, a₁, hexpr, env, hbind, rfl⟩ := hrun
    obtain ⟨hr, henv, -⟩ := expr_reads (a := { a with env := ⟨scopes₁, a.env.stashed⟩ })
      (hinit e he) (hready.readable.congr hlook) hready.reads hexpr
    have hc₁ := Check.decl_coherent hd hc
    obtain ⟨i, dom, scopes₂, hbind', hcell, hset₂, -⟩ := Analysis.bind_fits hfit₁ hc₁
      (Check.search?_add hc.items_ne_nil) hr
    obtain ⟨rfl, -⟩ := hc₁.same_cell hcell (Check.cell_add hc.items_ne_nil) rfl
    rw [henv] at hbind
    obtain rfl := Except.ok.inj (hbind'.symm.trans hbind)
    refine ⟨⟨dom, some r⟩, hset₁.again hset₂, ?_, rfl, fun e' he' => ?_⟩
    · exact ((Analysis.expr_quiet config e).of_succeeds hexpr).2
    · obtain rfl : e = e' := by simpa using he'
      exact ⟨r, { a with env := ⟨scopes₁, a.env.stashed⟩ }, a₁, hlook, rfl, hexpr, rfl⟩

theorem init_covered {slot : Slot} {sites : List Site} {trace : List Analysis.Event}
    {types : List (Expr × NumType)} {ty : NumType} {init : Option Expr} {st : Run.State}
    (hagree : Agrees c.scopes c.assigned a.env st.store) (hreads : Analysis.ReadsTop a.reads)
    (ht : ∀ e, init = some e → Check.Typed c.scopes c.assigned types e ty)
    (h : ∀ e, init = some e → ∃ r a₁ a₂, (∀ n, a₁.env.lookup? n = a.env.lookup? n) ∧
      a₁.reads = a.reads ∧ Succeeds (Analysis.expr config e) a₁ r a₂ ∧ slot.value = some r) :
    Keeps (coverage sites trace) (Run.observing.init init) st fun y st' =>
      (∀ v, y = some v → v.type? = some ty ∧
        ∃ r, slot.value = some r ∧ v.abstract.leq r = true) ∧
      y.isSome = init.isSome ∧ st'.store = st.store := by
  cases init with
  | none => exact Keeps.pure ⟨fun _ h => (by cases h), rfl, rfl⟩
  | some e =>
    obtain ⟨r, a₁, a₂, hlook, hr, hexpr, hslot⟩ := h e rfl
    refine Keeps.bind ((expr_covered (ht e rfl) (hagree.congr hlook) (hr ▸ hreads) hexpr).mono ?_)
    rintro v st' ⟨hv, hle, hst⟩
    refine Keeps.pure ⟨fun y hy => ?_, rfl, hst⟩
    obtain rfl : v = y := by simpa using hy
    exact ⟨hv, r, hslot, hle⟩

theorem decl_simulates {d : Decl} {top : Bool} (h : Succeeds (Check.decl d) c u c')
    (hc : Coherent c) (hready : Ready c a) (hready' : Ready c' a')
    (hstands : Stands x t c a.env.scopes) (htop : top = true ↔ c.outermost = 0)
    (hrun : Succeeds (Analysis.item config (.decl d)) a w a') :
    Simulates [] x t (t.declare x top d) c c' a a' (Run.observing.item fuel (.decl d)) := by
  obtain ⟨slot, hset, htrace, hslot, hexpr⟩ := decl_leaves h hc hready hrun
  obtain ⟨c₁, hd, ⟨more, rfl⟩, hinit, rfl⟩ := Check.decl_accepted h
  have hdecl : Declares c d { c with
      types := c.types ++ more
      scopes := c.scopes.add d.name (.variable (Check.declared c d))
      «variables» := c.variables.push (Check.declared c d)
      assigned := if d.init.isSome then c.assigned.insert c.variables.size else c.assigned } :=
    ⟨(Check.sets_declared hd hc.items_ne_nil).2.1, rfl⟩
  refine ⟨hready', hstands.declare hdecl htop hset hslot, [], by simp [htrace], by simp, ?_⟩
  intro st hfit htracks
  have hagree := htracks.agrees hc hready.env hfit
  unfold Run.Instrument.item
  refine Keeps.bind ((init_covered hagree hready.reads hinit hexpr).mono ?_)
  rintro y st₁ ⟨hy, hsome, hst⟩
  rw [← hst] at hfit
  obtain ⟨store', hintro, hset', hfit'⟩ := Run.introduce_safe hfit hc hd fun v hv => (hy v hv).1
  rw [hst] at hset'
  rw [hsome] at hfit'
  exact Keeps.lift_ok hintro ⟨hfit', htracks.declare hc hdecl htop hset hset' fun v hv => (hy v hv).2⟩

end Statements

section Programs
variable {config : Analysis.Config} {fuel : Nat} {x : Bytes}

mutual

/-- The analysis of a statement covers its runs. -/
theorem stmt_simulates : (s : Stmt) → CoversRuns config fuel x s
  | .assign _ _ _ => assign_simulates
  | .print _ _ => print_simulates
  | .block body _ => block_simulates fun h hc hready hstands houter hrun =>
    items_simulates body h hc hready hstands (by simp [houter]) hrun
  | .ite _ yes none _ => ite_simulates (stmt_simulates yes)
  | .ite _ yes (some no) _ => iteElse_simulates (stmt_simulates yes) (stmt_simulates no)
  | .loop _ body _ => loop_simulates (stmt_simulates body)

theorem item_simulates : (i : Item) → ∀ {t : Standing} {top : Bool} {c c' : Context}
    {a a' : Analysis.State}, Succeeds (Check.item i) c () c' → Coherent c → Ready c a →
    Stands x t c a.env.scopes → (top = true ↔ c.outermost = 0) →
    Succeeds (Analysis.item config i) a () a' →
    Simulates i.sites x t (i.track x top t) c c' a a' (Run.observing.item fuel i)
  | .decl d, t, top, c, c', a, a', h, hc, hready, hstands, htop, hrun => by
    have hready' := (Analysis.item_safe (.decl d) h hc (fun _ hx => hx) hready).of_succeeds
      (fun _ => trivial) ((Analysis.observing_faithful config).item (.decl d)) hrun
    unfold Item.sites Item.track
    exact decl_simulates (by simpa only [Check.item] using h) hc hready hready' hstands htop hrun
  | .stmt s, t, top, c, c', a, a', h, hc, hready, hstands, htop, hrun => by
    unfold Item.sites Item.track Run.Instrument.item
    exact stmt_simulates s (by simpa only [Check.item] using h) hc hready hstands
      (by simpa only [Analysis.item] using hrun)

theorem items_simulates : (us : List Item) → ∀ {t : Standing} {top : Bool} {c c' : Context}
    {a a' : Analysis.State}, Succeeds (Check.items us) c () c' → Coherent c → Ready c a →
    Stands x t c a.env.scopes → (top = true ↔ c.outermost = 0) →
    Succeeds (Analysis.items config us) a () a' →
    Simulates (sitesOf us) x t (trackItems x top t us) c c' a a' (Run.observing.items fuel us)
  | [], t, top, c, c', a, a', h, hc, hready, hstands, htop, hrun => by
    obtain ⟨-, rfl⟩ := succeeds_pure.mp (by simpa only [Check.items] using h)
    obtain ⟨-, rfl⟩ := succeeds_pure.mp (by simpa only [Analysis.items] using hrun)
    unfold sitesOf trackItems Run.Instrument.items
    exact .refl hready hstands
  | i :: rest, t, top, c, c', a, a', h, hc, hready, hstands, htop, hrun => by
    simp only [Check.items, succeeds_bind] at h
    obtain ⟨_, c₁, hi, hrest⟩ := h
    simp only [Analysis.items, succeeds_bind] at hrun
    obtain ⟨_, a₁, hitem, hitems⟩ := hrun
    have ext := Check.item_extends i hc.items_ne_nil hi
    have houter : c₁.outermost = c.outermost := by
      rw [Context.outermost, ext.height]
      rfl
    have hsim := item_simulates i hi hc hready hstands htop hitem
    unfold sitesOf trackItems Run.Instrument.items
    exact hsim.seq (items_simulates rest hrest (ext.coherent hc) hsim.ready hsim.stands
      (by rw [houter]; exact htop) hitems)

end

end Programs
end Signum
