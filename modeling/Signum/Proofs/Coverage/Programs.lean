import Signum.Proofs.Coverage.Simulation
import Signum.Proofs.Safety
/- What a successful analysis says about the runs of a program.

   At the start nothing is declared on either side, so what holds statement by statement
   holds for programs. A run whose operations were exact does not divide by zero; where it
   ends, the global variables the checker knows to be assigned have values the analysis
   describes, and so has every other global variable that was not lost; and what a run
   shows at a statement is described by the last event the analysis reported there. -/
namespace Signum

open Logged (Keeps)
open Check (Coherent)
open Countdown (program context positive)

/-! The end of a program has one scope. -/

theorem Environment.lookup?_single {env : Environment} (h : env.scopes.length = 1) (n : Bytes) :
    env.lookup? n = Environment.held env.scopes 0 n := by
  obtain ⟨s, hs⟩ := List.length_eq_one_iff.mp h
  rw [lookup?, held, hs]
  simp

theorem Store.lookup?_single {store : Store} (h : store.scopes.length = 1) (n : Bytes) :
    store.lookup? n = (cell store.scopes 0 n).join := by
  obtain ⟨s, hs⟩ := List.length_eq_one_iff.mp h
  rw [lookup?, search?, hs]
  simp

/-! Nothing is declared at the start of a program. -/

theorem start_stands (x : Bytes) : Stands x .start Check.inside Environment.fresh.scopes := by
  refine ⟨rfl, nofun, ?_⟩
  rintro ⟨_, hi, _⟩
  exact absurd hi (Nat.not_lt_zero _)

theorem start_tracks (x : Bytes) :
    Tracks x .start Check.inside Environment.fresh.scopes Store.fresh := by
  refine ⟨fun i n v _ hm => ?_, fun _ => Follows.of_unbound fun v hv => ?_⟩
  · cases hm
  · cases hv

section Programs
variable {p : Program} {ctx : Context} {config : Analysis.Config} {a : Analysis.State}

/-- What the end of a successful analysis has to do with the end of a run. -/
structure CoveredEnd (p : Program) (x : Bytes) (ctx c : Context) (a : Analysis.State) : Prop where
  closed : ctx = { c with scopes := c.scopes.pop }
  coherent : Coherent c
  single : c.scopes.items.length = 2
  ready : Analysis.Ready c a
  stands : Stands x (p.standing x) c a.env.scopes

/-- The runs of a program are covered by its successful analysis. -/
theorem program_covered (hcheck : p.check = (.ok (), ctx))
    (hrun : Analysis.run config p = (.ok (), a)) (x : Bytes) :
    ∃ c, CoveredEnd p x ctx c a ∧ ∀ fuel input,
      Keeps (coverage (sitesOf p.units) a.trace.toList) (Run.observing.items fuel p.units)
        (Run.State.start input) fun _ st =>
          StoreFits c st.store ∧ Tracks x (p.standing x) c a.env.scopes st.store := by
  obtain ⟨c, hc, rfl⟩ := Check.check_accepted hcheck
  have ext := Check.items_extends p.units (by simp [Check.inside, Scopes.push]) hc
  have hsim (fuel : Nat) : Simulates (sitesOf p.units) x .start (p.standing x) Check.inside c
      Analysis.State.start a (Run.observing.items fuel p.units) :=
    items_simulates p.units hc Check.inside_coherent
      ⟨Check.inside_environment, fun _ _ _ ha => (by cases ha)⟩ (start_stands x)
      ⟨fun _ => rfl, fun _ => rfl⟩ hrun
  refine ⟨c, ⟨rfl, ext.coherent Check.inside_coherent, ext.height, (hsim 0).ready,
    (hsim 0).stands⟩, fun fuel input => ?_⟩
  obtain ⟨trace, htrace, -, hkeeps⟩ := (hsim fuel).covers
  have hall : a.trace.toList = trace := htrace
  rw [hall]
  exact hkeeps (Run.State.start input) Check.inside_store (start_tracks x)

namespace CoveredEnd
variable {x : Bytes} {c : Context}

theorem outermost (h : CoveredEnd p x ctx c a) : c.outermost = 0 := by
  rw [Context.outermost, h.single]

/-- A global variable is in the one scope there is. -/
theorem global (h : CoveredEnd p x ctx c a) {v : Variable} (hv : v ∈ ctx.variables)
    (hd : v.depth = 0) : cell c.scopes.items 0 v.name = some (.variable v) := by
  have hvars : v ∈ c.variables := by
    rw [h.closed] at hv
    exact hv
  have hcell := h.coherent.globals v hvars hd
  rw [h.single] at hcell
  exact hcell

theorem lookup? (h : CoveredEnd p x ctx c a) (n : Bytes) :
    a.env.lookup? n = Environment.held a.env.scopes 0 n := by
  have hheight := h.ready.env.cells.height
  have hsingle := h.single
  exact Environment.lookup?_single (by omega) n

theorem bound (h : CoveredEnd p x ctx c a) (n : Bytes) :
    a.env.bound.lookup n = Environment.held a.env.scopes 0 n := by
  rw [Environment.lookup_bound h.ready.env.names, h.lookup?]

theorem store (h : CoveredEnd p x ctx c a) {store : Store} (hfit : StoreFits c store) (n : Bytes) :
    store.lookup? n = (cell store.scopes 0 n).join := by
  have hheight := Fits.height hfit
  have hsingle := h.single
  exact Store.lookup?_single (by omega) n

end CoveredEnd

/-- How a run with exact operations ends. -/
theorem exact_run_ends {sites : List Site} {trace : List Analysis.Event} {fuel : Nat}
    {input : Input} {Q : Unit → Run.State → Prop}
    (h : Keeps (coverage sites trace) (Run.observing.items fuel p.units) (Run.State.start input) Q)
    (hexact : ∀ o ∈ Run.history fuel p input, o.exact = true) :
    (∀ span, (Run.run fuel p input).1 ≠ .error (.failed .divisionByZero span)) ∧
      ((Run.run fuel p input).1 = .ok () → Q () (Run.run fuel p input).2) := by
  have hout := h.2 hexact
  rw [← Run.observed_eq_run]
  cases hr : (Run.observing.items fuel p.units (Run.State.start input)).result with
  | ok u =>
    rw [hr] at hout
    exact ⟨fun span heq => (by cases heq), fun _ => hout⟩
  | error e =>
    rw [hr] at hout
    exact ⟨fun span heq => hout span (Except.error.inj heq), fun heq => (by cases heq)⟩

/-- The analysis is sound. Where it succeeds, a run whose operations were exact does not
divide by zero, and when it ends well the global variables the checker knows to be
assigned have values that the final environment describes. -/
theorem successful_analysis_is_sound (hcheck : p.check = (.ok (), ctx))
    (hanalysis : (Analysis.run config p).1 = .ok ()) (fuel : Nat) (input : Input)
    (hexact : ∀ o ∈ Run.history fuel p input, o.exact = true) :
    (∀ span, (Run.run fuel p input).1 ≠ .error (.failed .divisionByZero span)) ∧
    ((Run.run fuel p input).1 = .ok () →
      ∀ v ∈ ctx.variables, v.depth = 0 → v.number ∈ ctx.assigned → ∃ value atom,
        (Run.run fuel p input).2.store.lookup? v.name = some value ∧
        (Analysis.run config p).2.env.lookup? v.name = some atom ∧
        value.abstract.leq atom = true) := by
  have hrun : Analysis.run config p = (.ok (), (Analysis.run config p).2) :=
    Prod.ext hanalysis rfl
  obtain ⟨c, hend, hkeeps⟩ := program_covered hcheck hrun []
  obtain ⟨hdiv, hok⟩ := exact_run_ends (hkeeps fuel input) hexact
  refine ⟨hdiv, fun hr v hv hd hm => ?_⟩
  obtain ⟨hfit, htracks⟩ := hok hr
  have hcell := hend.global hv hd
  have hassigned : v.number ∈ c.assigned := by
    rw [hend.closed] at hm
    exact hm
  obtain ⟨w, hw, hcf⟩ := Fits.known hfit 0 v.name v hcell
  obtain ⟨value, rfl⟩ := Option.isSome_iff_exists.mp (hcf.bound hassigned)
  obtain ⟨atom, hatom, hle⟩ := htracks.assigned 0 v.name v hcell hassigned value hw
  refine ⟨value, atom, ?_, ?_, hle⟩
  · rw [hend.store hfit, hw]
    rfl
  · rw [hend.lookup?]
    exact hatom

/-! The countdown is accepted, its analysis succeeds and its operations are exact. -/

theorem Countdown.analysis_ok : (Analysis.run ⟨0, true⟩ program).1 = .ok () := by decide +kernel

theorem Countdown.history_exact : ∀ o ∈ Run.history 3 program ⟨[]⟩, o.exact = true := by
  decide +kernel

theorem Countdown.end_is_described : ∃ value atom,
    (Run.run 3 program ⟨[]⟩).2.store.lookup? [110] = some value ∧
    (Analysis.run ⟨0, true⟩ program).2.env.lookup? [110] = some atom ∧
    value.abstract.leq atom = true := by
  have hsound := successful_analysis_is_sound Countdown.accepted Countdown.analysis_ok 3 ⟨[]⟩
    Countdown.history_exact
  have hend : (Run.run 3 program ⟨[]⟩).1 = .ok () := by decide +kernel
  exact hsound.2 hend ⟨[110], .int, .inRow 0 0 10, 0, 0⟩ (by decide +kernel) rfl (by decide +kernel)

/-- The last event the analysis reported at a statement describes what a run shows there,
as long as the operations before were exact. A verdict that is always the same is
therefore never contradicted. -/
theorem last_events_cover_run (hcheck : p.check = (.ok (), ctx))
    (hanalysis : (Analysis.run config p).1 = .ok ()) (hdistinct : p.Distinct) (fuel : Nat)
    (input : Input) {before after : List Run.Observation} {o : Run.Observation}
    (hhistory : Run.history fuel p input = before ++ o :: after)
    (hexact : ∀ b ∈ before, b.exact = true) :
    (∀ span e v, o = .printed span e v → ∃ atom,
      lastAt (.print span e) (Analysis.run config p).2.trace.toList = some (.print span e atom) ∧
      v.abstract.leq atom = true) ∧
    (∀ span b holds, o = .branched span b holds → ∃ verdict,
      lastAt (.branch span b) (Analysis.run config p).2.trace.toList =
        some (.branch span b verdict) ∧
      (Atom.ofBool holds).leq verdict = true ∧
      ∀ always, verdict = Atom.ofBool always → holds = always) ∧
    (∀ span b holds, o = .looped span b holds → ∃ number verdict stable,
      lastAt (.loop span b) (Analysis.run config p).2.trace.toList =
        some (.round span b number verdict stable) ∧
      (Atom.ofBool holds).leq verdict = true ∧
      ∀ always, verdict = Atom.ofBool always → holds = always) := by
  have hrun : Analysis.run config p = (.ok (), (Analysis.run config p).2) :=
    Prod.ext hanalysis rfl
  obtain ⟨c, -, hkeeps⟩ := program_covered hcheck hrun []
  have hseen := (hkeeps fuel input).1
  change (coverage _ _).History (Run.history fuel p input) at hseen
  rw [hhistory] at hseen
  -- all before `o` was exact, so the last event at its site covers it
  have hcovered := hseen.seen_of_fair hexact hdistinct.sites
  refine ⟨?_, ?_, ?_⟩
  · rintro span e v rfl
    obtain ⟨ev, hlast, hle⟩ := hcovered _ _ rfl
    obtain ⟨atom, rfl⟩ := Analysis.Event.eq_print (lastAt_mem hlast).2
    exact ⟨atom, hlast, hle⟩
  · rintro span b holds rfl
    obtain ⟨ev, hlast, hle⟩ := hcovered _ _ rfl
    obtain ⟨verdict, rfl⟩ := Analysis.Event.eq_branch (lastAt_mem hlast).2
    exact ⟨verdict, hlast, hle, fun always hv => Analysis.ofBool_leq_ofBool.mp (hv ▸ hle)⟩
  · rintro span b holds rfl
    obtain ⟨ev, hlast, hle⟩ := hcovered _ _ rfl
    obtain ⟨number, verdict, stable, rfl⟩ := Analysis.Event.eq_round (lastAt_mem hlast).2
    exact ⟨number, verdict, stable, hlast, hle, fun always hv => Analysis.ofBool_leq_ofBool.mp (hv ▸ hle)⟩

/-- The condition of the loop fails in the end, which its last round allows for. -/
theorem Countdown.exit_is_described :
    .looped (.inRow 2 0 48) positive false ∈ Run.history 3 program ⟨[]⟩ ∧
    ∃ number verdict stable,
      lastAt (.loop (.inRow 2 0 48) positive) (Analysis.run ⟨0, true⟩ program).2.trace.toList =
        some (.round (.inRow 2 0 48) positive number verdict stable) ∧
      (Atom.ofBool false).leq verdict = true := by
  have hhistory : Run.history 3 program ⟨[]⟩ =
      (Run.history 3 program ⟨[]⟩).take 25 ++ .looped (.inRow 2 0 48) positive false ::
        (Run.history 3 program ⟨[]⟩).drop 26 := by decide +kernel
  have hdistinct : program.Distinct := ⟨by decide +kernel, by decide +kernel⟩
  obtain ⟨-, -, hloop⟩ := last_events_cover_run Countdown.accepted Countdown.analysis_ok hdistinct 3
    ⟨[]⟩ hhistory fun b hb => Countdown.history_exact b (List.mem_of_mem_take hb)
  obtain ⟨number, verdict, stable, hlast, hle, -⟩ := hloop _ _ _ rfl
  refine ⟨?_, number, verdict, stable, hlast, hle⟩
  rw [hhistory]
  exact List.mem_append_right _ List.mem_cons_self

/-- A global variable `x` has a sign at the end of a successful analysis exactly when its
standing says so. Unless it was lost, that sign describes the value it has at the end of
every run, also where it is assigned on some paths only. -/
theorem final_environment_covers (hcheck : p.check = (.ok (), ctx))
    (hanalysis : (Analysis.run config p).1 = .ok ()) (fuel : Nat) (input : Input)
    (hexact : ∀ o ∈ Run.history fuel p input, o.exact = true)
    (hend : (Run.run fuel p input).1 = .ok ()) (x : Bytes) :
    ((Analysis.run config p).2.env.bound.lookup x).isSome = (p.standing x).bound ∧
    ((p.standing x).lost = false → ∀ value,
      (Run.run fuel p input).2.store.lookup? x = some value → ∃ atom,
        (Analysis.run config p).2.env.bound.lookup x = some atom ∧
        value.abstract.leq atom = true) := by
  have hrun : Analysis.run config p = (.ok (), (Analysis.run config p).2) :=
    Prod.ext hanalysis rfl
  obtain ⟨c, hcov, hkeeps⟩ := program_covered hcheck hrun x
  obtain ⟨hfit, htracks⟩ := (exact_run_ends (hkeeps fuel input) hexact).2 hend
  have hstands := hcov.stands.bound
  rw [hcov.outermost] at hstands
  refine ⟨by rw [hcov.bound, hstands], fun hl value hvalue => ?_⟩
  have hfollows := htracks.global hl
  rw [hcov.outermost] at hfollows
  rw [hcov.store hfit] at hvalue
  rw [hcov.bound]
  exact hfollows value (Option.join_eq_some_iff.mp hvalue)

/-- The variable `x` is assigned in one branch of the last `if` only. -/
theorem Countdown.branch_is_described :
    (program.standing [120]).lost = false ∧ ∃ atom,
      (Analysis.run ⟨0, true⟩ program).2.env.bound.lookup [120] = some atom ∧
      (Value.int 0).abstract.leq atom = true := by
  have hlost : (program.standing [120]).lost = false := by decide +kernel
  have hend : (Run.run 3 program ⟨[]⟩).1 = .ok () := by decide +kernel
  have hcovers := final_environment_covers Countdown.accepted Countdown.analysis_ok 3 ⟨[]⟩
    Countdown.history_exact hend [120]
  exact ⟨hlost, hcovers.2 hlost (.int 0) (by decide +kernel)⟩

end Programs

namespace Crossed

/-- A program that loses the value of `x`:
```
int x;
if (0 > 1) { } else x = -1;
if (0 > 1) x = 1; else { }
``` -/
def program : Program where
  units := [
    .decl ⟨.int, [120], none, .inRow 0 0 6⟩,
    .stmt (.ite (.compare .gt (.int 0 (.inRow 1 4 5)) (.int 1 (.inRow 1 8 9)) (.inRow 1 4 9))
      (.block [] (.inRow 1 11 14))
      (some (.assign [120] (.neg (.int 1 (.inRow 1 25 26)) (.inRow 1 24 26)) (.inRow 1 20 27)))
      (.inRow 1 0 27)),
    .stmt (.ite (.compare .gt (.int 0 (.inRow 2 4 5)) (.int 1 (.inRow 2 8 9)) (.inRow 2 4 9))
      (.assign [120] (.int 1 (.inRow 2 15 16)) (.inRow 2 11 17))
      (some (.block [] (.inRow 2 23 26))) (.inRow 2 0 26))]
  documentation := []
  span := ⟨Point.origin, ⟨3, 0⟩⟩

/-- The run ends with the value -1, and the analysis with a positive one. -/
theorem value_escapes :
    (program.check).1 = .ok () ∧ (Analysis.run ⟨0, true⟩ program).1 = .ok () ∧
    (Run.run 0 program ⟨[]⟩).1 = .ok () ∧ (program.standing [120]).lost = true ∧
    (∀ o ∈ Run.history 0 program ⟨[]⟩, o.exact = true) ∧
    (Run.run 0 program ⟨[]⟩).2.store.lookup? [120] = some (.int (-1)) ∧
    (Analysis.run ⟨0, true⟩ program).2.env.bound.lookup [120] = some (.int .pos) ∧
    (Value.int (-1)).abstract.leq (.int .pos) = false :=
  ⟨rfl, by decide +kernel, by decide +kernel, by decide +kernel, by decide +kernel,
    by decide +kernel, by decide +kernel, by decide +kernel⟩

end Crossed
end Signum
