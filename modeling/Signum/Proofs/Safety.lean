import Signum.Proofs.Analysis.Safety
import Signum.Proofs.Check.Recorded
import Signum.Proofs.Run.Safety
import Signum.Proofs.Syntax.Places
/- Accepted programs do not go wrong.

   A whole program starts in a context that is coherent and that the empty environment
   and the empty store fit, so what is safe step by step is safe for the program: the
   analysis and the run of an accepted program stop for the failures a user can expect
   and for nothing else, and every expression gets what its recorded type says. -/
namespace Signum

open Check (Coherent)

namespace Check

/-- What the checker knows inside the outermost scope of a program. -/
def inside : Context := { Context.start with scopes := Context.start.scopes.push }

theorem inside_coherent : Coherent inside := by
  refine ⟨Nat.le_refl 2, fun i n v hv => ?_, fun v hv => ?_, fun k hk => ?_⟩
  · match i with
    | 0 => cases hv
    | 1 =>
      change ([("int", Object.type .int), ("float", Object.type .float)] :
        List (Bytes × Object)).lookup n = some (.variable v) at hv
      simp only [List.lookup_cons, List.lookup_nil] at hv
      split at hv
      · cases hv
      · split at hv <;> cases hv
    | i + 2 => cases hv
  · simp [inside, Context.start] at hv
  · cases hk

theorem inside_environment : EnvironmentFits inside Environment.fresh := by
  refine ⟨⟨rfl, fun i n x hx => ?_, fun i n v hv => ?_⟩, fun s hs => ?_⟩
  · cases i <;> cases hx
  · have := (inside_coherent.own i n v hv).2.2.2
    simp [inside, Context.start] at this
  · obtain rfl := List.mem_singleton.mp hs
    exact List.nodup_nil

theorem inside_store : StoreFits inside Store.fresh := by
  refine ⟨rfl, fun i n x hx => ?_, fun i n v hv => ?_⟩
  · cases i <;> cases hx
  · have := (inside_coherent.own i n v hv).2.2.2
    simp [inside, Context.start] at this

/-- A program is accepted when its units are, and closing its scope is all that is left. -/
theorem check_accepted {p : Program} {ctx : Context} (h : p.check = (.ok (), ctx)) :
    ∃ c, Succeeds (items p.units) inside () c ∧ ctx = { c with scopes := c.scopes.pop } :=
  within_accepted h

end Check

/-- The checker recorded this type for the expression, and it is the one found for it when
the nodes of the program can be told apart, as those of a parsed program can. -/
def HasType (p : Program) (ctx : Context) (e : Expr) (t : NumType) : Prop :=
  (e, t) ∈ ctx.types.toList ∧ (p.Distinct → ctx.typeOf? e = some t)

theorem hasType_of_mem {p : Program} {ctx : Context} (h : p.check = (.ok (), ctx)) {e : Expr}
    {t : NumType} (he : (e, t) ∈ ctx.types.toList) : HasType p ctx e t := by
  refine ⟨he, fun hn => Check.typeOf?_of_mem ?_ he⟩
  obtain ⟨c, hc, rfl⟩ := Check.check_accepted h
  have hall : (c.types.toList.map Prod.fst).Perm p.expressions := Check.items_records p.units hc
  exact hall.symm.nodup hn.expressions

/-- The analysis of an accepted program keeps its promise. -/
theorem analysis_safe {p : Program} {ctx : Context} (h : p.check = (.ok (), ctx))
    (config : Analysis.Config) :
    ∃ c, ctx = { c with scopes := c.scopes.pop } ∧ Coherent c ∧
      Logged.Keeps (Analysis.safety config ctx.types.toList)
        ((Analysis.observing config).items p.units) Analysis.State.start
        fun _ st => Analysis.Ready c st := by
  obtain ⟨c, hc, rfl⟩ := Check.check_accepted h
  have ext := Check.items_extends p.units (by simp [Check.inside, Scopes.push]) hc
  refine ⟨c, rfl, ext.coherent Check.inside_coherent, ?_⟩
  refine Analysis.items_safe p.units hc Check.inside_coherent (fun _ hx => hx) ?_
  exact ⟨Check.inside_environment, fun _ _ _ ha => (by cases ha)⟩

/-- The run of an accepted program keeps its promise. -/
theorem run_safe {p : Program} {ctx : Context} (h : p.check = (.ok (), ctx)) (fuel : Nat)
    (input : Input) :
    ∃ c, ctx = { c with scopes := c.scopes.pop } ∧ Coherent c ∧
      Logged.Keeps (Run.safety ctx.types.toList) (Run.observing.items fuel p.units)
        (Run.State.start input) fun _ st => StoreFits c st.store := by
  obtain ⟨c, hc, rfl⟩ := Check.check_accepted h
  have ext := Check.items_extends p.units (by simp [Check.inside, Scopes.push]) hc
  refine ⟨c, rfl, ext.coherent Check.inside_coherent, ?_⟩
  exact Run.items_safe p.units hc Check.inside_coherent (fun _ hx => hx) Check.inside_store

/-- Without a limit on rounds the analysis of an accepted program ends well or finds a division
by zero. -/
theorem analysis_ends {p : Program} {ctx : Context} (h : p.check = (.ok (), ctx))
    {config : Analysis.Config} (hlimit : config.maxIterations ≤ 0) :
    (Analysis.run config p).1 = .ok () ∨
      ∃ span, (Analysis.run config p).1 = .error (.failed .divisionByZero span) := by
  obtain ⟨c, -, -, -, hout⟩ := analysis_safe h config
  have hout := hout fun _ _ => trivial
  rw [← Analysis.observed_eq_run]
  cases hr : ((Analysis.observing config).items p.units Analysis.State.start).result with
  | ok u => exact .inl rfl
  | error e =>
    rw [hr] at hout
    match e, hout with
    | .failed .divisionByZero span, _ => exact .inr ⟨span, rfl⟩
    | .fault (.unsettled _ _), hpos => exact absurd hpos (Int.not_lt.mpr hlimit)

/-- The run of an accepted program ends well, divides by zero, cannot read its input or is not
finished yet. -/
theorem run_ends {p : Program} {ctx : Context} (h : p.check = (.ok (), ctx)) (fuel : Nat)
    (input : Input) : (Run.run fuel p input).1 = .ok () ∨
      (∃ span, (Run.run fuel p input).1 = .error (.failed .divisionByZero span)) ∨
      (∃ span, (Run.run fuel p input).1 = .error (.failed .failedRead span)) ∨
      (Run.run fuel p input).1 = .error .unfinished := by
  obtain ⟨c, -, -, -, hout⟩ := run_safe h fuel input
  have hout := hout fun _ _ => trivial
  rw [← Run.observed_eq_run]
  cases hr : (Run.observing.items fuel p.units (Run.State.start input)).result with
  | ok u => exact .inl rfl
  | error e =>
    rw [hr] at hout
    match e, hout with
    | .failed .divisionByZero span, _ => exact .inr (.inl ⟨span, rfl⟩)
    | .failed .failedRead span, _ => exact .inr (.inr (.inl ⟨span, rfl⟩))
    | .unfinished, _ => exact .inr (.inr (.inr rfl))

/-- An accepted program does not go wrong. Its analysis ends well or finds a division by
zero, unless it is given a limit on rounds; its run ends well, divides by zero, cannot
read its input or is not finished yet; and whatever an expression gets in either is of
the type recorded for it. -/
theorem accepted_program_is_safe {p : Program} {ctx : Context} (h : p.check = (.ok (), ctx)) :
    (∀ config : Analysis.Config, config.maxIterations ≤ 0 →
      (Analysis.run config p).1 = .ok () ∨
      ∃ span, (Analysis.run config p).1 = .error (.failed .divisionByZero span)) ∧
    (∀ fuel input, (Run.run fuel p input).1 = .ok () ∨
      (∃ span, (Run.run fuel p input).1 = .error (.failed .divisionByZero span)) ∨
      (∃ span, (Run.run fuel p input).1 = .error (.failed .failedRead span)) ∨
      (Run.run fuel p input).1 = .error .unfinished) ∧
    (∀ config e a, (e, a) ∈ Analysis.evaluations config p →
      ∃ t, HasType p ctx e t ∧ a.domain = Analysis.domainOf t) ∧
    (∀ fuel input e v, .value e v ∈ Run.history fuel p input →
      ∃ t, HasType p ctx e t ∧ v.type? = some t) := by
  refine ⟨fun config hlimit => analysis_ends h hlimit, run_ends h, fun config e a hmem => ?_,
    fun fuel input e v hmem => ?_⟩
  · obtain ⟨c, -, -, hhist, -⟩ := analysis_safe h config
    obtain ⟨t, ht, hd⟩ := hhist.seen_of_mem (fun _ => trivial) hmem
    exact ⟨t, hasType_of_mem h ht, hd⟩
  · obtain ⟨c, -, -, hhist, -⟩ := run_safe h fuel input
    obtain ⟨t, ht, hd⟩ := hhist.seen_of_mem (fun _ => trivial) hmem
    exact ⟨t, hasType_of_mem h ht, hd⟩

/-- A span within one row. -/
def Span.inRow (row first last : Nat) : Span := ⟨⟨row, first⟩, ⟨row, last⟩⟩

namespace Countdown

/-- The condition `n > 0` of the loop below. -/
def positive : Cond :=
  .compare .gt (.var [110] (.inRow 2 7 8)) (.int 0 (.inRow 2 11 12)) (.inRow 2 7 12)

/-- A program that counts down from two:
```
int n = 2;
int x;
while (n > 0) { if (n > 1) print n; n = n - 1; }
if (n < 1) x = n; else { }
``` -/
def program : Program where
  units := [
    .decl ⟨.int, [110], some (.int 2 (.inRow 0 8 9)), .inRow 0 0 10⟩,
    .decl ⟨.int, [120], none, .inRow 1 0 6⟩,
    .stmt (.loop positive (.block [
        .stmt (.ite (.compare .gt (.var [110] (.inRow 2 20 21)) (.int 1 (.inRow 2 24 25))
          (.inRow 2 20 25)) (.print (.var [110] (.inRow 2 33 34)) (.inRow 2 27 35)) none
          (.inRow 2 16 35)),
        .stmt (.assign [110] (.binary .sub (.var [110] (.inRow 2 40 41)) (.int 1 (.inRow 2 44 45))
          (.inRow 2 40 45)) (.inRow 2 36 46))] (.inRow 2 14 48)) (.inRow 2 0 48)),
    .stmt (.ite (.compare .lt (.var [110] (.inRow 3 4 5)) (.int 1 (.inRow 3 8 9)) (.inRow 3 4 9))
      (.assign [120] (.var [110] (.inRow 3 15 16)) (.inRow 3 11 17))
      (some (.block [] (.inRow 3 23 26))) (.inRow 3 0 26))]
  documentation := []
  span := ⟨Point.origin, ⟨4, 0⟩⟩

/-- What the checker knows of it at the end. -/
def context : Context := program.check.2

theorem accepted : program.check = (.ok (), context) := rfl

theorem program_is_safe :
    ((Analysis.run ⟨0, true⟩ program).1 = .ok () ∨
      ∃ span, (Analysis.run ⟨0, true⟩ program).1 = .error (.failed .divisionByZero span)) ∧
    (∀ fuel input e v, .value e v ∈ Run.history fuel program input →
      ∃ t, HasType program context e t ∧ v.type? = some t) := by
  obtain ⟨hanalysis, -, -, hvalues⟩ := accepted_program_is_safe accepted
  exact ⟨hanalysis ⟨0, true⟩ (by decide), hvalues⟩

end Countdown

end Signum
