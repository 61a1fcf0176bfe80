import Signum.Proofs.Analysis.Instrument
/- The rounds of loops, counted.

   The instrument `counting` notes every round a loop begins. How many rounds a loop gets in
   the environment it is entered with is left open: with the limits an analysis sets itself
   the counted steps are the analysis (`counting_faithful`), and with others they say what the
   analysis would do if it gave its loops more rounds, or fewer.

   `Measured` is the judgement about them. It holds the same step under all limits against
   the step under the analysis' own limits, without a cap: the rounds noted there are
   bounded, limits that grant them all change nothing, and limits that do not grant some
   round stop at one that they do not grant. -/
namespace Signum

namespace Analysis

open Logged (note lift)

/-- A round of a loop: where the loop stands, how many variables could still rise when
it was entered, and the number of the round in this execution of the loop, from one. -/
structure Round where
  span : Span
  slack : Nat
  number : Nat
  deriving DecidableEq, Repr

/-- Settings of an analysis, with the rounds a loop gets in the environment it is
entered with. -/
structure Limits where
  config : Config
  limit : Environment → Nat

/-- The limits an analysis sets itself. -/
def Config.limits (config : Config) : Limits := ⟨config, roundLimit config⟩

/-- A step of an analysis with the rounds begun in it. -/
abbrev Counted := Logged Halt State Round

/-- Notes the round that begins, if one does, in an execution of the loop that stands there and
was entered with so many variables that could still rise. -/
def countRound (loop : Span × Nat) : Moment → Counted (Span × Nat)
  | .begun number => do
    note ⟨loop.1, loop.2, number⟩
    pure loop
  | _ => pure loop

/-- Analyses under limits with a note of every round. -/
def counting (l : Limits) : Instrument State Round Environment (Span × Nat) :=
  { Instrument.silent l.config fun span _ env => (span, env.slack) with
    limit := l.limit
    tell := countRound }

/-- Analyses a program under limits: how it ends, and the rounds its loops begin. -/
def runWithin (l : Limits) (p : Program) : Outcome Halt State Round Unit :=
  (counting l).items p.units State.start

/-- The rounds that the loops of a program begin when it is analysed, in order. -/
def roundsOf (config : Config) (p : Program) : List Round := (runWithin config.limits p).history

/-! Under its own limits the counted analysis is the analysis. -/

theorem counting_faithful (config : Config) : (counting config.limits).Faithful config id :=
  { Instrument.silent_faithful config fun span _ env => (span, env.slack) with
    limit := rfl
    tell := fun k moment => by cases moment <;> exact fun _ => rfl }

theorem runWithin_eq_run (config : Config) (p : Program) :
    ((runWithin config.limits p).result, (runWithin config.limits p).state) = run config p :=
  (counting_faithful config).items p.units State.start

/-- A round in which a loop goes on or is settled. -/
theorem counting_round (l : Limits) (span : Span) (c : Cond) (body : Counted Unit) (number : Nat)
    (again : Span × Nat → Counted Unit) (loop : Span × Nat) :
    (counting l).round span c body number again loop = (do
      let verdict ← lift (cond l.config c)
      let after ← onFork body
      let stable ← lift (settle after)
      lift (report (.round span c number verdict stable))
      if stable then pure () else again loop) := by
  refine (counting l).round_untold (fun _ _ => rfl) (fun k moment h => ?_) span c body number again
    loop
  cases moment with
  | begun number => exact absurd rfl (h number)
  | tested | settled | ended => rfl

/-- Another round of a loop, which is noted first. -/
theorem counting_rounds (l : Limits) (span : Span) (c : Cond) (body : Counted Unit)
    (slack left number : Nat) :
    (counting l).rounds span c body (left + 1) number (span, slack) = (do
      note ⟨span, slack, number⟩
      (counting l).round span c body number ((counting l).rounds span c body left (number + 1))
        (span, slack)) := by
  rw [Instrument.rounds]
  change (note _ >>= fun _ => pure _) >>= _ = _
  rw [bind_assoc]
  simp only [pure_bind]

/-! Holding a step under other limits against the step. -/

section Curtails
variable {α β : Type} {allows : Nat → Prop} {cap : Int} {s : State}

/-- The step `y` is the step `x`, but for stopping at a round that is not allowed. -/
structure Curtails (allows : Nat → Prop) (cap : Int) (y x : Counted α) (s : State) : Prop where
  same : (∀ r ∈ (x s).history, allows r.number) → y s = x s
  stopped : (∃ r ∈ (x s).history, ¬allows r.number) →
    ∃ r ∈ (x s).history, ¬allows r.number ∧
      (y s).result = .error (.fault (.unsettled r.span cap))

namespace Curtails

/-- Steps that are the same and begin no round. -/
theorem of_eq {x y : Counted α} (h : y = x) (hx : (x s).history = []) :
    Curtails allows cap y x s := by
  subst h
  refine ⟨fun _ => rfl, fun ⟨r, hr, _⟩ => ?_⟩
  rw [hx] at hr
  cases hr

theorem bind {x y : Counted α} {f g : α → Counted β} (h : Curtails allows cap y x s)
    (hf : ∀ a t, Succeeds x.forget s a t → Curtails allows cap (g a) (f a) t) :
    Curtails allows cap (y >>= g) (x >>= f) s := by
  -- Where `y` stops already, the rest does not matter.
  have hstop {r : Round} (hr : (y s).result = .error (.fault (.unsettled r.span cap))) :
      ((y >>= g) s).result = .error (.fault (.unsettled r.span cap)) := by
    rw [Logged.bind_of_error hr]
  cases hx : (x s).result with
  | error e =>
    have hxf : (x >>= f) s = ⟨.error e, (x s).state, (x s).history⟩ := Logged.bind_of_error hx
    refine ⟨fun hall => ?_, fun hsome => ?_⟩
    · rw [hxf] at hall ⊢
      have hy := h.same hall
      have hyr : (y s).result = .error e := by rw [hy, hx]
      rw [Logged.bind_of_error hyr, hy]
    · rw [hxf] at hsome ⊢
      obtain ⟨r, hr, hnot, hres⟩ := h.stopped hsome
      exact ⟨r, hr, hnot, hstop hres⟩
  | ok a =>
    have hxf : (x >>= f) s = { f a (x s).state with
      history := (x s).history ++ (f a (x s).state).history } := Logged.bind_of_ok hx
    have hrest := hf a (x s).state (Prod.ext hx rfl)
    by_cases hall : ∀ r ∈ (x s).history, allows r.number
    · have hy := h.same hall
      have hyr : (y s).result = .ok a := by rw [hy, hx]
      have hyg := Logged.bind_of_ok (f := g) hyr
      rw [hy] at hyg
      refine ⟨fun hboth => ?_, fun hsome => ?_⟩
      · rw [hxf] at hboth
        rw [hyg, hxf, hrest.same fun r hr => hboth r (List.mem_append_right _ hr)]
      · rw [hxf] at hsome
        obtain ⟨r, hr, hnot⟩ := hsome
        have hr := (List.mem_append.mp hr).resolve_left fun hl => hnot (hall r hl)
        obtain ⟨r', hr', hnot', hres⟩ := hrest.stopped ⟨r, hr, hnot⟩
        rw [hxf, hyg]
        exact ⟨r', List.mem_append_right _ hr', hnot', hres⟩
    · obtain ⟨r, hr, hnot, hres⟩ := h.stopped (by simpa using hall)
      refine ⟨fun hboth => ?_, fun _ => ?_⟩
      · rw [hxf] at hboth
        exact absurd (hboth r (List.mem_append_left _ hr)) hnot
      · rw [hxf]
        exact ⟨r, List.mem_append_left _ hr, hnot, hstop hres⟩

theorem around {x y : Counted α} {before after : State → State}
    (h : Curtails allows cap y x (before s)) :
    Curtails allows cap (Logged.around before after y) (Logged.around before after x) s := by
  refine ⟨fun hall => ?_, fun hsome => ?_⟩
  · unfold Logged.around
    rw [h.same hall]
  · exact h.stopped hsome

theorem branch {x y : Counted Unit} (h : Curtails allows cap y x { s with env := s.env.fork }) :
    Curtails allows cap (onFork y) (onFork x) s := by
  refine ⟨fun hall => ?_, fun hsome => ?_⟩
  · have hsame := h.same hall
    unfold onFork
    rw [run_branch, run_branch, Logged.run_forget, Logged.run_forget, hsame]
  · obtain ⟨r, hr, hnot, hres⟩ := h.stopped hsome
    refine ⟨r, hr, hnot, ?_⟩
    change ((Analysis.branch y.forget).run.run s).1 = _
    rw [run_branch, Logged.run_forget, hres]

end Curtails
end Curtails

/-- The limits read as the analysis does, and grant a loop exactly the allowed ones of the
rounds it can need. -/
structure Grants (l : Limits) (config : Config) (allows : Nat → Prop) : Prop where
  reads : l.config.memoizeReads = config.memoizeReads
  rounds : ∀ env j, j ≤ env.slack → (j < l.limit env ↔ allows (j + 1))

/-- A step under all limits, held against the step under the analysis' own: the rounds
are bounded there, and other limits curtail them. -/
structure Measured {α : Type} (config : Config) (n : Nat) (f : Limits → Counted α) (s : State) :
    Prop where
  bounded : ∀ r ∈ (f config.limits s).history, r.number ≤ r.slack + 1 ∧ r.slack ≤ n
  curtails : ∀ {l : Limits} {allows : Nat → Prop}, Grants l config allows →
    Curtails allows l.config.maxIterations (f l) (f config.limits) s

namespace Measured
variable {α β : Type} {config : Config} {n : Nat} {s : State}

/-- A step that begins no round and takes the settings of reads only. -/
theorem lift {m : Config → M α}
    (h : ∀ config', config'.memoizeReads = config.memoizeReads → m config' = m config) :
    Measured config n (fun l => Logged.lift (m l.config)) s := by
  refine ⟨fun r hr => ?_, fun hl => Curtails.of_eq ?_ rfl⟩
  · cases hr
  · exact congrArg Logged.lift (h _ hl.reads)

/-- A step without settings that begins no round. -/
theorem step (m : M α) : Measured config n (fun _ => Logged.lift m) s :=
  lift (m := fun _ => m) fun _ _ => rfl

theorem bind {f : Limits → Counted α} {g : Limits → α → Counted β} (hf : Measured config n f s)
    (hg : ∀ a t, Succeeds (f config.limits).forget s a t → Measured config n (fun l => g l a) t) :
    Measured config n (fun l => f l >>= g l) s := by
  refine ⟨fun r hr => ?_, fun hl => ?_⟩
  · cases hx : (f config.limits s).result with
    | error e =>
      rw [Logged.bind_of_error hx] at hr
      exact hf.bounded r hr
    | ok a =>
      rw [Logged.bind_of_ok hx] at hr
      rcases List.mem_append.mp hr with hr | hr
      · exact hf.bounded r hr
      · exact (hg a _ (Prod.ext hx rfl)).bounded r hr
  · exact (hf.curtails hl).bind fun a t ha => (hg a t ha).curtails hl

theorem within {f : Limits → Counted Unit}
    (h : Measured config n f { s with env := s.env.enter }) :
    Measured config n (fun l => inScope (f l)) s :=
  ⟨h.bounded, fun hl => (h.curtails hl).around⟩

theorem branch {f : Limits → Counted Unit}
    (h : Measured config n f { s with env := s.env.fork }) :
    Measured config n (fun l => onFork (f l)) s :=
  ⟨h.bounded, fun hl => (h.curtails hl).branch⟩

end Measured

end Analysis
end Signum
