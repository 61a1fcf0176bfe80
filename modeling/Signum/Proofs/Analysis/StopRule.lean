import Signum.Proofs.Analysis.Monotone
import Signum.Proofs.Analysis.Rounds
/- Two rules for ending a loop.

   A loop ends when the state at its head is identical to what its body made, or when joining
   that in changes nothing. A plainer rule ends it in the first case only, and joins in the
   other. The instrument `ruling` chooses the rule loop by loop and gives a loop any number of
   rounds, with notes of each round and of the verdict in it. When no loop keeps to the plain rule
   it does what the analysis does (`ruling_faithful`).

   Under the plain rule a loop may never end. A round whose result is not identical and yet
   adds nothing leaves the scopes as they were, and what a round does depends on the scopes
   only, so it is repeated for ever. Up to such a round the two rules do the same, so where
   the plain rule ends at all, both end in the same round with the same result. -/
namespace Signum.Analysis

open Logged (note lift)
open Environment (Alike)

/-- What is noted of the rounds of a loop: that one begins, and the verdict of its test. -/
inductive Tick where
  | begun (span : Span) (number : Nat)
  | verdict (span : Span) (number : Nat) (atom : Atom)
  deriving DecidableEq, Repr

/-- A step of an analysis with notes of the rounds of its loops. -/
abbrev Ruled := Logged Halt State Tick

/-- The plain rule: a loop is settled when what its body made is identical to the state at its
head. Otherwise that is joined in, whether it changes anything or not. -/
def plainSettle (after : Environment) : M Bool := do
  if (← get).env.identical after then pure true
  else do
    let _ ← joinIn after
    pure false

/-- The rule of a loop that keeps to the plain one or does not. -/
def ruleOf (plain : Bool) (after : Environment) : M Bool :=
  if plain then plainSettle after else settle after

/-- Notes a round that begins, and the verdict of its test. -/
def tick (span : Span) : Moment → Ruled Span
  | .begun number => do
    note (.begun span number)
    pure span
  | .tested number verdict => do
    note (.verdict span number verdict)
    pure span
  | _ => pure span

/-- Analyses with a rule for each loop, and with a number of rounds for it. -/
def ruling (config : Config) (plain : Span → Bool) (limit : Environment → Nat) :
    Instrument State Tick Environment Span :=
  { Instrument.silent config fun span _ _ => span with
    limit := limit
    settle := fun span => ruleOf (plain span)
    tell := tick }

/-- No loop keeps to the plain rule. -/
def nowhere (_ : Span) : Bool := false

/-- The notes are those of the analysis: without them it is the analysis. -/
theorem ruling_faithful (config : Config) :
    (ruling config nowhere (roundLimit config)).Faithful config id :=
  { Instrument.silent_faithful config fun span _ _ => span with
    limit := rfl
    settle := fun _ => rfl
    tell := fun span moment => by cases moment <;> exact fun _ => rfl }

/-- A round of a loop, and what follows it. -/
theorem ruling_rounds (config : Config) (plain : Span → Bool) (limit : Environment → Nat)
    (span : Span) (c : Cond) (body : Ruled Unit) (left number : Nat) :
    (ruling config plain limit).rounds span c body (left + 1) number span = (do
      note (.begun span number)
      let verdict ← lift (cond config c)
      note (.verdict span number verdict)
      let after ← onFork body
      let stable ← lift (ruleOf (plain span) after)
      lift (report (.round span c number verdict stable))
      if stable then pure ()
      else (ruling config plain limit).rounds span c body left (number + 1) span) := by
  have htell (moment : Moment) : (ruling config plain limit).tell span moment = tick span moment :=
    rfl
  have hduring {α : Type} (x : Ruled α) : (ruling config plain limit).during span x = x := rfl
  simp only [Instrument.rounds, Instrument.round, Instrument.turn, htell, tick, hduring, bind_assoc,
    pure_bind]
  rfl

/-! Where the plain rule ends, both rules do the same. -/

/-- A loop has been cut off before it ended. -/
def CutOff {α : Type} (r : Except Halt α) : Prop :=
  ∃ span rounds, r = .error (.fault (.unsettled span rounds))

/-- A loop gets no more rounds than the cap on them, if there is one. -/
def WithinCap (config : Config) (limit : Environment → Nat) : Prop :=
  0 < config.maxIterations → ∀ env, limit env ≤ config.maxIterations.toNat

/-- In a state from which the first step is not cut off, the two steps do the same. -/
def Matches {α : Type} (x y : Ruled α) (st : State) : Prop := ¬CutOff (x st).result → x st = y st

section Matches
variable {α β : Type} {st : State}

theorem Matches.refl (x : Ruled α) : Matches x x st := fun _ => rfl

theorem Matches.bind {x y : Ruled α} {f g : α → Ruled β} (hx : Matches x y st)
    (hf : ∀ a t, Succeeds y.forget st a t → Matches (f a) (g a) t) :
    Matches (x >>= f) (y >>= g) st := by
  intro hend
  have hxy : x st = y st := by
    refine hx ?_
    rintro ⟨span, rounds, hr⟩
    exact hend ⟨span, rounds, by rw [Logged.bind_of_error hr]⟩
  cases hr : (x st).result with
  | error e => rw [Logged.bind_of_error hr, Logged.bind_of_error (hxy ▸ hr), hxy]
  | ok a =>
    have hr' : (y st).result = .ok a := hxy ▸ hr
    rw [Logged.bind_of_ok hr, hxy] at hend ⊢
    rw [Logged.bind_of_ok hr', hf a (y st).state (Prod.ext hr' rfl) hend]

theorem Matches.within {x y : Ruled Unit} (h : Matches x y { st with env := st.env.enter }) :
    Matches (inScope x) (inScope y) st := by
  intro hend
  unfold inScope Logged.around
  rw [h hend]

theorem Matches.branch {x y : Ruled Unit} (h : Matches x y { st with env := st.env.fork }) :
    Matches (onFork x) (onFork y) st := by
  intro hend
  have hxy : x { st with env := st.env.fork } = y { st with env := st.env.fork } := by
    refine h ?_
    rintro ⟨span, rounds, hr⟩
    refine hend ⟨span, rounds, ?_⟩
    change ((Analysis.branch x.forget).run.run st).1 = _
    rw [run_branch, Logged.run_forget, hr]
  unfold onFork
  rw [run_branch, run_branch, Logged.run_forget, Logged.run_forget, hxy]

end Matches

section Loops
variable {config : Config} {plain : Span → Bool} {limit : Environment → Nat} {span : Span}
  {c : Cond} {body : Stmt} {x y : Ruled Unit}

/-- A round that is not identical and adds nothing is repeated under the plain rule until the
loop is cut off. -/
theorem stuck_cutOff (hplain : plain span = true) (hxy : ∀ st, ReadsTop st.reads → Matches x y st)
    (hy : y.forget = stmt config body) {s s₁ s₂ : State} {verdict : Atom} {after : Environment}
    (hs : ReadsTop s.reads) (hcond : Succeeds (cond config c) s verdict s₁)
    (hbranch : Succeeds (branch (stmt config body)) s₁ after s₂)
    (hid : s.env.identical after = false) (hjoin : s.env.join after = (.ok false, s.env))
    (left number : Nat) {s' : State} (henv : s'.env.scopes = s.env.scopes)
    (hs' : ReadsTop s'.reads) :
    CutOff ((ruling config plain limit).rounds span c x left number span s').result := by
  induction left generalizing number s' with
  | zero => exact ⟨span, config.maxIterations, rfl⟩
  | succ left ih =>
    obtain ⟨s₁', after', s₂', hcond', hbranch', hafter, henv₂, hreads₁, hreads₂⟩ :=
      round_again henv hs hs' hcond hbranch
    change CutOff
      (((ruling config plain limit).rounds span c x (left + 1) number span).forget.run.run s').1
    rw [ruling_rounds, hplain]
    simp only [ruleOf, Logged.forget_bind, Logged.forget_note, Logged.forget_lift,
      forget_onFork, Logged.forget_ite, Logged.forget_pure, pure_bind, if_true]
    rw [run_bind, hcond']
    dsimp only
    rw [run_bind]
    by_cases hcut : CutOff (onFork x s₁').result
    · obtain ⟨span', rounds, hr⟩ := hcut
      have hx : (branch x.forget).run.run s₁' =
          (.error (.fault (.unsettled span' rounds)), (onFork x s₁').state) := Prod.ext hr rfl
      rw [hx]
      exact ⟨span', rounds, rfl⟩
    · -- the body does what it did before
      have hsame := (hxy { s₁' with env := s₁'.env.fork } hreads₁).branch hcut
      have hx : (branch x.forget).run.run s₁' = (.ok after', s₂') := by
        rw [← hbranch', ← hy]
        exact Prod.ext (congrArg Outcome.result hsame) (congrArg Outcome.state hsame)
      have hplain : Succeeds (plainSettle after') s₂' false s₂' := by
        unfold plainSettle
        rw [succeeds_get_bind, henv₂, Environment.identical_congr henv hafter, hid]
        refine succeeds_bind.mpr ⟨false, s₂', succeeds_joinIn.mpr ⟨s₂'.env, ?_, rfl⟩,
          succeeds_pure.mpr ⟨rfl, rfl⟩⟩
        rw [henv₂, Environment.join_congr henv hafter, hjoin, ← henv]
      rw [hx]
      dsimp only
      rw [run_bind, hplain]
      refine ih (number + 1) ?_ hreads₂
      rw [henv₂]
      exact henv

theorem run_joinIn (s : State) (other : Environment) : (joinIn other).run.run s =
    ((s.env.join other).1.mapError fun f => .fault (.sign f),
      { s with env := (s.env.join other).2 }) := by
  unfold joinIn
  rw [run_bind, run_get]
  dsimp only
  rw [run_bind, run_modify]
  cases (s.env.join other).1 <;> rfl

/-- How the two rules end a round: in the same way, or the round is not identical and adds
nothing. -/
theorem plainSettle_cases (s : State) (after : Environment) :
    (plainSettle after).run.run s = (settle after).run.run s ∨
      (s.env.identical after = false ∧ s.env.join after = (.ok false, s.env) ∧
        Succeeds (plainSettle after) s false s) := by
  unfold plainSettle settle Succeeds
  rw [run_bind, run_bind, run_get]
  dsimp only
  cases hid : s.env.identical after with
  | true => exact .inl rfl
  | false =>
    rw [if_neg nofun, if_neg nofun, run_bind, run_bind, run_joinIn]
    cases hj : s.env.join after with
    | mk r env =>
      cases r with
      | error f => exact .inl rfl
      | ok changed =>
        cases changed with
        | true => exact .inl rfl
        | false =>
          obtain rfl := Environment.join_same hj
          exact .inr ⟨rfl, rfl, rfl⟩

/-- What follows a round that both rules end in the same way: the loop has settled, or goes on. -/
theorem Matches.settled {verdict : Atom} {number : Nat} {st : State} (stable : Bool)
    (h : stable = false →
      Matches x y { st with trace := st.trace.push (.round span c number verdict false) }) :
    Matches
      (lift (report (.round span c number verdict stable)) >>= fun _ =>
        if stable then pure () else x)
      (lift (report (.round span c number verdict stable)) >>= fun _ =>
        if stable then pure () else y) st := by
  refine Matches.bind (.refl _) fun _ s hreport => ?_
  obtain rfl := succeeds_report.mp hreport
  cases stable with
  | true => exact .refl _
  | false => exact h rfl

/-- A loop that is not cut off under the plain rule goes as under the other. -/
theorem rounds_match (hxy : ∀ st, ReadsTop st.reads → Matches x y st)
    (hy : y.forget = stmt config body) (left left' number : Nat) {st : State}
    (hst : ReadsTop st.reads) (hleft : st.env.slack < left' ∨ left ≤ left') :
    Matches ((ruling config plain limit).rounds span c x left number span)
      ((ruling config nowhere (roundLimit config)).rounds span c y left' number span) st := by
  induction left generalizing left' number st with
  | zero => exact fun hend => absurd ⟨span, config.maxIterations, rfl⟩ hend
  | succ left ih =>
    obtain ⟨left', rfl⟩ : ∃ k, left' = k + 1 := Nat.exists_eq_add_one.mpr (by omega)
    rw [ruling_rounds, ruling_rounds]
    refine Matches.bind (.refl _) fun _ t ht => ?_
    obtain ⟨-, rfl⟩ := succeeds_pure.mp ht
    refine Matches.bind (.refl _) fun verdict s₁ hcond => ?_
    have hreads₁ := (cond_mirrors respected_eq c).reads hst hcond
    refine Matches.bind (.refl _) fun _ t ht => ?_
    obtain ⟨-, rfl⟩ := succeeds_pure.mp ht
    have hround := (hxy { s₁ with env := s₁.env.fork } hreads₁).branch
    refine Matches.bind hround fun after s₂ hbranch => ?_
    rw [forget_onFork, hy] at hbranch
    obtain ⟨henv₂, hreads₂⟩ := round_succeeds (stmt_balanced config body) (stmt_lockstep body) hst
      hcond hbranch
    -- what follows a round that both rules end in the same way
    have hrest : ∀ stable s₃, Succeeds (settle after) s₂ stable s₃ → Matches
        (lift (report (.round span c number verdict stable)) >>= fun _ =>
          if stable then pure ()
          else (ruling config plain limit).rounds span c x left (number + 1) span)
        (lift (report (.round span c number verdict stable)) >>= fun _ =>
          if stable then pure ()
          else (ruling config nowhere (roundLimit config)).rounds span c y left' (number + 1)
            span) s₃ := by
      intro stable s₃ hsettle
      refine Matches.settled stable fun hagain => ?_
      subst hagain
      rcases succeeds_settle.mp hsettle with ⟨-, hfalse, -⟩ | ⟨-, env, hjoin, rfl⟩
      · cases hfalse
      · -- a variable was raised, so fewer rounds are needed from here on
        refine ih left' (number + 1) hreads₂ ?_
        have hless := Environment.join_slack hjoin
        rw [henv₂] at hless
        dsimp only
        omega
    cases hrule : plain span with
    | false => exact Matches.bind (.refl _) fun stable s₃ hsettle => hrest stable s₃ hsettle
    | true =>
      rcases plainSettle_cases s₂ after with hsame | ⟨hid, hjoin, hplain⟩
      · refine Matches.bind (fun _ => ?_) fun stable s₃ hsettle => hrest stable s₃ hsettle
        change (⟨_, _, _⟩ : Outcome Halt State Tick Bool) = ⟨_, _, _⟩
        rw [ruleOf, if_pos rfl, hsame]
        rfl
      · intro hend
        rw [henv₂] at hid hjoin
        have hcut : CutOff ((ruling config plain limit).rounds span c x left (number + 1) span
            { s₂ with trace := s₂.trace.push (.round span c number verdict false) }).result :=
          stuck_cutOff hrule hxy hy hst hcond hbranch hid hjoin left (number + 1) (by rw [henv₂])
            hreads₂
        have hgoes : (lift (ruleOf true after) : Ruled Bool) s₂ = ⟨.ok false, s₂, []⟩ := by
          change (⟨_, _, _⟩ : Outcome Halt State Tick Bool) = _
          rw [ruleOf, if_pos rfl, hplain]
        refine absurd ?_ hend
        rw [Logged.bind_of_ok (a := false) (by rw [hgoes]), hgoes]
        exact hcut

end Loops

section Statements
variable {config : Config} {plain : Span → Bool} {limit : Environment → Nat}

theorem loop_matches {c : Cond} {body : Stmt} {span : Span} (hcap : WithinCap config limit)
    (ih : ∀ st, ReadsTop st.reads → Matches ((ruling config plain limit).stmt body)
      ((ruling config nowhere (roundLimit config)).stmt body) st) {st : State}
    (hst : ReadsTop st.reads) : Matches ((ruling config plain limit).stmt (.loop c body span))
      ((ruling config nowhere (roundLimit config)).stmt (.loop c body span)) st := by
  unfold Instrument.stmt
  refine Matches.bind (.refl _) fun t t' ht => ?_
  obtain ⟨rfl, rfl⟩ := succeeds_get.mp ht
  have hleft : st.env.slack < roundLimit config st.env ∨
      limit st.env ≤ roundLimit config st.env := by
    unfold roundLimit
    split
    · next hpos =>
      have := hcap hpos st.env
      omega
    · omega
  exact rounds_match ih ((ruling_faithful config).stmt body).forget _ _ 1 hst hleft

mutual

/-- A statement in which no loop is cut off goes as in the analysis, whichever loops keep to
the plain rule. -/
theorem stmt_matches (hcap : WithinCap config limit) :
    (s : Stmt) → ∀ st, ReadsTop st.reads → Matches ((ruling config plain limit).stmt s)
      ((ruling config nowhere (roundLimit config)).stmt s) st
  | .assign name value s, st, hst => by
    simp only [Instrument.stmt]
    exact .refl _
  | .print value s, st, hst => by
    simp only [Instrument.stmt]
    exact .refl _
  | .block body s, st, hst => by
    simp only [Instrument.stmt]
    exact .within (items_match hcap body _ hst)
  | .ite c yes none s, st, hst => by
    simp only [Instrument.stmt]
    refine Matches.bind (.refl _) fun verdict st₁ hcond => ?_
    have hst₁ := (cond_mirrors respected_eq c).reads hst hcond
    refine Matches.bind (.refl _) fun _ st₂ hreport => ?_
    obtain rfl := succeeds_report.mp hreport
    refine Matches.bind (.branch (stmt_matches hcap yes _ ?_)) fun _ _ _ => .refl _
    exact hst₁
  | .ite c yes (some no) s, st, hst => by
    simp only [Instrument.stmt]
    refine Matches.bind (.refl _) fun verdict st₁ hcond => ?_
    have hst₁ := (cond_mirrors respected_eq c).reads hst hcond
    refine Matches.bind (.refl _) fun _ st₂ hreport => ?_
    obtain rfl := succeeds_report.mp hreport
    refine Matches.bind (.branch (stmt_matches hcap yes _ ?_)) fun inYes st₃ hyes => ?_
    · exact hst₁
    change Succeeds (branch ((ruling config nowhere (roundLimit config)).stmt yes).forget) _ _ _
      at hyes
    rw [((ruling_faithful config).stmt yes).forget] at hyes
    have hkeep := fun hst₂ => (branch_mirrors (stmt_lockstep yes)).reads hst₂ hyes
    refine Matches.bind (.branch (stmt_matches hcap no _ ?_)) fun _ _ _ => .refl _
    exact hkeep hst₁
  | .loop c body s, st, hst => loop_matches hcap (stmt_matches hcap body) hst

theorem item_matches (hcap : WithinCap config limit) :
    (u : Item) → ∀ st, ReadsTop st.reads → Matches ((ruling config plain limit).item u)
      ((ruling config nowhere (roundLimit config)).item u) st
  | .decl d, st, hst => by
    simp only [Instrument.item]
    exact .refl _
  | .stmt s, st, hst => by
    simp only [Instrument.item]
    exact stmt_matches hcap s st hst

theorem items_match (hcap : WithinCap config limit) :
    (us : List Item) → ∀ st, ReadsTop st.reads → Matches ((ruling config plain limit).items us)
      ((ruling config nowhere (roundLimit config)).items us) st
  | [], st, hst => by
    simp only [Instrument.items]
    exact .refl _
  | u :: rest, st, hst => by
    simp only [Instrument.items]
    refine Matches.bind (item_matches hcap u st hst) fun _ st₁ hu => ?_
    rw [((ruling_faithful config).item u).forget] at hu
    exact items_match hcap rest st₁ ((item_mirrors respected_eq loops_lockstep u).reads hst hu)

end

/-- The second rule for ending a loop changes nothing where the plain rule ends it. Let any
loops keep to the plain rule, this one or those within it, with any number of rounds up to the
cap. If the loop is not cut off then, it begins the same rounds in the analysis, with the same
verdicts, and ends with the same result and in the same state. -/
theorem plain_rule_ends_alike (hcap : WithinCap config limit) {c : Cond} {body : Stmt} {span : Span}
    {st : State} (hst : ReadsTop st.reads)
    (hends : ¬CutOff ((ruling config plain limit).stmt (.loop c body span) st).result) :
    (ruling config nowhere (roundLimit config)).stmt (.loop c body span) st =
      (ruling config plain limit).stmt (.loop c body span) st ∧
    (stmt config (.loop c body span)).run.run st =
      (((ruling config plain limit).stmt (.loop c body span) st).result,
        ((ruling config plain limit).stmt (.loop c body span) st).state) := by
  have hsame := stmt_matches hcap (.loop c body span) st hst hends
  refine ⟨hsame.symm, ?_⟩
  rw [hsame]
  exact ((ruling_faithful config).stmt (.loop c body span) st).symm

end Statements

namespace Descent

/-- The loop `while (readint > 0) x = readint;`. -/
def blur : Stmt :=
  .loop (.compare .gt (.readInt (.inRow 0 18 25)) (.int 0 (.inRow 0 28 29)) (.inRow 0 18 29))
    (.assign [120] (.readInt (.inRow 0 35 42)) (.inRow 0 31 43)) (.inRow 0 11 43)

/-- From a positive `x` the loop ends after two rounds under the plain rule, and as well in the
analysis. -/
theorem blur_ends_alike :
    ((ruling ⟨7, true⟩ (fun _ => true) fun _ => 7).stmt blur (state .pos)).result = .ok () ∧
    ((ruling ⟨7, true⟩ nowhere (roundLimit ⟨7, true⟩)).stmt blur (state .pos)).history =
      [.begun (.inRow 0 11 43) 1, .verdict (.inRow 0 11 43) 1 (.bool .maybe),
        .begun (.inRow 0 11 43) 2, .verdict (.inRow 0 11 43) 2 (.bool .maybe)] := by
  have hresult :
      ((ruling ⟨7, true⟩ (fun _ => true) fun _ => 7).stmt blur (state .pos)).result = .ok () := by
    decide +kernel
  have hends : ¬CutOff
      ((ruling ⟨7, true⟩ (fun _ => true) fun _ => 7).stmt blur (state .pos)).result := by
    rw [hresult]
    rintro ⟨span, rounds, h⟩
    cases h
  have hsame :=
    plain_rule_ends_alike (fun _ _ => by decide) (nofun : ReadsTop (state .pos).reads) hends
  refine ⟨hresult, ?_⟩
  rw [blur, hsame.1]
  decide +kernel

end Descent
end Signum.Analysis
