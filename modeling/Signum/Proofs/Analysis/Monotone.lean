import Signum.Proofs.Analysis.Parallel
import Signum.Proofs.Safety
/- The analysis is monotone.

   From a lower environment of the same shape an analysis ends well when it does from the
   higher one, and what it leaves is again of the same shape and lower. Every construct but
   the loop is compared step by step. Two loops may take different numbers of rounds: the
   higher one ends at a state that one more round leaves as it is (`Settled`), and the heads
   of the lower one, which start below that state, stay below it round after round. The lower
   loop ends because every round that goes on leaves fewer variables that can still rise.

   A cap on the rounds breaks this: the lower loop may need more rounds than the higher one,
   and then stops at the cap. This is the only way the lower run can fail. -/
namespace Signum.Analysis

open Environment (Alike)

/-- A step stopped because a loop reached the cap on its rounds. -/
def Capped (config : Config) (h : Halt) : Prop :=
  0 < config.maxIterations ∧ ∃ span, h = .fault (.unsettled span config.maxIterations)

section Loops
variable {config : Config} {span : Span} {c : Cond} {body : M Unit} {left number : Nat}

/-- A round whose parts succeed. -/
theorem run_round {s s₁ s₂ s₃ : State} {verdict : Atom} {after : Environment} {stable : Bool}
    (hcond : Succeeds (cond config c) s verdict s₁) (hbranch : Succeeds (branch body) s₁ after s₂)
    (hsettle : Succeeds (settle after) s₂ stable s₃) :
    (rounds config span c body (left + 1) number).run.run s =
      if stable then
        (.ok (), { s₃ with trace := s₃.trace.push (.round span c number verdict stable) })
      else (rounds config span c body left (number + 1)).run.run
        { s₃ with trace := s₃.trace.push (.round span c number verdict stable) } := by
  rw [rounds_succ, run_bind, hcond]
  simp only
  rw [run_bind, hbranch]
  simp only
  rw [run_bind, hsettle]
  simp only
  rw [run_bind, report, run_modify]
  cases stable <;> rfl

/-- Taking in what a body made is joining it, when atoms belong to domains. -/
theorem succeeds_settle_iff {s s' : State} {after : Environment} {stable : Bool}
    (hs : Alike Atom.Below s.env.scopes s.env.scopes) : Succeeds (settle after) s stable s' ↔
      ∃ env, s.env.join after = (.ok !stable, env) ∧ s' = { s with env := env } := by
  rw [succeeds_settle]
  cases hid : s.env.identical after with
  | false => simp
  | true =>
    rw [Environment.join_identical hs hid]
    constructor
    · rintro (⟨-, rfl, rfl⟩ | ⟨hfalse, -⟩)
      · exact ⟨s'.env, rfl, rfl⟩
      · cases hfalse
    · rintro ⟨env, hj, rfl⟩
      obtain ⟨hstable, rfl⟩ := Prod.mk.inj hj
      refine .inl ⟨rfl, ?_, rfl⟩
      simpa using hstable

/-- The state at the head of a loop that one more round leaves as it is: the round succeeds,
and joining in what its body made changes nothing. -/
def Settled (config : Config) (c : Cond) (body : M Unit) (head : State) : Prop :=
  ∃ verdict s₁ after s₂, Succeeds (cond config c) head verdict s₁ ∧
    Succeeds (branch body) s₁ after s₂ ∧ head.env.join after = (.ok false, head.env)

/-- What a round does before its result is taken in. -/
theorem round_succeeds {s s₁ s₂ : State} {verdict : Atom} {after : Environment}
    (hbal : Balanced body) (hbody : Mirrors Eq Never Anyhow body body) (hs : ReadsTop s.reads)
    (hcond : Succeeds (cond config c) s verdict s₁) (hbranch : Succeeds (branch body) s₁ after s₂) :
    s₂.env = s.env ∧ ReadsTop s₂.reads := by
  have hst₁ := (cond_mirrors respected_eq c).reads hs hcond
  have hst₂ := (Mirrors.branch hbal hbal hbody).reads hst₁ hbranch
  obtain ⟨t, -, -, rfl⟩ := branch_succeeds hbal hbranch
  exact ⟨((cond_quiet config c).of_succeeds hcond).1, hst₂⟩

/-- A round does the same in every state of the same scopes. -/
theorem round_again {body : Stmt} {s s' s₁ s₂ : State} {verdict : Atom} {after : Environment}
    (henv : s'.env.scopes = s.env.scopes) (hs : ReadsTop s.reads) (hs' : ReadsTop s'.reads)
    (hcond : Succeeds (cond config c) s verdict s₁)
    (hbranch : Succeeds (branch (stmt config body)) s₁ after s₂) :
    ∃ s₁' after' s₂', Succeeds (cond config c) s' verdict s₁' ∧
      Succeeds (branch (stmt config body)) s₁' after' s₂' ∧ after'.scopes = after.scopes ∧
      s₂'.env = s'.env ∧ ReadsTop s₁'.reads ∧ ReadsTop s₂'.reads := by
  have hpar : Parallel Eq s' s := ⟨alike_eq.mpr henv, hs', hs⟩
  obtain ⟨_, s₁', hcond', rfl, hpar₁⟩ := (cond_mirrors respected_eq c).run hpar hcond
  obtain ⟨after', s₂', hbranch', hafter, hpar₂⟩ :=
    (branch_mirrors (stmt_lockstep body)).run hpar₁ hbranch
  obtain ⟨henv₂, hreads₂⟩ := round_succeeds (stmt_balanced config body) (stmt_lockstep body) hs'
    hcond' hbranch'
  exact ⟨s₁', after', s₂', hcond', hbranch', alike_eq.mp hafter, henv₂, hpar₁.reads, hreads₂⟩

/-- A loop that ends has climbed to a state that one more round leaves as it is. -/
theorem rounds_settled {s s' : State} {u : Unit} (hbal : Balanced body)
    (hbody : Mirrors Eq Never Anyhow body body) (henv : Alike Atom.Below s.env.scopes s.env.scopes)
    (hreads : ReadsTop s.reads) (h : Succeeds (rounds config span c body left number) s u s') :
    ∃ head, Settled config c body head ∧ ReadsTop head.reads ∧ head.env = s'.env ∧
      Alike Atom.Below s.env.scopes s'.env.scopes ∧ ReadsTop s'.reads := by
  induction left generalizing number s with
  | zero => exact (succeeds_throw.mp h).elim
  | succ left ih =>
    obtain ⟨verdict, s₁, after, s₂, stable, s₃, hcond, hbranch, hsettle, hrest⟩ := rounds_succeeds h
    obtain ⟨henv₂, hreads₂⟩ := round_succeeds hbal hbody hreads hcond hbranch
    obtain ⟨env, hjoin, rfl⟩ := (succeeds_settle_iff (henv₂ ▸ henv)).mp hsettle
    rw [henv₂] at hjoin
    cases stable with
    | true =>
      obtain rfl := Environment.join_same hjoin
      obtain rfl : s' = _ := hrest
      exact ⟨s, ⟨verdict, s₁, after, s₂, hcond, hbranch, hjoin⟩, hreads, rfl, henv, hreads₂⟩
    | false =>
      have habove := Environment.join_above henv hjoin
      rw [if_neg nofun] at hrest
      obtain ⟨head, hhead, hr, heq, hup, hr'⟩ :=
        ih (s := { s₂ with env := env, trace := _ }) habove.right hreads₂ hrest
      exact ⟨head, hhead, hr, heq, habove.trans hup, hr'⟩

/-- Below a state that one more round leaves as it is, every round stays below it. -/
theorem settle_below {s : State} {head after after' : Environment}
    (hs : Alike Atom.Below s.env.scopes head.scopes)
    (hafter : Alike Atom.Below after.scopes after'.scopes)
    (hhead : head.join after' = (.ok false, head)) :
    ∃ stable env, Succeeds (settle after) s stable { s with env := env } ∧
      Alike Atom.Below env.scopes head.scopes ∧ (stable = false → env.slack < s.env.slack) := by
  obtain ⟨changed, env, hjoin, hbelow⟩ := Environment.join_alike respected_below hs hafter hhead
  by_cases hid : s.env.identical after = true
  · exact ⟨true, s.env, succeeds_settle.mpr (.inl ⟨hid, rfl, rfl⟩), hs, nofun⟩
  · refine ⟨!changed, env, succeeds_settle.mpr (.inr ⟨by simpa using hid, env, ?_, rfl⟩), hbelow,
      fun hstable => ?_⟩
    · rw [Bool.not_not]
      exact hjoin
    · obtain rfl : changed = true := by simpa using hstable
      exact Environment.join_slack hjoin

/-- A loop that starts below a state that one more round leaves as it is ends below it,
unless it stops at the cap. -/
theorem rounds_below (span : Span) (number : Nat) {head s : State} (hbal : Balanced body)
    (hbody : Mirrors Atom.Below (Capped config) Anyhow body body)
    (hhead : Settled config c body head) (hs : Parallel Atom.Below s head)
    (hleft : config.maxIterations ≤ 0 → s.env.slack < left) :
    (∃ s', Succeeds (rounds config span c body left number) s () s' ∧
      Parallel Atom.Below s' head) ∨
    ∃ e s', (rounds config span c body left number).run.run s = (.error e, s') ∧
      Capped config e := by
  induction left generalizing number s with
  | zero =>
    refine .inr ⟨_, s, rfl, Int.not_le.mp fun hcap => ?_, span, rfl⟩
    exact absurd (hleft hcap) (Nat.not_lt_zero _)
  | succ left ih =>
    obtain ⟨verdict', t₁, after', t₂, hcond', hbranch', hjoin'⟩ := hhead
    obtain ⟨verdict, s₁, hcond, -, hpar₁⟩ := (cond_mirrors respected_below c).run hs hcond'
    have henv₁ := ((cond_quiet config c).of_succeeds hcond).1
    rcases (Mirrors.branch hbal hbal hbody).follow hpar₁ hbranch' with
      ⟨after, s₂, hbranch, hafter, hpar₂⟩ | ⟨e, s₂, hbranch, he⟩
    · obtain ⟨t, -, -, rfl⟩ := branch_succeeds hbal hbranch
      have hs₂ : Alike Atom.Below s₁.env.scopes head.env.scopes := henv₁ ▸ hs.env
      obtain ⟨stable, env, hsettle, hbelow, hfewer⟩ :=
        settle_below (s := { t with env := s₁.env }) hs₂ hafter hjoin'
      unfold Succeeds
      rw [run_round hcond hbranch hsettle]
      cases stable with
      | true => exact .inl ⟨_, rfl, hbelow, hpar₂.reads, hs.reads'⟩
      | false =>
        -- a round that is not the last uses up slack, so the rounds are enough without a cap
        refine ih (number + 1) ⟨hbelow, hpar₂.reads, hs.reads'⟩ fun hcap => ?_
        have hless := hfewer rfl
        have hbound := hleft hcap
        dsimp only at hless ⊢
        rw [henv₁] at hless
        omega
    · refine .inr ⟨e, s₂, ?_, he⟩
      rw [rounds_succ, run_bind, hcond]
      dsimp only
      rw [run_bind, hbranch]

end Loops

theorem loops_below (config : Config) : LoopsMirror Atom.Below (Capped config) config := by
  refine fun c body span hbody => ⟨fun {st st' u st₁'} hst h => ?_⟩
  have hbal := stmt_balanced config body
  simp only [stmt, succeeds_get_bind] at h
  obtain ⟨head, hhead, hreads, henv, hup, hreads₁⟩ :=
    rounds_settled hbal (stmt_lockstep body) hst.env.right hst.reads' h
  have hpar : Parallel Atom.Below st head := by
    refine ⟨?_, hst.reads, hreads⟩
    rw [henv]
    exact hst.env.trans hup
  have hrun : (stmt config (.loop c body span)).run.run st =
      (rounds config span c (stmt config body) (roundLimit config st.env) 1).run.run st := by
    simp only [stmt, run_bind, run_get]
  unfold Succeeds
  rw [hrun]
  rcases rounds_below span 1 hbal hbody hhead hpar slack_lt_roundLimit with
    ⟨st₁, hst₁, hbelow⟩ | hcapped
  · exact .inl ⟨(), st₁, hst₁, trivial, henv ▸ hbelow.env, hbelow.reads, hreads₁⟩
  · exact .inr hcapped

/-- The analysis is monotone. Take two states whose environments are of one shape, with the
same variables bound, the first below the second. What succeeds from the second succeeds from
the first, with an atom below and in environments that are again of one shape, the first below
the second; only a cap on the rounds of loops can stop the run from the first instead. -/
theorem analysis_monotone (config : Config) {st st' : State} (h : Parallel Atom.Below st st') :
    (∀ e a' st₁', Succeeds (expr config e) st' a' st₁' →
      ∃ a st₁, Succeeds (expr config e) st a st₁ ∧ a.Below a' ∧ Parallel Atom.Below st₁ st₁') ∧
    (∀ c a' st₁', Succeeds (cond config c) st' a' st₁' →
      ∃ a st₁, Succeeds (cond config c) st a st₁ ∧ a.Below a' ∧ Parallel Atom.Below st₁ st₁') ∧
    (∀ s st₁', Succeeds (stmt config s) st' () st₁' →
      (∃ st₁, Succeeds (stmt config s) st () st₁ ∧ Parallel Atom.Below st₁ st₁') ∨
      ∃ e st₁, (stmt config s).run.run st = (.error e, st₁) ∧ Capped config e) ∧
    ∀ us st₁', Succeeds (items config us) st' () st₁' →
      (∃ st₁, Succeeds (items config us) st () st₁ ∧ Parallel Atom.Below st₁ st₁') ∨
      ∃ e st₁, (items config us).run.run st = (.error e, st₁) ∧ Capped config e := by
  have hloops := loops_below config
  refine ⟨fun e a' st₁' he => (expr_mirrors respected_below e).run h he,
    fun c a' st₁' hc => (cond_mirrors respected_below c).run h hc, fun s st₁' hs => ?_,
    fun us st₁' hus => ?_⟩
  · rcases (stmt_mirrors respected_below hloops s).follow h hs with ⟨_, st₁, hs₁, -, hpar⟩ | hcap
    · exact .inl ⟨st₁, hs₁, hpar⟩
    · exact .inr hcap
  · rcases (items_mirrors respected_below hloops us).follow h hus with
      ⟨_, st₁, hus₁, -, hpar⟩ | hcap
    · exact .inl ⟨st₁, hus₁, hpar⟩
    · exact .inr hcap

namespace Descent

/-- The loop `while (readint > 0) x = -1;`. -/
def loop : Stmt :=
  .loop (.compare .gt (.readInt (.inRow 0 18 25)) (.int 0 (.inRow 0 28 29)) (.inRow 0 18 29))
    (.assign [120] (.neg (.int 1 (.inRow 0 36 37)) (.inRow 0 35 37)) (.inRow 0 31 38))
    (.inRow 0 11 38)

/-- The program `int x = 1; while (readint > 0) x = -1;`. -/
def program : Program where
  units := [.decl ⟨.int, [120], some (.int 1 (.inRow 0 8 9)), .inRow 0 0 10⟩, .stmt loop]
  documentation := []
  span := .inRow 0 0 38

/-- A state in which `x` has the given sign. -/
def state (s : Sign) : State := ⟨⟨[[([120], ⟨.int, some (.int s)⟩)]], []⟩, [], #[], #[]⟩

theorem parallel : Parallel Atom.Below (state .pos) (state .any) :=
  ⟨.cons (.cons ⟨rfl, rfl, .some ⟨by decide, by decide⟩⟩ .nil) .nil, nofun, nofun⟩

/-- From an unknown `x` the loop ends after one round, and from a positive one after two. -/
theorem loop_monotone : Parallel Atom.Below (state .pos) (state .any) ∧
    ∃ st₁ st₁', Succeeds (stmt ⟨0, false⟩ loop) (state .any) () st₁' ∧
      Succeeds (stmt ⟨0, false⟩ loop) (state .pos) () st₁ ∧ Parallel Atom.Below st₁ st₁' := by
  refine ⟨parallel, ?_⟩
  have hupper : Succeeds (stmt ⟨0, false⟩ loop) (state .any) ()
      ((stmt ⟨0, false⟩ loop).run.run (state .any)).2 := Prod.ext (by decide +kernel) rfl
  rcases (analysis_monotone ⟨0, false⟩ parallel).2.2.1 loop _ hupper with
    ⟨st₁, hlower, hpar⟩ | ⟨-, -, -, hcap, -⟩
  · exact ⟨st₁, _, hupper, hlower, hpar⟩
  · exact absurd hcap (by decide)

/-- With a cap of one round the loop of an accepted program succeeds from an unknown `x` and
not from a positive one, though that is below. -/
theorem cap_stops_lower_run : program.check.1 = .ok () ∧
    Parallel Atom.Below (state .pos) (state .any) ∧
    ((stmt ⟨1, true⟩ loop).run.run (state .any)).1 = .ok () ∧
    ((stmt ⟨1, true⟩ loop).run.run (state .pos)).1 =
      .error (.fault (.unsettled (.inRow 0 11 38) 1)) :=
  ⟨rfl, parallel, by decide +kernel, by decide +kernel⟩

end Descent
end Signum.Analysis
