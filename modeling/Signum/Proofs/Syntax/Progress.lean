import Signum.Proofs.Syntax.Tracking
/- Reading always gets on.

   Every rule tracks its function of the parser (`run_tracks`), so the cursor has moved on wherever
   the parser has left fewer tokens. What carries the induction is the depth of calls: the second
   attempt at a parenthesis puts the cursor back, but only to go on after the parenthesis, with
   fewer tokens left than the attempts started with. -/
namespace Signum

namespace Parser

/-- The units of a program, as a step. -/
def program (finish : Point) (ts : List Token) : Step (List Item) (ts.length + 1) :=
  match ts with
  | [] => .ok [] [] (Nat.succ_pos _)
  | t :: rest =>
    (item finish (t :: rest)).bind fun u rest₁ h₁ =>
      (program finish rest₁).bind fun us rest₂ h₂ =>
        .ok (u :: us) rest₂ (Nat.lt_trans h₂ (Nat.succ_lt_succ h₁))
termination_by ts.length
decreasing_by exact h₁

/-- The parser reads the units as the step does, and reads all tokens. -/
theorem items_eq_program (finish : Point) (ts : List Token) :
    (∃ us h, program finish ts = .ok us [] h ∧ items finish ts = .ok us) ∨
    ∃ failure reached, program finish ts = .error failure reached ∧
      items finish ts = .error failure := by
  fun_induction items finish ts with
  | case1 => exact .inl ⟨[], Nat.succ_pos _, by rw [program], rfl⟩
  | case2 t rest failure reached hitem =>
    rw [program, hitem]
    exact .inr ⟨failure, reached, rfl, rfl⟩
  | case3 t rest u rest₁ h₁ hitem ih =>
    rw [program, hitem]
    simp only [Step.bind]
    rcases ih with ⟨us, h, hstep, hitems⟩ | ⟨failure, reached, hstep, hitems⟩
    · rw [hstep, hitems]
      exact .inl ⟨u :: us, Nat.succ_pos _, rfl, rfl⟩
    · rw [hstep, hitems]
      exact .inr ⟨failure, reached, rfl, rfl⟩

end Parser

namespace Cursor

open Signum.Parser (Step)

variable {finish : Point} {ts : List Token}

/-! The rules and the functions of the parser. -/

/-- Whether a rule can succeed without having read a token. -/
def Rule.slack : Rule → Nat
  | .program | .condFrom _ | .conjFrom _ | .exprFrom _ | .termFrom _ => 1
  | _ => 0

/-- The function of the parser that reads what a rule says. Declarations are read from their type
on, which the parser has taken before; any word that is not `float` counts as `int`. -/
def Rule.step (finish : Point) :
    (r : Rule) → (ts : List Token) → Step r.Result (ts.length + r.slack)
  | .program, ts => Parser.program finish ts
  | .item, ts => Parser.item finish ts
  | .decl, [] => Parser.problem finish [] "expected identifier after type, found end of file"
  | .decl, t :: rest =>
    (Parser.decl finish (if t.kind = .keyword .floatWord then .float else .int) t rest).weaken
      (Nat.le_succ _)
  | .stmt, ts => Parser.stmt finish ts
  | .block, ts => Parser.blockItems finish ts
  | .header what, ts => Parser.header finish what ts
  | .cond, ts => Parser.cond finish ts
  | .condFrom left, ts => Parser.condTail finish left ts
  | .conj, ts => Parser.conj finish ts
  | .conjFrom left, ts => Parser.conjTail finish left ts
  | .negation, ts => Parser.negation finish ts
  | .comparison, ts => Parser.comparison finish ts
  | .expr, ts => Parser.expr finish ts
  | .exprFrom left, ts => Parser.exprTail finish left ts
  | .term, ts => Parser.term finish ts
  | .termFrom left, ts => Parser.termTail finish left ts
  | .unary, ts => Parser.unary finish ts
  | .primary, ts => Parser.primary finish ts

theorem rank_lt (r : Rule) : r.rank < 8 := by cases r <;> simp [Rule.rank]

/-- Calls that go less deep than a bound are answered as the parser does. -/
def Answers (finish : Point) (ts : List Token) (call : (r : Rule) → Reading r.Result)
    (bound : Nat) : Prop :=
  ∀ (r : Rule) (p : Nat), p ≤ ts.length → r.depth (ts.length - p) < bound →
    Tracks finish ts p (call r) (r.step finish (ts.drop p))

section Rules
variable {call : (r : Rule) → Reading r.Result} {r : Rule} {p q : Nat}

/-- A rule can call every rule after the cursor has moved. -/
theorem Answers.later (h : Answers finish ts call (r.depth (ts.length - p))) (r' : Rule)
    (hpq : p < q) (hq : q ≤ ts.length) :
    Tracks finish ts q (call r') (r'.step finish (ts.drop q)) := by
  refine h r' q hq ?_
  have hrank := rank_lt r'
  unfold Rule.depth
  omega

/-- Before that, it can call lower ones. -/
theorem Answers.lower (h : Answers finish ts call (r.depth (ts.length - p))) (r' : Rule)
    (hrank : r'.rank < r.rank) (hp : p ≤ ts.length) :
    Tracks finish ts p (call r') (r'.step finish (ts.drop p)) := by
  refine h r' p hp ?_
  unfold Rule.depth
  omega

/-! Expressions. -/

theorem expr_tracks (h : Answers finish ts call (Rule.expr.depth (ts.length - p)))
    (hp : p ≤ ts.length) :
    Tracks finish ts p (body call .expr) (Parser.expr finish (ts.drop p)) := by
  rw [Parser.expr]
  refine .bind (h.lower .term (by decide) hp) fun left q hq hlen => ?_
  exact .weaken _ (h.later (.exprFrom left) (further hq) hlen)

theorem exprFrom_tracks {left : Expr}
    (h : Answers finish ts call ((Rule.exprFrom left).depth (ts.length - p))) (hp : p ≤ ts.length) :
    Tracks finish ts p (exprFrom call left) (Parser.exprTail finish left (ts.drop p)) := by
  unfold exprFrom
  rcases token_or_finish hp with ⟨t, ht⟩ | rfl
  · refine .look ht ?_
    rw [drop_token ht, Parser.exprTail]
    simp only [Spot.kind?, Option.bind_some]
    cases Parser.sumOp? t.kind with
    | none => exact .keep hp (drop_token ht)
    | some op =>
      refine .bump ht (.bind (h.later .term (Nat.lt_succ_self p) (lt_length ht)) ?_)
      intro right q hq hlen
      exact .weaken _ (h.later (.exprFrom _) (Nat.lt_of_succ_lt (further hq)) hlen)
  · refine .look_finish ?_
    rw [List.drop_length, Parser.exprTail]
    exact .keep hp List.drop_length

theorem term_tracks (h : Answers finish ts call (Rule.term.depth (ts.length - p)))
    (hp : p ≤ ts.length) :
    Tracks finish ts p (body call .term) (Parser.term finish (ts.drop p)) := by
  rw [Parser.term]
  refine .bind (h.lower .unary (by decide) hp) fun left q hq hlen => ?_
  exact .weaken _ (h.later (.termFrom left) (further hq) hlen)

theorem termFrom_tracks {left : Expr}
    (h : Answers finish ts call ((Rule.termFrom left).depth (ts.length - p))) (hp : p ≤ ts.length) :
    Tracks finish ts p (termFrom call left) (Parser.termTail finish left (ts.drop p)) := by
  unfold termFrom
  rcases token_or_finish hp with ⟨t, ht⟩ | rfl
  · refine .look ht ?_
    rw [drop_token ht, Parser.termTail]
    simp only [Spot.kind?, Option.bind_some]
    cases Parser.productOp? t.kind with
    | none => exact .keep hp (drop_token ht)
    | some op =>
      refine .bump ht (.bind (h.later .unary (Nat.lt_succ_self p) (lt_length ht)) ?_)
      intro right q hq hlen
      exact .weaken _ (h.later (.termFrom _) (Nat.lt_of_succ_lt (further hq)) hlen)
  · refine .look_finish ?_
    rw [List.drop_length, Parser.termTail]
    exact .keep hp List.drop_length

theorem unary_tracks (h : Answers finish ts call (Rule.unary.depth (ts.length - p)))
    (hp : p ≤ ts.length) :
    Tracks finish ts p (unary call) (Parser.unary finish (ts.drop p)) := by
  have hprimary := h.lower .primary (by decide) hp
  unfold unary
  rcases token_or_finish hp with ⟨t, ht⟩ | rfl
  · refine .look ht ?_
    rw [drop_token ht] at hprimary ⊢
    rw [Parser.unary]
    split
    · next hk =>
      refine .accept ht hk (.bind (h.later .unary (Nat.lt_succ_self p) (lt_length ht)) ?_)
      intro inner q hq hlen
      exact .pure hlen
    · next hk => exact .accept_other ht hk hprimary
  · refine .look_finish (.accept_finish ?_)
    rw [List.drop_length] at hprimary ⊢
    rw [Parser.unary]
    exact hprimary

theorem primary_tracks (h : Answers finish ts call (Rule.primary.depth (ts.length - p)))
    (hp : p ≤ ts.length) :
    Tracks finish ts p (primary call) (Parser.primary finish (ts.drop p)) := by
  unfold primary
  rcases token_or_finish hp with ⟨t, ht⟩ | rfl
  · refine .look ht ?_
    have hnext : p + 1 ≤ ts.length := lt_length ht
    rw [drop_token ht, Parser.primary]
    obtain ⟨kind, text, span⟩ := t
    cases kind with
    | int =>
      refine .bump ht ?_
      simp only [Spot.text, Spot.span]
      cases readInt64? text with
      | none => exact .fail hnext rfl
      | some v => exact .pure hnext
    | float =>
      refine .bump ht ?_
      simp only [Spot.text, Spot.span]
      cases Binary64.read? text with
      | none => exact .fail hnext rfl
      | some v => exact .pure hnext
    | ident => exact .bump ht (.pure hnext)
    | keyword k =>
      cases k with
      | readInt => exact .bump ht (.pure hnext)
      | readFloat => exact .bump ht (.pure hnext)
      | _ => exact problem_token ht _
    | symbol k =>
      cases k with
      | lparen =>
        refine .bump ht (.bind (h.later .expr (Nat.lt_succ_self p) hnext) ?_)
        intro inner q hq hlen
        exact .bind (expect_tracks _ hlen _ _) fun _ q' hq' hlen' => .pure hlen'
      | _ => exact problem_token ht _
  · refine .look_finish ?_
    rw [List.drop_length, Parser.primary]
    exact problem_finish _

/-! Conditions. -/

theorem comparison_tracks (h : Answers finish ts call (Rule.comparison.depth (ts.length - p)))
    (hp : p ≤ ts.length) :
    Tracks finish ts p (comparison call) (Parser.comparison finish (ts.drop p)) := by
  unfold comparison Parser.comparison
  refine .bind (h.lower .expr (by decide) hp) fun left q hq hlen => ?_
  have hqp := further hq
  rcases token_or_finish hlen with ⟨t, ht⟩ | rfl
  · refine .look ht ?_
    -- the step looks at the tokens left and at `hq` together, so both are rewritten at once
    generalize hrest : ts.drop q = rest at hq ⊢
    obtain rfl := (drop_token ht).symm.trans hrest
    simp only [Spot.kind?, Option.bind_some]
    cases Parser.compareOp? t.kind with
    | none => exact problem_token ht _
    | some op =>
      refine .bump ht (.bind (h.later .expr (Nat.lt_succ_of_lt hqp) (lt_length ht)) ?_)
      intro right q' hq' hlen'
      exact .pure hlen'
  · refine .look_finish ?_
    generalize hrest : ts.drop ts.length = rest at hq ⊢
    obtain rfl := List.drop_length.symm.trans hrest
    exact problem_finish _

theorem cond_tracks (h : Answers finish ts call (Rule.cond.depth (ts.length - p)))
    (hp : p ≤ ts.length) :
    Tracks finish ts p (body call .cond) (Parser.cond finish (ts.drop p)) := by
  rw [Parser.cond]
  refine .bind (h.lower .conj (by decide) hp) fun left q hq hlen => ?_
  exact .weaken _ (h.later (.condFrom left) (further hq) hlen)

theorem condFrom_tracks {left : Cond}
    (h : Answers finish ts call ((Rule.condFrom left).depth (ts.length - p))) (hp : p ≤ ts.length) :
    Tracks finish ts p (condFrom call left) (Parser.condTail finish left (ts.drop p)) := by
  unfold condFrom
  rcases token_or_finish hp with ⟨t, ht⟩ | rfl
  · rw [drop_token ht, Parser.condTail]
    split
    · next hk =>
      refine .accept ht hk (.bind (h.later .conj (Nat.lt_succ_self p) (lt_length ht)) ?_)
      intro right q hq hlen
      exact .weaken _ (h.later (.condFrom _) (Nat.lt_of_succ_lt (further hq)) hlen)
    · next hk =>
      exact .accept_other ht hk (.keep hp (drop_token ht))
  · rw [List.drop_length, Parser.condTail]
    exact .accept_finish (.keep hp List.drop_length)

theorem conj_tracks (h : Answers finish ts call (Rule.conj.depth (ts.length - p)))
    (hp : p ≤ ts.length) :
    Tracks finish ts p (body call .conj) (Parser.conj finish (ts.drop p)) := by
  rw [Parser.conj]
  refine .bind (h.lower .negation (by decide) hp) fun left q hq hlen => ?_
  exact .weaken _ (h.later (.conjFrom left) (further hq) hlen)

theorem conjFrom_tracks {left : Cond}
    (h : Answers finish ts call ((Rule.conjFrom left).depth (ts.length - p))) (hp : p ≤ ts.length) :
    Tracks finish ts p (conjFrom call left) (Parser.conjTail finish left (ts.drop p)) := by
  unfold conjFrom
  rcases token_or_finish hp with ⟨t, ht⟩ | rfl
  · rw [drop_token ht, Parser.conjTail]
    split
    · next hk =>
      refine .accept ht hk (.bind (h.later .negation (Nat.lt_succ_self p) (lt_length ht)) ?_)
      intro right q hq hlen
      exact .weaken _ (h.later (.conjFrom _) (Nat.lt_of_succ_lt (further hq)) hlen)
    · next hk =>
      exact .accept_other ht hk (.keep hp (drop_token ht))
  · rw [List.drop_length, Parser.conjTail]
    exact .accept_finish (.keep hp List.drop_length)

theorem nested_tracks {n : Nat} (opening : Span) (hp : (ts.drop p).length ≤ n)
    (hcond : Tracks finish ts p (call .cond) (Parser.cond finish (ts.drop p))) :
    Tracks finish ts p (nested call opening)
      ((Parser.cond finish (ts.drop p)).bind fun inner rest _ =>
        (Parser.expect finish (.symbol .rparen) "after condition" rest).bind fun closing rest' _ =>
          (.ok (inner.withSpan (opening.upTo closing.span)) rest' (by omega) : Step Cond n)) := by
  unfold nested
  refine .bind hcond fun inner q hq hlen => ?_
  exact .bind (expect_tracks _ hlen _ _) fun closing q' hq' hlen' => .pure hlen'

/-- What the parser does at a token that is no negation. Both attempts begin at the same place: the
first one goes down to the comparison, and the second one has a token less before it. -/
theorem operand_tracks {t : Token}
    (h : Answers finish ts call (Rule.negation.depth (ts.length - p))) (ht : ts[p]? = some t) (hbang : t.kind ≠ .symbol .bang) :
    Tracks finish ts p (operand call (.token t)) (Parser.negation finish (ts.drop p)) := by
  have hp : p ≤ ts.length := Nat.le_of_lt (lt_length ht)
  have hcomparison : Tracks finish ts p (call .comparison) (Parser.comparison finish (ts.drop p)) :=
    h.lower .comparison (by decide) hp
  rw [drop_token ht] at hcomparison ⊢
  rw [Parser.negation]
  simp only [hbang, if_false]
  unfold operand Tracks
  rw [place_bind]
  refine hcomparison.attempt (fun c q hq heq hrange => ?_) (fun failure q heq hrange => ?_)
  · simp only [heq]
    exact .pure hrange
  · simp only [heq]
    by_cases hparen : t.kind = .symbol .lparen
    · have hkind : ¬(Spot.token t).kind? ≠ some (.symbol .lparen) := by simp [Spot.kind?, hparen]
      rw [if_neg hkind, if_neg (not_not_intro hparen), place_bind, putAt_bind]
      have hnested := nested_tracks t.span (n := (t :: ts.drop (p + 1)).length)
        (Nat.le_succ _) (h.later .cond (Nat.lt_succ_self p) (lt_length ht))
      -- the cursor is back at the parenthesis, and goes on after it
      refine Matches.after (Tracks.bump ht (hnested.orFurther hrange.2 (fun c rest h heq' => ?_)
        (fun failure' reached heq' => ?_))) (Nat.le_refl p) fun i hi => ?_
      · rw [heq']
      · rw [heq']
      · obtain rfl := List.mem_singleton.mp hi
        exact ⟨Nat.le_refl i, hp⟩
    · have hkind : (Spot.token t).kind? ≠ some (.symbol .lparen) := by
        simpa [Spot.kind?] using hparen
      rw [if_pos hkind, if_pos hparen]
      exact .fail hrange

/-- At the end of the file there is one attempt only. -/
theorem operand_finish_tracks
    (h : Answers finish ts call (Rule.negation.depth (ts.length - ts.length))) :
    Tracks finish ts ts.length (operand call (.finish finish))
      (Parser.negation finish (ts.drop ts.length)) := by
  have hcomparison : Tracks finish ts ts.length (call .comparison)
      (Parser.comparison finish (ts.drop ts.length)) :=
    h.lower .comparison (by decide) (Nat.le_refl _)
  rw [List.drop_length] at hcomparison ⊢
  rw [Parser.negation]
  unfold operand Tracks
  rw [place_bind]
  refine hcomparison.attempt (fun c q hq heq hrange => ?_) (fun failure q heq hrange => ?_)
  · rw [heq]
    exact .pure hrange
  · rw [heq]
    exact .failed hrange (List.forall_mem_nil _)

theorem negation_tracks (h : Answers finish ts call (Rule.negation.depth (ts.length - p)))
    (hp : p ≤ ts.length) :
    Tracks finish ts p (negation call) (Parser.negation finish (ts.drop p)) := by
  unfold negation
  rcases token_or_finish hp with ⟨t, ht⟩ | rfl
  · refine .look ht ?_
    by_cases hbang : t.kind = .symbol .bang
    · rw [drop_token ht, Parser.negation]
      simp only [hbang, if_true]
      refine .accept ht hbang (.bind (h.later .negation (Nat.lt_succ_self p) (lt_length ht)) ?_)
      intro inner q hq hlen
      exact .pure hlen
    · exact .accept_other ht hbang
        (operand_tracks h ht hbang)
  · exact .look_finish (.accept_finish (operand_finish_tracks h))

theorem header_tracks {what : Bytes}
    (h : Answers finish ts call ((Rule.header what).depth (ts.length - p))) (hp : p ≤ ts.length) :
    Tracks finish ts p (header call what) (Parser.header finish what (ts.drop p)) := by
  unfold header Parser.header
  refine .bind (expect_tracks _ hp _ _) fun _ q₁ hq₁ hlen₁ => ?_
  refine .bind (h.later .cond (further hq₁) hlen₁) fun c q₂ hq₂ hlen₂ => ?_
  exact .bind (expect_tracks _ hlen₂ _ _) fun _ q₃ hq₃ hlen₃ => .pure hlen₃

/-! Statements and declarations. -/

theorem decl_tracks (h : Answers finish ts call (Rule.decl.depth (ts.length - p)))
    (hp : p ≤ ts.length) :
    Tracks finish ts p (decl call) (Rule.decl.step finish (ts.drop p)) := by
  unfold decl
  rcases token_or_finish hp with ⟨t, ht⟩ | rfl
  · refine .bump ht ?_
    have htype : (Spot.token t).kind? = some (.keyword .floatWord) ↔
        t.kind = .keyword .floatWord := by simp [Spot.kind?]
    rw [drop_token ht]
    simp only [htype]
    refine .weaken (Nat.le_succ _) ?_
    generalize (if t.kind = .keyword .floatWord then NumType.float else NumType.int) = type
    unfold Parser.decl initializer
    refine .bind (expect_tracks _ (lt_length ht) _ _) fun name q hq hlen => ?_
    have hpq : p < q := Nat.lt_of_succ_lt (further hq)
    -- with and without a first value a declaration ends in the same way
    have hclose (init : Option Expr) (q' : Nat) (rest : List Token) (hrest : ts.drop q' = rest)
        (hq' : rest.length < (ts.drop (p + 1)).length) (hlen' : q' ≤ ts.length) :
        Tracks finish ts q'
          (do
            let semi ← expect (.symbol .semi) "after declaration"
            pure (⟨type, name.text, init, t.span.upTo semi.span⟩ : Decl))
          ((Parser.expect finish (.symbol .semi) "after declaration" rest).bind fun semi rest' _ =>
            (.ok ⟨type, name.text, init, t.span.upTo semi.span⟩ rest' (by omega) :
              Step Decl (ts.drop (p + 1)).length)) := by
      subst hrest
      exact .bind (expect_tracks _ hlen' _ _) fun semi q'' hq'' hlen'' => .pure hlen''
    rw [bind_assoc]
    rcases token_or_finish hlen with ⟨u, hu⟩ | rfl
    · generalize hrest : ts.drop q = rest at hq ⊢
      obtain rfl := (drop_token hu).symm.trans hrest
      by_cases hassign : u.kind = .symbol .assign
      · refine .accept hu hassign ?_
        simp only [hassign, if_true]
        rw [bind_assoc]
        refine .bind (h.later .expr (Nat.lt_succ_of_lt hpq) (lt_length hu)) fun e q' hq' hlen' => ?_
        rw [pure_bind]
        exact hclose (some e) q' _ rfl (by simp only [List.length_cons] at hq; omega) hlen'
      · refine .accept_other hu hassign ?_
        simp only [hassign, if_false]
        rw [pure_bind]
        exact hclose none q _ hrest hq hlen
    · generalize hrest : ts.drop ts.length = rest at hq ⊢
      obtain rfl := List.drop_length.symm.trans hrest
      refine .accept_finish ?_
      rw [pure_bind]
      exact hclose none ts.length _ hrest hq hlen
  · refine .bump_finish ?_
    have hexpect := expect_tracks finish hp .ident "after type"
    rw [List.drop_length] at hexpect ⊢
    exact hexpect.bind (g := fun _ _ hq => absurd hq (Nat.not_lt_zero _))
      fun name q hq => absurd hq (Nat.not_lt_zero _)

theorem stmt_tracks (h : Answers finish ts call (Rule.stmt.depth (ts.length - p)))
    (hp : p ≤ ts.length) :
    Tracks finish ts p (stmt call) (Parser.stmt finish (ts.drop p)) := by
  unfold stmt
  rcases token_or_finish hp with ⟨t, ht⟩ | rfl
  · refine .look ht ?_
    have hnext : p + 1 ≤ ts.length := lt_length ht
    rw [drop_token ht, Parser.stmt]
    obtain ⟨kind, text, span⟩ := t
    cases kind with
    | int => exact problem_token ht _
    | float => exact problem_token ht _
    | ident =>
      refine .bump ht (.bind (expect_tracks _ hnext _ _) fun _ q₁ hq₁ hlen₁ => ?_)
      have hpq₁ := Nat.lt_of_succ_lt (further hq₁)
      refine .bind (h.later .expr hpq₁ hlen₁) fun value q₂ hq₂ hlen₂ => ?_
      exact .bind (expect_tracks _ hlen₂ _ _) fun semi q₃ hq₃ hlen₃ => .pure hlen₃
    | keyword k =>
      cases k with
      | printWord =>
        refine .bump ht (.bind (h.later .expr (Nat.lt_succ_self p) hnext) ?_)
        intro value q₁ hq₁ hlen₁
        exact .bind (expect_tracks _ hlen₁ _ _) fun semi q₂ hq₂ hlen₂ => .pure hlen₂
      | ifWord =>
        refine .bump ht (.bind (h.later (.header "if") (Nat.lt_succ_self p) hnext) ?_)
        intro c q₁ hq₁ hlen₁
        have hpq₁ := Nat.lt_of_succ_lt (further hq₁)
        refine .bind (h.later .stmt hpq₁ hlen₁) fun yes q₂ hq₂ hlen₂ => ?_
        have hpq₂ := Nat.lt_trans hpq₁ (further hq₂)
        rcases token_or_finish hlen₂ with ⟨u, hu⟩ | rfl
        · generalize hrest : ts.drop q₂ = rest at hq₂ ⊢
          obtain rfl := (drop_token hu).symm.trans hrest
          by_cases helse : u.kind = .keyword .elseWord
          · refine .accept hu helse ?_
            simp only [helse, if_true]
            refine .bind (h.later .stmt (Nat.lt_succ_of_lt hpq₂) (lt_length hu)) ?_
            intro no q₃ hq₃ hlen₃
            exact .pure hlen₃
          · refine .accept_other hu helse ?_
            simp only [helse, if_false]
            exact .keep hlen₂ hrest
        · generalize hrest : ts.drop ts.length = rest at hq₂ ⊢
          obtain rfl := List.drop_length.symm.trans hrest
          exact .accept_finish (.keep hlen₂ hrest)
      | whileWord =>
        refine .bump ht (.bind (h.later (.header "while") (Nat.lt_succ_self p) hnext) ?_)
        intro c q₁ hq₁ hlen₁
        have hpq₁ := Nat.lt_of_succ_lt (further hq₁)
        exact .bind (h.later .stmt hpq₁ hlen₁) fun body q₂ hq₂ hlen₂ => .pure hlen₂
      | _ => exact problem_token ht _
    | symbol k =>
      cases k with
      | lbrace =>
        refine .bump ht (.bind (h.later .block (Nat.lt_succ_self p) hnext) ?_)
        intro body q hq hlen
        exact .pure hlen
      | _ => exact problem_token ht _
  · refine .look_finish ?_
    rw [List.drop_length, Parser.stmt]
    exact problem_finish _

theorem item_tracks (h : Answers finish ts call (Rule.item.depth (ts.length - p)))
    (hp : p ≤ ts.length) :
    Tracks finish ts p (item call) (Parser.item finish (ts.drop p)) := by
  have hstmt : Tracks finish ts p (call .stmt) (Parser.stmt finish (ts.drop p)) :=
    h.lower .stmt (by decide) hp
  have hdecl := h.lower .decl (by decide) hp
  unfold item
  rcases token_or_finish hp with ⟨t, ht⟩ | rfl
  · refine .look ht ?_
    rw [drop_token ht] at hstmt hdecl ⊢
    rw [Parser.item]
    obtain ⟨kind, text, span⟩ := t
    -- whatever is not the word of a type begins a statement
    have hother : Tracks finish ts p (call .stmt >>= fun s => pure (Item.stmt s))
        ((Parser.stmt finish (⟨kind, text, span⟩ :: ts.drop (p + 1))).bind fun s rest h =>
          (.ok (.stmt s) rest h : Step Item _)) :=
      .bind hstmt fun s q hq hlen => .pure hlen
    cases kind with
    | keyword k =>
      cases k with
      | intWord =>
        exact .bind (.of_weaken (Nat.le_succ _) hdecl) fun d q hq hlen => .pure hlen
      | floatWord =>
        exact .bind (.of_weaken (Nat.le_succ _) hdecl) fun d q hq hlen => .pure hlen
      | _ => exact hother
    | _ => exact hother
  · refine .look_finish ?_
    rw [List.drop_length] at hstmt ⊢
    rw [Parser.item]
    exact .bind hstmt fun s q hq hlen => .pure hlen

theorem block_tracks (h : Answers finish ts call (Rule.block.depth (ts.length - p)))
    (hp : p ≤ ts.length) :
    Tracks finish ts p (block call) (Parser.blockItems finish (ts.drop p)) := by
  unfold block
  rcases token_or_finish hp with ⟨t, ht⟩ | rfl
  · refine .look ht ?_
    have hitem : Tracks finish ts p (call .item) (Parser.item finish (ts.drop p)) :=
      h.lower .item (by decide) hp
    rw [drop_token ht] at hitem ⊢
    rw [Parser.blockItems]
    by_cases hk : t.kind = .symbol .rbrace
    · simp only [hk, if_true]
      exact .bump ht (.pure (lt_length ht))
    · simp only [hk, if_false]
      refine .bind hitem fun u q₁ hq₁ hlen₁ => ?_
      have hpq : p < q₁ := further (by rwa [drop_token ht])
      exact .bind (h.later .block hpq hlen₁) fun body q₂ hq₂ hlen₂ => .pure hlen₂
  · refine .look_finish ?_
    rw [List.drop_length, Parser.blockItems]
    exact problem_finish _

theorem program_tracks (h : Answers finish ts call (Rule.program.depth (ts.length - p)))
    (hp : p ≤ ts.length) :
    Tracks finish ts p (program call) (Parser.program finish (ts.drop p)) := by
  unfold program
  rcases token_or_finish hp with ⟨t, ht⟩ | rfl
  · refine .look ht ?_
    have hitem : Tracks finish ts p (call .item) (Parser.item finish (ts.drop p)) :=
      h.lower .item (by decide) hp
    rw [drop_token ht] at hitem ⊢
    rw [Parser.program]
    refine .bind hitem fun u q₁ hq₁ hlen₁ => ?_
    have hpq : p < q₁ := further (by rwa [drop_token ht])
    exact .bind (h.later .program hpq hlen₁) fun us q₂ hq₂ hlen₂ => .pure hlen₂
  · refine .look_finish ?_
    rw [List.drop_length, Parser.program]
    exact .keep hp List.drop_length

/-- One level of calls. -/
theorem body_tracks (r : Rule) (h : Answers finish ts call (r.depth (ts.length - p)))
    (hp : p ≤ ts.length) : Tracks finish ts p (body call r) (r.step finish (ts.drop p)) := by
  cases r with
  | program => exact program_tracks h hp
  | item => exact item_tracks h hp
  | decl => exact decl_tracks h hp
  | stmt => exact stmt_tracks h hp
  | block => exact block_tracks h hp
  | header what => exact header_tracks h hp
  | cond => exact cond_tracks h hp
  | condFrom left => exact condFrom_tracks h hp
  | conj => exact conj_tracks h hp
  | conjFrom left => exact conjFrom_tracks h hp
  | negation => exact negation_tracks h hp
  | comparison => exact comparison_tracks h hp
  | expr => exact expr_tracks h hp
  | exprFrom left => exact exprFrom_tracks h hp
  | term => exact term_tracks h hp
  | termFrom left => exact termFrom_tracks h hp
  | unary => exact unary_tracks h hp
  | primary => exact primary_tracks h hp

end Rules

/-- With fuel for the depth of its calls, a rule does what the parser does. -/
theorem run_tracks (finish : Point) (ts : List Token) (fuel : Nat) (r : Rule) (p : Nat)
    (hp : p ≤ ts.length) (hfuel : r.depth (ts.length - p) < fuel) :
    Tracks finish ts p (run fuel r) (r.step finish (ts.drop p)) := by
  induction fuel generalizing r p with
  | zero => exact absurd hfuel (Nat.not_lt_zero _)
  | succ fuel ih =>
    -- calls go less deep, so what is left of the fuel is enough for them
    refine body_tracks r (fun r' q hq hdepth => ih r' q hq ?_) hp
    exact Nat.lt_of_lt_of_le hdepth (Nat.le_of_lt_succ hfuel)

/-! What the cursor does. -/

/-- A reading that began at `p` has ended: with a value and the cursor at least `gain` places
further on, or with a failure. The cursor has never been before `p` or past the end of the file. -/
inductive Advances {α : Type} (ts : List Token) (p gain : Nat) : Ending α → Prop
  | done {a : α} {q : Nat} {trail : List Nat} (further : p + gain ≤ q) (here : q ≤ ts.length)
    (moves : ∀ i ∈ trail, InRange ts p i) : Advances ts p gain (.done a q trail)
  | failed {e : Failure} {q : Nat} {trail : List Nat} (here : InRange ts p q)
    (moves : ∀ i ∈ trail, InRange ts p i) : Advances ts p gain (.failed e q trail)

theorem Tracks.advances {α : Type} {n p gain : Nat} {x : Reading α} {s : Step α n}
    (h : Tracks finish ts p x s) (hgain : n + gain ≤ (ts.drop p).length + 1) :
    Advances ts p gain (x (tape finish ts) p) := by
  unfold Tracks at h
  generalize x (tape finish ts) p = ending at h ⊢
  cases h with
  | done here moves shorter =>
    obtain ⟨hpq, hq⟩ := here
    simp only [List.length_drop] at shorter hgain
    exact .done (by omega) hq moves
  | failed here moves => exact .failed here moves

theorem slack_le (r : Rule) : r.slack ≤ 1 := by cases r <;> simp [Rule.slack]

theorem run_advances (finish : Point) (ts : List Token) (fuel : Nat) (r : Rule) (p : Nat)
    (hp : p ≤ ts.length) (hfuel : r.depth (ts.length - p) < fuel) :
    Advances ts p (1 - r.slack) (run fuel r (tape finish ts) p) := by
  refine (run_tracks finish ts fuel r p hp hfuel).advances ?_
  have := slack_le r
  omega

theorem look_advances {p : Nat} (hp : p ≤ ts.length) :
    Advances ts p 0 (look (tape finish ts) p) := by
  rcases token_or_finish hp with ⟨t, ht⟩ | rfl
  · rw [look_token ht]
    exact .done (Nat.le_refl p) hp (List.forall_mem_nil _)
  · rw [look_at_finish]
    exact .done (Nat.le_refl _) hp (List.forall_mem_nil _)

theorem bump_advances {p : Nat} (hp : p ≤ ts.length) :
    Advances ts p 0 (bump (tape finish ts) p) := by
  rcases token_or_finish hp with ⟨t, ht⟩ | rfl
  · rw [bump_token ht]
    refine .done (Nat.le_succ p) (lt_length ht) fun i hi => ?_
    obtain rfl := List.mem_singleton.mp hi
    exact ⟨Nat.le_succ p, lt_length ht⟩
  · rw [bump_at_finish]
    exact .done (Nat.le_refl _) hp (List.forall_mem_nil _)

/-- When a comparison fails after a parenthesis, wherever the cursor is then, the second attempt
begins at the parenthesis again. -/
theorem negation_restarts {p fuel reached : Nat} {t : Token} {failure : Failure} {trail : List Nat}
    (ht : ts[p]? = some t) (hparen : t.kind = .symbol .lparen)
    (hfirst : run fuel .comparison (tape finish ts) p = .failed failure reached trail) :
    run (fuel + 1) .negation (tape finish ts) p =
      ((nested (run fuel) t.span (tape finish ts) (p + 1)).orFurther failure reached).after
        (trail ++ [p, p + 1]) := by
  have haccept : accept (.symbol .bang) (tape finish ts) p = .done none p [] := by
    unfold accept
    rw [bind_done (look_token ht), Ending.after_nil]
    simp only [hparen]
    rfl
  show negation (run fuel) (tape finish ts) p = _
  unfold negation
  rw [bind_done (look_token ht), Ending.after_nil, bind_done haccept, Ending.after_nil]
  unfold operand
  have hkind : ¬(Spot.token t).kind? ≠ some (.symbol .lparen) := by simp [Spot.kind?, hparen]
  simp only [place_bind, bind_done (attempt_failed hfirst), if_neg hkind, putAt_bind,
    bind_done (bump_token ht), Ending.after_after]
  rfl

/-- The program is read as by the parser, to the end of the file. -/
theorem run_program (finish : Point) (ts : List Token) (fuel : Nat)
    (hfuel : Rule.program.depth ts.length < fuel) :
    (∃ us trail, run fuel .program (tape finish ts) 0 = .done us ts.length trail ∧
      Parser.items finish ts = .ok us) ∨
    ∃ e q trail, run fuel .program (tape finish ts) 0 = .failed e q trail ∧
      Parser.items finish ts = .error e := by
  have h := run_tracks finish ts fuel .program 0 (Nat.zero_le _) hfuel
  rcases Parser.items_eq_program finish ts with
    ⟨us, hs, hstep, hitems⟩ | ⟨e, reached, hstep, hitems⟩
  · have hok : Rule.program.step finish (ts.drop 0) = .ok us [] hs := hstep
    rw [Tracks, hok] at h
    obtain ⟨q, trail, hrun, here, hrest⟩ := h.of_ok
    obtain rfl : q = ts.length := Nat.le_antisymm here.2 (List.drop_eq_nil_iff.mp hrest)
    exact .inl ⟨us, trail, hrun, hitems⟩
  · have herror : Rule.program.step finish (ts.drop 0) = .error e reached := hstep
    rw [Tracks, herror] at h
    obtain ⟨q, trail, hrun⟩ := h.of_error
    exact .inr ⟨e, q, trail, hrun, hitems⟩

/-- Reading always gets on and stays in range, for every list of tokens with the end of the file
after it. From every place on the tape, looking finds a spot, a move does not pass the end of the
file, an expected token is read or the cursor stays in range, and a rule ends as its function of
the parser does: with the cursor further on if it succeeds, except for a loop that has nothing more
to read. It takes no more fuel than its depth, and the cursor is never out of range on the way.
After a comparison that failed at a parenthesis, the second attempt starts at the parenthesis again.
So the reading of every source ends, at the end of the file or with a failure, as `Program.parse`
says. -/
theorem parsing_advances_in_range :
    (∀ (finish : Point) (ts : List Token) (p : Nat), p ≤ ts.length →
      Advances ts p 0 (look (tape finish ts) p) ∧ Advances ts p 0 (bump (tape finish ts) p) ∧
      (∀ (kind : TokenKind) (what : Bytes),
        Advances ts p 1 (expect kind what (tape finish ts) p)) ∧
      ∀ (r : Rule) (fuel : Nat), r.depth (ts.length - p) < fuel →
        Advances ts p (1 - r.slack) (run fuel r (tape finish ts) p) ∧
        Matches ts p (run fuel r (tape finish ts) p) (r.step finish (ts.drop p))) ∧
    (∀ (finish : Point) (ts : List Token) (p fuel reached : Nat) (t : Token) (failure : Failure)
        (trail : List Nat), ts[p]? = some t → t.kind = .symbol .lparen →
      run fuel .comparison (tape finish ts) p = .failed failure reached trail →
      run (fuel + 1) .negation (tape finish ts) p =
        ((nested (run fuel) t.span (tape finish ts) (p + 1)).orFurther failure reached).after
          (trail ++ [p, p + 1])) ∧
    ∀ source : Bytes,
      (∃ failure, Lexer.tokenize source = .error failure ∧ Program.parse source = .error failure) ∨
      ∃ lexed, Lexer.tokenize source = .ok lexed ∧
        ∀ fuel, Rule.program.depth lexed.tokens.length < fuel →
          (∃ program trail, run fuel .program (tape lexed.finish lexed.tokens) 0 =
              .done program.units lexed.tokens.length trail ∧ Program.parse source = .ok program) ∨
          ∃ failure q trail, run fuel .program (tape lexed.finish lexed.tokens) 0 =
              .failed failure q trail ∧ Program.parse source = .error failure := by
  refine ⟨fun finish ts p hp => ⟨look_advances hp, bump_advances hp, fun kind what => ?_,
    fun r fuel hfuel => ⟨run_advances finish ts fuel r p hp hfuel,
      run_tracks finish ts fuel r p hp hfuel⟩⟩,
    fun finish ts p fuel reached t failure trail => negation_restarts, fun source => ?_⟩
  · exact (expect_tracks finish hp kind what).advances (Nat.le_refl _)
  · cases hsource : Lexer.tokenize source with
    | error failure => exact .inl ⟨failure, rfl, by rw [Program.parse, hsource]⟩
    | ok lexed =>
      refine .inr ⟨lexed, rfl, fun fuel hfuel => ?_⟩
      rcases run_program lexed.finish lexed.tokens fuel hfuel with
        ⟨us, trail, hrun, hitems⟩ | ⟨e, q, trail, hrun, hitems⟩
      · refine .inl ⟨⟨us, Lexer.commentText lexed.header, ⟨Point.origin, lexed.finish⟩⟩, trail,
          hrun, ?_⟩
        simp only [Program.parse, hsource, hitems, Except.map]
      · refine .inr ⟨e, q, trail, hrun, ?_⟩
        simp only [Program.parse, hsource, hitems, Except.map]

/-- The tokens of `(x < 1)`. -/
def smaller : List Token :=
  [⟨.symbol .lparen, "(", ⟨⟨1, 1⟩, ⟨1, 2⟩⟩⟩, ⟨.ident, "x", ⟨⟨1, 2⟩, ⟨1, 3⟩⟩⟩,
    ⟨.symbol .lt, "<", ⟨⟨1, 4⟩, ⟨1, 5⟩⟩⟩, ⟨.int, "1", ⟨⟨1, 6⟩, ⟨1, 7⟩⟩⟩,
    ⟨.symbol .rparen, ")", ⟨⟨1, 7⟩, ⟨1, 8⟩⟩⟩]

/-- The comparison fails at the operator, and the condition is read from the parenthesis on. -/
theorem parsing_restarts_at_parenthesis :
    run 50 .comparison (tape ⟨1, 8⟩ smaller) 0 = .failed
      ⟨.parse, ⟨⟨1, 4⟩, ⟨1, 5⟩⟩, "expected ')' after expression, found '<'"⟩ 2 [1, 2] ∧
    run 51 .negation (tape ⟨1, 8⟩ smaller) 0 = .done
      (.compare .lt (.var "x" ⟨⟨1, 2⟩, ⟨1, 3⟩⟩) (.int 1 ⟨⟨1, 6⟩, ⟨1, 7⟩⟩) ⟨⟨1, 1⟩, ⟨1, 8⟩⟩)
      5 [1, 2, 0, 1, 2, 3, 4, 5] ∧
    Advances smaller 0 1 (run 51 .negation (tape ⟨1, 8⟩ smaller) 0) := by
  have hfirst : run 50 .comparison (tape ⟨1, 8⟩ smaller) 0 = .failed
      ⟨.parse, ⟨⟨1, 4⟩, ⟨1, 5⟩⟩, "expected ')' after expression, found '<'"⟩ 2 [1, 2] := by rfl
  refine ⟨hfirst, ?_, ?_⟩
  · rw [parsing_advances_in_range.2.1 ⟨1, 8⟩ smaller 0 50 2 _ _ _ rfl rfl hfirst]
    rfl
  · obtain ⟨-, -, -, hrun⟩ := parsing_advances_in_range.1 ⟨1, 8⟩ smaller 0 (Nat.zero_le _)
    exact (hrun .negation 51 (by decide)).1

end Cursor
end Signum
