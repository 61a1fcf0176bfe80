import Signum.Proofs.Syntax.Lookahead
/- Conditions and the parenthesis that is tried twice.

   A parenthesis where a condition is read can open an operand or a nested condition. The
   reader takes it for an operand first; when that fails, for a nested condition; and when that
   fails too, it reports the problem of the attempt that got further, going by what each of
   them had left. But of a nested condition that itself began with a parenthesis, what is left
   is what its own second attempt left, also when the problem is that of its first. So the
   outer attempt can win although it stopped earlier. This happens in one situation only
   (`Hides`): a parenthesis is a part of a condition, and in it, after a left operand that
   starts with a parenthesis and an operator of comparison, the right operand goes wrong. The
   problem is then reported at the operator (`negation_hides`). In all other situations it is
   reported at the token it is laid on. -/
namespace Signum.Parser

open Grammar
open Reader (of give)

/-- The start of an operand that is not one yet. -/
def Unfinished (ts : List Token) : Prop :=
  (∃ more e, DerivesExpr .sum (ts ++ more) e) ∧ ∀ e, ¬DerivesExpr .sum ts e

/-- A parenthesis, and in it the start of a comparison: a left operand that starts with a
parenthesis, the operator `op` and a right operand that is not one yet. -/
def Cut (ts : List Token) (op : Token) : Prop :=
  ∃ opening left right, ts = opening :: (left ++ op :: right) ∧
    opening.kind = .symbol .lparen ∧ left.head?.map Token.kind = some (.symbol .lparen) ∧
    (∃ e, DerivesExpr .sum left e) ∧ (compareOp? op.kind).isSome = true ∧ Unfinished right

/-- The kinds of token before a condition or a part of one. -/
def condLeads : List TokenKind :=
  [.symbol .lparen, .symbol .bang, .symbol .andAnd, .symbol .orOr]

/-- The tokens before a problem end within a comparison in parentheses that is itself a part of
a condition. -/
def Hides (before : List Token) (op : Token) : Prop :=
  ∃ early lead ts, before = early ++ lead :: ts ∧ lead.kind ∈ condLeads ∧ Cut ts op

theorem Hides.append {before : List Token} {op : Token} (h : Hides before op) (early : List Token) :
    Hides (early ++ before) op := by
  obtain ⟨early', lead, ts, heq, hshape⟩ := h
  refine ⟨early ++ early', lead, ts, ?_, hshape⟩
  rw [heq, List.append_assoc]

/-- The problem is reported at the token it is laid on or at an operator before it. -/
def Blame.either (finish : Point) (hides : List Token → Token → Prop) : Blame where
  holds before rest failure reached :=
    (failure.span = placeOf finish rest ∨ ∃ op, hides before op ∧ failure.span = op.span) ∧
      reached.length ≤ before.length + rest.length

/-- What is said of a problem in something that holds conditions. -/
def Blame.hidden (finish : Point) : Blame := .either finish Hides

/-- What is said of a problem in a condition, whose first parenthesis can be the one around the
comparison. -/
def Blame.cut (finish : Point) : Blame :=
  .either finish fun before op => Cut before op ∨ Hides before op

section Carrying
variable (finish : Point)

theorem either_carries {hides hides' : List Token → Token → Prop} {early : List Token}
    (h : ∀ before op, hides before op → hides' (early ++ before) op) :
    Carries (.either finish hides) (.either finish hides') early := by
  constructor
  intro before rest failure reached hb
  refine ⟨hb.1.imp_right ?_, ?_⟩
  · intro ⟨op, hop, hspan⟩
    exact ⟨op, h before op hop, hspan⟩
  · have hreached := hb.2
    rw [List.length_append]
    omega

theorem hidden_carries (early : List Token) : Carries (.hidden finish) (.hidden finish) early :=
  either_carries finish fun _ _ hop => hop.append early

theorem hidden_cut (early : List Token) : Carries (.hidden finish) (.cut finish) early :=
  either_carries finish fun _ _ hop => .inr (hop.append early)

/-- After a token that stands before conditions, a parenthesis can hide a problem. -/
theorem cut_hidden {lead : Token} (h : lead.kind ∈ condLeads) :
    Carries (.cut finish) (.hidden finish) [lead] := by
  refine either_carries finish fun before op hop => ?_
  rcases hop with hcut | hhides
  · exact ⟨[], lead, before, rfl, h, hcut⟩
  · exact hhides.append [lead]

theorem lead_carries {lead : Token} (h : lead.kind ∈ condLeads) :
    Carries (.cut finish) (.cut finish) [lead] :=
  ⟨fun hb => (hidden_cut finish []).holds ((cut_hidden finish h).holds hb)⟩

theorem next_either (hides : List Token → Token → Prop) (early : List Token) :
    Carries (.next finish) (.either finish hides) early :=
  ⟨fun hb => ⟨.inl hb.1, Nat.le_trans hb.2 (Nat.le_add_left _ _)⟩⟩

end Carrying

theorem andThen_assoc {α β γ : Type} (x : Reader α) (f : α → Reader β) (g : β → Reader γ) :
    (x.andThen f).andThen g = x.andThen fun a => (f a).andThen g := by
  funext ts
  unfold Reader.andThen
  cases x ts with
  | error e => rfl
  | ok p => rfl

theorem result_shorter {α : Type} {n : Nat} {x : Step α n} {a : α} {rest : List Token}
    (h : x.result = .ok (a, rest)) : rest.length < n := by
  cases x with
  | error failure reached => cases h
  | ok b rest' hlt =>
    cases h
    exact hlt

section Conditions
variable (finish : Point)

/-! Conditions, as readers. -/

theorem cond_eq :
    of (cond finish) = (of (conj finish)).andThen fun l => of (condTail finish l) := by
  funext ts
  show (cond finish ts).result = _
  rw [cond]
  exact result_bind fun l rest hlt => result_weaken _ _

theorem conj_eq :
    of (conj finish) = (of (negation finish)).andThen fun l => of (conjTail finish l) := by
  funext ts
  show (conj finish ts).result = _
  rw [conj]
  exact result_bind fun l rest hlt => result_weaken _ _

theorem condTail_stays {l : Cond} {ts : List Token}
    (h : ∀ t ∈ ts.head?, t.kind ≠ .symbol .orOr) : of (condTail finish l) ts = .ok (l, ts) := by
  exact gives_iff.mp (condTail_done finish h)

theorem conjTail_stays {l : Cond} {ts : List Token}
    (h : ∀ t ∈ ts.head?, t.kind ≠ .symbol .andAnd) : of (conjTail finish l) ts = .ok (l, ts) := by
  exact gives_iff.mp (conjTail_done finish h)

theorem condTail_goes {l : Cond} {t : Token} (h : t.kind = .symbol .orOr) (ts : List Token) :
    of (condTail finish l) (t :: ts) = ((of (conj finish)).andThen fun r =>
      of (condTail finish (.logical .or l r (l.span.upTo r.span)))) ts := by
  show (condTail finish l (t :: ts)).result = _
  rw [condTail, if_pos h]
  exact result_bind fun r rest hlt => result_weaken _ _

theorem conjTail_goes {l : Cond} {t : Token} (h : t.kind = .symbol .andAnd) (ts : List Token) :
    of (conjTail finish l) (t :: ts) = ((of (negation finish)).andThen fun r =>
      of (conjTail finish (.logical .and l r (l.span.upTo r.span)))) ts := by
  show (conjTail finish l (t :: ts)).result = _
  rw [conjTail, if_pos h]
  exact result_bind fun r rest hlt => result_weaken _ _

theorem negation_goes {t : Token} (h : t.kind = .symbol .bang) (ts : List Token) :
    of (negation finish) (t :: ts) = ((of (negation finish)).andThen fun c =>
      give (.not c (t.span.upTo c.span))) ts := by
  show (negation finish (t :: ts)).result = _
  rw [negation, if_pos h]
  exact result_bind fun c rest hlt => rfl

theorem negation_plain {ts : List Token}
    (h : ∀ t ∈ ts.head?, t.kind ≠ .symbol .bang ∧ t.kind ≠ .symbol .lparen) :
    of (negation finish) ts = of (comparison finish) ts := by
  show (negation finish ts).result = (comparison finish ts).result
  cases ts with
  | nil => rw [negation]
  | cons t rest =>
    obtain ⟨hbang, hparen⟩ := h t rfl
    rw [negation, if_neg hbang]
    cases comparison finish (t :: rest) with
    | ok c rest' hlt => rfl
    | error failure reached =>
      simp only [ne_eq, hparen, not_false_eq_true, if_true]

/-- The end of a nested condition. -/
def close (t : Token) (c : Cond) : Reader Cond :=
  (of (expect finish (.symbol .rparen) "after condition")).andThen fun closing =>
    give (c.withSpan (t.span.upTo closing.span))

/-- A nested condition, after the parenthesis `t`. -/
def nested (t : Token) : Reader Cond := (of (cond finish)).andThen (close finish t)

/-- A nested condition from its first part on. -/
def afterFirst (t : Token) (c : Cond) : Reader Cond :=
  (of (conjTail finish c)).andThen fun c => (of (condTail finish c)).andThen (close finish t)

theorem nested_eq (t : Token) :
    nested finish t = (of (negation finish)).andThen (afterFirst finish t) := by
  unfold nested
  rw [cond_eq, conj_eq, andThen_assoc, andThen_assoc]
  rfl

theorem negation_parens_eq {t : Token} (h : t.kind = .symbol .lparen) (ts : List Token) :
    of (negation finish) (t :: ts) = match of (comparison finish) (t :: ts) with
      | .ok p => .ok p
      | .error (failure, reached) =>
        match nested finish t ts with
        | .ok p => .ok p
        | .error (failure', reached') =>
          .error (if reached.length < reached'.length then failure else failure', reached') := by
  have hnested : ((cond finish ts).bind fun inner rest' _ =>
      (expect finish (.symbol .rparen) "after condition" rest').bind fun closing rest'' _ =>
        (.ok (inner.withSpan (t.span.upTo closing.span)) rest''
          (by simp only [List.length_cons]; omega) : Step Cond (t :: ts).length)).result =
      nested finish t ts := by
    unfold nested close
    exact result_bind fun c rest hlt => result_bind fun closing rest' hlt' => rfl
  show (negation finish (t :: ts)).result = match (comparison finish (t :: ts)).result with
    | .ok p => .ok p
    | .error (failure, reached) => _
  rw [negation, if_neg (by simp [h])]
  cases comparison finish (t :: ts) with
  | ok c rest hlt => rfl
  | error failure reached =>
    simp only [h, ne_eq, not_true_eq_false, if_false, Step.result]
    rw [← hnested]
    generalize (cond finish ts).bind _ = x
    cases x with
    | ok c rest hlt => rfl
    | error failure' reached' => rfl

/-! The first attempt: the parenthesis opens an operand. -/

/-- An operator of comparison closes no parenthesis. -/
theorem not_closing {u : Token} {us : List Token} (hu : (compareOp? u.kind).isSome = true)
    (hus : us.head? = some u) : ∀ v ∈ us.head?, v.kind ≠ .symbol .rparen := by
  intro v hv hk
  obtain rfl : u = v := Option.some.inj (hus.symm.trans hv)
  rw [hk] at hu
  cases hu

theorem expr_of_primary {t : Token} {ts : List Token} {e : Failure × List Token}
    (ht : t.kind = .symbol .lparen) (h : of (primary finish) (t :: ts) = .error e) :
    of (expr finish) (t :: ts) = .error e := by
  rw [expr_eq]
  apply Reader.andThen_error
  rw [term_eq]
  apply Reader.andThen_error
  rw [unary_stays finish (by simp [ht])]
  exact h

/-- A problem inside the parenthesis is a problem of the operand. -/
theorem expr_inside {t : Token} {ts : List Token} {e : Failure × List Token}
    (ht : t.kind = .symbol .lparen) (h : of (expr finish) ts = .error e) :
    of (expr finish) (t :: ts) = .error e := by
  apply expr_of_primary finish ht
  rw [primary_parens finish ht]
  exact Reader.andThen_error h

/-- The parenthesis is not closed where the expression inside it ends. -/
theorem expr_unclosed {t : Token} {ts k : List Token} {e : Expr} (ht : t.kind = .symbol .lparen)
    (h : of (expr finish) ts = .ok (e, k)) (hk : ∀ u ∈ k.head?, u.kind ≠ .symbol .rparen) :
    ∃ failure, of (expr finish) (t :: ts) = .error (failure, k) ∧
      failure.span = placeOf finish k := by
  obtain ⟨failure, hstop, hspan⟩ := expect_stops finish "after expression" hk
  refine ⟨failure, expr_of_primary finish ht ?_, hspan⟩
  rw [primary_parens finish ht, Reader.andThen_ok h]
  exact Reader.andThen_error hstop

/-- An expression that starts with a parenthesis goes on after it is closed. -/
theorem expr_closed {t : Token} {ts k : List Token} {e : Expr} (ht : t.kind = .symbol .lparen)
    (h : of (expr finish) (t :: ts) = .ok (e, k)) :
    ∃ e' closing k', of (expr finish) ts = .ok (e', closing :: k') ∧
      closing.kind = .symbol .rparen ∧ k.length ≤ k'.length := by
  cases hinner : of (expr finish) ts with
  | error e' =>
    rw [expr_inside finish ht hinner] at h
    cases h
  | ok p =>
    obtain ⟨e', k₁⟩ := p
    by_cases hk : k₁.head?.any (·.kind = .symbol .rparen)
    · obtain ⟨closing, hhead, hc⟩ : ∃ closing, k₁.head? = some closing ∧
          closing.kind = .symbol .rparen := by
        simpa [Option.any_eq_true] using hk
      obtain ⟨k', rfl⟩ := List.head?_eq_some_iff.mp hhead
      refine ⟨e', closing, k', rfl, hc, ?_⟩
      have hprimary : of (unary finish) (t :: ts) = .ok (e', k') := by
        rw [unary_stays finish (by simp [ht]), primary_parens finish ht, Reader.andThen_ok hinner,
          Reader.andThen_ok (gives_iff.mp (expect_gives finish _ hc k'))]
        rfl
      -- what is read after the parenthesis is shorter still
      rw [expr_eq, term_eq, andThen_assoc, Reader.andThen_ok hprimary] at h
      cases hterm : of (termTail finish e') k' with
      | error f =>
        rw [Reader.andThen_error hterm] at h
        cases h
      | ok p =>
        obtain ⟨e'', k''⟩ := p
        rw [Reader.andThen_ok hterm] at h
        have hshort := result_shorter (x := termTail finish e' k') hterm
        have hshort' := result_shorter (x := exprTail finish e'' k'') h
        omega
    · obtain ⟨failure, hstop, -⟩ :=
        expr_unclosed finish ht hinner (by simpa [Option.any_eq_true] using hk)
      rw [hstop] at h
      cases h

theorem expr_bang {t : Token} (ht : t.kind = .symbol .bang) (ts : List Token) :
    ∃ failure, of (expr finish) (t :: ts) = .error (failure, t :: ts) := by
  refine ⟨⟨.parse, t.span, "expected expression, found " ++ t.describe⟩, ?_⟩
  rw [expr_eq]
  apply Reader.andThen_error
  rw [term_eq]
  apply Reader.andThen_error
  rw [unary_stays finish (by simp [ht])]
  show (primary finish (t :: ts)).result = _
  rw [primary]
  simp only [ht]
  rfl

theorem comparison_of_expr {ts : List Token} {e : Failure × List Token}
    (h : of (expr finish) ts = .error e) : of (comparison finish) ts = .error e := by
  rw [comparison_eq]
  exact Reader.andThen_error h

theorem comparison_ends {ts k : List Token} {e : Expr} (h : of (expr finish) ts = .ok (e, k))
    (hk : ∀ u ∈ k.head?, compareOp? u.kind = none) :
    ∃ failure, of (comparison finish) ts = .error (failure, k) ∧
      failure.span = placeOf finish k := by
  rw [comparison_eq, Reader.andThen_ok h]
  exact compareTail_stops finish hk

theorem comparison_goes {ts k : List Token} {e : Expr} {u : Token} {op : CompareOp}
    (h : of (expr finish) ts = .ok (e, u :: k)) (hu : compareOp? u.kind = some op) :
    of (comparison finish) ts = ((of (expr finish)).andThen fun r =>
      give (.compare op e r (e.span.upTo r.span))) k := by
  rw [comparison_eq, Reader.andThen_ok h]
  exact compareTail_goes finish hu k

/-! Both attempts. -/

theorem nested_of_negation {t : Token} {ts : List Token} {e : Failure × List Token}
    (h : of (negation finish) ts = .error e) : nested finish t ts = .error e := by
  rw [nested_eq]
  exact Reader.andThen_error h

theorem negation_of_both {t : Token} {ts r r' : List Token} {f f' : Failure}
    (ht : t.kind = .symbol .lparen) (h : of (comparison finish) (t :: ts) = .error (f, r))
    (h' : nested finish t ts = .error (f', r')) :
    of (negation finish) (t :: ts) = .error (if r.length < r'.length then f else f', r') := by
  rw [negation_parens_eq finish ht, h]
  simp only [h']

theorem negation_of_nested {t : Token} {ts : List Token} {e : Failure × List Token}
    {p : Cond × List Token} (ht : t.kind = .symbol .lparen)
    (h : of (comparison finish) (t :: ts) = .error e) (h' : nested finish t ts = .ok p) :
    of (negation finish) (t :: ts) = .ok p := by
  rw [negation_parens_eq finish ht, h]
  simp only [h']

theorem negation_of_comparison {ts : List Token} {p : Cond × List Token}
    (hts : ∀ t ∈ ts.head?, t.kind ≠ .symbol .bang) (h : of (comparison finish) ts = .ok p) :
    of (negation finish) ts = .ok p := by
  cases ts with
  | nil => rw [negation_plain finish (by simp), h]
  | cons t ts =>
    by_cases ht : t.kind = .symbol .lparen
    · rw [negation_parens_eq finish ht, h]
    · rw [negation_plain finish, h]
      intro u hu
      obtain rfl : t = u := by simpa using hu
      exact ⟨hts t rfl, ht⟩

theorem negation_stops {t : Token} {ts : List Token} (ht : t.kind = .symbol .lparen)
    (h : (of (comparison finish)).Stops (t :: ts)) (h' : (nested finish t).Stops ts) :
    (of (negation finish)).Stops (t :: ts) := by
  obtain ⟨⟨f, r⟩, h⟩ := h
  obtain ⟨⟨f', r'⟩, h'⟩ := h'
  exact ⟨_, negation_of_both finish ht h h'⟩

/-- Where an expression ends before something other than a comparison, there is no condition. The
problem is reported where the expression ends, and no attempt has left less. -/
theorem negation_ends : (ts : List Token) → ∀ {k : List Token} {e : Expr},
    of (expr finish) ts = .ok (e, k) → (∀ u ∈ k.head?, compareOp? u.kind = none) →
    ∃ failure reached, of (negation finish) ts = .error (failure, reached) ∧
      failure.span = placeOf finish k ∧ k.length ≤ reached.length
  | [], k, e, h, hk => by
    obtain ⟨failure, hcomp, hspan⟩ := comparison_ends finish h hk
    refine ⟨failure, k, ?_, hspan, Nat.le_refl _⟩
    rw [negation_plain finish (by simp)]
    exact hcomp
  | t :: ts, k, e, h, hk => by
    obtain ⟨failure, hcomp, hspan⟩ := comparison_ends finish h hk
    by_cases hparen : t.kind = .symbol .lparen
    · obtain ⟨e', closing, k', hinner, hc, hle⟩ := expr_closed finish hparen h
      obtain ⟨failure', reached, hneg, -, hreached⟩ :=
        negation_ends ts hinner (by simp [hc, compareOp?])
      have hlt : k.length < reached.length := by
        simp only [List.length_cons] at hreached
        omega
      refine ⟨failure, reached, ?_, hspan, Nat.le_of_lt hlt⟩
      rw [negation_of_both finish hparen hcomp (nested_of_negation finish hneg), if_pos hlt]
    · by_cases hbang : t.kind = .symbol .bang
      · obtain ⟨failure', hstop⟩ := expr_bang finish hbang ts
        rw [hstop] at h
        cases h
      · refine ⟨failure, k, ?_, hspan, Nat.le_refl _⟩
        rw [negation_plain finish (by simp [hbang, hparen])]
        exact hcomp

/-- What an operand can be read from is no nested condition, and that is found out before the
operand ends. -/
theorem nested_of_operand {t : Token} {ts k : List Token} {e : Expr}
    (ht : t.kind = .symbol .lparen) (h : of (expr finish) (t :: ts) = .ok (e, k)) :
    ∃ failure reached, nested finish t ts = .error (failure, reached) ∧
      k.length < reached.length := by
  obtain ⟨e', closing, k', hinner, hc, hle⟩ := expr_closed finish ht h
  obtain ⟨failure, reached, hneg, -, hreached⟩ :=
    negation_ends finish ts hinner (by simp [hc, compareOp?])
  refine ⟨failure, reached, nested_of_negation finish hneg, ?_⟩
  simp only [List.length_cons] at hreached
  omega

/-- The tokens that were left where an attempt ended, well or not. -/
def leftover {α : Type} : Except (Failure × List Token) (α × List Token) → List Token
  | .error (_, k) => k
  | .ok (_, k) => k

/-- On the tokens of a condition an expression goes wrong or ends before the condition does. -/
theorem cond_reach {k : CondTier} {ts : List Token} {c : Cond} (h : DerivesCond k ts c)
    (rest : List Token) : rest.length < (leftover (of (expr finish) (ts ++ rest))).length := by
  induction h generalizing rest with
  | ofConjunction _ ih | ofNegation _ ih => exact ih rest
  | @or ls rs t l r _ _ _ ihl _ | @and ls rs t l r _ _ _ ihl _ =>
    have hleft := ihl (t :: (rs ++ rest))
    rw [List.append_assoc, List.cons_append]
    simp only [List.length_cons, List.length_append] at hleft
    omega
  | @not ts t c ht _ _ =>
    obtain ⟨failure, hstop⟩ := expr_bang finish ht (ts ++ rest)
    rw [List.cons_append, hstop]
    simp only [leftover, List.length_cons, List.length_append]
    omega
  | @compare ls rs t op l r hl ht _ =>
    have hleft : of (expr finish) (ls ++ t :: (rs ++ rest)) = .ok (l, t :: (rs ++ rest)) :=
      gives_iff.mp (expr_gives finish hl (noOperator_of_compare ht))
    rw [List.append_assoc, List.cons_append, hleft]
    simp only [leftover, List.length_cons, List.length_append]
    omega
  | @parens opening closing ts c ho hd hc ih =>
    have hreach := ih (closing :: rest)
    rw [List.cons_append, List.append_assoc, List.singleton_append]
    simp only [List.length_cons] at hreach
    cases hinner : of (expr finish) (ts ++ closing :: rest) with
    | error e =>
      rw [hinner] at hreach
      rw [expr_inside finish ho hinner]
      exact Nat.lt_of_succ_lt hreach
    | ok p =>
      obtain ⟨e, k'⟩ := p
      rw [hinner] at hreach
      -- the expression ends before a comparison, so the parenthesis is not closed there
      obtain ⟨u, k'', rfl, hu⟩ := stopsAtCompare_of_cond finish hd _ e k' (gives_iff.mpr hinner)
      obtain ⟨failure, hstop, -⟩ := expr_unclosed finish ho hinner (not_closing hu rfl)
      rw [hstop]
      exact Nat.lt_of_succ_lt hreach

/-! Which problem is reported when both attempts fail. -/

theorem nested_goes (t : Token) {closing : Token} {ts : List Token} {c : Cond}
    (h : DerivesCond .disjunction ts c) (hc : closing.kind = .symbol .rparen) (rest : List Token) :
    ¬(nested finish t).Stops (ts ++ closing :: rest) := by
  have hop : NoOperator (closing :: rest) := noOperator_of_symbol hc rfl rfl
  have hcond := cond_complete finish h _ c _ (noConjunct_cons hop (by simp [hc]))
    (condTail_done finish (by simp [hc]))
  intro ⟨e, he⟩
  unfold nested close at he
  rw [Reader.andThen_ok (gives_iff.mp hcond),
    Reader.andThen_ok (gives_iff.mp (expect_gives finish _ hc rest))] at he
  cases he

theorem comparison_goes_on {ts : List Token} {e : Expr} (h : DerivesExpr .sum ts e) :
    ∃ more, ¬(of (comparison finish)).Stops (ts ++ more) := by
  have hless : compareOp? (sample (.symbol .lt)).kind = some .lt := rfl
  have hend : NoOperator [] := by simp [NoOperator]
  have hgives := comparison_gives finish h hless zero_sum hend
  refine ⟨[sample (.symbol .lt), sample .int], fun ⟨e, he⟩ => ?_⟩
  cases (gives_iff.mp hgives).symm.trans he

section Parens
variable {finish} {B B' : Blame} {t : Token} {rest reached before late p q : List Token}
  {failure : Failure}

/-- The problem of the nested condition, when the comparison fails no later: what it fails at
comes after the start `p` of an operand. -/
theorem offends_nested {P : List Token → Cond → Prop} (ht : t.kind = .symbol .lparen)
    (hnested : Offends B P (nested finish t) rest failure reached before late)
    (hb : Carries B B' [t]) (hP : ∀ seg c, P seg c → DerivesCond .negation (t :: seg) c)
    (hsplit : rest = p ++ q) (hgo : ∃ more e, DerivesExpr .sum (p ++ more) e)
    (hdead : ∀ tail, tail.head? = q.head? → (of (comparison finish)).Stops (t :: (p ++ tail))) :
    Offends B' (DerivesCond .negation) (of (negation finish)) (t :: rest) failure reached
      (t :: before) late := by
  -- a comparison in parentheses could have followed the start of the operand
  have hlater : p.length ≤ before.length := by
    obtain ⟨more, e, he⟩ := hgo
    have hcond := DerivesCond.ofConjunction (.ofNegation (compare_zero he))
    have hgoes := nested_goes finish t hcond (sample_kind (.symbol .rparen)) []
    refine hnested.position hsplit ⟨more ++ [sample (.symbol .lt), sample .int] ++
      [sample (.symbol .rparen)], ?_⟩
    simpa using hgoes
  refine ⟨by rw [hnested.split]; rfl, hb.holds hnested.blame, ?_, fun tail htail => ?_⟩
  · obtain ⟨more, c, hc⟩ := hnested.viable
    exact ⟨more, c, hP _ c hc⟩
  · have heq : p ++ q = before ++ late := hsplit.symm.trans hnested.split
    obtain ⟨tail', hsame, hhead⟩ := goes_on_earlier heq hlater htail
    rw [List.cons_append]
    refine negation_stops finish ht ?_ (hnested.dead tail htail)
    rw [hsame]
    exact hdead tail' hhead

/-- The problem of the comparison, when there is no nested condition after the operand `p`. -/
theorem offends_comparison {P : List Token → Cond → Prop} {reached' : List Token}
    {failure' : Failure} (ht : t.kind = .symbol .lparen)
    (hcomp : Offends B P (of (comparison finish)) (t :: rest) failure reached before late)
    (hP : ∀ seg c, P seg c → DerivesCond .negation seg c)
    (hblame : B'.holds before late failure' reached')
    (hsplit : rest = p ++ q) (hgo : ∃ more, ¬(of (comparison finish)).Stops (t :: p ++ more))
    (hdead : ∀ tail, tail.head? = q.head? → (nested finish t).Stops (p ++ tail)) :
    Offends B' (DerivesCond .negation) (of (negation finish)) (t :: rest) failure' reached'
      before late := by
  have hts : t :: rest = t :: p ++ q := by rw [hsplit]; rfl
  have hlater := hcomp.position hts hgo
  refine ⟨hcomp.split, hblame, ?_, fun tail htail => ?_⟩
  · obtain ⟨more, c, hc⟩ := hcomp.viable
    exact ⟨more, c, hP _ c hc⟩
  · have hstop := hcomp.dead tail htail
    obtain ⟨tail', hsame, hhead⟩ := goes_on_earlier (hts.symm.trans hcomp.split) hlater htail
    rw [hsame] at hstop ⊢
    exact negation_stops finish ht hstop (hdead tail' hhead)

/-- What is known of the readers inside a parenthesis. -/
structure Inside (finish : Point) (t : Token) (rest : List Token) : Prop where
  opening : t.kind = .symbol .lparen
  first : Exact (.cut finish) (DerivesCond .negation) (of (negation finish)) rest
  after : ∀ c seg r, rest = seg ++ r → DerivesCond .negation seg c →
    Exact (.hidden finish) (fun seg' c' => DerivesCond .negation (t :: (seg ++ seg')) c')
      (afterFirst finish t c) r

namespace Inside

theorem nested_exact (h : Inside finish t rest) :
    Exact (.cut finish) (fun seg c => DerivesCond .negation (t :: seg) c) (nested finish t)
      rest := by
  rw [nested_eq]
  refine .bind h.first (fun c seg r hts hseg _ => h.after c seg r hts hseg)
    (hidden_cut finish) fun seg c hseg => ?_
  exact ⟨[sample (.symbol .rparen)], _,
    .parens h.opening (.ofConjunction (.ofNegation hseg)) rfl⟩

theorem carries (h : Inside finish t rest) : Carries (.cut finish) (.cut finish) [t] :=
  lead_carries finish (by rw [h.opening]; decide)

/-- A problem after the first part of the nested condition leaves no more than that part did. -/
theorem after_reach (h : Inside finish t rest) {c : Cond} {r r' : List Token} {f : Failure}
    (hfirst : of (negation finish) rest = .ok (c, r))
    (hnested : nested finish t rest = .error (f, r')) :
    r'.length ≤ r.length := by
  obtain ⟨seg, hts, hseg, -⟩ := h.first.ok hfirst
  rw [nested_eq, Reader.andThen_ok hfirst] at hnested
  obtain ⟨before, late, hoff⟩ := (h.after c seg r hts hseg).error hnested
  have hreach := hoff.blame.2
  rw [hoff.split, List.length_append]
  exact hreach

/-- When no expression can be read inside the parenthesis, the problem of the nested condition is
reported. -/
theorem reports_nested (h : Inside finish t rest) {f f' : Failure} {r r' : List Token}
    (hexpr : of (expr finish) rest = .error (f, r))
    (hnested : nested finish t rest = .error (f', r')) :
    (if r.length < r'.length then f else f') = f' := by
  have hcomp := comparison_of_expr finish hexpr
  match rest, h, hexpr, hnested, hcomp with
  | [], _, _, hnested, hcomp =>
    have hneg := hcomp
    rw [← negation_plain finish (by simp)] at hneg
    cases (nested_of_negation finish hneg).symm.trans hnested
    rw [ite_self]
  | u :: us, h, hexpr, hnested, hcomp =>
    by_cases hbang : u.kind = .symbol .bang
    · obtain ⟨failure, hstop⟩ := expr_bang finish hbang us
      cases hstop.symm.trans hexpr
      obtain ⟨before, late, hoff⟩ := h.nested_exact.error hnested
      have hreach := hoff.blame.2
      rw [← List.length_append, ← hoff.split] at hreach
      exact if_neg (Nat.not_lt.mpr hreach)
    · by_cases hparen : u.kind = .symbol .lparen
      · cases hinner : nested finish u us with
        | error e =>
          -- the nested condition has made the same choice already
          obtain ⟨f'', r''⟩ := e
          have hneg := negation_of_both finish hparen hcomp hinner
          cases (nested_of_negation finish hneg).symm.trans hnested
          split
          · rfl
          · rfl
        | ok p =>
          obtain ⟨c, r''⟩ := p
          have hneg := negation_of_nested finish hparen hcomp hinner
          obtain ⟨seg, hts, hseg, -⟩ := h.first.ok hneg
          have hlong : r''.length < r.length := by
            have hreach := cond_reach finish hseg r''
            rw [← hts, hexpr] at hreach
            exact hreach
          have hshort := h.after_reach hneg hnested
          exact if_neg (by omega)
      · have hneg := hcomp
        rw [← negation_plain finish (by simp [hbang, hparen])] at hneg
        cases (nested_of_negation finish hneg).symm.trans hnested
        rw [ite_self]

theorem reach_le (h : Inside finish t rest) {f : Failure} {r : List Token}
    (hnested : nested finish t rest = .error (f, r)) : r.length ≤ rest.length := by
  obtain ⟨before, late, hoff⟩ := h.nested_exact.error hnested
  rw [hoff.split, List.length_append]
  exact hoff.blame.2

/-- The problem when no expression can be read inside the parenthesis. -/
theorem offends_inside (h : Inside finish t rest) {f f' : Failure} {r r' : List Token}
    (hexpr : of (expr finish) rest = .error (f, r))
    (hnested : nested finish t rest = .error (f', r')) :
    ∃ before late, Offends (.cut finish) (DerivesCond .negation) (of (negation finish))
      (t :: rest) f' r' before late := by
  obtain ⟨p, q, hp⟩ := (expr_exact finish rest).error hexpr
  obtain ⟨before, late, hoff⟩ := h.nested_exact.error hnested
  refine ⟨_, late, offends_nested h.opening hoff h.carries (fun _ _ hc => hc) hp.split hp.viable ?_⟩
  intro tail htail
  obtain ⟨e, he⟩ := hp.dead tail htail
  exact ⟨e, comparison_of_expr finish (expr_inside finish h.opening he)⟩

/-- The problem when the expression inside the parenthesis ends before something other than a
comparison. -/
theorem offends_ended (h : Inside finish t rest) {f f' : Failure} {r r' k : List Token} {e : Expr}
    (hexpr : of (expr finish) rest = .ok (e, k)) (hk : ∀ u ∈ k.head?, compareOp? u.kind = none)
    (hcomp : of (comparison finish) (t :: rest) = .error (f, r))
    (hnested : nested finish t rest = .error (f', r')) :
    ∃ before late, Offends (.cut finish) (DerivesCond .negation) (of (negation finish))
      (t :: rest) (if r.length < r'.length then f else f') r' before late := by
  have hreach := h.reach_le hnested
  obtain ⟨f'', r'', hneg, hspan, hlong⟩ := negation_ends finish rest hexpr hk
  cases (nested_of_negation finish hneg).symm.trans hnested
  obtain ⟨p, hts, hp, hlocal⟩ := (expr_exact finish rest).ok hexpr
  obtain ⟨before, late, hoff⟩ := (comparison_exact finish (t :: rest)).error hcomp
  have hclosed {closing : Token} (hc : closing.kind = .symbol .rparen) :
      DerivesExpr .sum (t :: (p ++ [closing])) e :=
    .ofProduct (.ofSigned (.ofPrimary (.parens h.opening hp hc)))
  have hlen := congrArg List.length hoff.split
  simp only [List.length_cons, List.length_append] at hlen
  -- both attempts report the same place, or the comparison has left less
  have hsame : (if r.length < r'.length then f else f').span = f.span := by
    split
    · rfl
    · next hless =>
      rw [hspan]
      by_cases hclose : ∃ closing k', k = closing :: k' ∧ closing.kind = .symbol .rparen
      · obtain ⟨closing, k', rfl, hc⟩ := hclose
        have hwhole : t :: rest = t :: (p ++ [closing]) ++ k' := by rw [hts]; simp
        have hlater := hoff.position hwhole (comparison_goes_on finish (hclosed hc))
        have hshort := hoff.blame.2
        rw [hts] at hlen
        simp only [List.length_cons, List.length_append, List.length_nil] at hlater hlen hlong
        omega
      · have hopen : ∀ u ∈ k.head?, u.kind ≠ .symbol .rparen := by
          intro u hu hc
          obtain ⟨k', rfl⟩ := List.head?_eq_some_iff.mp hu
          exact hclose ⟨u, k', rfl, hc⟩
        obtain ⟨f₀, hstop, hspan₀⟩ := expr_unclosed finish h.opening hexpr hopen
        cases (comparison_of_expr finish hstop).symm.trans hcomp
        exact hspan₀.symm
  refine ⟨before, late, offends_comparison h.opening hoff (fun _ _ hc => hc)
    ⟨.inl (hsame.trans hoff.blame.1), by omega⟩ hts ?_ fun tail htail => ?_⟩
  · obtain ⟨more, hgoes⟩ := comparison_goes_on finish (hclosed (sample_kind (.symbol .rparen)))
    exact ⟨sample (.symbol .rparen) :: more, by simpa using hgoes⟩
  · obtain ⟨f₁, r₁, hstop, -⟩ :=
      negation_ends finish (p ++ tail) (hlocal tail htail) (by rw [htail]; exact hk)
    exact ⟨_, nested_of_negation finish hstop⟩

end Inside

/-- An operand can be followed by an operator and another operand. -/
theorem sum_extends {ts : List Token} {e : Expr} {u : Token} (h : DerivesExpr .sum ts e)
    (hu : ¬(sumOp? u.kind = none ∧ productOp? u.kind = none)) :
    ∃ e', DerivesExpr .sum (ts ++ [u, sample .int]) e' := by
  cases hsum : sumOp? u.kind with
  | some op => exact ⟨_, .sum h hsum (.ofSigned zero_signed)⟩
  | none =>
    cases hprod : productOp? u.kind with
    | none => exact absurd ⟨hsum, hprod⟩ hu
    | some op =>
      cases h with
      | ofProduct h => exact ⟨_, .ofProduct (.product h hprod zero_signed)⟩
      | @sum ls rs t op' l r hl ht hr =>
        rw [List.append_assoc, List.cons_append]
        exact ⟨_, .sum hl ht (.product hr hprod zero_signed)⟩

/-- What goes wrong as an operand at its end is unfinished there. -/
theorem unfinished_of_offends {ts : List Token}
    (h : Offends B (DerivesExpr .sum) (of (expr finish)) ts failure reached before late)
    (herror : (of (expr finish)).Stops ts) : Unfinished before := by
  refine ⟨h.viable, fun e he => ?_⟩
  have hgives {rest : List Token} {e : Expr} {ts : List Token} (hd : DerivesExpr .sum ts e)
      (hop : NoOperator rest) : ¬(of (expr finish)).Stops (ts ++ rest) := by
    intro ⟨e', hstop⟩
    cases (gives_iff.mp (expr_gives finish hd hop)).symm.trans hstop
  cases late with
  | nil =>
    rw [h.split] at herror
    exact hgives he (by simp [NoOperator]) herror
  | cons u late =>
    by_cases hop : sumOp? u.kind = none ∧ productOp? u.kind = none
    · rw [h.split] at herror
      exact hgives he (noOperator_cons hop.1 hop.2) herror
    · obtain ⟨e', he'⟩ := sum_extends he hop
      have hend : NoOperator [] := by simp [NoOperator]
      apply hgives he' hend
      rw [List.append_nil]
      exact h.dead [u, sample .int] rfl

/-- In a parenthesis, after an operand that starts with a parenthesis and an operator, a problem
of the right operand is reported at the operator. -/
theorem negation_hides {k : List Token} {e : Expr} {u v : Token} {op : CompareOp}
    (ht : t.kind = .symbol .lparen) (hv : v.kind = .symbol .lparen)
    (hp : DerivesExpr .sum (v :: p) e) (hu : compareOp? u.kind = some op)
    (hright : (of (expr finish)).Stops k) :
    ∃ failure reached, of (negation finish) (t :: (v :: p ++ u :: k)) = .error (failure, reached) ∧
      failure.span = u.span := by
  have hleft : of (expr finish) (v :: p ++ u :: k) = .ok (e, u :: k) :=
    gives_iff.mp (expr_gives finish hp (noOperator_of_compare hu))
  -- the outer comparison stops at the operator
  obtain ⟨failure, hstop, hspan⟩ := expr_unclosed finish ht hleft (not_closing (by simp [hu]) rfl)
  -- the inner one gets further, but what it had left is lost
  obtain ⟨e', hright⟩ := hright
  have hinner : of (comparison finish) (v :: p ++ u :: k) = .error e' := by
    rw [comparison_goes finish hleft hu]
    exact Reader.andThen_error hright
  obtain ⟨failure', reached, hnested, hlong⟩ := nested_of_operand finish hv hleft
  have hneg := negation_of_both finish hv hinner hnested
  refine ⟨failure, reached, ?_, hspan⟩
  rw [negation_of_both finish ht (comparison_of_expr finish hstop) (nested_of_negation finish hneg),
    if_pos hlong]

/-- What such a problem is laid on. -/
theorem offends_hidden {k r : List Token} {e : Expr} {u v : Token} {op : CompareOp} {f : Failure}
    (ht : t.kind = .symbol .lparen) (hv : v.kind = .symbol .lparen)
    (hp : DerivesExpr .sum (v :: p) e) (hu : compareOp? u.kind = some op)
    (hright : Offends (.next finish) (DerivesExpr .sum) (of (expr finish)) k failure reached before
      late)
    (herror : (of (expr finish)).Stops k) (hspan : f.span = u.span)
    (hreach : r.length ≤ (v :: p ++ u :: k).length) :
    Offends (.cut finish) (DerivesCond .negation) (of (negation finish))
      (t :: (v :: p ++ u :: k)) f r (t :: (v :: p ++ u :: before)) late := by
  have hcut : Cut (t :: (v :: p ++ u :: before)) u := by
    refine ⟨t, v :: p, before, rfl, ht, ?_, ⟨e, hp⟩, ?_, unfinished_of_offends hright herror⟩
    · simp [hv]
    · rw [hu]
      rfl
  refine ⟨by rw [hright.split]; simp, ⟨.inr ⟨u, .inl hcut, hspan⟩, ?_⟩, ?_, fun tail htail => ?_⟩
  · rw [hright.split] at hreach
    simp only [List.length_cons, List.length_append] at hreach ⊢
    omega
  · obtain ⟨more, r, hr⟩ := hright.viable
    have hparens := DerivesCond.parens ht (.ofConjunction (.ofNegation (.compare hp hu hr)))
      (sample_kind (.symbol .rparen))
    refine ⟨more ++ [sample (.symbol .rparen)], ?_⟩
    simp only [List.cons_append, List.append_assoc] at hparens ⊢
    exact ⟨_, hparens⟩
  · obtain ⟨f', r', hstop, -⟩ := negation_hides ht hv hp hu (hright.dead tail htail)
    refine ⟨(f', r'), ?_⟩
    simpa using hstop

/-- When the operator hides no problem, the nested condition has left no more than was left before
the operator. -/
theorem Inside.reach_compared (h : Inside finish t rest) {f : Failure} {r k : List Token} {e : Expr}
    {u : Token} {op : CompareOp} (hexpr : of (expr finish) rest = .ok (e, u :: k))
    (hu : compareOp? u.kind = some op) (hnested : nested finish t rest = .error (f, r))
    (hplain : ∀ v ∈ rest.head?, v.kind = .symbol .lparen → ¬(of (expr finish)).Stops k) :
    r.length ≤ k.length := by
  have hbang : ∀ v ∈ rest.head?, v.kind ≠ .symbol .bang := by
    intro v hv hk
    obtain ⟨vs, rfl⟩ := List.head?_eq_some_iff.mp hv
    obtain ⟨f', hstop⟩ := expr_bang finish hk vs
    cases hstop.symm.trans hexpr
  cases hright : of (expr finish) k with
  | ok p =>
    obtain ⟨e', k'⟩ := p
    have hgoes : of (comparison finish) rest =
        .ok (.compare op e e' (e.span.upTo e'.span), k') := by
      rw [comparison_goes finish hexpr hu, Reader.andThen_ok hright]
      rfl
    have hshort := h.after_reach (negation_of_comparison finish hbang hgoes) hnested
    have hlt := result_shorter (x := expr finish k) hright
    omega
  | error e' =>
    obtain ⟨f', r'⟩ := e'
    have hneg : of (negation finish) rest = .error (f', r') := by
      rw [negation_plain finish, comparison_goes finish hexpr hu, Reader.andThen_error hright]
      intro v hv
      exact ⟨hbang v hv, fun hk => hplain v hv hk ⟨_, hright⟩⟩
    cases (nested_of_negation finish hneg).symm.trans hnested
    obtain ⟨before, late, hoff⟩ := (expr_exact finish k).error hright
    have hshort := hoff.blame.2
    have hlen := congrArg List.length hoff.split
    rw [List.length_append] at hlen
    omega

/-- The problem when the expression inside the parenthesis ends before a comparison. -/
theorem Inside.offends_compared (h : Inside finish t rest) {f f' : Failure} {r r' k : List Token}
    {e : Expr} {u : Token} {op : CompareOp} (hexpr : of (expr finish) rest = .ok (e, u :: k))
    (hu : compareOp? u.kind = some op) (hcomp : of (comparison finish) (t :: rest) = .error (f, r))
    (hnested : nested finish t rest = .error (f', r')) :
    ∃ before late, Offends (.cut finish) (DerivesCond .negation) (of (negation finish))
      (t :: rest) (if r.length < r'.length then f else f') r' before late := by
  obtain ⟨p, hts, hp, hlocal⟩ := (expr_exact finish rest).ok hexpr
  by_cases hhides : ∃ v ∈ rest.head?, v.kind = .symbol .lparen ∧ (of (expr finish)).Stops k
  · obtain ⟨v, hhead, hv, hstops⟩ := hhides
    obtain ⟨vs, rfl⟩ : ∃ vs, p = v :: vs := by
      obtain ⟨w, vs, rfl, -⟩ := expr_head hp
      rw [hts] at hhead
      obtain rfl : w = v := by simpa using hhead
      exact ⟨vs, rfl⟩
    obtain ⟨⟨fB, rB⟩, hright⟩ := hstops
    obtain ⟨right, late, hoff⟩ := (expr_exact finish k).error hright
    have hreach := h.reach_le hnested
    have hneg := negation_of_both finish h.opening hcomp hnested
    obtain ⟨f₀, r₀, hreport, hspan⟩ := negation_hides h.opening hv hp hu ⟨_, hright⟩
    rw [← hts] at hreport
    cases hreport.symm.trans hneg
    rw [hts] at hreach ⊢
    exact ⟨_, late, offends_hidden h.opening hv hp hu hoff ⟨_, hright⟩ hspan hreach⟩
  · have hcompares : (compareOp? u.kind).isSome = true := by rw [hu]; rfl
    obtain ⟨f₀, hstop, -⟩ := expr_unclosed finish h.opening hexpr (not_closing hcompares rfl)
    cases (comparison_of_expr finish hstop).symm.trans hcomp
    have hreach := h.reach_compared hexpr hu hnested fun v hv hk hstops =>
      hhides ⟨v, hv, hk, hstops⟩
    rw [if_neg (by simp only [List.length_cons]; omega)]
    obtain ⟨before, late, hoff⟩ := h.nested_exact.error hnested
    refine ⟨_, late, offends_nested h.opening hoff h.carries (fun _ _ hc => hc) hts ⟨[], e, ?_⟩ ?_⟩
    · rw [List.append_nil]
      exact hp
    · intro tail htail
      obtain ⟨f₁, hstop₁, -⟩ :=
        expr_unclosed finish h.opening (hlocal tail htail) (not_closing hcompares htail)
      exact ⟨_, comparison_of_expr finish hstop₁⟩

theorem andThen_inv {α β : Type} {x : Reader α} {f : α → Reader β} {ts : List Token}
    {b : β × List Token} (h : x.andThen f ts = .ok b) :
    ∃ a rest, x ts = .ok (a, rest) ∧ f a rest = .ok b := by
  cases hx : x ts with
  | error e =>
    rw [Reader.andThen_error hx] at h
    cases h
  | ok p =>
    rw [Reader.andThen_ok hx] at h
    exact ⟨p.1, p.2, rfl, h⟩

/-- On the tokens of a nested condition the comparison fails, whatever comes after them. -/
theorem comparison_of_nested {r seg : List Token} {c : Cond} (ht : t.kind = .symbol .lparen)
    (h : nested finish t rest = .ok (c, r)) (hts : rest = seg ++ r) (tail : List Token) :
    (of (comparison finish)).Stops (t :: (seg ++ tail)) := by
  obtain ⟨inner, k, hcond, hclose⟩ := andThen_inv h
  obtain ⟨closing, r', hexpect, hgive⟩ := andThen_inv hclose
  cases hgive
  obtain ⟨hlt, hcond⟩ := gives_iff.mpr hcond
  obtain ⟨w, hw, hinner⟩ := cond_reads finish rest inner k hlt hcond
  obtain ⟨hlt', hexpect⟩ := gives_iff.mpr hexpect
  obtain ⟨_, hk, rfl, -⟩ := expect_reads finish _ _ k closing r hlt' hexpect
  -- what was taken is the condition with the parenthesis after it
  obtain rfl : seg = w ++ [closing] := by
    have hsame : seg ++ r = w ++ [closing] ++ r := by rw [← hts, hw, hk, List.append_assoc]
    exact List.append_cancel_right hsame
  rw [List.append_assoc, List.singleton_append]
  have hstop := stopsAtCompare_of_cond finish hinner (closing :: tail)
  obtain ⟨failure, reached, herror⟩ :=
    comparison_error finish fun e r => no_expr_of_parens finish (e := e) (r := r) ht hstop
  refine ⟨(failure, reached), ?_⟩
  show (comparison finish _).result = _
  rw [herror]
  rfl

/-- A condition that starts with a parenthesis. The comparison is read first, then the nested
condition; when both fail, the cases are how far the expression inside the parenthesis goes. -/
theorem Inside.exact (h : Inside finish t rest) :
    Exact (.cut finish) (DerivesCond .negation) (of (negation finish)) (t :: rest) := by
  cases hcomp : of (comparison finish) (t :: rest) with
  | ok p =>
    have hneg := negation_of_comparison finish (by simp [h.opening]) hcomp
    obtain ⟨seg, hts, hseg, hlocal⟩ := (comparison_exact finish (t :: rest)).ok hcomp
    refine .of_ok hneg ⟨seg, hts, hseg, fun tail htail => ?_⟩
    refine negation_of_comparison finish ?_ (hlocal tail htail)
    rw [head?_of_split hts htail]
    simp [h.opening]
  | error e =>
    obtain ⟨f, r⟩ := e
    cases hnested : nested finish t rest with
    | ok p =>
      have hneg := negation_of_nested finish h.opening hcomp hnested
      obtain ⟨seg, hts, hseg, hlocal⟩ := h.nested_exact.ok hnested
      refine .of_ok hneg ⟨t :: seg, by rw [hts]; rfl, hseg, fun tail htail => ?_⟩
      obtain ⟨e, hstop⟩ := comparison_of_nested h.opening hnested hts tail
      exact negation_of_nested finish h.opening hstop (hlocal tail htail)
    | error e' =>
      obtain ⟨f', r'⟩ := e'
      refine .of_error (negation_of_both finish h.opening hcomp hnested) ?_
      cases hexpr : of (expr finish) rest with
      | error e =>
        cases (comparison_of_expr finish (expr_inside finish h.opening hexpr)).symm.trans hcomp
        rw [h.reports_nested hexpr hnested]
        exact h.offends_inside hexpr hnested
      | ok p =>
        obtain ⟨e, k⟩ := p
        by_cases hk : ∃ u k' op, k = u :: k' ∧ compareOp? u.kind = some op
        · obtain ⟨u, k', op, rfl, hu⟩ := hk
          exact h.offends_compared hexpr hu hcomp hnested
        · refine h.offends_ended hexpr (fun u hu => ?_) hcomp hnested
          obtain ⟨k', rfl⟩ := List.head?_eq_some_iff.mp hu
          cases hop : compareOp? u.kind with
          | none => rfl
          | some op => exact absurd ⟨u, k', op, rfl, hop⟩ hk

theorem close_exact {c : Cond} {ts : List Token} (ht : t.kind = .symbol .lparen)
    (h : DerivesCond .disjunction ts c) (r : List Token) :
    Exact (.hidden finish) (fun seg c' => DerivesCond .negation (t :: (ts ++ seg)) c')
      (close finish t c) r := by
  exact .opened (next_either finish _ []) (fun closing r' _ hc => .give (.parens ht h hc))
    (fun closing _ => never_carries _ [closing])
    ⟨_, _, .parens ht h (sample_kind (.symbol .rparen))⟩

theorem afterFirst_exact {c : Cond} {ts r : List Token} (ht : t.kind = .symbol .lparen)
    (hconj : Exact (.hidden finish) (fun seg c' => DerivesCond .conjunction (ts ++ seg) c')
      (of (conjTail finish c)) r)
    (hcond : ∀ c' seg r', r = seg ++ r' → DerivesCond .conjunction (ts ++ seg) c' →
      Exact (.hidden finish) (fun seg' c'' => DerivesCond .disjunction (ts ++ seg ++ seg') c'')
        (of (condTail finish c')) r') :
    Exact (.hidden finish) (fun seg c' => DerivesCond .negation (t :: (ts ++ seg)) c')
      (afterFirst finish t c) r := by
  have hclosing {ws : List Token} {c' : Cond} (hw : DerivesCond .disjunction ws c') :
      ∃ c'', DerivesCond .negation (t :: (ws ++ [sample (.symbol .rparen)])) c'' :=
    ⟨_, .parens ht hw rfl⟩
  refine .bind hconj (fun c₁ seg₁ r₁ hr₁ hseg₁ _ => ?_) (hidden_carries finish)
    fun seg₁ c₁ hseg₁ => ?_
  · refine .bind (hcond c₁ seg₁ r₁ hr₁ hseg₁) (fun c₂ seg₂ r₂ _ hseg₂ _ => ?_)
      (hidden_carries finish) fun seg₂ c₂ hseg₂ => ?_
    · refine (close_exact ht hseg₂ r₂).mono (fun seg₃ c₃ hc₃ => ?_) (.refl _)
      simpa using hc₃
    · refine ⟨[sample (.symbol .rparen)], ?_⟩
      simpa using hclosing hseg₂
  · refine ⟨[sample (.symbol .rparen)], ?_⟩
    simpa using hclosing (.ofConjunction hseg₁)

end Parens

theorem operands_exact (ts : List Token) :
    Exact (.cut finish) (DerivesCond .negation) (of (comparison finish)) ts :=
  (comparison_exact finish ts).mono (fun _ _ hc => hc) (next_either finish _ [])

mutual

theorem condTail_exact {l : Cond} {ls : List Token} (hl : DerivesCond .disjunction ls l) :
    (ts : List Token) →
    Exact (.hidden finish) (fun seg c => DerivesCond .disjunction (ls ++ seg) c)
      (of (condTail finish l)) ts
  | [] => by
    refine .done (by simpa using hl) fun us hus => condTail_stays finish ?_
    rw [hus]
    exact nofun
  | t :: rest => by
    by_cases hk : t.kind = .symbol .orOr
    · refine .more (conj_exact rest) (condTail_goes finish hk)
        (cut_hidden finish (by rw [hk]; decide)) (hidden_cut finish)
        (fun seg r hseg => .or hl hk hseg) fun r seg rest' hts hseg => ?_
      have : rest'.length ≤ rest.length := by rw [hts]; simp
      exact condTail_exact (.or hl hk hseg) rest'
    · refine .done (by simpa using hl) fun us hus => condTail_stays finish ?_
      rw [hus]
      simpa using hk
termination_by ts => 3 * ts.length
decreasing_by all_goals (simp only [List.length_cons] at *; omega)

theorem conj_exact (ts : List Token) :
    Exact (.cut finish) (DerivesCond .conjunction) (of (conj finish)) ts := by
  rw [conj_eq]
  refine .bind (negation_exact ts) (fun l seg rest hts hseg _ => ?_)
    (hidden_cut finish) fun seg l hseg => ?_
  · have : rest.length ≤ ts.length := by rw [hts]; simp
    exact conjTail_exact (.ofNegation hseg) rest
  · exact ⟨[], l, by simpa using .ofNegation hseg⟩
termination_by 3 * ts.length + 1
decreasing_by all_goals omega

theorem conjTail_exact {l : Cond} {ls : List Token} (hl : DerivesCond .conjunction ls l) :
    (ts : List Token) →
    Exact (.hidden finish) (fun seg c => DerivesCond .conjunction (ls ++ seg) c)
      (of (conjTail finish l)) ts
  | [] => by
    refine .done (by simpa using hl) fun us hus => conjTail_stays finish ?_
    rw [hus]
    exact nofun
  | t :: rest => by
    by_cases hk : t.kind = .symbol .andAnd
    · refine .more (negation_exact rest) (conjTail_goes finish hk)
        (cut_hidden finish (by rw [hk]; decide)) (hidden_cut finish)
        (fun seg r hseg => .and hl hk hseg) fun r seg rest' hts hseg => ?_
      have : rest'.length ≤ rest.length := by rw [hts]; simp
      exact conjTail_exact (.and hl hk hseg) rest'
    · refine .done (by simpa using hl) fun us hus => conjTail_stays finish ?_
      rw [hus]
      simpa using hk
termination_by ts => 3 * ts.length
decreasing_by all_goals (simp only [List.length_cons] at *; omega)

theorem negation_exact : (ts : List Token) →
    Exact (.cut finish) (DerivesCond .negation) (of (negation finish)) ts
  | [] => by
    refine (operands_exact finish []).congr fun us hus => negation_plain finish ?_
    rw [hus]
    exact nofun
  | t :: rest => by
    by_cases hbang : t.kind = .symbol .bang
    · refine .cons ?_ (lead_carries finish (by rw [hbang]; decide)) (negation_goes finish hbang)
      exact (negation_exact rest).map fun hc => .not hbang hc
    · by_cases hparen : t.kind = .symbol .lparen
      · refine Inside.exact ⟨hparen, negation_exact rest, fun c seg r hts hseg => ?_⟩
        have hseglen := congrArg List.length hts
        rw [List.length_append] at hseglen
        refine afterFirst_exact hparen (conjTail_exact (.ofNegation hseg) r) ?_
        intro c' seg' r' hr hc'
        have hlen := congrArg List.length hr
        rw [List.length_append] at hlen
        exact condTail_exact (.ofConjunction hc') r'
      · refine (operands_exact finish (t :: rest)).congr fun us hus => negation_plain finish ?_
        rw [hus]
        simp [hbang, hparen]
termination_by ts => 3 * ts.length
decreasing_by all_goals (simp only [List.length_cons, List.length_append] at *; omega)

end

theorem cond_exact (ts : List Token) :
    Exact (.cut finish) (DerivesCond .disjunction) (of (cond finish)) ts := by
  rw [cond_eq]
  refine .bind (conj_exact finish ts) (fun l seg rest _ hseg _ => ?_)
    (hidden_cut finish) fun seg l hseg => ?_
  · exact condTail_exact finish (.ofConjunction hseg) rest
  · exact ⟨[], l, by simpa using .ofConjunction hseg⟩

end Conditions

end Signum.Parser
