import Signum.Proofs.Syntax.Derivation
/- The parser reads everything that the grammar derives.

   `Gives x a rest` says that the step `x` succeeds with `a` and leaves `rest`. A derivation
   of a sum is read by going through the loop of `expr` one operator at a time, so the
   statement that carries the induction is about the loop: whatever the loop gives once the
   parts of the derivation are taken in, the whole function gives from the start. A function
   reads its derivation only when what comes after cannot extend it; for the operators that is
   a condition on the next token, and for an `if` without `else` it is that no `else` comes
   next. In a header the comparison is tried before the condition in parentheses. On the
   tokens of a condition an expression can only end before an operator of comparison, so
   inside parentheses the closing one is missed and the comparison fails. -/
namespace Signum

/-- The statement ends in an `if` without `else`, to which an `else` after it would belong. -/
def Stmt.isOpen : Stmt → Bool
  | .ite _ _ none _ => true
  | .ite _ _ (some no) _ => no.isOpen
  | .loop _ body _ => body.isOpen
  | _ => false

mutual

/-- Every `else` belongs to the nearest `if` before it that it can belong to. -/
def Stmt.ElseNearest : Stmt → Prop
  | .assign _ _ _ => True
  | .print _ _ => True
  | .block body _ => ElseNearestIn body
  | .ite _ yes none _ => yes.ElseNearest
  | .ite _ yes (some no) _ => yes.isOpen = false ∧ yes.ElseNearest ∧ no.ElseNearest
  | .loop _ body _ => body.ElseNearest

def Item.ElseNearest : Item → Prop
  | .decl _ => True
  | .stmt s => s.ElseNearest

def ElseNearestIn : List Item → Prop
  | [] => True
  | u :: rest => u.ElseNearest ∧ ElseNearestIn rest

end

namespace Parser

open Grammar

/-- The step succeeds with this value and leaves these tokens. -/
def Gives {α : Type} {n : Nat} (x : Step α n) (a : α) (rest : List Token) : Prop :=
  ∃ h, x = .ok a rest h

namespace Gives
variable {α β : Type} {m n : Nat} {a : α} {b : β} {r r' : List Token}

theorem ok (h : r.length < n) : Gives (.ok a r h : Step α n) a r := ⟨h, rfl⟩

theorem unique {x : Step α n} {a' : α} (h : Gives x a r) (h' : Gives x a' r') :
    a = a' ∧ r = r' := by
  obtain ⟨_, hx⟩ := h
  obtain ⟨_, hx'⟩ := h'
  rw [hx] at hx'
  cases hx'
  exact ⟨rfl, rfl⟩

theorem weaken {x : Step α m} (hmn : m ≤ n) (h : Gives x a r) : Gives (x.weaken hmn) a r := by
  obtain ⟨hr, rfl⟩ := h
  exact ⟨_, rfl⟩

theorem bind {x : Step α m} {f : (a : α) → (rest : List Token) → rest.length < m → Step β n}
    (hx : Gives x a r) (hf : ∀ h, Gives (f a r h) b r') : Gives (x.bind f) b r' := by
  obtain ⟨hr, rfl⟩ := hx
  exact hf hr

theorem of_bind {x : Step α m} {f : (a : α) → (rest : List Token) → rest.length < m → Step β n}
    (h : Gives (x.bind f) b r') : ∃ a r h, Gives x a r ∧ Gives (f a r h) b r' := by
  cases x with
  | error failure reached =>
    obtain ⟨_, h⟩ := h
    cases h
  | ok a r hlt => exact ⟨a, r, hlt, ⟨hlt, rfl⟩, h⟩

theorem not_error {failure : Failure} {reached : List Token} :
    ¬Gives (.error failure reached : Step α n) a r := by
  rintro ⟨_, h⟩
  cases h

end Gives

/-- A step that gives nothing stops with a problem. -/
theorem exists_error {α : Type} {n : Nat} {x : Step α n} (h : ∀ a r, ¬Gives x a r) :
    ∃ failure reached, x = .error failure reached := by
  cases x with
  | error failure reached => exact ⟨failure, reached, rfl⟩
  | ok a rest hlt => exact absurd ⟨hlt, rfl⟩ (h a rest)

theorem expect_gives (finish : Point) {kind : TokenKind} (what : Bytes) {t : Token}
    (ht : t.kind = kind) (rest : List Token) :
    Gives (expect finish kind what (t :: rest)) t rest := by
  unfold expect
  dsimp only
  rw [if_pos ht]
  exact .ok _

/-- No operator of a product comes next. -/
def NoProduct (rest : List Token) : Prop := ∀ t ∈ rest.head?, productOp? t.kind = none

/-- No operator of a sum or a product comes next. -/
def NoOperator (rest : List Token) : Prop :=
  ∀ t ∈ rest.head?, sumOp? t.kind = none ∧ productOp? t.kind = none

theorem NoOperator.product {rest : List Token} (h : NoOperator rest) : NoProduct rest :=
  fun t ht => (h t ht).2

theorem noOperator_cons {t : Token} {rest : List Token} (h : sumOp? t.kind = none)
    (h' : productOp? t.kind = none) : NoOperator (t :: rest) := by
  intro u hu
  obtain rfl : t = u := by simpa using hu
  exact ⟨h, h'⟩

/-- An operator of comparison is no other operator. -/
theorem not_arithmetic_of_compare {k : TokenKind} {op : CompareOp} (h : compareOp? k = some op) :
    sumOp? k = none ∧ productOp? k = none := by
  unfold compareOp? at h
  split at h
  all_goals first | exact ⟨rfl, rfl⟩ | cases h

theorem noOperator_of_compare {t : Token} {op : CompareOp} {rest : List Token}
    (h : compareOp? t.kind = some op) : NoOperator (t :: rest) :=
  noOperator_cons (not_arithmetic_of_compare h).1 (not_arithmetic_of_compare h).2

theorem not_product_of_sum {k : TokenKind} {op : BinaryOp} (h : sumOp? k = some op) :
    productOp? k = none := by
  unfold sumOp? at h
  split at h
  all_goals first | rfl | cases h

theorem noProduct_of_sum {t : Token} {op : BinaryOp} {rest : List Token}
    (h : sumOp? t.kind = some op) : NoProduct (t :: rest) := by
  intro u hu
  obtain rfl : t = u := by simpa using hu
  exact not_product_of_sum h

section Parsing
variable (finish : Point)

/-! Expressions. -/

theorem exprTail_done {e : Expr} {rest : List Token} (h : NoOperator rest) :
    Gives (exprTail finish e rest) e rest := by
  cases rest with
  | nil =>
    rw [exprTail]
    exact .ok _
  | cons t rest =>
    rw [exprTail]
    simp only [(h t rfl).1]
    exact .ok _

theorem termTail_done {e : Expr} {rest : List Token} (h : NoProduct rest) :
    Gives (termTail finish e rest) e rest := by
  cases rest with
  | nil =>
    rw [termTail]
    exact .ok _
  | cons t rest =>
    rw [termTail]
    simp only [h t rfl]
    exact .ok _

theorem exprTail_more {e e' : Expr} {t : Token} {op : BinaryOp} {ts rest r : List Token} {a : Expr}
    (ht : sumOp? t.kind = some op) (hterm : Gives (term finish ts) e' rest)
    (h : Gives (exprTail finish (.binary op e e' (e.span.upTo e'.span)) rest) a r) :
    Gives (exprTail finish e (t :: ts)) a r := by
  rw [exprTail]
  simp only [ht]
  exact hterm.bind fun _ => h.weaken _

theorem termTail_more {e e' : Expr} {t : Token} {op : BinaryOp} {ts rest r : List Token} {a : Expr}
    (ht : productOp? t.kind = some op) (hunary : Gives (unary finish ts) e' rest)
    (h : Gives (termTail finish (.binary op e e' (e.span.upTo e'.span)) rest) a r) :
    Gives (termTail finish e (t :: ts)) a r := by
  rw [termTail]
  simp only [ht]
  exact hunary.bind fun _ => h.weaken _

theorem unary_minus {t : Token} {e : Expr} {ts rest : List Token} (ht : t.kind = .symbol .minus)
    (h : Gives (unary finish ts) e rest) :
    Gives (unary finish (t :: ts)) (.neg e (t.span.upTo e.span)) rest := by
  rw [unary, if_pos ht]
  exact h.bind fun _ => .ok _

theorem unary_primary {t : Token} {ts : List Token} (ht : t.kind ≠ .symbol .minus) :
    unary finish (t :: ts) = primary finish (t :: ts) := by
  rw [unary, if_neg ht]

/-- What reading an expression of some tier comes to. -/
def ReadsExpr (k : Tier) (ts : List Token) (e : Expr) : Prop :=
  match k with
  | .sum => ∀ rest a r, NoProduct rest → Gives (exprTail finish e rest) a r →
    Gives (expr finish (ts ++ rest)) a r
  | .product => ∀ rest a r, Gives (termTail finish e rest) a r →
    Gives (term finish (ts ++ rest)) a r
  | .signed => ∀ rest, Gives (unary finish (ts ++ rest)) e rest
  | .primary => (∃ t us, ts = t :: us ∧ t.kind ≠ .symbol .minus) ∧
    ∀ rest, Gives (primary finish (ts ++ rest)) e rest

theorem expr_complete {k : Tier} {ts : List Token} {e : Expr} (h : DerivesExpr k ts e) :
    ReadsExpr finish k ts e := by
  induction h with
  | @ofProduct ts e _ ih =>
    intro rest a r hrest hg
    rw [expr]
    exact (ih rest e rest (termTail_done finish hrest)).bind fun _ => hg.weaken _
  | @sum ls rs t op l r _ ht _ ihl ihr =>
    intro rest a q hrest hg
    rw [List.append_assoc, List.cons_append]
    -- the loop stands before the operator once the left side is read
    refine ihl _ a q (noProduct_of_sum ht) (exprTail_more finish ht ?_ hg)
    exact ihr rest r rest (termTail_done finish hrest)
  | @ofSigned ts e _ ih =>
    intro rest a r hg
    rw [term]
    exact (ih rest).bind fun _ => hg.weaken _
  | @product ls rs t op l r _ ht _ ihl ihr =>
    intro rest a q hg
    rw [List.append_assoc, List.cons_append]
    exact ihl _ a q (termTail_more finish ht (ihr rest) hg)
  | @ofPrimary ts e _ ih =>
    intro rest
    obtain ⟨⟨t, us, rfl, ht⟩, hp⟩ := ih
    rw [List.cons_append, unary_primary finish ht]
    exact hp rest
  | minus ht _ ih =>
    intro rest
    exact unary_minus finish ht (ih rest)
  | int ht hv | float ht hv =>
    refine ⟨⟨_, _, rfl, by simp [ht]⟩, fun rest => ?_⟩
    rw [List.singleton_append, primary]
    simp only [ht, hv]
    exact .ok _
  | var ht | readInt ht | readFloat ht =>
    refine ⟨⟨_, _, rfl, by simp [ht]⟩, fun rest => ?_⟩
    rw [List.singleton_append, primary]
    simp only [ht]
    exact .ok _
  | @parens opening closing ts e ho _ hc ih =>
    refine ⟨⟨_, _, rfl, by simp [ho]⟩, fun rest => ?_⟩
    rw [List.cons_append, List.append_assoc, List.singleton_append, primary]
    simp only [ho]
    have hstop : NoOperator (closing :: rest) :=
      noOperator_cons (by simp [hc, sumOp?]) (by simp [hc, productOp?])
    have hinner := ih _ e _ hstop.product (exprTail_done finish hstop)
    exact hinner.bind fun _ => (expect_gives finish _ hc rest).bind fun _ => .ok _

/-- A sum is read up to what cannot extend it. -/
theorem expr_gives {ts rest : List Token} {e : Expr} (h : DerivesExpr .sum ts e)
    (hrest : NoOperator rest) : Gives (expr finish (ts ++ rest)) e rest :=
  expr_complete finish h rest e rest hrest.product (exprTail_done finish hrest)

/-- No expression starts with a negation. -/
theorem expr_head {k : Tier} {ts : List Token} {e : Expr} (h : DerivesExpr k ts e) :
    ∃ t us, ts = t :: us ∧ t.kind ≠ .symbol .bang := by
  induction h with
  | ofProduct _ ih | ofSigned _ ih | ofPrimary _ ih => exact ih
  | sum _ _ _ ihl _ | product _ _ _ ihl _ =>
    obtain ⟨t, us, rfl, ht⟩ := ihl
    exact ⟨t, _, List.cons_append, ht⟩
  | minus ht _ _ | int ht _ | float ht _ | var ht | readInt ht | readFloat ht | parens ht _ _ _ =>
    exact ⟨_, _, rfl, by simp [ht]⟩

/-! Conditions. -/

/-- An expression read from the front of these tokens ends before a comparison. -/
def StopsAtCompare (ts : List Token) : Prop :=
  ∀ e r, Gives (expr finish ts) e r → ∃ t r', r = t :: r' ∧ (compareOp? t.kind).isSome

/-- When an expression is read, so is a first primary, unless there is a sign. -/
theorem primary_of_expr {t : Token} {ts r : List Token} {e : Expr}
    (h : Gives (expr finish (t :: ts)) e r) (ht : t.kind ≠ .symbol .minus) :
    ∃ e' r', Gives (primary finish (t :: ts)) e' r' := by
  rw [expr] at h
  obtain ⟨_, _, _, hterm, -⟩ := h.of_bind
  rw [term] at hterm
  obtain ⟨e', r', _, hunary, -⟩ := hterm.of_bind
  rw [unary_primary finish ht] at hunary
  exact ⟨e', r', hunary⟩

theorem no_expr_of_bang {t : Token} {ts r : List Token} {e : Expr} (ht : t.kind = .symbol .bang) :
    ¬Gives (expr finish (t :: ts)) e r := by
  intro h
  obtain ⟨e', r', hp⟩ := primary_of_expr finish h (by simp [ht])
  rw [primary] at hp
  simp only [ht] at hp
  exact Gives.not_error hp

/-- What stands in parentheses and ends before a comparison is no operand. -/
theorem no_expr_of_parens {t : Token} {ts r : List Token} {e : Expr}
    (ht : t.kind = .symbol .lparen) (hts : StopsAtCompare finish ts) :
    ¬Gives (expr finish (t :: ts)) e r := by
  intro h
  obtain ⟨e', r', hp⟩ := primary_of_expr finish h (by simp [ht])
  rw [primary] at hp
  simp only [ht] at hp
  obtain ⟨inner, r₁, _, hinner, hrest⟩ := hp.of_bind
  obtain ⟨closing, r₂, _, hclosing, -⟩ := hrest.of_bind
  obtain ⟨u, r', rfl, hu⟩ := hts inner r₁ hinner
  unfold expect at hclosing
  dsimp only at hclosing
  split at hclosing
  · next hk =>
    rw [hk] at hu
    cases hu
  · exact Gives.not_error hclosing

theorem stopsAtCompare_of_cond {k : CondTier} {ts : List Token} {c : Cond}
    (h : DerivesCond k ts c) (rest : List Token) : StopsAtCompare finish (ts ++ rest) := by
  induction h generalizing rest with
  | ofConjunction _ ih | ofNegation _ ih => exact ih rest
  | or _ _ _ ihl _ | and _ _ _ ihl _ =>
    rw [List.append_assoc]
    exact ihl _
  | not ht _ _ =>
    intro e r h
    exact absurd h (no_expr_of_bang finish ht)
  | @compare ls rs t op l r hl ht _ =>
    intro e q h
    rw [List.append_assoc, List.cons_append] at h
    have hnext : NoOperator (t :: (rs ++ rest)) := noOperator_of_compare ht
    have hg := expr_gives finish hl hnext
    obtain ⟨-, rfl⟩ := h.unique hg
    exact ⟨t, _, rfl, by simp [ht]⟩
  | @parens opening closing ts c ho _ _ ih =>
    intro e r h
    rw [List.cons_append, List.append_assoc] at h
    exact absurd h (no_expr_of_parens finish ho (ih _))

theorem comparison_gives {ls rs rest : List Token} {t : Token} {op : CompareOp} {l r : Expr}
    (hl : DerivesExpr .sum ls l) (ht : compareOp? t.kind = some op) (hr : DerivesExpr .sum rs r)
    (hrest : NoOperator rest) :
    Gives (comparison finish (ls ++ t :: (rs ++ rest)))
      (.compare op l r (l.span.upTo r.span)) rest := by
  unfold comparison
  refine (expr_gives finish hl (noOperator_of_compare ht)).bind fun _ => ?_
  dsimp only
  simp only [ht]
  exact (expr_gives finish hr hrest).bind fun _ => .ok _

/-- The comparison fails on what is no operand. -/
theorem comparison_error {ts : List Token} (h : ∀ e r, ¬Gives (expr finish ts) e r) :
    ∃ failure reached, comparison finish ts = .error failure reached := by
  refine exists_error fun c r hc => ?_
  unfold comparison at hc
  obtain ⟨e, r', _, he, -⟩ := hc.of_bind
  exact h e r' he

theorem negation_bang {t : Token} {ts rest : List Token} {c : Cond} (ht : t.kind = .symbol .bang)
    (h : Gives (negation finish ts) c rest) :
    Gives (negation finish (t :: ts)) (.not c (t.span.upTo c.span)) rest := by
  rw [negation, if_pos ht]
  exact h.bind fun _ => .ok _

theorem negation_comparison {t : Token} {ts rest : List Token} {c : Cond}
    (ht : t.kind ≠ .symbol .bang) (h : Gives (comparison finish (t :: ts)) c rest) :
    Gives (negation finish (t :: ts)) c rest := by
  obtain ⟨_, hc⟩ := h
  rw [negation, if_neg ht, hc]
  exact .ok _

theorem negation_parens {t closing : Token} {ts rest : List Token} {c : Cond}
    (ht : t.kind = .symbol .lparen) (hc : closing.kind = .symbol .rparen)
    (hstop : StopsAtCompare finish ts) (h : Gives (cond finish ts) c (closing :: rest)) :
    Gives (negation finish (t :: ts)) (c.withSpan (t.span.upTo closing.span)) rest := by
  obtain ⟨failure, reached, herr⟩ :=
    comparison_error finish fun e r => no_expr_of_parens finish (e := e) (r := r) ht hstop
  rw [negation, if_neg (by simp [ht]), herr]
  simp only [ht, ne_eq, not_true_eq_false, if_false]
  obtain ⟨_, hcond⟩ := h
  obtain ⟨_, hclosing⟩ := expect_gives finish "after condition" hc rest
  simp only [hcond, Step.bind, hclosing]
  exact .ok _

theorem condTail_done {c : Cond} {rest : List Token}
    (h : ∀ t ∈ rest.head?, t.kind ≠ .symbol .orOr) : Gives (condTail finish c rest) c rest := by
  cases rest with
  | nil =>
    rw [condTail]
    exact .ok _
  | cons t rest =>
    rw [condTail, if_neg (h t rfl)]
    exact .ok _

theorem conjTail_done {c : Cond} {rest : List Token}
    (h : ∀ t ∈ rest.head?, t.kind ≠ .symbol .andAnd) : Gives (conjTail finish c rest) c rest := by
  cases rest with
  | nil =>
    rw [conjTail]
    exact .ok _
  | cons t rest =>
    rw [conjTail, if_neg (h t rfl)]
    exact .ok _

theorem condTail_more {c c' a : Cond} {t : Token} {ts rest r : List Token}
    (ht : t.kind = .symbol .orOr) (hconj : Gives (conj finish ts) c' rest)
    (h : Gives (condTail finish (.logical .or c c' (c.span.upTo c'.span)) rest) a r) :
    Gives (condTail finish c (t :: ts)) a r := by
  rw [condTail, if_pos ht]
  exact hconj.bind fun _ => h.weaken _

theorem conjTail_more {c c' a : Cond} {t : Token} {ts rest r : List Token}
    (ht : t.kind = .symbol .andAnd) (hneg : Gives (negation finish ts) c' rest)
    (h : Gives (conjTail finish (.logical .and c c' (c.span.upTo c'.span)) rest) a r) :
    Gives (conjTail finish c (t :: ts)) a r := by
  rw [conjTail, if_pos ht]
  exact hneg.bind fun _ => h.weaken _

/-- No operator of an expression and no conjunction goes on here. -/
def NoConjunct (rest : List Token) : Prop :=
  NoOperator rest ∧ ∀ t ∈ rest.head?, t.kind ≠ .symbol .andAnd

theorem noConjunct_cons {t : Token} {rest : List Token} (h : NoOperator (t :: rest))
    (ht : t.kind ≠ .symbol .andAnd) : NoConjunct (t :: rest) := by
  refine ⟨h, fun u hu => ?_⟩
  obtain rfl : t = u := by simpa using hu
  exact ht

/-- What reading a condition of some tier comes to. -/
def ReadsCond (k : CondTier) (ts : List Token) (c : Cond) : Prop :=
  match k with
  | .disjunction => ∀ rest a r, NoConjunct rest → Gives (condTail finish c rest) a r →
    Gives (cond finish (ts ++ rest)) a r
  | .conjunction => ∀ rest a r, NoOperator rest → Gives (conjTail finish c rest) a r →
    Gives (conj finish (ts ++ rest)) a r
  | .negation => ∀ rest, NoOperator rest → Gives (negation finish (ts ++ rest)) c rest

theorem cond_complete {k : CondTier} {ts : List Token} {c : Cond} (h : DerivesCond k ts c) :
    ReadsCond finish k ts c := by
  induction h with
  | @ofConjunction ts c _ ih =>
    intro rest a r hrest hg
    rw [cond]
    exact (ih rest c rest hrest.1 (conjTail_done finish hrest.2)).bind fun _ => hg.weaken _
  | @or ls rs t l r _ ht _ ihl ihr =>
    intro rest a q hrest hg
    rw [List.append_assoc, List.cons_append]
    have hop : NoOperator (t :: (rs ++ rest)) :=
      noOperator_cons (by simp [ht, sumOp?]) (by simp [ht, productOp?])
    refine ihl _ a q (noConjunct_cons hop (by simp [ht])) (condTail_more finish ht ?_ hg)
    exact ihr rest r rest hrest.1 (conjTail_done finish hrest.2)
  | @ofNegation ts c _ ih =>
    intro rest a r hrest hg
    rw [conj]
    exact (ih rest hrest).bind fun _ => hg.weaken _
  | @and ls rs t l r _ ht _ ihl ihr =>
    intro rest a q hrest hg
    rw [List.append_assoc, List.cons_append]
    have hop : NoOperator (t :: (rs ++ rest)) :=
      noOperator_cons (by simp [ht, sumOp?]) (by simp [ht, productOp?])
    exact ihl _ a q hop (conjTail_more finish ht (ihr rest hrest) hg)
  | not ht _ ih =>
    intro rest hrest
    exact negation_bang finish ht (ih rest hrest)
  | @compare ls rs t op l r hl ht hr =>
    intro rest hrest
    have hg := comparison_gives finish hl ht hr hrest
    obtain ⟨u, us, rfl, hu⟩ := expr_head hl
    rw [List.append_assoc, List.cons_append]
    exact negation_comparison finish hu hg
  | @parens opening closing ts c ho hc hcl ih =>
    intro rest _
    rw [List.cons_append, List.append_assoc, List.singleton_append]
    have hop : NoOperator (closing :: rest) :=
      noOperator_cons (by simp [hcl, sumOp?]) (by simp [hcl, productOp?])
    refine negation_parens finish ho hcl (stopsAtCompare_of_cond finish hc _) ?_
    refine ih _ c _ (noConjunct_cons hop (by simp [hcl])) (condTail_done finish ?_)
    intro u hu
    obtain rfl : closing = u := by simpa using hu
    simp [hcl]

theorem header_gives {what : Bytes} {ts : List Token} {c : Cond} (h : DerivesHeader ts c)
    (rest : List Token) : Gives (header finish what (ts ++ rest)) c rest := by
  obtain ⟨ho, hc, hcl⟩ := h
  next opening closing ts =>
  have hop : NoOperator (closing :: rest) :=
    noOperator_cons (by simp [hcl, sumOp?]) (by simp [hcl, productOp?])
  have hcond := cond_complete finish hc _ c _ (noConjunct_cons hop (by simp [hcl]))
    (condTail_done finish (by simp [hcl]))
  rw [List.cons_append, List.append_assoc, List.singleton_append]
  unfold header
  refine (expect_gives finish _ ho _).bind fun _ => hcond.bind fun _ => ?_
  exact (expect_gives finish _ hcl rest).bind fun _ => .ok _

/-! Units. -/

theorem decl_gives {ts : List Token} {d : Decl} (h : DerivesDecl ts d) :
    ∃ t us, ts = t :: us ∧ Grammar.typeOf? t.kind = some d.type ∧
      ∀ rest, Gives (decl finish d.type t (us ++ rest)) d rest := by
  cases h with
  | @plain t name semi type ht hn hs =>
    refine ⟨t, _, rfl, ht, fun rest => ?_⟩
    unfold decl
    refine (expect_gives finish _ hn (semi :: rest)).bind fun _ => ?_
    dsimp only
    rw [if_neg (by simp [hs])]
    exact (expect_gives finish _ hs rest).bind fun _ => .ok _
  | @init t name assign semi ts type e ht hn ha he hs =>
    refine ⟨t, _, rfl, ht, fun rest => ?_⟩
    have hop : NoOperator (semi :: rest) :=
      noOperator_cons (by simp [hs, sumOp?]) (by simp [hs, productOp?])
    rw [List.cons_append, List.cons_append, List.append_assoc, List.singleton_append]
    unfold decl
    refine (expect_gives finish _ hn _).bind fun _ => ?_
    dsimp only
    rw [if_pos ha]
    refine (expr_gives finish he hop).bind fun _ => ?_
    exact (expect_gives finish _ hs rest).bind fun _ => .ok _

/-- A statement starts with a token that starts no declaration and ends no block. -/
theorem stmt_head {ts : List Token} {s : Stmt} (h : DerivesStmt ts s) :
    ∃ t us, ts = t :: us ∧ Grammar.typeOf? t.kind = none ∧ t.kind ≠ .keyword .elseWord ∧
      t.kind ≠ .symbol .rbrace := by
  cases h with
  | assign ht _ _ _ | print ht _ _ | block ht _ _ | ite ht _ _ | iteElse ht _ _ _ _
  | loop ht _ _ => exact ⟨_, _, rfl, by simp [ht, Grammar.typeOf?], by simp [ht], by simp [ht]⟩

/-- No `else` comes next. -/
def NoElse (rest : List Token) : Prop := ∀ t ∈ rest.head?, t.kind ≠ .keyword .elseWord

theorem item_head {ts : List Token} {u : Item} (h : DerivesItem ts u) :
    ∃ t us, ts = t :: us ∧ t.kind ≠ .keyword .elseWord ∧ t.kind ≠ .symbol .rbrace := by
  cases h with
  | decl hd =>
    obtain ⟨t, us, rfl, ht, -⟩ := decl_gives ⟨0, 0⟩ hd
    refine ⟨t, us, rfl, fun hk => ?_, fun hk => ?_⟩
    · rw [hk] at ht
      cases ht
    · rw [hk] at ht
      cases ht
  | stmt hs =>
    obtain ⟨t, us, rfl, -, ht⟩ := stmt_head hs
    exact ⟨t, us, rfl, ht⟩

/-- Units never start with an `else`, so what comes before them may be open. -/
theorem items_noElse {ts rest : List Token} {us : List Item} (h : DerivesItems ts us)
    (hrest : NoElse rest) : NoElse (ts ++ rest) := by
  cases h with
  | nil => exact hrest
  | cons hu _ =>
    obtain ⟨t, us, rfl, ht, -⟩ := item_head hu
    intro u hu
    obtain rfl : t = u := by simpa using hu
    exact ht

theorem item_decl {t : Token} {ts rest : List Token} {d : Decl}
    (ht : Grammar.typeOf? t.kind = some d.type) (h : Gives (decl finish d.type t ts) d rest) :
    Gives (item finish (t :: ts)) (.decl d) rest := by
  unfold Grammar.typeOf? at ht
  split at ht
  · next hk =>
    have ht : NumType.int = d.type := by simpa using ht
    rw [item]
    simp only [hk, ht]
    exact h.bind fun _ => .ok _
  · next hk =>
    have ht : NumType.float = d.type := by simpa using ht
    rw [item]
    simp only [hk, ht]
    exact h.bind fun _ => .ok _
  · cases ht

theorem item_stmt {t : Token} {ts rest : List Token} {s : Stmt}
    (ht : Grammar.typeOf? t.kind = none) (h : Gives (stmt finish (t :: ts)) s rest) :
    Gives (item finish (t :: ts)) (.stmt s) rest := by
  rw [item]
  split
  · next hk =>
    rw [hk] at ht
    cases ht
  · next hk =>
    rw [hk] at ht
    cases ht
  · exact h.bind fun _ => .ok _

theorem noOperator_of_symbol {t : Token} {s : Symbol} {rest : List Token}
    (ht : t.kind = .symbol s) (h : sumOp? (.symbol s) = none) (h' : productOp? (.symbol s) = none) :
    NoOperator (t :: rest) :=
  noOperator_cons (by rw [ht, h]) (by rw [ht, h'])

mutual

/-- A statement is read up to what cannot extend it. -/
theorem stmt_gives : {ts : List Token} → {s : Stmt} → DerivesStmt ts s → s.ElseNearest →
    ∀ rest, (s.isOpen = true → NoElse rest) → Gives (stmt finish (ts ++ rest)) s rest
  | _, _, .assign ht ha he hs, _, rest, _ => by
    rw [List.cons_append, List.cons_append, List.append_assoc, List.singleton_append, stmt]
    simp only [ht]
    refine (expect_gives finish _ ha _).bind fun _ => ?_
    refine (expr_gives finish he (noOperator_of_symbol hs rfl rfl)).bind fun _ => ?_
    exact (expect_gives finish _ hs rest).bind fun _ => .ok _
  | _, _, .print ht he hs, _, rest, _ => by
    rw [List.cons_append, List.append_assoc, List.singleton_append, stmt]
    simp only [ht]
    refine (expr_gives finish he (noOperator_of_symbol hs rfl rfl)).bind fun _ => ?_
    exact (expect_gives finish _ hs rest).bind fun _ => .ok _
  | _, _, .block ho hitems hc, hn, rest, _ => by
    rw [List.cons_append, List.append_assoc, List.singleton_append, stmt]
    simp only [ho]
    refine (blockItems_gives hitems (by simpa only [Stmt.ElseNearest] using hn) hc rest).bind
      fun _ => ?_
    exact .ok _
  | _, _, .ite ht hc hyes, hn, rest, hrest => by
    have hno : NoElse rest := hrest rfl
    rw [List.cons_append, List.append_assoc, stmt]
    simp only [ht]
    refine (header_gives finish hc _).bind fun _ => ?_
    refine (stmt_gives hyes (by simpa only [Stmt.ElseNearest] using hn) rest fun _ => hno).bind
      fun _ => ?_
    cases rest with
    | nil => exact .ok _
    | cons u rest =>
      dsimp only
      rw [if_neg (hno u rfl)]
      exact .ok _
  | _, _, .iteElse ht hc hyes hu hno, hn, rest, hrest => by
    obtain ⟨hclosed, hy, hn⟩ : _ ∧ _ ∧ _ := by simpa only [Stmt.ElseNearest] using hn
    rw [List.cons_append, List.append_assoc, List.append_assoc, List.cons_append, stmt]
    simp only [ht]
    refine (header_gives finish hc _).bind fun _ => ?_
    -- the branch is closed, so the `else` that follows it is not taken for its own
    refine (stmt_gives hyes hy _ (by simp [hclosed])).bind fun _ => ?_
    dsimp only
    rw [if_pos hu]
    refine (stmt_gives hno hn rest ?_).bind fun _ => .ok _
    simpa only [Stmt.isOpen] using hrest
  | _, _, .loop ht hc hbody, hn, rest, hrest => by
    rw [List.cons_append, List.append_assoc, stmt]
    simp only [ht]
    refine (header_gives finish hc _).bind fun _ => ?_
    refine (stmt_gives hbody (by simpa only [Stmt.ElseNearest] using hn) rest ?_).bind
      fun _ => .ok _
    simpa only [Stmt.isOpen] using hrest

theorem item_gives : {ts : List Token} → {u : Item} → DerivesItem ts u → u.ElseNearest →
    ∀ rest, NoElse rest → Gives (item finish (ts ++ rest)) u rest
  | _, _, .decl hd, _, rest, _ => by
    obtain ⟨t, us, rfl, ht, hg⟩ := decl_gives finish hd
    exact item_decl finish ht (hg rest)
  | _, _, .stmt hs, hn, rest, hrest => by
    have hg := stmt_gives hs (by simpa only [Item.ElseNearest] using hn) rest fun _ => hrest
    obtain ⟨t, us, rfl, ht, -⟩ := stmt_head hs
    exact item_stmt finish ht hg

theorem blockItems_gives : {ts : List Token} → {us : List Item} → DerivesItems ts us →
    ElseNearestIn us → {closing : Token} → closing.kind = .symbol .rbrace → ∀ rest,
    Gives (blockItems finish (ts ++ closing :: rest)) (us, closing) rest
  | _, _, .nil, _, closing, hc, rest => by
    rw [List.nil_append, blockItems, if_pos hc]
    exact .ok _
  | _, _, .cons hu hus, hn, closing, hc, rest => by
    obtain ⟨hnu, hns⟩ : _ ∧ _ := by simpa only [ElseNearestIn] using hn
    have hclose : NoElse (closing :: rest) := by
      intro t ht
      obtain rfl : closing = t := by simpa using ht
      simp [hc]
    have hg := item_gives hu hnu _ (items_noElse hus hclose)
    obtain ⟨t, vs, rfl, -, ht⟩ := item_head hu
    rw [List.append_assoc, List.cons_append, blockItems, if_neg ht]
    exact hg.bind fun _ => (blockItems_gives hus hns hc rest).bind fun _ => .ok _

end

/-- The units of a program are read to the end of its tokens. -/
theorem items_gives {ts : List Token} {us : List Item} (h : DerivesItems ts us)
    (hn : ElseNearestIn us) : items finish ts = .ok us := by
  cases h with
  | nil => rw [items]
  | cons hu hus =>
    obtain ⟨hnu, hns⟩ : _ ∧ _ := by simpa only [ElseNearestIn] using hn
    have hempty : NoElse [] := by simp [NoElse]
    have hend := items_noElse hus hempty
    rw [List.append_nil] at hend
    have hg := item_gives finish hu hnu _ hend
    obtain ⟨t, vs, rfl, -, ht⟩ := item_head hu
    rw [List.cons_append] at hg ⊢
    obtain ⟨_, hg⟩ := hg
    rw [items, hg]
    dsimp only
    rw [items_gives hus hns]
    rfl

end Parsing
end Parser
end Signum
