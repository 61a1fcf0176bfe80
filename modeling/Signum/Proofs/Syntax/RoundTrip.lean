import Signum.Proofs.Syntax.Canonical
import Signum.Proofs.Syntax.Comments
import Signum.Proofs.Syntax.Unambiguous
/- Formatting is undone by parsing.

   Tokens with the words of a tree are derived from the grammar with that tree, up to places:
   the parentheses of the text stand just where the grammar needs them, since a part whose
   precedence is at least that of a tier is derived from the tier. An `else` stays with its
   `if`, because in a parsed tree it belongs to the nearest one. Comment lines give back the
   documentation they were made from, up to empty lines at its end. -/
namespace Signum

open Signum.Grammar Signum.Parser

/-! Tokens with the words of a tree. -/

theorem split_cons {ts : List Token} {w : Lexeme} {ws : List Lexeme}
    (h : ts.map Token.lexeme = w :: ws) :
    ∃ t us, ts = t :: us ∧ t.kind = w.1 ∧ t.text = w.2 ∧ us.map Token.lexeme = ws := by
  obtain ⟨t, us, rfl, hw, hus⟩ := List.map_eq_cons_iff.mp h
  subst hw
  exact ⟨t, us, rfl, rfl, rfl, hus⟩

theorem split_single {ts : List Token} {w : Lexeme} (h : ts.map Token.lexeme = [w]) :
    ∃ t, ts = [t] ∧ t.kind = w.1 ∧ t.text = w.2 := by
  obtain ⟨t, us, rfl, hk, ht, hus⟩ := split_cons h
  obtain rfl : us = [] := List.map_eq_nil_iff.mp hus
  exact ⟨t, rfl, hk, ht⟩

/-- How far a tier is from a sum. -/
def Grammar.Tier.rank : Tier → Nat
  | .sum => 1
  | .product => 2
  | .signed => 3
  | .primary => 4

/-- What is derived from a tier is derived from those before it. -/
theorem Grammar.DerivesExpr.widen {k k' : Tier} {ts : List Token} {e : Expr}
    (h : DerivesExpr k ts e) (hk : k'.rank ≤ k.rank) : DerivesExpr k' ts e := by
  cases k <;> cases k' <;> first
    | exact h
    | exact .ofPrimary h
    | exact .ofSigned h
    | exact .ofProduct h
    | exact .ofSigned (.ofPrimary h)
    | exact .ofProduct (.ofSigned h)
    | exact .ofProduct (.ofSigned (.ofPrimary h))
    | exact absurd hk (by decide)

/-- The tier an expression is derived from without parentheses. -/
def Expr.tier : Expr → Tier
  | .binary .add _ _ _ | .binary .sub _ _ _ => .sum
  | .binary .mul _ _ _ | .binary .div _ _ _ => .product
  | .neg _ _ => .signed
  | _ => .primary

theorem Expr.rank_tier (e : Expr) : e.tier.rank = e.precedence := by
  cases e with
  | binary op l r s => cases op <;> rfl
  | _ => rfl

/-- A part that stands without parentheses is derived from the tier it stands for. -/
theorem Expr.rank_le {e : Expr} {k : Tier} {p : Nat} (hp : k.rank = p)
    (h : decide (e.precedence < p) = false) : k.rank ≤ e.tier.rank := by
  have hle : ¬e.precedence < p := of_decide_eq_false h
  rw [e.rank_tier]
  omega

theorem Expr.rank_le_of_le {e : Expr} {k : Tier} {p : Nat} (hp : k.rank = p + 1)
    (h : decide (e.precedence ≤ p) = false) : k.rank ≤ e.tier.rank := by
  have hle : ¬e.precedence ≤ p := of_decide_eq_false h
  rw [e.rank_tier]
  omega

/-- Tokens with these words are derived from the tier with the expression, up to places. -/
def ExprReads (k : Tier) (words : List Lexeme) (e : Expr) : Prop :=
  ∀ ts : List Token, ts.map Token.lexeme = words →
    ∃ e', DerivesExpr k ts e' ∧ e'.erase = e.erase

theorem ExprReads.wrap {k : Tier} {words : List Lexeme} {e : Expr} (h : ExprReads k words e)
    (k' : Tier) (paren : Bool) (hk : paren = false → k'.rank ≤ k.rank) :
    ExprReads k' (wrapWords paren words) e := by
  intro ts hts
  cases paren with
  | false =>
    obtain ⟨e', he', herase⟩ := h ts hts
    exact ⟨e', he'.widen (hk rfl), herase⟩
  | true =>
    obtain ⟨opening, us, rfl, ho, -, hus⟩ := split_cons hts
    obtain ⟨vs, cs, rfl, hvs, hcs⟩ := List.map_eq_append_iff.mp hus
    obtain ⟨closing, rfl, hc, -⟩ := split_single hcs
    obtain ⟨e', he', herase⟩ := h vs hvs
    have hsum : DerivesExpr .sum vs e' := he'.widen (by cases k <;> decide)
    have hrank : k'.rank ≤ Tier.primary.rank := by cases k' <;> decide
    exact ⟨e', (DerivesExpr.parens ho hsum hc).widen hrank, herase⟩

theorem Expr.reads (e : Expr) (h : e.Written) : ExprReads e.tier e.words e := by
  induction e with
  | int v s =>
    intro ts hts
    obtain ⟨t, rfl, hk, ht⟩ := split_single hts
    have hv : readInt64? t.text = some v := by
      rw [ht]
      exact (readInt64?_ofInt h).2
    exact ⟨.int v t.span, .int hk hv, rfl⟩
  | float v text s =>
    intro ts hts
    obtain ⟨t, rfl, hk, ht⟩ := split_single hts
    have hv : Binary64.read? t.text = some v := by
      rw [ht]
      exact h.2
    refine ⟨.float v t.text t.span, .float hk hv, ?_⟩
    rw [ht]
    rfl
  | var name s =>
    intro ts hts
    obtain ⟨t, rfl, hk, ht⟩ := split_single hts
    refine ⟨.var t.text t.span, .var hk, ?_⟩
    rw [ht]
    rfl
  | readInt s =>
    intro ts hts
    obtain ⟨t, rfl, hk, -⟩ := split_single hts
    exact ⟨.readInt t.span, .readInt hk, rfl⟩
  | readFloat s =>
    intro ts hts
    obtain ⟨t, rfl, hk, -⟩ := split_single hts
    exact ⟨.readFloat t.span, .readFloat hk, rfl⟩
  | neg e s ih =>
    intro ts hts
    obtain ⟨t, us, rfl, hk, -, hus⟩ := split_cons hts
    have hoperand := (ih h).wrap .signed (e.precedence < 3) (e.rank_le rfl)
    obtain ⟨e', he', herase⟩ := hoperand us hus
    exact ⟨.neg e' (t.span.upTo e'.span), .minus hk he', by simp only [erase, herase]⟩
  | binary op l r s ihl ihr =>
    intro ts hts
    obtain ⟨ls, us, rfl, hls, hus⟩ := List.map_eq_append_iff.mp hts
    obtain ⟨t, rs, rfl, hk, -, hrs⟩ := split_cons hus
    have hk : t.kind = .symbol op.token := hk
    -- the left operand stands for the tier of the operator, the right one for the next
    cases op with
    | add | sub =>
      obtain ⟨l', hl', hle⟩ := (ihl h.1).wrap .sum _ (rank_le rfl) ls hls
      obtain ⟨r', hr', hre⟩ := (ihr h.2).wrap .product _ (rank_le_of_le rfl) rs hrs
      refine ⟨_, .sum hl' (by rw [hk]; rfl) hr', ?_⟩
      simp only [erase, hle, hre]
    | mul | div =>
      obtain ⟨l', hl', hle⟩ := (ihl h.1).wrap .product _ (rank_le rfl) ls hls
      obtain ⟨r', hr', hre⟩ := (ihr h.2).wrap .signed _ (rank_le_of_le rfl) rs hrs
      refine ⟨_, .product hl' (by rw [hk]; rfl) hr', ?_⟩
      simp only [erase, hle, hre]

/-- How far a tier is from a disjunction. -/
def Grammar.CondTier.rank : CondTier → Nat
  | .disjunction => 1
  | .conjunction => 2
  | .negation => 3

theorem Grammar.DerivesCond.widen {k k' : CondTier} {ts : List Token} {c : Cond}
    (h : DerivesCond k ts c) (hk : k'.rank ≤ k.rank) : DerivesCond k' ts c := by
  cases k <;> cases k' <;> first
    | exact h
    | exact .ofNegation h
    | exact .ofConjunction h
    | exact .ofConjunction (.ofNegation h)
    | exact absurd hk (by decide)

/-- The tier a condition is derived from without parentheses. -/
def Cond.tier : Cond → CondTier
  | .logical .or _ _ _ => .disjunction
  | .logical .and _ _ _ => .conjunction
  | .not _ _ | .compare _ _ _ _ => .negation

theorem Cond.rank_tier (c : Cond) : min c.precedence 3 = c.tier.rank := by
  cases c with
  | logical op l r s => cases op <;> rfl
  | _ => rfl

theorem Cond.rank_le {c : Cond} {k : CondTier} {p : Nat} (hp : k.rank = p)
    (h : decide (c.precedence < p) = false) : k.rank ≤ c.tier.rank := by
  have hle : ¬c.precedence < p := of_decide_eq_false h
  have hmax : k.rank ≤ 3 := by cases k <;> decide
  rw [← c.rank_tier]
  omega

theorem Cond.rank_le_of_le {c : Cond} {k : CondTier} {p : Nat} (hp : k.rank = p + 1)
    (h : decide (c.precedence ≤ p) = false) : k.rank ≤ c.tier.rank := by
  have hle : ¬c.precedence ≤ p := of_decide_eq_false h
  have hmax : k.rank ≤ 3 := by cases k <;> decide
  rw [← c.rank_tier]
  omega

/-- Tokens with these words are derived from the tier with the condition, up to places. -/
def CondReads (k : CondTier) (words : List Lexeme) (c : Cond) : Prop :=
  ∀ ts : List Token, ts.map Token.lexeme = words →
    ∃ c', DerivesCond k ts c' ∧ c'.erase = c.erase

theorem CondReads.wrap {k : CondTier} {words : List Lexeme} {c : Cond} (h : CondReads k words c)
    (k' : CondTier) (paren : Bool) (hk : paren = false → k'.rank ≤ k.rank) :
    CondReads k' (wrapWords paren words) c := by
  intro ts hts
  cases paren with
  | false =>
    obtain ⟨c', hc', herase⟩ := h ts hts
    exact ⟨c', hc'.widen (hk rfl), herase⟩
  | true =>
    obtain ⟨opening, us, rfl, ho, -, hus⟩ := split_cons hts
    obtain ⟨vs, cs, rfl, hvs, hcs⟩ := List.map_eq_append_iff.mp hus
    obtain ⟨closing, rfl, hcl, -⟩ := split_single hcs
    obtain ⟨c', hc', herase⟩ := h vs hvs
    have hwhole : DerivesCond .disjunction vs c' := hc'.widen (by cases k <;> decide)
    have hrank : k'.rank ≤ CondTier.negation.rank := by cases k' <;> decide
    refine ⟨_, (DerivesCond.parens ho hwhole hcl).widen hrank, ?_⟩
    rw [Cond.erase_withSpan, herase]

theorem Cond.reads (c : Cond) (h : c.Written) : CondReads c.tier c.words c := by
  induction c with
  | compare op l r s =>
    intro ts hts
    obtain ⟨ls, us, rfl, hls, hus⟩ := List.map_eq_append_iff.mp hts
    obtain ⟨t, rs, rfl, hk, -, hrs⟩ := split_cons hus
    have hk : t.kind = .symbol op.token := hk
    have hop : compareOp? t.kind = some op := by
      rw [hk]
      cases op <;> rfl
    obtain ⟨l', hl', hle⟩ := l.reads h.1 ls hls
    obtain ⟨r', hr', hre⟩ := r.reads h.2 rs hrs
    have hsum (k : Tier) : Tier.sum.rank ≤ k.rank := by cases k <;> decide
    refine ⟨_, .compare (hl'.widen (hsum _)) hop (hr'.widen (hsum _)), ?_⟩
    simp only [erase, hle, hre]
  | not c s ih =>
    intro ts hts
    obtain ⟨t, us, rfl, hk, -, hus⟩ := split_cons hts
    have hoperand := (ih h).wrap .negation (!c.isNot) fun hp => by
      cases c with
      | not c s => exact Nat.le_refl _
      | _ => cases hp
    obtain ⟨c', hc', herase⟩ := hoperand us hus
    exact ⟨.not c' (t.span.upTo c'.span), .not hk hc', by simp only [erase, herase]⟩
  | logical op l r s ihl ihr =>
    intro ts hts
    obtain ⟨ls, us, rfl, hls, hus⟩ := List.map_eq_append_iff.mp hts
    obtain ⟨t, rs, rfl, hk, -, hrs⟩ := split_cons hus
    cases op with
    | or =>
      obtain ⟨l', hl', hle⟩ := (ihl h.1).wrap .disjunction _ (rank_le rfl) ls hls
      obtain ⟨r', hr', hre⟩ := (ihr h.2).wrap .conjunction _ (rank_le_of_le rfl) rs hrs
      refine ⟨_, .or hl' hk hr', ?_⟩
      simp only [erase, hle, hre]
    | and =>
      obtain ⟨l', hl', hle⟩ := (ihl h.1).wrap .conjunction _ (rank_le rfl) ls hls
      obtain ⟨r', hr', hre⟩ := (ihr h.2).wrap .negation _ (rank_le_of_le rfl) rs hrs
      refine ⟨_, .and hl' hk hr', ?_⟩
      simp only [erase, hle, hre]

theorem Expr.reads_sum {e : Expr} (h : e.Written) : ExprReads .sum e.words e := by
  intro ts hts
  obtain ⟨e', he', herase⟩ := e.reads h ts hts
  exact ⟨e', he'.widen (by cases e.tier <;> decide), herase⟩

/-- An expression up to the semicolon after it. -/
theorem Expr.reads_semi {e : Expr} (h : e.Written) {ts : List Token}
    (hts : ts.map Token.lexeme = e.words ++ [symbolWord .semi]) :
    ∃ us semi e', ts = us ++ [semi] ∧ semi.kind = .symbol .semi ∧ DerivesExpr .sum us e' ∧
      e'.erase = e.erase := by
  obtain ⟨us, vs, rfl, hus, hvs⟩ := List.map_eq_append_iff.mp hts
  obtain ⟨semi, rfl, hs, -⟩ := split_single hvs
  obtain ⟨e', he', herase⟩ := reads_sum h us hus
  exact ⟨us, semi, e', rfl, hs, he', herase⟩

theorem Cond.reads_header {c : Cond} (h : c.Written) {ts : List Token}
    (hts : ts.map Token.lexeme = c.headerWords) :
    ∃ c', DerivesHeader ts c' ∧ c'.erase = c.erase := by
  obtain ⟨opening, us, rfl, ho, -, hus⟩ := split_cons hts
  obtain ⟨vs, cs, rfl, hvs, hcs⟩ := List.map_eq_append_iff.mp hus
  obtain ⟨closing, rfl, hcl, -⟩ := split_single hcs
  obtain ⟨c', hc', herase⟩ := c.reads h vs hvs
  exact ⟨c', .parens ho (hc'.widen (by cases c.tier <;> decide)) hcl, herase⟩

theorem Decl.reads {d : Decl} (h : d.Written) {ts : List Token}
    (hts : ts.map Token.lexeme = d.words) : ∃ d', DerivesDecl ts d' ∧ d'.erase = d.erase := by
  obtain ⟨type, name, init, span⟩ := d
  obtain ⟨-, hinit⟩ := h
  have htype {k : TokenKind} (hk : k = .keyword type.keyword) : typeOf? k = some type := by
    subst hk
    cases type <;> rfl
  cases init with
  | none =>
    obtain ⟨t, us, rfl, hk, -, hus⟩ := split_cons hts
    obtain ⟨n, us, rfl, hn, hname, hus⟩ := split_cons hus
    obtain ⟨semi, rfl, hs, -⟩ := split_single hus
    refine ⟨_, .plain (htype hk) hn hs, ?_⟩
    simp only [erase, hname]
  | some e =>
    obtain ⟨t, us, rfl, hk, -, hus⟩ := split_cons hts
    obtain ⟨n, us, rfl, hn, hname, hus⟩ := split_cons hus
    obtain ⟨eq, us, rfl, heq, -, hus⟩ := split_cons hus
    obtain ⟨us, semi, e', rfl, hs, he', herase⟩ := Expr.reads_semi (hinit e rfl) hus
    refine ⟨_, .init (htype hk) hn heq he' hs, ?_⟩
    simp only [erase, hname, Option.map_some, herase]

mutual

theorem Stmt.reads : (s : Stmt) → s.Written → ∀ ts : List Token, ts.map Token.lexeme = s.words →
    ∃ s', DerivesStmt ts s' ∧ s'.erase = s.erase
  | .assign name value _, h, ts, hts => by
    obtain ⟨-, hvalue⟩ : _ ∧ _ := by simpa only [Stmt.Written] using h
    obtain ⟨t, us, rfl, hk, hname, hus⟩ := split_cons (by simpa only [Stmt.words] using hts)
    obtain ⟨eq, us, rfl, heq, -, hus⟩ := split_cons hus
    obtain ⟨us, semi, e', rfl, hs, he', herase⟩ := Expr.reads_semi hvalue hus
    refine ⟨_, .assign hk heq he' hs, ?_⟩
    simp only [Stmt.erase, hname, herase]
  | .print value _, h, ts, hts => by
    have hvalue : value.Written := by simpa only [Stmt.Written] using h
    obtain ⟨t, us, rfl, hk, -, hus⟩ := split_cons (by simpa only [Stmt.words] using hts)
    obtain ⟨us, semi, e', rfl, hs, he', herase⟩ := Expr.reads_semi hvalue hus
    refine ⟨_, .print hk he' hs, ?_⟩
    simp only [Stmt.erase, herase]
  | .block body _, h, ts, hts => by
    have hbody : WrittenIn body := by simpa only [Stmt.Written] using h
    obtain ⟨opening, us, rfl, ho, -, hus⟩ := split_cons (by simpa only [Stmt.words] using hts)
    obtain ⟨vs, cs, rfl, hvs, hcs⟩ := List.map_eq_append_iff.mp hus
    obtain ⟨closing, rfl, hcl, -⟩ := split_single hcs
    obtain ⟨body', hbody', herase⟩ := items_read body hbody vs hvs
    refine ⟨_, .block ho hbody' hcl, ?_⟩
    simp only [Stmt.erase, herase]
  | .ite c yes none _, h, ts, hts => by
    obtain ⟨hc, hyes⟩ : _ ∧ _ := by simpa only [Stmt.Written] using h
    obtain ⟨t, us, rfl, hk, -, hus⟩ := split_cons (by simpa only [Stmt.words] using hts)
    obtain ⟨hs, ys, rfl, hhs, hys⟩ := List.map_eq_append_iff.mp hus
    obtain ⟨c', hc', hce⟩ := Cond.reads_header hc hhs
    obtain ⟨yes', hyes', hye⟩ := Stmt.reads yes hyes ys hys
    refine ⟨_, .ite hk hc' hyes', ?_⟩
    simp only [Stmt.erase, hce, hye]
  | .ite c yes (some no) _, h, ts, hts => by
    obtain ⟨hc, hyes, hno⟩ : _ ∧ _ ∧ _ := by simpa only [Stmt.Written] using h
    obtain ⟨t, us, rfl, hk, -, hus⟩ := split_cons (by simpa only [Stmt.words] using hts)
    obtain ⟨hs, bs, rfl, hhs, hbs⟩ := List.map_eq_append_iff.mp hus
    obtain ⟨ys, es, rfl, hys, hes⟩ := List.map_eq_append_iff.mp hbs
    obtain ⟨u, ns, rfl, hu, -, hns⟩ := split_cons hes
    obtain ⟨c', hc', hce⟩ := Cond.reads_header hc hhs
    obtain ⟨yes', hyes', hye⟩ := Stmt.reads yes hyes ys hys
    obtain ⟨no', hno', hne⟩ := Stmt.reads no hno ns hns
    refine ⟨_, .iteElse hk hc' hyes' hu hno', ?_⟩
    simp only [Stmt.erase, hce, hye, hne]
  | .loop c body _, h, ts, hts => by
    obtain ⟨hc, hbody⟩ : _ ∧ _ := by simpa only [Stmt.Written] using h
    obtain ⟨t, us, rfl, hk, -, hus⟩ := split_cons (by simpa only [Stmt.words] using hts)
    obtain ⟨hs, bs, rfl, hhs, hbs⟩ := List.map_eq_append_iff.mp hus
    obtain ⟨c', hc', hce⟩ := Cond.reads_header hc hhs
    obtain ⟨body', hbody', hbe⟩ := Stmt.reads body hbody bs hbs
    refine ⟨_, .loop hk hc' hbody', ?_⟩
    simp only [Stmt.erase, hce, hbe]

theorem Item.reads : (u : Item) → u.Written → ∀ ts : List Token, ts.map Token.lexeme = u.words →
    ∃ u', DerivesItem ts u' ∧ u'.erase = u.erase
  | .decl d, h, ts, hts => by
    obtain ⟨d', hd', herase⟩ := Decl.reads (by simpa only [Item.Written] using h)
      (by simpa only [Item.words] using hts)
    refine ⟨_, .decl hd', ?_⟩
    simp only [Item.erase, herase]
  | .stmt s, h, ts, hts => by
    obtain ⟨s', hs', herase⟩ := Stmt.reads s (by simpa only [Item.Written] using h) ts
      (by simpa only [Item.words] using hts)
    refine ⟨_, .stmt hs', ?_⟩
    simp only [Item.erase, herase]

theorem items_read : (us : List Item) → WrittenIn us → ∀ ts : List Token,
    ts.map Token.lexeme = itemWords us → ∃ us', DerivesItems ts us' ∧ eraseItems us' = eraseItems us
  | [], _, ts, hts => by
    obtain rfl : ts = [] := List.map_eq_nil_iff.mp (by simpa only [itemWords] using hts)
    exact ⟨[], .nil, rfl⟩
  | u :: us, h, ts, hts => by
    obtain ⟨hu, hus⟩ : _ ∧ _ := by simpa only [WrittenIn] using h
    obtain ⟨vs, ws, rfl, hvs, hws⟩ :=
      List.map_eq_append_iff.mp (by simpa only [itemWords] using hts)
    obtain ⟨u', hu', hue⟩ := Item.reads u hu vs hvs
    obtain ⟨us', hus', huse⟩ := items_read us hus ws hws
    refine ⟨_, .cons hu' hus', ?_⟩
    simp only [eraseItems, hue, huse]

end

/-! Programs. -/

/-- The text of a program shows its units without their places, and its documentation without
the empty lines at its end. -/
theorem Program.format_congr {p p' : Program} (hunits : eraseItems p'.units = eraseItems p.units)
    (hdoc : trimmed p'.documentation = trimmed p.documentation) : p'.format = p.format := by
  have hheader : formatDocumentation p'.documentation = formatDocumentation p.documentation := by
    unfold formatDocumentation
    unfold trimmed at hdoc
    rw [hdoc]
  unfold Program.format
  rw [hheader, ← format_eraseItems 0 p'.units, hunits, format_eraseItems]

/-- The text of a program is cut into its words, after the comments of its header. -/
theorem Program.tokenize_format {p : Program} (hunits : WrittenIn p.units)
    (hdoc : Documented p.documentation) :
    ∃ lexed, Lexer.tokenize p.format = .ok lexed ∧
      lexed.tokens.map Token.lexeme = itemWords p.units ∧
      trimmed (Lexer.commentText lexed.header) = trimmed p.documentation := by
  have hbody := items_print p.units hunits 0 [] [] trivial .nil
  rw [List.append_nil, List.append_nil] at hbody
  obtain ⟨hrest, hheader⟩ := gap_documentation hdoc hbody.1
  have hcuts := hbody.2
  rw [← hrest] at hcuts
  obtain ⟨lexed, hlexed, hwords, hcomments⟩ := Lexer.Lexes.tokenize hcuts
  refine ⟨lexed, hlexed, hwords, ?_⟩
  rw [hcomments]
  exact hheader

/-- The text of a tree that a source can have is read as that tree. -/
theorem Program.parse_of_written {p : Program} (hunits : WrittenIn p.units)
    (hnear : ElseNearestIn p.units) (hdoc : Documented p.documentation) :
    ∃ p', Program.parse p.format = .ok p' ∧ eraseItems p'.units = eraseItems p.units ∧
      trimmed p'.documentation = trimmed p.documentation := by
  obtain ⟨lexed, hlexed, hwords, hheader⟩ := Program.tokenize_format hunits hdoc
  obtain ⟨units, hderives, herase⟩ := items_read p.units hunits lexed.tokens hwords
  -- an `else` belongs to the nearest `if` in the one tree when it does in the other
  have hnearest : ElseNearestIn units := by
    rwa [← elseNearest_eraseItems, herase, elseNearest_eraseItems]
  let p' : Program := ⟨units, Lexer.commentText lexed.header, ⟨Point.origin, lexed.finish⟩⟩
  have hparse : Program.parse p.format = .ok p' := by
    rw [Program.parse_of_tokens hlexed, items_gives lexed.finish hderives hnearest]
    rfl
  exact ⟨p', hparse, herase, hheader⟩

theorem Program.parse_format {source : Bytes} {p : Program} (h : Program.parse source = .ok p) :
    ∃ p', Program.parse p.format = .ok p' ∧ eraseItems p'.units = eraseItems p.units ∧
      Bytes.dropRightWhile (· == Bytes.newline) p'.documentation =
        Bytes.dropRightWhile (· == Bytes.newline) p.documentation ∧
      p'.format = p.format := by
  obtain ⟨lexed, hlexed, d, hd, hnear, rfl⟩ := Program.derivation_of_parse h
  have hclean : ∀ t ∈ d.tokens, Lexer.Clean t := by
    rw [hd]
    exact Lexer.tokenize_clean hlexed
  obtain ⟨p', hparse, herase, hdoc⟩ := Program.parse_of_written
    (p := ⟨d.tree, Lexer.commentText lexed.header, ⟨Point.origin, lexed.finish⟩⟩)
    (d.written hclean) (d.alike hnear) (documented_of_tokenize hlexed)
  exact ⟨p', hparse, herase, hdoc, Program.format_congr herase hdoc⟩

/-- Comments, a sign before a sum, leading zeros, both kinds of parentheses and an `else` for
the inner `if`. -/
def Program.sampleSource : Bytes :=
  "//  a\n//\nint x = -(007+2)*1.50;if(!((x)<1))if(x<2)x=3;else\x7b\x7d"

theorem Program.parse_format_sample :
    ∃ p p', Program.parse sampleSource = .ok p ∧ Program.parse p.format = .ok p' ∧
      p'.format = p.format := by
  have hparsed : (Program.parse sampleSource).isOk = true := by decide +kernel
  obtain ⟨p, hp⟩ := exists_ok hparsed
  obtain ⟨p', hp', -, -, hformat⟩ := Program.parse_format hp
  exact ⟨p, p', hp, hp', hformat⟩

end Signum
