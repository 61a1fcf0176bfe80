import Signum.Proofs.Syntax.Derivation
import Signum.Proofs.Syntax.Lexemes
import Signum.Proofs.Syntax.Nodes
import Mathlib.Data.List.Nodup
/- No two nodes of a parsed program are the same.

   Tokens start one after another, and every node starts where a token does. The sites of
   a program start at different tokens. An expression and its left part may start at the
   same one, but the whole is larger than the part, so the expressions of a program are
   different too. -/
namespace Signum

namespace Point

/-- The first place comes before the second in a source. -/
def Before (p q : Point) : Prop := p.row < q.row ∨ (p.row = q.row ∧ p.column < q.column)

theorem Before.trans {p q r : Point} (h : p.Before q) (h' : q.Before r) : p.Before r := by
  unfold Before at *
  omega

theorem Before.ne {p q : Point} (h : p.Before q) : p ≠ q := by
  rintro rfl
  unfold Before at h
  omega

theorem before_step (p : Point) (b : UInt8) : p.Before (p.step b) := by
  unfold step Before
  split
  · exact .inl (Nat.lt_succ_self _)
  · exact .inr ⟨rfl, Nat.lt_succ_self _⟩

theorem before_after {q p : Point} (h : q.Before p) (text : Bytes) : q.Before (p.after text) := by
  induction text generalizing p with
  | nil => exact h
  | cons b rest ih => exact ih (h.trans (before_step p b))

end Point

/-- Where some tokens start. -/
def starts (ts : List Token) : List Point := ts.map (·.span.start)

@[simp] theorem starts_nil : starts [] = [] := rfl

@[simp] theorem starts_cons (t : Token) (ts : List Token) :
    starts (t :: ts) = t.span.start :: starts ts := rfl

@[simp] theorem starts_append (ts us : List Token) : starts (ts ++ us) = starts ts ++ starts us :=
  List.map_append

namespace Lexer

/-- Tokens start one after another, from where the text does. -/
theorem Cutting.ordered {p finish : Point} {text : Bytes} {tokens : List Token}
    (h : Cutting p text tokens finish) : (starts tokens).Pairwise Point.Before ∧
      ∀ q : Point, q.Before p → ∀ s ∈ starts tokens, q.Before s := by
  induction h with
  | done p => exact ⟨List.Pairwise.nil, by simp⟩
  | @token p finish a rest kind n tokens hlex hrest ih =>
    obtain ⟨hpair, hlater⟩ := ih
    have hstop : p.Before (p.after (a :: rest.take (n - 1))) :=
      Point.before_after (Point.before_step p a) _
    have hstart := hlater p (Point.before_after hstop _)
    refine ⟨List.pairwise_cons.mpr ⟨hstart, hpair⟩, fun q hq s hs => ?_⟩
    rcases List.mem_cons.mp hs with rfl | hs
    · exact hq
    · exact hq.trans (hstart s hs)

/-- Tokens of a source start one after another. -/
theorem tokenize_ordered {source : Bytes} {lexed : Lexed} (h : tokenize source = .ok lexed) :
    (starts lexed.tokens).Pairwise Point.Before := (tokenize_cutting h).1.ordered.1

/-- No two tokens of a source start in one place. -/
theorem starts_nodup {source : Bytes} {lexed : Lexed} (h : tokenize source = .ok lexed) :
    (starts lexed.tokens).Nodup := (tokenize_ordered h).imp Point.Before.ne

end Lexer

/-! Sites. -/

/-- Where the statement of a site starts. -/
def Site.place : Site → Point
  | .print s _ | .branch s _ | .loop s _ => s.start

/-- Some sites start at some of these tokens, in the same order. -/
def SitesAt (ts : List Token) (sites : List Site) : Prop :=
  (sites.map Site.place).Sublist (starts ts)

namespace SitesAt
variable {ts ts' : List Token} {sites sites' : List Site}

theorem nil (ts : List Token) : SitesAt ts [] := List.nil_sublist _

theorem append (h : SitesAt ts sites) (h' : SitesAt ts' sites') :
    SitesAt (ts ++ ts') (sites ++ sites') := by
  unfold SitesAt
  rw [List.map_append, starts_append]
  exact List.Sublist.append h h'

theorem cons {t : Token} {site : Site} (h : SitesAt ts sites) (hs : site.place = t.span.start) :
    SitesAt (t :: ts) (site :: sites) := by
  unfold SitesAt
  rw [List.map_cons, hs]
  exact List.Sublist.cons_cons _ h

theorem among (h : SitesAt ts sites) (hsub : ts.Sublist ts') : SitesAt ts' sites :=
  List.Sublist.trans h (hsub.map _)

end SitesAt

namespace Grammar

mutual

theorem DerivesStmt.sites {ts : List Token} {s : Stmt} : DerivesStmt ts s → SitesAt ts s.sites
  | .assign _ _ _ _ => by
    unfold Stmt.sites
    exact .nil _
  | .print _ _ _ => by
    unfold Stmt.sites
    exact .cons (.nil _) rfl
  | .block _ hitems _ => by
    unfold Stmt.sites
    refine hitems.sites.among (.cons _ ?_)
    exact List.sublist_append_left _ _
  | .ite _ _ hyes => by
    unfold Stmt.sites
    refine .cons (hyes.sites.among ?_) rfl
    exact List.sublist_append_right _ _
  | .iteElse _ _ hyes _ hno => by
    unfold Stmt.sites
    refine .cons ((hyes.sites.append hno.sites).among ?_) rfl
    exact ((List.sublist_cons_self _ _).append_left _).trans (List.sublist_append_right _ _)
  | .loop _ _ hbody => by
    unfold Stmt.sites
    refine .cons (hbody.sites.among ?_) rfl
    exact List.sublist_append_right _ _

theorem DerivesItem.sites {ts : List Token} {i : Item} :
    DerivesItem ts i → SitesAt ts i.sites
  | .decl _ => by
    unfold Item.sites
    exact .nil _
  | .stmt hs => by
    unfold Item.sites
    exact hs.sites

theorem DerivesItems.sites {ts : List Token} {us : List Item} :
    DerivesItems ts us → SitesAt ts (sitesOf us)
  | .nil => by
    unfold sitesOf
    exact .nil _
  | .cons hu hrest => by
    unfold sitesOf
    exact hu.sites.append hrest.sites

end

end Grammar

/-! Expressions. -/

/-- Some expressions start at some of these tokens, and are different when the tokens
start in different places. -/
structure ExprsAt (ts : List Token) (es : List Expr) : Prop where
  start : ∀ e ∈ es, e.span.start ∈ starts ts
  nodup : (starts ts).Nodup → es.Nodup

namespace ExprsAt
variable {ts ts' : List Token} {es es' : List Expr}

theorem nil (ts : List Token) : ExprsAt ts [] := ⟨by simp, fun _ => List.nodup_nil⟩

theorem append (h : ExprsAt ts es) (h' : ExprsAt ts' es') : ExprsAt (ts ++ ts') (es ++ es') := by
  refine ⟨fun e he => ?_, fun hn => ?_⟩
  · rw [starts_append]
    exact List.mem_append.mpr ((List.mem_append.mp he).imp (h.start e) (h'.start e))
  · rw [starts_append] at hn
    obtain ⟨hleft, hright, hdisj⟩ := List.nodup_append.mp hn
    refine List.nodup_append.mpr ⟨h.nodup hleft, h'.nodup hright, fun e he e' he' heq => ?_⟩
    exact hdisj _ (h.start e he) _ (h'.start e' he') (by rw [heq])

theorem among (h : ExprsAt ts es) (hsub : ts.Sublist ts') : ExprsAt ts' es :=
  ⟨fun e he => (hsub.map _).subset (h.start e he), fun hn => h.nodup (hn.sublist (hsub.map _))⟩

/-- A node that starts at one of the tokens and is none of the others. -/
theorem cons {e : Expr} (h : ExprsAt ts es) (hs : e.span.start ∈ starts ts) (hne : e ∉ es) :
    ExprsAt ts (e :: es) := by
  refine ⟨fun e' he => ?_, fun hn => List.nodup_cons.mpr ⟨hne, h.nodup hn⟩⟩
  rcases List.mem_cons.mp he with rfl | he
  · exact hs
  · exact h.start e' he

end ExprsAt

namespace Grammar

theorem DerivesExpr.start {k : Tier} {ts : List Token} {e : Expr} (h : DerivesExpr k ts e) :
    e.span.start ∈ starts ts := by
  induction h with
  | ofProduct _ ih | ofSigned _ ih | ofPrimary _ ih => exact ih
  | sum _ _ _ ih _ | product _ _ _ ih _ =>
    rw [starts_append]
    exact List.mem_append_left _ ih
  | minus _ _ _ | int _ _ | float _ _ | var _ | readInt _ | readFloat _ => exact List.mem_cons_self
  | parens _ _ _ ih =>
    rw [starts_cons, starts_append]
    exact List.mem_cons_of_mem _ (List.mem_append_left _ ih)

/-- The whole of an expression is none of its parts. -/
theorem DerivesExpr.exprs {k : Tier} {ts : List Token} {e : Expr} (h : DerivesExpr k ts e) :
    ExprsAt ts (exprsOf (e.inspect everywhere)) := by
  have hstart := h.start
  induction h with
  | ofProduct _ ih | ofSigned _ ih | ofPrimary _ ih => exact ih hstart
  | @sum ls rs t op l r hl _ hr ihl ihr | @product ls rs t op l r hl _ hr ihl ihr =>
    rw [Expr.inspect, exprsOf_expr, exprsOf_append]
    refine ExprsAt.cons (((ihl hl.start).append (ihr hr.start)).among ?_) hstart fun hmem => ?_
    · exact (List.sublist_cons_self _ _).append_left _
    · rcases List.mem_append.mp hmem with hmem | hmem
      · have := exprsOf_le hmem
        simp only [Expr.binary.sizeOf_spec] at this
        omega
      · have := exprsOf_le hmem
        simp only [Expr.binary.sizeOf_spec] at this
        omega
  | @minus ts t e _ he ih =>
    rw [Expr.inspect, exprsOf_expr]
    refine ExprsAt.cons ((ih he.start).among (List.sublist_cons_self _ _)) hstart fun hmem => ?_
    have := exprsOf_le hmem
    simp only [Expr.neg.sizeOf_spec] at this
    omega
  | int _ _ | float _ _ | var _ | readInt _ | readFloat _ =>
    exact ExprsAt.cons (.nil _) hstart (by simp)
  | @parens opening closing ts e _ he _ ih =>
    refine (ih he.start).among (.cons _ ?_)
    exact List.sublist_append_left _ _

theorem exprsOf_withSpan (c : Cond) (s : Span) :
    exprsOf ((c.withSpan s).inspect everywhere) = exprsOf (c.inspect everywhere) := by
  cases c <;> rfl

theorem DerivesCond.exprs {k : CondTier} {ts : List Token} {c : Cond} (h : DerivesCond k ts c) :
    ExprsAt ts (exprsOf (c.inspect everywhere)) := by
  induction h with
  | ofConjunction _ ih | ofNegation _ ih => exact ih
  | or _ _ _ ihl ihr | and _ _ _ ihl ihr =>
    rw [Cond.inspect, exprsOf_cond, exprsOf_append]
    refine (ihl.append ihr).among ?_
    exact (List.sublist_cons_self _ _).append_left _
  | not _ _ ih => exact ih.among (List.sublist_cons_self _ _)
  | compare hl _ hr =>
    rw [Cond.inspect, exprsOf_cond, exprsOf_append]
    refine (hl.exprs.append hr.exprs).among ?_
    exact (List.sublist_cons_self _ _).append_left _
  | parens _ _ _ ih =>
    rw [exprsOf_withSpan]
    refine ih.among (.cons _ ?_)
    exact List.sublist_append_left _ _

theorem DerivesHeader.exprs {ts : List Token} {c : Cond} (h : DerivesHeader ts c) :
    ExprsAt ts (exprsOf (c.inspect everywhere)) := by
  cases h with
  | parens _ hc _ =>
    refine hc.exprs.among (.cons _ ?_)
    exact List.sublist_append_left _ _

theorem DerivesDecl.exprs {ts : List Token} {d : Decl} (h : DerivesDecl ts d) :
    ExprsAt ts (exprsOf (d.inspect everywhere)) := by
  cases h with
  | plain _ _ _ => exact .nil _
  | init _ _ _ he _ =>
    refine he.exprs.among (.cons _ (.cons _ (.cons _ ?_)))
    exact List.sublist_append_left _ _

mutual

theorem DerivesStmt.exprs {ts : List Token} {s : Stmt} :
    DerivesStmt ts s → ExprsAt ts (exprsOf (s.inspect everywhere))
  | .assign _ _ he _ => by
    rw [Stmt.inspect, exprsOf_stmt]
    refine he.exprs.among (.cons _ (.cons _ ?_))
    exact List.sublist_append_left _ _
  | .print _ he _ => by
    rw [Stmt.inspect, exprsOf_stmt]
    refine he.exprs.among (.cons _ ?_)
    exact List.sublist_append_left _ _
  | .block _ hitems _ => by
    rw [Stmt.inspect, exprsOf_stmt]
    refine hitems.exprs.among (.cons _ ?_)
    exact List.sublist_append_left _ _
  | .ite _ hc hyes => by
    rw [Stmt.inspect, exprsOf_stmt, exprsOf_append]
    exact (hc.exprs.append hyes.exprs).among (List.sublist_cons_self _ _)
  | .iteElse _ hc hyes _ hno => by
    rw [Stmt.inspect, exprsOf_stmt, exprsOf_append, exprsOf_append, List.append_assoc]
    refine (hc.exprs.append (hyes.exprs.append hno.exprs)).among (.cons _ ?_)
    exact ((List.sublist_cons_self _ _).append_left _).append_left _
  | .loop _ hc hbody => by
    rw [Stmt.inspect, exprsOf_stmt, exprsOf_append]
    exact (hc.exprs.append hbody.exprs).among (List.sublist_cons_self _ _)

theorem DerivesItem.exprs {ts : List Token} {i : Item} :
    DerivesItem ts i → ExprsAt ts (exprsOf (i.inspect everywhere))
  | .decl hd => by
    rw [Item.inspect]
    exact hd.exprs
  | .stmt hs => by
    rw [Item.inspect]
    exact hs.exprs

theorem DerivesItems.exprs {ts : List Token} {us : List Item} :
    DerivesItems ts us → ExprsAt ts (exprsOf (inspectItems everywhere us))
  | .nil => by
    rw [inspectItems]
    exact .nil _
  | .cons hu hrest => by
    rw [inspectItems, exprsOf_append]
    exact hu.exprs.append hrest.exprs

end

end Grammar

/-- No two expressions of a program are the same, and no two of its sites. -/
structure Program.Distinct (p : Program) : Prop where
  expressions : p.expressions.Nodup
  sites : (sitesOf p.units).Nodup

/-- The nodes of a parsed program are told apart by their places. -/
theorem Program.parse_distinct {source : Bytes} {p : Program} (h : Program.parse source = .ok p) :
    p.Distinct := by
  unfold Program.parse at h
  split at h
  · cases h
  · next lexed hlex =>
    have hn := Lexer.starts_nodup hlex
    cases hitems : Parser.items lexed.finish lexed.tokens with
    | error failure => rw [hitems] at h; cases h
    | ok units =>
      rw [hitems] at h
      cases h
      have hderives := Parser.items_derives lexed.finish lexed.tokens hitems
      exact ⟨hderives.exprs.nodup hn, (hn.sublist hderives.sites).of_map _⟩

end Signum
