import Signum.Proofs.Syntax.RoundTrip
/- The text of an expression has the fewest parentheses.

   An expression is derived from a tier either without parentheses of its own, when its operator
   binds tightly enough for the tier, or inside a pair. The canonical text puts a part in
   parentheses only when its operator does not bind tightly enough for the tier the part stands
   for. So by induction on a derivation the text of an expression, put in parentheses if the tier
   needs them, has no more of them than the tokens the expression was derived from
   (`DerivesExpr.openings_le`). -/
namespace Signum

open Signum.Grammar Signum.Parser

/-- The number of opening parentheses. -/
def openings (kinds : List TokenKind) : Nat := kinds.count (.symbol .lparen)

/-- The number of opening parentheses among tokens. -/
def openingsIn (ts : List Token) : Nat := openings (ts.map Token.kind)

/-- The number of opening parentheses among words. -/
def openingsOf (words : List Lexeme) : Nat := openings (words.map Prod.fst)

theorem openingsIn_append (ts us : List Token) :
    openingsIn (ts ++ us) = openingsIn ts + openingsIn us := by
  unfold openingsIn openings
  rw [List.map_append, List.count_append]

theorem openingsIn_le_cons (t : Token) (ts : List Token) : openingsIn ts ≤ openingsIn (t :: ts) :=
  (List.sublist_cons_self t ts).map _ |>.count_le _

theorem openingsIn_parens {t : Token} (ht : t.kind = .symbol .lparen) (ts : List Token) :
    openingsIn (t :: ts) = openingsIn ts + 1 := by
  unfold openingsIn openings
  rw [List.map_cons, ht, List.count_cons_self]

theorem openingsOf_append (ws us : List Lexeme) :
    openingsOf (ws ++ us) = openingsOf ws + openingsOf us := by
  unfold openingsOf openings
  rw [List.map_append, List.count_append]

theorem openingsOf_cons {w : Lexeme} (hw : w.1 ≠ .symbol .lparen) (ws : List Lexeme) :
    openingsOf (w :: ws) = openingsOf ws := by
  unfold openingsOf openings
  rw [List.map_cons, List.count_cons_of_ne hw]

theorem openingsOf_wrap (paren : Bool) (ws : List Lexeme) :
    openingsOf (wrapWords paren ws) = openingsOf ws + if paren then 1 else 0 := by
  cases paren with
  | false => rfl
  | true =>
    change openingsOf ([symbolWord .lparen] ++ (ws ++ [symbolWord .rparen])) = _
    rw [openingsOf_append, openingsOf_append]
    have hopening : openingsOf [symbolWord .lparen] = 1 := by decide
    have hclosing : openingsOf [symbolWord .rparen] = 0 := by decide
    simp only [hopening, hclosing, if_true]
    omega

theorem openingsIn_eq {ts : List Token} {words : List Lexeme}
    (h : ts.map Token.lexeme = words) : openingsIn ts = openingsOf words := by
  subst h
  unfold openingsIn openingsOf
  rw [List.map_map]
  rfl

namespace Expr

/-- The parentheses of the text of an expression that stands for a part of this rank. -/
def openingsAt (rank : Nat) (e : Expr) : Nat :=
  openingsOf e.words + if e.precedence < rank then 1 else 0

theorem openingsAt_mono {rank rank' : Nat} (h : rank ≤ rank') (e : Expr) :
    e.openingsAt rank ≤ e.openingsAt rank' := by
  unfold openingsAt
  split <;> split <;> omega

theorem openingsAt_wrap (rank : Nat) (e : Expr) :
    openingsOf (wrapWords (e.precedence < rank) e.words) = e.openingsAt rank := by
  rw [openingsOf_wrap]
  simp only [openingsAt, decide_eq_true_eq]

/-- The text of a literal, a variable or a read has no parentheses. -/
theorem openingsAt_primary {e : Expr} (he : e.precedence = Tier.primary.rank) :
    e.openingsAt Tier.primary.rank = 0 := by
  unfold openingsAt
  rw [he, if_neg (Nat.lt_irrefl _)]
  cases e with
  | neg e s => cases he
  | binary op l r s => cases op <;> cases he
  | _ => rfl

/-- The left operand stands for a part as tight as the operator, the right one for a tighter. -/
theorem openingsAt_binary (op : BinaryOp) (l r : Expr) (s : Span) {p : Nat}
    (hp : (binary op l r s).precedence = p) :
    (binary op l r s).openingsAt p = l.openingsAt p + r.openingsAt (p + 1) := by
  have hop : (symbolWord op.token).1 ≠ .symbol .lparen := by cases op <;> decide
  have hright : decide (r.precedence ≤ p) = decide (r.precedence < p + 1) := by
    rw [decide_eq_decide]
    exact Nat.lt_succ_iff.symm
  have hwords : (binary op l r s).words = wrapWords (l.precedence < p) l.words ++
      symbolWord op.token :: wrapWords (r.precedence < p + 1) r.words := by
    rw [words, hp, hright]
  unfold openingsAt
  rw [hp, if_neg (Nat.lt_irrefl p), hwords, openingsOf_append, openingsOf_cons hop,
    openingsAt_wrap, openingsAt_wrap]
  rfl

theorem openingsAt_neg (e : Expr) (s : Span) :
    (neg e s).openingsAt Tier.signed.rank = e.openingsAt Tier.signed.rank := by
  have hminus : (symbolWord .minus).1 ≠ .symbol .lparen := by decide
  have hnot : ¬(neg e s).precedence < Tier.signed.rank := Nat.lt_irrefl 3
  rw [openingsAt, if_neg hnot, words, openingsOf_cons hminus]
  exact openingsAt_wrap 3 e

theorem precedence_of_sumOp {k : TokenKind} {op : BinaryOp} (h : sumOp? k = some op)
    (l r : Expr) (s : Span) : (binary op l r s).precedence = Tier.sum.rank := by
  unfold sumOp? at h
  split at h <;> cases h <;> rfl

theorem precedence_of_productOp {k : TokenKind} {op : BinaryOp} (h : productOp? k = some op)
    (l r : Expr) (s : Span) : (binary op l r s).precedence = Tier.product.rank := by
  unfold productOp? at h
  split at h <;> cases h <;> rfl

end Expr

/-- What an expression is derived from has the parentheses of its text, and those around it that
the tier needs. -/
theorem Grammar.DerivesExpr.openings_le {k : Tier} {ts : List Token} {e : Expr}
    (h : DerivesExpr k ts e) : e.openingsAt k.rank ≤ openingsIn ts := by
  induction h with
  | @ofProduct ts e _ ih => exact Nat.le_trans (e.openingsAt_mono (by decide)) ih
  | @ofSigned ts e _ ih => exact Nat.le_trans (e.openingsAt_mono (by decide)) ih
  | @ofPrimary ts e _ ih => exact Nat.le_trans (e.openingsAt_mono (by decide)) ih
  | @sum ls rs t op l r _ ht _ ihl ihr =>
    -- the operands are derived from the very tiers their parts of the text stand for
    rw [Expr.openingsAt_binary op l r _ (Expr.precedence_of_sumOp ht l r _), openingsIn_append]
    exact Nat.add_le_add ihl (Nat.le_trans ihr (openingsIn_le_cons t rs))
  | @product ls rs t op l r _ ht _ ihl ihr =>
    rw [Expr.openingsAt_binary op l r _ (Expr.precedence_of_productOp ht l r _), openingsIn_append]
    exact Nat.add_le_add ihl (Nat.le_trans ihr (openingsIn_le_cons t rs))
  | @minus ts t e _ _ ih =>
    rw [Expr.openingsAt_neg]
    exact Nat.le_trans ih (openingsIn_le_cons t ts)
  | int _ _ | float _ _ | var _ | readInt _ | readFloat _ =>
    refine Nat.le_trans (Nat.le_of_eq (Expr.openingsAt_primary ?_)) (Nat.zero_le _)
    rfl
  | @parens opening closing ts e ho _ _ ih =>
    -- the pair is one more than the whole needs inside it
    rw [openingsIn_parens ho, openingsIn_append]
    have hinner : openingsOf e.words ≤ openingsIn ts := Nat.le_trans (Nat.le_add_right _ _) ih
    have hpair : e.openingsAt Tier.primary.rank ≤ openingsOf e.words + 1 := by
      unfold Expr.openingsAt
      split <;> omega
    omega

namespace Expr

/-- A whole text read as one expression: its tokens, and the expression. -/
def ofText? (text : Bytes) : Option (List Token × Expr) :=
  match Lexer.tokenize text with
  | .error _ => none
  | .ok lexed =>
    match Parser.expr lexed.finish lexed.tokens with
    | .ok e [] _ => some (lexed.tokens, e)
    | _ => none

theorem ofText?_of_gives {text : Bytes} {lexed : Lexer.Lexed} {e : Expr}
    (hlexed : Lexer.tokenize text = .ok lexed)
    (h : Gives (Parser.expr lexed.finish lexed.tokens) e []) :
    ofText? text = some (lexed.tokens, e) := by
  obtain ⟨hlt, hrun⟩ := h
  unfold ofText?
  rw [hlexed]
  dsimp only
  rw [hrun]

theorem gives_of_ofText? {text : Bytes} {ts : List Token} {e : Expr}
    (h : ofText? text = some (ts, e)) : ∃ lexed, Lexer.tokenize text = .ok lexed ∧
      lexed.tokens = ts ∧ Gives (Parser.expr lexed.finish (ts ++ [])) e [] := by
  unfold ofText? at h
  split at h
  · cases h
  · next lexed hlexed =>
    split at h
    · next e' hlt hrun =>
      cases h
      refine ⟨lexed, hlexed, rfl, ?_⟩
      rw [List.append_nil]
      exact ⟨hlt, hrun⟩
    · cases h

theorem noOperator_nil : NoOperator [] := fun _ h => absurd h (Option.not_mem_none _)

/-- The text of an expression a source can have is read as that expression. -/
theorem ofText?_format {e : Expr} (h : e.Written) :
    ∃ ts e', ofText? e.format = some (ts, e') ∧ ts.map Token.lexeme = e.words ∧
      e'.erase = e.erase := by
  have hlexes := e.prints h [] [] nofun .nil
  rw [List.append_nil, List.append_nil] at hlexes
  obtain ⟨lexed, hlexed, hwords, -⟩ := Lexer.Lexes.tokenize hlexes.2
  obtain ⟨e', hderives, herase⟩ := reads_sum h lexed.tokens hwords
  have hgives : Gives (Parser.expr lexed.finish (lexed.tokens ++ [])) e' [] :=
    expr_gives lexed.finish hderives noOperator_nil
  rw [List.append_nil] at hgives
  exact ⟨lexed.tokens, e', ofText?_of_gives hlexed hgives, hwords, herase⟩

/-- The tokens that are read as an expression are a sum with this expression. -/
theorem derives_of_gives {finish : Point} {ts rest : List Token} {e : Expr}
    (h : Gives (Parser.expr finish (ts ++ rest)) e rest) : DerivesExpr .sum ts e := by
  obtain ⟨hlt, hrun⟩ := h
  obtain ⟨seg, hseg, hderives⟩ := Parser.expr_reads finish (ts ++ rest) e rest hlt hrun
  rwa [List.append_cancel_right hseg]

/-- An expression that is read from tokens of sources is one that a source can have. -/
theorem written_of_gives {finish : Point} {ts rest : List Token} {e : Expr}
    (hts : ∀ t ∈ ts, ∃ source lexed, Lexer.tokenize source = .ok lexed ∧ t ∈ lexed.tokens)
    (h : Gives (Parser.expr finish (ts ++ rest)) e rest) : e.Written := by
  have hderives := derives_of_gives h
  obtain ⟨d, rfl⟩ := hderives.derivation
  have hclean : ∀ t ∈ d.tokens, Lexer.Clean t := by
    intro t ht
    obtain ⟨source, lexed, hlexed, hmem⟩ := hts t ht
    exact Lexer.tokenize_clean hlexed t hmem
  -- the tokens have one tree only, and the derivation has it
  have hread : Gives (Parser.expr finish (d.tokens ++ [])) d.tree [] :=
    expr_gives finish d.sound noOperator_nil
  rw [← (hread.unique (expr_gives finish hderives noOperator_nil)).1]
  exact d.written hclean

/-- The words of an expression do not show its places. -/
theorem words_erase (e : Expr) : e.erase.words = e.words := by
  induction e with
  | neg e s ih => simp only [erase, words, ih, precedence_erase]
  | binary op l r s ihl ihr =>
    have hp : (binary op l.erase r.erase .nowhere).precedence = (binary op l r s).precedence :=
      precedence_erase (binary op l r s)
    simp only [erase, words, ihl, ihr, precedence_erase, hp]
  | _ => rfl

/-- Whatever is read as an expression has at least the parentheses of its text. -/
theorem openings_of_gives {finish : Point} {ts rest : List Token} {e e' : Expr}
    (h : Gives (Parser.expr finish (ts ++ rest)) e' rest) (herase : e'.erase = e.erase) :
    openingsOf e.words ≤ openingsIn ts := by
  have hwords : e.words = e'.words := by rw [← e.words_erase, ← herase, words_erase]
  rw [hwords]
  exact Nat.le_trans (Nat.le_add_right _ _) (derives_of_gives h).openings_le

/-- The text of an expression has the fewest parentheses. Take any tokens that sources have and
that are read as an expression, up to whatever follows them. The text of the expression is read
as this expression again, up to places, with no more opening parentheses than these tokens have,
and with no more than any text has that is read as this expression. -/
theorem format_fewest_parentheses {finish : Point} {ts rest : List Token} {e : Expr}
    (hts : ∀ t ∈ ts, ∃ source lexed, Lexer.tokenize source = .ok lexed ∧ t ∈ lexed.tokens)
    (h : Gives (Parser.expr finish (ts ++ rest)) e rest) :
    ∃ us e', ofText? e.format = some (us, e') ∧ e'.erase = e.erase ∧
      openingsIn us ≤ openingsIn ts ∧
      ∀ text vs e'', ofText? text = some (vs, e'') → e''.erase = e.erase →
        openingsIn us ≤ openingsIn vs := by
  obtain ⟨us, e', hread, hwords, herase⟩ := ofText?_format (written_of_gives hts h)
  refine ⟨us, e', hread, herase, ?_, fun text vs e'' hother herase'' => ?_⟩
  · rw [openingsIn_eq hwords]
    exact openings_of_gives h rfl
  · obtain ⟨lexed, -, -, hgives⟩ := gives_of_ofText? hother
    rw [openingsIn_eq hwords]
    exact openings_of_gives hgives herase''

/-- A sum in two pairs of parentheses times a literal in a third. -/
def wrappedText : Bytes := "((1 + 2)) * (3)"

/-- Of three pairs of parentheses the text keeps the one it needs. -/
theorem wrapped_fewest_parentheses : ∃ ts e us e', ofText? wrappedText = some (ts, e) ∧
    openingsIn ts = 3 ∧ e.format = ("(1 + 2) * 3" : Bytes) ∧ ofText? e.format = some (us, e') ∧
    e'.erase = e.erase ∧ openingsIn us ≤ openingsIn ts := by
  have hread : (ofText? wrappedText).map (fun r => (openingsIn r.1, r.2.format)) =
      some (3, ("(1 + 2) * 3" : Bytes)) := by decide +kernel
  obtain ⟨⟨ts, e⟩, hwhole, hshown⟩ := Option.map_eq_some_iff.mp hread
  obtain ⟨hcount, htext⟩ := Prod.mk.inj hshown
  obtain ⟨lexed, hlexed, rfl, hgives⟩ := gives_of_ofText? hwhole
  obtain ⟨us, e', hformat, herase, hle, -⟩ :=
    format_fewest_parentheses (fun t ht => ⟨wrappedText, lexed, hlexed, ht⟩) hgives
  exact ⟨lexed.tokens, e, us, e', hwhole, hcount, htext, hformat, herase, hle⟩

end Expr
end Signum
