import Signum.Syntax.Parser
/- The grammar of programs, with the trees.

   A derivation says which tokens a tree is made of. Sums, products, conjunctions and
   disjunctions take their parts in from left to right. A node stands from the first to
   the last token it was made of, with two exceptions: an expression in parentheses keeps
   its own place, and a condition in parentheses is widened to them. -/
namespace Signum.Grammar

open Signum.Parser (sumOp? productOp? compareOp?)

/-- What an expression is made of where it stands. -/
inductive Tier where
  | sum
  | product
  | signed
  | primary

/-- The expressions of some tokens. -/
inductive DerivesExpr : Tier → List Token → Expr → Prop where
  | ofProduct {ts : List Token} {e : Expr} : DerivesExpr .product ts e → DerivesExpr .sum ts e
  | sum {ls rs : List Token} {t : Token} {op : BinaryOp} {l r : Expr} :
    DerivesExpr .sum ls l → sumOp? t.kind = some op → DerivesExpr .product rs r →
    DerivesExpr .sum (ls ++ t :: rs) (.binary op l r (l.span.upTo r.span))
  | ofSigned {ts : List Token} {e : Expr} : DerivesExpr .signed ts e → DerivesExpr .product ts e
  | product {ls rs : List Token} {t : Token} {op : BinaryOp} {l r : Expr} :
    DerivesExpr .product ls l → productOp? t.kind = some op → DerivesExpr .signed rs r →
    DerivesExpr .product (ls ++ t :: rs) (.binary op l r (l.span.upTo r.span))
  | ofPrimary {ts : List Token} {e : Expr} : DerivesExpr .primary ts e → DerivesExpr .signed ts e
  | minus {ts : List Token} {t : Token} {e : Expr} :
    t.kind = .symbol .minus → DerivesExpr .signed ts e →
    DerivesExpr .signed (t :: ts) (.neg e (t.span.upTo e.span))
  | int {t : Token} {v : Int64} :
    t.kind = .int → readInt64? t.text = some v → DerivesExpr .primary [t] (.int v t.span)
  | float {t : Token} {v : Binary64} :
    t.kind = .float → Binary64.read? t.text = some v →
    DerivesExpr .primary [t] (.float v t.text t.span)
  | var {t : Token} : t.kind = .ident → DerivesExpr .primary [t] (.var t.text t.span)
  | readInt {t : Token} :
    t.kind = .keyword .readInt → DerivesExpr .primary [t] (.readInt t.span)
  | readFloat {t : Token} :
    t.kind = .keyword .readFloat → DerivesExpr .primary [t] (.readFloat t.span)
  | parens {opening closing : Token} {ts : List Token} {e : Expr} :
    opening.kind = .symbol .lparen → DerivesExpr .sum ts e → closing.kind = .symbol .rparen →
    DerivesExpr .primary (opening :: (ts ++ [closing])) e

/-- What a condition is made of where it stands. -/
inductive CondTier where
  | disjunction
  | conjunction
  | negation

/-- The conditions of some tokens. -/
inductive DerivesCond : CondTier → List Token → Cond → Prop where
  | ofConjunction {ts : List Token} {c : Cond} :
    DerivesCond .conjunction ts c → DerivesCond .disjunction ts c
  | or {ls rs : List Token} {t : Token} {l r : Cond} :
    DerivesCond .disjunction ls l → t.kind = .symbol .orOr → DerivesCond .conjunction rs r →
    DerivesCond .disjunction (ls ++ t :: rs) (.logical .or l r (l.span.upTo r.span))
  | ofNegation {ts : List Token} {c : Cond} :
    DerivesCond .negation ts c → DerivesCond .conjunction ts c
  | and {ls rs : List Token} {t : Token} {l r : Cond} :
    DerivesCond .conjunction ls l → t.kind = .symbol .andAnd → DerivesCond .negation rs r →
    DerivesCond .conjunction (ls ++ t :: rs) (.logical .and l r (l.span.upTo r.span))
  | not {ts : List Token} {t : Token} {c : Cond} :
    t.kind = .symbol .bang → DerivesCond .negation ts c →
    DerivesCond .negation (t :: ts) (.not c (t.span.upTo c.span))
  | compare {ls rs : List Token} {t : Token} {op : CompareOp} {l r : Expr} :
    DerivesExpr .sum ls l → compareOp? t.kind = some op → DerivesExpr .sum rs r →
    DerivesCond .negation (ls ++ t :: rs) (.compare op l r (l.span.upTo r.span))
  | parens {opening closing : Token} {ts : List Token} {c : Cond} :
    opening.kind = .symbol .lparen → DerivesCond .disjunction ts c →
    closing.kind = .symbol .rparen →
    DerivesCond .negation (opening :: (ts ++ [closing])) (c.withSpan (opening.span.upTo closing.span))

/-- The condition after `if` or `while`, in its parentheses. -/
inductive DerivesHeader : List Token → Cond → Prop where
  | parens {opening closing : Token} {ts : List Token} {c : Cond} :
    opening.kind = .symbol .lparen → DerivesCond .disjunction ts c →
    closing.kind = .symbol .rparen → DerivesHeader (opening :: (ts ++ [closing])) c

/-- The type a word stands for. -/
def typeOf? : TokenKind → Option NumType
  | .keyword .intWord => some .int
  | .keyword .floatWord => some .float
  | _ => none

/-- The declarations of some tokens. -/
inductive DerivesDecl : List Token → Decl → Prop where
  | plain {t name semi : Token} {type : NumType} :
    typeOf? t.kind = some type → name.kind = .ident → semi.kind = .symbol .semi →
    DerivesDecl [t, name, semi] ⟨type, name.text, none, t.span.upTo semi.span⟩
  | init {t name assign semi : Token} {ts : List Token} {type : NumType} {e : Expr} :
    typeOf? t.kind = some type → name.kind = .ident → assign.kind = .symbol .assign →
    DerivesExpr .sum ts e → semi.kind = .symbol .semi →
    DerivesDecl (t :: name :: assign :: (ts ++ [semi]))
      ⟨type, name.text, some e, t.span.upTo semi.span⟩

mutual

/-- The statements of some tokens. -/
inductive DerivesStmt : List Token → Stmt → Prop where
  | assign {t assign semi : Token} {ts : List Token} {e : Expr} :
    t.kind = .ident → assign.kind = .symbol .assign → DerivesExpr .sum ts e →
    semi.kind = .symbol .semi →
    DerivesStmt (t :: assign :: (ts ++ [semi])) (.assign t.text e (t.span.upTo semi.span))
  | print {t semi : Token} {ts : List Token} {e : Expr} :
    t.kind = .keyword .printWord → DerivesExpr .sum ts e → semi.kind = .symbol .semi →
    DerivesStmt (t :: (ts ++ [semi])) (.print e (t.span.upTo semi.span))
  | block {opening closing : Token} {ts : List Token} {units : List Item} :
    opening.kind = .symbol .lbrace → DerivesItems ts units → closing.kind = .symbol .rbrace →
    DerivesStmt (opening :: (ts ++ [closing])) (.block units (opening.span.upTo closing.span))
  | ite {t : Token} {hs ys : List Token} {c : Cond} {yes : Stmt} :
    t.kind = .keyword .ifWord → DerivesHeader hs c → DerivesStmt ys yes →
    DerivesStmt (t :: (hs ++ ys)) (.ite c yes none (t.span.upTo yes.span))
  | iteElse {t u : Token} {hs ys ns : List Token} {c : Cond} {yes no : Stmt} :
    t.kind = .keyword .ifWord → DerivesHeader hs c → DerivesStmt ys yes →
    u.kind = .keyword .elseWord → DerivesStmt ns no →
    DerivesStmt (t :: (hs ++ (ys ++ u :: ns))) (.ite c yes (some no) (t.span.upTo no.span))
  | loop {t : Token} {hs bs : List Token} {c : Cond} {body : Stmt} :
    t.kind = .keyword .whileWord → DerivesHeader hs c → DerivesStmt bs body →
    DerivesStmt (t :: (hs ++ bs)) (.loop c body (t.span.upTo body.span))

/-- The units of some tokens, one at a time. -/
inductive DerivesItem : List Token → Item → Prop where
  | decl {ts : List Token} {d : Decl} : DerivesDecl ts d → DerivesItem ts (.decl d)
  | stmt {ts : List Token} {s : Stmt} : DerivesStmt ts s → DerivesItem ts (.stmt s)

/-- Any number of units. -/
inductive DerivesItems : List Token → List Item → Prop where
  | nil : DerivesItems [] []
  | cons {ts us : List Token} {u : Item} {rest : List Item} :
    DerivesItem ts u → DerivesItems us rest → DerivesItems (ts ++ us) (u :: rest)

end

end Signum.Grammar
