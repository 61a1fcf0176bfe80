import Signum.Proofs.Syntax.Completeness
/- The productions of the grammar, and derivations as data.

   ```
   program := unit* EOF
   unit    := decl | stmt
   decl    := ("int" | "float") IDENT ("=" expr)? ";"
   stmt    := IDENT "=" expr ";" | "print" expr ";" | "{" unit* "}"
            | "if" "(" cond ")" stmt ("else" stmt)? | "while" "(" cond ")" stmt
   expr    := term (("+" | "-") term)*
   term    := unary (("*" | "/") unary)*
   unary   := "-" unary | primary
   primary := INT | FLOAT | IDENT | "readint" | "readfloat" | "(" expr ")"
   cond    := conj ("||" conj)*
   conj    := neg ("&&" neg)*
   neg     := "!" neg | "(" cond ")" | expr cmp expr
   ```

   A `Derivation n` is a derivation from the nonterminal `n`: each constructor is one way to
   use a production, an optional part makes two of it, and a repetition is a nonterminal of
   its own. `tokens` are the tokens it derives, `tree` is the tree it stands for. A program is
   derived as `unit*`, for the end of the file is no token here. The tree of a repetition
   takes what stands before it, so operators associate to the left; parentheses leave no node.

   The grammar is ambiguous: an `else` may belong to any `if` before it that has none.
   `ElseNearest` picks the nearest. What is derived at all is derived in this way
   (`exists_nearest`). -/
namespace Signum.Grammar

open Signum.Parser (sumOp? productOp? compareOp?)

/-- A token of one of some kinds. -/
abbrev Word (kinds : List TokenKind) : Type := { t : Token // t.kind ∈ kinds }

/-- An integer literal that 64 bits can hold. -/
abbrev IntLiteral : Type := { t : Token // t.kind = .int ∧ (readInt64? t.text).isSome }

/-- A float literal that can be read. -/
abbrev FloatLiteral : Type := { t : Token // t.kind = .float ∧ (Binary64.read? t.text).isSome }

/-- The productions that join operands by operators. -/
inductive Level where
  | sum
  | product
  | disjunction
  | conjunction

inductive Nonterminal where
  | units
  | unit
  | stmt
  | expr
  | term
  | unary
  | primary
  | cond
  | conj
  | neg
  | more (l : Level)

/-- The operators of a level. -/
def Level.operators : Level → List TokenKind
  | .sum => [.symbol .plus, .symbol .minus]
  | .product => [.symbol .star, .symbol .slash]
  | .disjunction => [.symbol .orOr]
  | .conjunction => [.symbol .andAnd]

/-- What the operators of a level join. -/
def Level.operand : Level → Nonterminal
  | .sum => .term
  | .product => .unary
  | .disjunction => .conj
  | .conjunction => .neg

/-- The kinds of the operators of comparison. -/
def comparisons : List TokenKind :=
  [.symbol .eq, .symbol .ne, .symbol .lt, .symbol .gt, .symbol .le, .symbol .ge]

/-- How tokens are derived from a nonterminal. -/
inductive Derivation : Nonterminal → Type where
  | noUnit : Derivation .units
  | unit (first : Derivation .unit) (rest : Derivation .units) : Derivation .units
  | decl (type : Word [.keyword .intWord, .keyword .floatWord]) (name : Word [.ident])
      (semi : Word [.symbol .semi]) : Derivation .unit
  | declInit (type : Word [.keyword .intWord, .keyword .floatWord]) (name : Word [.ident])
      (eq : Word [.symbol .assign]) (init : Derivation .expr) (semi : Word [.symbol .semi]) :
      Derivation .unit
  | stmt (s : Derivation .stmt) : Derivation .unit
  | assign (name : Word [.ident]) (eq : Word [.symbol .assign]) (value : Derivation .expr)
      (semi : Word [.symbol .semi]) : Derivation .stmt
  | print (word : Word [.keyword .printWord]) (value : Derivation .expr)
      (semi : Word [.symbol .semi]) : Derivation .stmt
  | block (opening : Word [.symbol .lbrace]) (body : Derivation .units)
      (closing : Word [.symbol .rbrace]) : Derivation .stmt
  | ite (word : Word [.keyword .ifWord]) (opening : Word [.symbol .lparen]) (c : Derivation .cond)
      (closing : Word [.symbol .rparen]) (yes : Derivation .stmt) : Derivation .stmt
  | iteElse (word : Word [.keyword .ifWord]) (opening : Word [.symbol .lparen])
      (c : Derivation .cond) (closing : Word [.symbol .rparen]) (yes : Derivation .stmt)
      (elseWord : Word [.keyword .elseWord]) (no : Derivation .stmt) : Derivation .stmt
  | loop (word : Word [.keyword .whileWord]) (opening : Word [.symbol .lparen])
      (c : Derivation .cond) (closing : Word [.symbol .rparen]) (body : Derivation .stmt) :
      Derivation .stmt
  | noMore {l : Level} : Derivation (.more l)
  | more {l : Level} (op : Word l.operators) (operand : Derivation l.operand)
      (rest : Derivation (.more l)) : Derivation (.more l)
  | expr (first : Derivation .term) (rest : Derivation (.more .sum)) : Derivation .expr
  | term (first : Derivation .unary) (rest : Derivation (.more .product)) : Derivation .term
  | minus (op : Word [.symbol .minus]) (operand : Derivation .unary) : Derivation .unary
  | primary (p : Derivation .primary) : Derivation .unary
  | int (t : IntLiteral) : Derivation .primary
  | float (t : FloatLiteral) : Derivation .primary
  | var (t : Word [.ident]) : Derivation .primary
  | readInt (t : Word [.keyword .readInt]) : Derivation .primary
  | readFloat (t : Word [.keyword .readFloat]) : Derivation .primary
  | parens (opening : Word [.symbol .lparen]) (e : Derivation .expr)
      (closing : Word [.symbol .rparen]) : Derivation .primary
  | cond (first : Derivation .conj) (rest : Derivation (.more .disjunction)) : Derivation .cond
  | conj (first : Derivation .neg) (rest : Derivation (.more .conjunction)) : Derivation .conj
  | not (op : Word [.symbol .bang]) (operand : Derivation .neg) : Derivation .neg
  | condParens (opening : Word [.symbol .lparen]) (c : Derivation .cond)
      (closing : Word [.symbol .rparen]) : Derivation .neg
  | compare (left : Derivation .expr) (op : Word comparisons) (right : Derivation .expr) :
      Derivation .neg

/-- What a derivation from the nonterminal stands for. -/
def Nonterminal.Tree : Nonterminal → Type
  | .units => List Item
  | .unit => Item
  | .stmt => Stmt
  | .expr | .term | .unary | .primary => Expr
  | .cond | .conj | .neg => Cond
  | .more .sum | .more .product => Expr → Expr
  | .more .disjunction | .more .conjunction => Cond → Cond

namespace Derivation

/-- The tokens derived. -/
def tokens : {n : Nonterminal} → Derivation n → List Token
  | _, .noUnit => []
  | _, .unit first rest => first.tokens ++ rest.tokens
  | _, .decl type name semi => [type.1, name.1, semi.1]
  | _, .declInit type name eq init semi => type.1 :: name.1 :: eq.1 :: (init.tokens ++ [semi.1])
  | _, .stmt s => s.tokens
  | _, .assign name eq value semi => name.1 :: eq.1 :: (value.tokens ++ [semi.1])
  | _, .print word value semi => word.1 :: (value.tokens ++ [semi.1])
  | _, .block opening body closing => opening.1 :: (body.tokens ++ [closing.1])
  | _, .ite word opening c closing yes =>
    word.1 :: opening.1 :: (c.tokens ++ closing.1 :: yes.tokens)
  | _, .iteElse word opening c closing yes elseWord no =>
    word.1 :: opening.1 :: (c.tokens ++ closing.1 :: (yes.tokens ++ elseWord.1 :: no.tokens))
  | _, .loop word opening c closing body =>
    word.1 :: opening.1 :: (c.tokens ++ closing.1 :: body.tokens)
  | _, .noMore => []
  | _, .more op operand rest => op.1 :: (operand.tokens ++ rest.tokens)
  | _, .expr first rest => first.tokens ++ rest.tokens
  | _, .term first rest => first.tokens ++ rest.tokens
  | _, .minus op operand => op.1 :: operand.tokens
  | _, .primary p => p.tokens
  | _, .int t => [t.1]
  | _, .float t => [t.1]
  | _, .var t => [t.1]
  | _, .readInt t => [t.1]
  | _, .readFloat t => [t.1]
  | _, .parens opening e closing => opening.1 :: (e.tokens ++ [closing.1])
  | _, .cond first rest => first.tokens ++ rest.tokens
  | _, .conj first rest => first.tokens ++ rest.tokens
  | _, .not op operand => op.1 :: operand.tokens
  | _, .condParens opening c closing => opening.1 :: (c.tokens ++ [closing.1])
  | _, .compare left op right => left.tokens ++ op.1 :: right.tokens

/-- The type a declaration starts with. -/
def typeOf (t : Word [.keyword .intWord, .keyword .floatWord]) : NumType :=
  if t.1.kind = .keyword .intWord then .int else .float

def sumOp (t : Word Level.sum.operators) : BinaryOp :=
  if t.1.kind = .symbol .plus then .add else .sub

def productOp (t : Word Level.product.operators) : BinaryOp :=
  if t.1.kind = .symbol .star then .mul else .div

theorem compareOp_isSome {k : TokenKind} (h : k ∈ comparisons) : (compareOp? k).isSome := by
  simp only [comparisons, List.mem_cons, List.not_mem_nil, or_false] at h
  rcases h with rfl | rfl | rfl | rfl | rfl | rfl <;> rfl

def compareOp (t : Word comparisons) : CompareOp :=
  (compareOp? t.1.kind).get (compareOp_isSome t.2)

/-- The tree a derivation stands for. -/
def tree : {n : Nonterminal} → Derivation n → n.Tree
  | _, .noUnit => ([] : List Item)
  | _, .unit first rest => (first.tree : Item) :: (rest.tree : List Item)
  | _, .decl type name semi =>
    Item.decl ⟨typeOf type, name.1.text, none, type.1.span.upTo semi.1.span⟩
  | _, .declInit type name _ init semi =>
    Item.decl ⟨typeOf type, name.1.text, some init.tree, type.1.span.upTo semi.1.span⟩
  | _, .stmt s => Item.stmt s.tree
  | _, .assign name _ value semi =>
    Stmt.assign name.1.text value.tree (name.1.span.upTo semi.1.span)
  | _, .print word value semi => Stmt.print value.tree (word.1.span.upTo semi.1.span)
  | _, .block opening body closing => Stmt.block body.tree (opening.1.span.upTo closing.1.span)
  | _, .ite word _ c _ yes => Stmt.ite c.tree yes.tree none (word.1.span.upTo (Stmt.span yes.tree))
  | _, .iteElse word _ c _ yes _ no =>
    Stmt.ite c.tree yes.tree (some no.tree) (word.1.span.upTo (Stmt.span no.tree))
  | _, .loop word _ c _ body => Stmt.loop c.tree body.tree (word.1.span.upTo (Stmt.span body.tree))
  | _, @noMore .sum | _, @noMore .product => fun l : Expr => l
  | _, @noMore .disjunction | _, @noMore .conjunction => fun l : Cond => l
  | _, @more .sum op operand rest => fun l : Expr =>
    rest.tree (Expr.binary (sumOp op) l operand.tree (l.span.upTo (Expr.span operand.tree)))
  | _, @more .product op operand rest => fun l : Expr =>
    rest.tree (Expr.binary (productOp op) l operand.tree (l.span.upTo (Expr.span operand.tree)))
  | _, @more .disjunction _ operand rest => fun l : Cond =>
    rest.tree (Cond.logical .or l operand.tree (l.span.upTo (Cond.span operand.tree)))
  | _, @more .conjunction _ operand rest => fun l : Cond =>
    rest.tree (Cond.logical .and l operand.tree (l.span.upTo (Cond.span operand.tree)))
  | _, .expr first rest => rest.tree first.tree
  | _, .term first rest => rest.tree first.tree
  | _, .minus op operand => Expr.neg operand.tree (op.1.span.upTo (Expr.span operand.tree))
  | _, .primary p => p.tree
  | _, .int t => Expr.int ((readInt64? t.1.text).get t.2.2) t.1.span
  | _, .float t => Expr.float ((Binary64.read? t.1.text).get t.2.2) t.1.text t.1.span
  | _, .var t => Expr.var t.1.text t.1.span
  | _, .readInt t => Expr.readInt t.1.span
  | _, .readFloat t => Expr.readFloat t.1.span
  | _, .parens _ e _ => e.tree
  | _, .cond first rest => rest.tree first.tree
  | _, .conj first rest => rest.tree first.tree
  | _, .not op operand => Cond.not operand.tree (op.1.span.upTo (Cond.span operand.tree))
  | _, .condParens opening c closing =>
    Cond.withSpan (opening.1.span.upTo closing.1.span) c.tree
  | _, .compare left op right =>
    Cond.compare (compareOp op) left.tree right.tree
      ((Expr.span left.tree).upTo (Expr.span right.tree))

/-- The derivation ends in an `if` without `else`. -/
def isOpen : {n : Nonterminal} → Derivation n → Bool
  | _, .stmt s => s.isOpen
  | _, .ite _ _ _ _ _ => true
  | _, .iteElse _ _ _ _ _ _ no => no.isOpen
  | _, .loop _ _ _ _ body => body.isOpen
  | _, _ => false

/-- Every `else` belongs to the nearest `if` before it that is open. -/
def ElseNearest : {n : Nonterminal} → Derivation n → Prop
  | _, .unit first rest => first.ElseNearest ∧ rest.ElseNearest
  | _, .stmt s => s.ElseNearest
  | _, .block _ body _ => body.ElseNearest
  | _, .ite _ _ _ _ yes => yes.ElseNearest
  | _, .iteElse _ _ _ _ yes _ no => yes.isOpen = false ∧ yes.ElseNearest ∧ no.ElseNearest
  | _, .loop _ _ _ _ body => body.ElseNearest
  | _, _ => True

/-! The trees are those of the derivations in the grammar with trees. -/

theorem typeOf_spec (t : Word [.keyword .intWord, .keyword .floatWord]) :
    typeOf? t.1.kind = some (typeOf t) := by
  obtain ⟨⟨kind, _, _⟩, hk⟩ := t
  simp only [List.mem_cons, List.not_mem_nil, or_false] at hk
  rcases hk with rfl | rfl <;> rfl

theorem sumOp_spec (t : Word Level.sum.operators) : sumOp? t.1.kind = some (sumOp t) := by
  obtain ⟨⟨kind, _, _⟩, hk⟩ := t
  simp only [Level.operators, List.mem_cons, List.not_mem_nil, or_false] at hk
  rcases hk with rfl | rfl <;> rfl

theorem productOp_spec (t : Word Level.product.operators) :
    productOp? t.1.kind = some (productOp t) := by
  obtain ⟨⟨kind, _, _⟩, hk⟩ := t
  simp only [Level.operators, List.mem_cons, List.not_mem_nil, or_false] at hk
  rcases hk with rfl | rfl <;> rfl

theorem compareOp_spec (t : Word comparisons) : compareOp? t.1.kind = some (compareOp t) :=
  (Option.some_get _).symm

theorem word_kind {k : TokenKind} (t : Word [k]) : t.1.kind = k := List.mem_singleton.mp t.2

/-- What a derivation says of its tokens and its tree. A repetition extends what it is
given. -/
def Sound : {n : Nonterminal} → Derivation n → Prop
  | .units, d => DerivesItems d.tokens d.tree
  | .unit, d => DerivesItem d.tokens d.tree
  | .stmt, d => DerivesStmt d.tokens d.tree
  | .expr, d => DerivesExpr .sum d.tokens d.tree
  | .term, d => DerivesExpr .product d.tokens d.tree
  | .unary, d => DerivesExpr .signed d.tokens d.tree
  | .primary, d => DerivesExpr .primary d.tokens d.tree
  | .cond, d => DerivesCond .disjunction d.tokens d.tree
  | .conj, d => DerivesCond .conjunction d.tokens d.tree
  | .neg, d => DerivesCond .negation d.tokens d.tree
  | .more .sum, d =>
    ∀ ts e, DerivesExpr .sum ts e → DerivesExpr .sum (ts ++ d.tokens) (d.tree e)
  | .more .product, d =>
    ∀ ts e, DerivesExpr .product ts e → DerivesExpr .product (ts ++ d.tokens) (d.tree e)
  | .more .disjunction, d =>
    ∀ ts c, DerivesCond .disjunction ts c → DerivesCond .disjunction (ts ++ d.tokens) (d.tree c)
  | .more .conjunction, d =>
    ∀ ts c, DerivesCond .conjunction ts c → DerivesCond .conjunction (ts ++ d.tokens) (d.tree c)

theorem header_sound (opening : Word [.symbol .lparen]) {c : Derivation .cond}
    (closing : Word [.symbol .rparen]) (h : Sound c) :
    DerivesHeader (opening.1 :: (c.tokens ++ [closing.1])) c.tree :=
  .parens (word_kind opening) h (word_kind closing)

theorem sound {n : Nonterminal} (d : Derivation n) : Sound d := by
  induction d with
  | noUnit => exact .nil
  | unit first rest ihf ihr => exact .cons ihf ihr
  | decl type name semi =>
    exact .decl (.plain (typeOf_spec type) (word_kind name) (word_kind semi))
  | declInit type name eq init semi ih =>
    exact .decl (.init (typeOf_spec type) (word_kind name) (word_kind eq) ih (word_kind semi))
  | stmt s ih => exact .stmt ih
  | assign name eq value semi ih =>
    exact .assign (word_kind name) (word_kind eq) ih (word_kind semi)
  | print word value semi ih => exact .print (word_kind word) ih (word_kind semi)
  | block opening body closing ih => exact .block (word_kind opening) ih (word_kind closing)
  | ite word opening c closing yes ihc ihy =>
    have h := DerivesStmt.ite (word_kind word) (header_sound opening closing ihc) ihy
    rw [List.cons_append, List.append_assoc] at h
    exact h
  | iteElse word opening c closing yes elseWord no ihc ihy ihn =>
    have h := DerivesStmt.iteElse (word_kind word) (header_sound opening closing ihc) ihy
      (word_kind elseWord) ihn
    rw [List.cons_append, List.append_assoc] at h
    exact h
  | loop word opening c closing body ihc ihb =>
    have h := DerivesStmt.loop (word_kind word) (header_sound opening closing ihc) ihb
    rw [List.cons_append, List.append_assoc] at h
    exact h
  | expr first rest ihf ihr => exact ihr _ _ (.ofProduct ihf)
  | term first rest ihf ihr => exact ihr _ _ (.ofSigned ihf)
  | cond first rest ihf ihr => exact ihr _ _ (.ofConjunction ihf)
  | conj first rest ihf ihr => exact ihr _ _ (.ofNegation ihf)
  | @noMore l =>
    cases l <;>
    · intro ts e h
      rw [tokens, List.append_nil]
      exact h
  | @more l op operand rest iho ihr =>
    cases l with
    | sum =>
      intro ts e h
      have h := ihr _ _ (.sum h (sumOp_spec op) iho)
      rw [List.append_assoc] at h
      exact h
    | product =>
      intro ts e h
      have h := ihr _ _ (.product h (productOp_spec op) iho)
      rw [List.append_assoc] at h
      exact h
    | disjunction =>
      intro ts c h
      have h := ihr _ _ (.or h (word_kind op) iho)
      rw [List.append_assoc] at h
      exact h
    | conjunction =>
      intro ts c h
      have h := ihr _ _ (.and h (word_kind op) iho)
      rw [List.append_assoc] at h
      exact h
  | minus op operand ih => exact .minus (word_kind op) ih
  | primary p ih => exact .ofPrimary ih
  | int t => exact .int t.2.1 (Option.some_get _).symm
  | float t => exact .float t.2.1 (Option.some_get _).symm
  | var t => exact .var (word_kind t)
  | readInt t => exact .readInt (word_kind t)
  | readFloat t => exact .readFloat (word_kind t)
  | parens opening e closing ih => exact .parens (word_kind opening) ih (word_kind closing)
  | not op operand ih => exact .not (word_kind op) ih
  | condParens opening c closing ih =>
    exact .parens (word_kind opening) ih (word_kind closing)
  | compare left op right ihl ihr => exact .compare ihl (compareOp_spec op) ihr

/-! Whatever tokens the grammar with trees derives have a derivation. -/

/-- One more operand at the end of a repetition. -/
theorem exists_snoc {l : Level} (op : Word l.operators) (operand : Derivation l.operand) :
    (d : Derivation (.more l)) →
    ∃ d' : Derivation (.more l), d'.tokens = d.tokens ++ op.1 :: operand.tokens
  | .noMore => ⟨.more op operand .noMore, by simp [tokens]⟩
  | .more op' operand' rest => by
    obtain ⟨d', hd'⟩ := exists_snoc op operand rest
    exact ⟨.more op' operand' d', by simp [tokens, hd']⟩

end Derivation

theorem mem_of_sumOp {k : TokenKind} {op : BinaryOp} (h : sumOp? k = some op) :
    k ∈ Level.sum.operators := by
  unfold sumOp? at h
  split at h
  all_goals first | decide | cases h

theorem mem_of_productOp {k : TokenKind} {op : BinaryOp} (h : productOp? k = some op) :
    k ∈ Level.product.operators := by
  unfold productOp? at h
  split at h
  all_goals first | decide | cases h

theorem mem_of_compareOp {k : TokenKind} {op : CompareOp} (h : compareOp? k = some op) :
    k ∈ comparisons := by
  unfold compareOp? at h
  split at h
  all_goals first | decide | cases h

theorem mem_of_typeOf {k : TokenKind} {type : NumType} (h : typeOf? k = some type) :
    k ∈ [TokenKind.keyword .intWord, .keyword .floatWord] := by
  unfold typeOf? at h
  split at h
  all_goals first | decide | cases h

/-- A token of this kind. -/
def word {k : TokenKind} (t : Token) (h : t.kind = k) : Word [k] := ⟨t, List.mem_singleton.mpr h⟩

abbrev Tier.nonterminal : Tier → Nonterminal
  | .sum => .expr
  | .product => .term
  | .signed => .unary
  | .primary => .primary

abbrev CondTier.nonterminal : CondTier → Nonterminal
  | .disjunction => .cond
  | .conjunction => .conj
  | .negation => .neg

theorem DerivesExpr.derivation {k : Tier} {ts : List Token} {e : Expr} (h : DerivesExpr k ts e) :
    ∃ d : Derivation k.nonterminal, d.tokens = ts := by
  induction h with
  | ofProduct _ ih =>
    obtain ⟨d, rfl⟩ := ih
    exact ⟨.expr d .noMore, List.append_nil _⟩
  | ofSigned _ ih =>
    obtain ⟨d, rfl⟩ := ih
    exact ⟨.term d .noMore, List.append_nil _⟩
  | ofPrimary _ ih =>
    obtain ⟨d, rfl⟩ := ih
    exact ⟨.primary d, rfl⟩
  | sum _ ht _ ihl ihr =>
    obtain ⟨d, rfl⟩ := ihl
    obtain ⟨operand, rfl⟩ := ihr
    cases d with
    | expr first rest =>
      obtain ⟨rest', hrest⟩ := Derivation.exists_snoc (l := .sum) ⟨_, mem_of_sumOp ht⟩ operand rest
      refine ⟨.expr first rest', ?_⟩
      rw [Derivation.tokens, hrest, ← List.append_assoc]
      rfl
  | product _ ht _ ihl ihr =>
    obtain ⟨d, rfl⟩ := ihl
    obtain ⟨operand, rfl⟩ := ihr
    cases d with
    | term first rest =>
      obtain ⟨rest', hrest⟩ :=
        Derivation.exists_snoc (l := .product) ⟨_, mem_of_productOp ht⟩ operand rest
      refine ⟨.term first rest', ?_⟩
      rw [Derivation.tokens, hrest, ← List.append_assoc]
      rfl
  | minus ht _ ih =>
    obtain ⟨d, rfl⟩ := ih
    exact ⟨.minus (word _ ht) d, rfl⟩
  | int ht hv => exact ⟨.int ⟨_, ht, by simp [hv]⟩, rfl⟩
  | float ht hv => exact ⟨.float ⟨_, ht, by simp [hv]⟩, rfl⟩
  | var ht => exact ⟨.var (word _ ht), rfl⟩
  | readInt ht => exact ⟨.readInt (word _ ht), rfl⟩
  | readFloat ht => exact ⟨.readFloat (word _ ht), rfl⟩
  | parens ho _ hc ih =>
    obtain ⟨d, rfl⟩ := ih
    exact ⟨.parens (word _ ho) d (word _ hc), rfl⟩

theorem DerivesCond.derivation {k : CondTier} {ts : List Token} {c : Cond}
    (h : DerivesCond k ts c) : ∃ d : Derivation k.nonterminal, d.tokens = ts := by
  induction h with
  | ofConjunction _ ih =>
    obtain ⟨d, rfl⟩ := ih
    exact ⟨.cond d .noMore, List.append_nil _⟩
  | ofNegation _ ih =>
    obtain ⟨d, rfl⟩ := ih
    exact ⟨.conj d .noMore, List.append_nil _⟩
  | or _ ht _ ihl ihr =>
    obtain ⟨d, rfl⟩ := ihl
    obtain ⟨operand, rfl⟩ := ihr
    cases d with
    | cond first rest =>
      obtain ⟨rest', hrest⟩ := Derivation.exists_snoc (l := .disjunction) (word _ ht) operand rest
      refine ⟨.cond first rest', ?_⟩
      rw [Derivation.tokens, hrest, ← List.append_assoc]
      rfl
  | and _ ht _ ihl ihr =>
    obtain ⟨d, rfl⟩ := ihl
    obtain ⟨operand, rfl⟩ := ihr
    cases d with
    | conj first rest =>
      obtain ⟨rest', hrest⟩ := Derivation.exists_snoc (l := .conjunction) (word _ ht) operand rest
      refine ⟨.conj first rest', ?_⟩
      rw [Derivation.tokens, hrest, ← List.append_assoc]
      rfl
  | not ht _ ih =>
    obtain ⟨d, rfl⟩ := ih
    exact ⟨.not (word _ ht) d, rfl⟩
  | compare hl ht hr =>
    obtain ⟨l, rfl⟩ := hl.derivation
    obtain ⟨r, rfl⟩ := hr.derivation
    exact ⟨.compare l ⟨_, mem_of_compareOp ht⟩ r, rfl⟩
  | parens ho _ hc ih =>
    obtain ⟨d, rfl⟩ := ih
    exact ⟨.condParens (word _ ho) d (word _ hc), rfl⟩

theorem DerivesDecl.derivation {ts : List Token} {decl : Decl} (h : DerivesDecl ts decl) :
    ∃ d : Derivation .unit, d.tokens = ts := by
  cases h with
  | plain ht hn hs => exact ⟨.decl ⟨_, mem_of_typeOf ht⟩ (word _ hn) (word _ hs), rfl⟩
  | init ht hn ha he hs =>
    obtain ⟨e, rfl⟩ := he.derivation
    exact ⟨.declInit ⟨_, mem_of_typeOf ht⟩ (word _ hn) (word _ ha) e (word _ hs), rfl⟩

mutual

theorem DerivesStmt.derivation : {ts : List Token} → {s : Stmt} → DerivesStmt ts s →
    ∃ d : Derivation .stmt, d.tokens = ts
  | _, _, .assign ht ha he hs => by
    obtain ⟨e, rfl⟩ := he.derivation
    exact ⟨.assign (word _ ht) (word _ ha) e (word _ hs), rfl⟩
  | _, _, .print ht he hs => by
    obtain ⟨e, rfl⟩ := he.derivation
    exact ⟨.print (word _ ht) e (word _ hs), rfl⟩
  | _, _, .block ho hitems hc => by
    obtain ⟨body, rfl⟩ := hitems.derivation
    exact ⟨.block (word _ ho) body (word _ hc), rfl⟩
  | _, _, .ite ht (.parens ho hc hcl) hyes => by
    obtain ⟨c, rfl⟩ := hc.derivation
    obtain ⟨yes, rfl⟩ := hyes.derivation
    exact ⟨.ite (word _ ht) (word _ ho) c (word _ hcl) yes, by simp [Derivation.tokens, word]⟩
  | _, _, .iteElse ht (.parens ho hc hcl) hyes hu hno => by
    obtain ⟨c, rfl⟩ := hc.derivation
    obtain ⟨yes, rfl⟩ := hyes.derivation
    obtain ⟨no, rfl⟩ := hno.derivation
    exact ⟨.iteElse (word _ ht) (word _ ho) c (word _ hcl) yes (word _ hu) no,
      by simp [Derivation.tokens, word]⟩
  | _, _, .loop ht (.parens ho hc hcl) hbody => by
    obtain ⟨c, rfl⟩ := hc.derivation
    obtain ⟨body, rfl⟩ := hbody.derivation
    exact ⟨.loop (word _ ht) (word _ ho) c (word _ hcl) body, by simp [Derivation.tokens, word]⟩

theorem DerivesItem.derivation : {ts : List Token} → {u : Item} → DerivesItem ts u →
    ∃ d : Derivation .unit, d.tokens = ts
  | _, _, .decl hd => hd.derivation
  | _, _, .stmt hs => by
    obtain ⟨s, rfl⟩ := hs.derivation
    exact ⟨.stmt s, rfl⟩

theorem DerivesItems.derivation : {ts : List Token} → {us : List Item} → DerivesItems ts us →
    ∃ d : Derivation .units, d.tokens = ts
  | _, _, .nil => ⟨.noUnit, rfl⟩
  | _, _, .cons hu hus => by
    obtain ⟨first, rfl⟩ := hu.derivation
    obtain ⟨rest, rfl⟩ := hus.derivation
    exact ⟨.unit first rest, rfl⟩

end

namespace Derivation

/-! Every derivation can be turned into one in which each `else` belongs to the nearest `if`. -/

/-- An `else` that follows an open statement can be given to the `if` it is open for. -/
theorem exists_closed (elseWord : Word [.keyword .elseWord]) {no : Derivation .stmt}
    (hno : no.ElseNearest) {n : Nonterminal} (d : Derivation n) (hopen : d.isOpen = true)
    (hn : d.ElseNearest) :
    ∃ d' : Derivation n, d'.tokens = d.tokens ++ elseWord.1 :: no.tokens ∧ d'.ElseNearest := by
  induction d with
  | stmt s ih =>
    obtain ⟨s', htokens, hs'⟩ := ih hopen hn
    exact ⟨.stmt s', htokens, hs'⟩
  | ite word opening c closing yes _ ih =>
    cases hyes : yes.isOpen with
    | true =>
      obtain ⟨yes', htokens, hyes'⟩ := ih hyes hn
      exact ⟨.ite word opening c closing yes', by simp [tokens, htokens], hyes'⟩
    | false =>
      exact ⟨.iteElse word opening c closing yes elseWord no, by simp [tokens], hyes, hn, hno⟩
  | iteElse word opening c closing yes u no' _ _ ih =>
    obtain ⟨hclosed, hyes, hn⟩ := hn
    obtain ⟨no'', htokens, hno''⟩ := ih hopen hn
    exact ⟨.iteElse word opening c closing yes u no'', by simp [tokens, htokens],
      hclosed, hyes, hno''⟩
  | loop word opening c closing body _ ih =>
    obtain ⟨body', htokens, hbody'⟩ := ih hopen hn
    exact ⟨.loop word opening c closing body', by simp [tokens, htokens], hbody'⟩
  | _ => cases hopen

theorem exists_nearest {n : Nonterminal} (d : Derivation n) :
    ∃ d' : Derivation n, d'.tokens = d.tokens ∧ d'.ElseNearest := by
  induction d with
  | unit first rest ihf ihr =>
    obtain ⟨first', hf, hf'⟩ := ihf
    obtain ⟨rest', hr, hr'⟩ := ihr
    exact ⟨.unit first' rest', by rw [tokens, tokens, hf, hr], hf', hr'⟩
  | stmt s ih =>
    obtain ⟨s', hs, hs'⟩ := ih
    exact ⟨.stmt s', hs, hs'⟩
  | block opening body closing ih =>
    obtain ⟨body', hb, hb'⟩ := ih
    exact ⟨.block opening body' closing, by rw [tokens, tokens, hb], hb'⟩
  | ite word opening c closing yes _ ih =>
    obtain ⟨yes', hy, hy'⟩ := ih
    exact ⟨.ite word opening c closing yes', by rw [tokens, tokens, hy], hy'⟩
  | loop word opening c closing body _ ih =>
    obtain ⟨body', hb, hb'⟩ := ih
    exact ⟨.loop word opening c closing body', by rw [tokens, tokens, hb], hb'⟩
  | iteElse word opening c closing yes elseWord no _ ihy ihn =>
    obtain ⟨yes', hy, hy'⟩ := ihy
    obtain ⟨no', hn, hn'⟩ := ihn
    cases hopen : yes'.isOpen with
    | true =>
      -- the `else` goes to an `if` inside the branch, and this one stays open
      obtain ⟨yes'', hy'', hnear⟩ := exists_closed elseWord hn' yes' hopen hy'
      exact ⟨.ite word opening c closing yes'', by rw [tokens, tokens, hy'', hy, hn], hnear⟩
    | false =>
      exact ⟨.iteElse word opening c closing yes' elseWord no',
        by rw [tokens, tokens, hy, hn], hopen, hy', hn'⟩
  | _ => exact ⟨_, rfl, trivial⟩

/-- The tree is as open as the derivation, and takes each `else` to the same `if`. -/
def Alike : {n : Nonterminal} → Derivation n → Prop
  | .units, d => d.ElseNearest → ElseNearestIn d.tree
  | .unit, d => d.ElseNearest → Item.ElseNearest d.tree
  | .stmt, d => Stmt.isOpen d.tree = d.isOpen ∧ (d.ElseNearest → Stmt.ElseNearest d.tree)
  | _, _ => True

theorem alike {n : Nonterminal} (d : Derivation n) : Alike d := by
  induction d with
  | noUnit =>
    intro _
    simp only [tree, ElseNearestIn]
  | unit first rest ihf ihr =>
    rintro ⟨hf, hr⟩
    simp only [tree, ElseNearestIn]
    exact ⟨ihf hf, ihr hr⟩
  | decl _ _ _ | declInit _ _ _ _ _ _ =>
    intro _
    simp only [tree, Item.ElseNearest]
  | stmt s ih =>
    intro hs
    simp only [tree, Item.ElseNearest]
    exact ih.2 hs
  | assign _ _ _ _ _ | print _ _ _ _ =>
    refine ⟨rfl, fun _ => ?_⟩
    simp only [tree, Stmt.ElseNearest]
  | block _ _ _ ih =>
    refine ⟨rfl, fun hb => ?_⟩
    simp only [tree, Stmt.ElseNearest]
    exact ih hb
  | ite _ _ _ _ _ _ ih =>
    refine ⟨rfl, fun hy => ?_⟩
    simp only [tree, Stmt.ElseNearest]
    exact ih.2 hy
  | iteElse _ _ _ _ _ _ _ _ ihy ihn =>
    refine ⟨ihn.1, fun ⟨hclosed, hy, hn⟩ => ?_⟩
    simp only [tree, Stmt.ElseNearest]
    exact ⟨ihy.1.trans hclosed, ihy.2 hy, ihn.2 hn⟩
  | loop _ _ _ _ _ _ ih =>
    refine ⟨ih.1, fun hb => ?_⟩
    simp only [tree, Stmt.ElseNearest]
    exact ih.2 hb
  | @more l _ _ _ _ _ => cases l <;> trivial
  | _ => trivial

end Derivation
end Signum.Grammar
