import Signum.Proofs.Syntax.Lexemes
import Signum.Proofs.Syntax.Productions
import Signum.Syntax.Format
/- The canonical text of a tree is cut into the words of the tree.

   `erase` forgets the places of a tree, which the text does not show. `Written` says of the
   names and literals in a tree what a source gives them: they are the texts of tokens, and the
   numbers are those the texts stand for. The words of a tree are those of its text, put
   together as the text is. That the text is cut into them is shown part by part:
   `Prints C text words` says that the text is cut into the words in front of whatever
   satisfies `C` and is itself cut into words. -/
namespace Signum

open Lexer (Genuine Delimits Lexes Ends Clean)

/-! Trees without places. -/

def Span.nowhere : Span := ⟨Point.origin, Point.origin⟩

/-- The expression without its places. -/
def Expr.erase : Expr → Expr
  | .int v _ => .int v .nowhere
  | .float v text _ => .float v text .nowhere
  | .var name _ => .var name .nowhere
  | .readInt _ => .readInt .nowhere
  | .readFloat _ => .readFloat .nowhere
  | .neg e _ => .neg e.erase .nowhere
  | .binary op l r _ => .binary op l.erase r.erase .nowhere

/-- The condition without its places. -/
def Cond.erase : Cond → Cond
  | .compare op l r _ => .compare op l.erase r.erase .nowhere
  | .logical op l r _ => .logical op l.erase r.erase .nowhere
  | .not c _ => .not c.erase .nowhere

/-- The declaration without its places. -/
def Decl.erase (d : Decl) : Decl := ⟨d.type, d.name, d.init.map Expr.erase, .nowhere⟩

mutual

/-- The statement without its places. -/
def Stmt.erase : Stmt → Stmt
  | .assign name value _ => .assign name value.erase .nowhere
  | .print value _ => .print value.erase .nowhere
  | .block body _ => .block (eraseItems body) .nowhere
  | .ite c yes none _ => .ite c.erase yes.erase none .nowhere
  | .ite c yes (some no) _ => .ite c.erase yes.erase (some no.erase) .nowhere
  | .loop c body _ => .loop c.erase body.erase .nowhere

def Item.erase : Item → Item
  | .decl d => .decl d.erase
  | .stmt s => .stmt s.erase

def eraseItems : List Item → List Item
  | [] => []
  | u :: rest => u.erase :: eraseItems rest

end

theorem Cond.erase_withSpan (c : Cond) (s : Span) : (c.withSpan s).erase = c.erase := by
  cases c <;> rfl

/-! What the text shows is left when the places are gone. -/

theorem Expr.precedence_erase (e : Expr) : e.erase.precedence = e.precedence := by
  cases e with
  | binary op l r s => cases op <;> rfl
  | _ => rfl

theorem Expr.format_erase (e : Expr) : e.erase.format = e.format := by
  induction e with
  | neg e s ih => simp only [erase, format, ih, precedence_erase]
  | binary op l r s ihl ihr =>
    have hp : (binary op l.erase r.erase .nowhere).precedence = (binary op l r s).precedence :=
      precedence_erase (binary op l r s)
    simp only [erase, format, ihl, ihr, precedence_erase, hp]
  | _ => rfl

theorem Cond.precedence_erase (c : Cond) : c.erase.precedence = c.precedence := by
  cases c with
  | logical op l r s => cases op <;> rfl
  | _ => rfl

theorem Cond.isNot_erase (c : Cond) : c.erase.isNot = c.isNot := by
  cases c <;> rfl

theorem Cond.format_erase (c : Cond) : c.erase.format = c.format := by
  induction c with
  | compare op l r s => simp only [erase, format, Expr.format_erase]
  | not c s ih => simp only [erase, format, ih, isNot_erase]
  | logical op l r s ihl ihr =>
    have hp : (logical op l.erase r.erase .nowhere).precedence = (logical op l r s).precedence :=
      precedence_erase (logical op l r s)
    simp only [erase, format, ihl, ihr, precedence_erase, hp]

theorem Decl.format_erase (d : Decl) : d.erase.format = d.format := by
  obtain ⟨type, name, init, span⟩ := d
  cases init with
  | none => rfl
  | some e => simp only [erase, format, Option.map_some, Expr.format_erase]

theorem Stmt.isBlock_erase (s : Stmt) : s.erase.isBlock = s.isBlock := by
  cases s with
  | ite c yes no s => cases no <;> simp only [erase, isBlock]
  | _ => simp only [erase, isBlock]

mutual

theorem Stmt.format_erase (depth : Nat) : (s : Stmt) → s.erase.format depth = s.format depth
  | .assign _ _ _ | .print _ _ => by simp only [Stmt.erase, Stmt.format, Expr.format_erase]
  | .block body _ => by simp only [Stmt.erase, Stmt.format, format_eraseItems (depth + 1) body]
  | .ite _ yes none _ => by
    simp only [Stmt.erase, Stmt.format, Cond.format_erase, Stmt.format_erase depth yes]
  | .ite _ yes (some no) _ => by
    simp only [Stmt.erase, Stmt.format, Cond.format_erase, Stmt.format_erase depth yes,
      Stmt.isBlock_erase, Stmt.format_erase depth no]
  | .loop _ body _ => by
    simp only [Stmt.erase, Stmt.format, Cond.format_erase, Stmt.format_erase depth body]

theorem Item.format_erase (depth : Nat) : (u : Item) → u.erase.format depth = u.format depth
  | .decl d => by simp only [Item.erase, Item.format, Decl.format_erase]
  | .stmt s => by simp only [Item.erase, Item.format, Stmt.format_erase depth s]

theorem format_eraseItems (depth : Nat) : (us : List Item) →
    formatItems depth (eraseItems us) = formatItems depth us
  | [] => by simp only [eraseItems]
  | u :: rest => by
    simp only [eraseItems, formatItems, Item.format_erase depth u, format_eraseItems depth rest]

end

theorem Stmt.isOpen_erase : (s : Stmt) → s.erase.isOpen = s.isOpen
  | .assign _ _ _ | .print _ _ | .block _ _ | .ite _ _ none _ => by simp only [erase, isOpen]
  | .ite _ _ (some no) _ => by simp only [erase, isOpen, isOpen_erase no]
  | .loop _ body _ => by simp only [erase, isOpen, isOpen_erase body]

mutual

theorem Stmt.elseNearest_erase : (s : Stmt) → (s.erase.ElseNearest ↔ s.ElseNearest)
  | .assign _ _ _ | .print _ _ => by simp only [Stmt.erase, Stmt.ElseNearest]
  | .block body _ => by simp only [Stmt.erase, Stmt.ElseNearest, elseNearest_eraseItems body]
  | .ite _ yes none _ => by simp only [Stmt.erase, Stmt.ElseNearest, Stmt.elseNearest_erase yes]
  | .ite _ yes (some no) _ => by
    simp only [Stmt.erase, Stmt.ElseNearest, Stmt.isOpen_erase, Stmt.elseNearest_erase yes,
      Stmt.elseNearest_erase no]
  | .loop _ body _ => by simp only [Stmt.erase, Stmt.ElseNearest, Stmt.elseNearest_erase body]

theorem Item.elseNearest_erase : (u : Item) → (u.erase.ElseNearest ↔ u.ElseNearest)
  | .decl _ => by simp only [Item.erase, Item.ElseNearest]
  | .stmt s => by simp only [Item.erase, Item.ElseNearest, Stmt.elseNearest_erase s]

theorem elseNearest_eraseItems : (us : List Item) →
    (ElseNearestIn (eraseItems us) ↔ ElseNearestIn us)
  | [] => by simp only [eraseItems]
  | u :: rest => by
    simp only [eraseItems, ElseNearestIn, Item.elseNearest_erase u, elseNearest_eraseItems rest]

end

/-! Trees that a source can have. -/

/-- The names and literals of the expression are texts of tokens, with their values. -/
def Expr.Written : Expr → Prop
  | .int v _ => 0 ≤ v.toInt
  | .float v text _ => Genuine .float text ∧ Binary64.read? text = some v
  | .var name _ => Genuine .ident name
  | .readInt _ | .readFloat _ => True
  | .neg e _ => e.Written
  | .binary _ l r _ => l.Written ∧ r.Written

def Cond.Written : Cond → Prop
  | .compare _ l r _ => l.Written ∧ r.Written
  | .logical _ l r _ => l.Written ∧ r.Written
  | .not c _ => c.Written

def Decl.Written (d : Decl) : Prop := Genuine .ident d.name ∧ ∀ e ∈ d.init, e.Written

mutual

def Stmt.Written : Stmt → Prop
  | .assign name value _ => Genuine .ident name ∧ value.Written
  | .print value _ => value.Written
  | .block body _ => WrittenIn body
  | .ite c yes none _ => c.Written ∧ yes.Written
  | .ite c yes (some no) _ => c.Written ∧ yes.Written ∧ no.Written
  | .loop c body _ => c.Written ∧ body.Written

def Item.Written : Item → Prop
  | .decl d => d.Written
  | .stmt s => s.Written

def WrittenIn : List Item → Prop
  | [] => True
  | u :: rest => u.Written ∧ WrittenIn rest

end

theorem Cond.written_withSpan {c : Cond} (h : c.Written) (s : Span) : (c.withSpan s).Written := by
  cases c <;> exact h

/-- An integer literal without a sign stands for no negative number. -/
theorem nonneg_of_readInt64 {text : Bytes} {v : Int64} (h : readInt64? text = some v)
    (hsign : text.head? ≠ some 45) : 0 ≤ v.toInt := by
  unfold readInt64? at h
  have hpos : (splitSign text).1 = false := by
    unfold splitSign
    split
    · rfl
    · exact absurd rfl hsign
    · rfl
  simp only [hpos] at h
  split at h
  · cases h
  · simp only [Bool.false_eq_true, if_false] at h
    split at h
    · next hfits =>
      cases h
      have hpow : Nat.pow 2 63 = 9223372036854775808 := rfl
      rw [Int64.toInt_ofInt_of_le (by omega) (by omega)]
      omega
    · cases h

namespace Grammar.Derivation

/-- The tree of the derivation is one that a source can have. A repetition keeps it so. -/
def Written : {n : Nonterminal} → Derivation n → Prop
  | .units, d => WrittenIn d.tree
  | .unit, d => Item.Written d.tree
  | .stmt, d => Stmt.Written d.tree
  | .expr, d | .term, d | .unary, d | .primary, d => Expr.Written d.tree
  | .cond, d | .conj, d | .neg, d => Cond.Written d.tree
  | .more .sum, d | .more .product, d => ∀ e : Expr, e.Written → Expr.Written (d.tree e)
  | .more .disjunction, d | .more .conjunction, d =>
    ∀ c : Cond, c.Written → Cond.Written (d.tree c)

theorem ident_genuine {t : Word [.ident]} (h : Clean t.1) : Genuine .ident t.1.text := by
  have hg := h.genuine (.inl (word_kind t))
  rwa [word_kind t] at hg

theorem written {n : Nonterminal} (d : Derivation n) (h : ∀ t ∈ d.tokens, Clean t) :
    d.Written := by
  induction d with
  | noUnit => simp only [Written, tree, WrittenIn]
  | unit first rest ihf ihr =>
    obtain ⟨hfirst, hrest⟩ := List.forall_mem_append.mp h
    simp only [Written, tree, WrittenIn]
    exact ⟨ihf hfirst, ihr hrest⟩
  | decl type name semi =>
    simp only [tokens, List.forall_mem_cons] at h
    obtain ⟨-, hname, -⟩ := h
    simp only [Written, tree, Item.Written]
    exact ⟨ident_genuine hname, fun e he => by cases he⟩
  | declInit type name eq init semi ih =>
    simp only [tokens, List.forall_mem_cons, List.forall_mem_append] at h
    obtain ⟨-, hname, -, hinit, -⟩ := h
    simp only [Written, tree, Item.Written]
    refine ⟨ident_genuine hname, fun e he => ?_⟩
    cases he
    exact ih hinit
  | stmt s ih =>
    simp only [Written, tree, Item.Written]
    exact ih h
  | assign name eq value semi ih =>
    simp only [tokens, List.forall_mem_cons, List.forall_mem_append] at h
    obtain ⟨hname, -, hvalue, -⟩ := h
    simp only [Written, tree, Stmt.Written]
    exact ⟨ident_genuine hname, ih hvalue⟩
  | print word value semi ih =>
    simp only [tokens, List.forall_mem_cons, List.forall_mem_append] at h
    simp only [Written, tree, Stmt.Written]
    exact ih h.2.1
  | block opening body closing ih =>
    simp only [tokens, List.forall_mem_cons, List.forall_mem_append] at h
    simp only [Written, tree, Stmt.Written]
    exact ih h.2.1
  | ite word opening c closing yes ihc ihy =>
    simp only [tokens, List.forall_mem_cons, List.forall_mem_append] at h
    obtain ⟨-, -, hc, -, hyes⟩ := h
    simp only [Written, tree, Stmt.Written]
    exact ⟨ihc hc, ihy hyes⟩
  | iteElse word opening c closing yes elseWord no ihc ihy ihn =>
    simp only [tokens, List.forall_mem_cons, List.forall_mem_append] at h
    obtain ⟨-, -, hc, -, hyes, -, hno⟩ := h
    simp only [Written, tree, Stmt.Written]
    exact ⟨ihc hc, ihy hyes, ihn hno⟩
  | loop word opening c closing body ihc ihb =>
    simp only [tokens, List.forall_mem_cons, List.forall_mem_append] at h
    obtain ⟨-, -, hc, -, hbody⟩ := h
    simp only [Written, tree, Stmt.Written]
    exact ⟨ihc hc, ihb hbody⟩
  | @noMore l => cases l <;> exact fun _ he => he
  | @more l op operand rest iho ihr =>
    -- the rest is put on top of what came before, so its hypothesis is about any such tree
    simp only [tokens, List.forall_mem_cons, List.forall_mem_append] at h
    obtain ⟨-, hoperand, hrest⟩ := h
    have ho := iho hoperand
    have hr := ihr hrest
    cases l <;> exact fun _ he => hr _ ⟨he, ho⟩
  | expr first rest ihf ihr | term first rest ihf ihr | cond first rest ihf ihr
  | conj first rest ihf ihr =>
    obtain ⟨hfirst, hrest⟩ := List.forall_mem_append.mp h
    exact ihr hrest _ (ihf hfirst)
  | minus op operand ih | not op operand ih => exact ih (List.forall_mem_cons.mp h).2
  | primary p ih => exact ih h
  | int t =>
    have hclean := h t.1 List.mem_cons_self
    exact nonneg_of_readInt64 (Option.some_get t.2.2).symm (hclean.unsigned t.2.1)
  | float t =>
    have hg := (h t.1 List.mem_cons_self).genuine (.inr t.2.1)
    rw [t.2.1] at hg
    exact ⟨hg, (Option.some_get t.2.2).symm⟩
  | var t => exact ident_genuine (h t.1 List.mem_cons_self)
  | readInt t | readFloat t => trivial
  | parens opening e closing ih =>
    simp only [tokens, List.forall_mem_cons, List.forall_mem_append] at h
    exact ih h.2.1
  | condParens opening c closing ih =>
    simp only [tokens, List.forall_mem_cons, List.forall_mem_append] at h
    exact Cond.written_withSpan (ih h.2.1) _
  | compare left op right ihl ihr =>
    simp only [tokens, List.forall_mem_cons, List.forall_mem_append] at h
    obtain ⟨hleft, -, hright⟩ := h
    exact ⟨ihl hleft, ihr hright⟩

end Grammar.Derivation
/-! Words. -/

def symbolWord (s : Symbol) : Lexeme := (.symbol s, s.text)

def keywordWord (k : Keyword) : Lexeme := (.keyword k, k.text)

def BinaryOp.token : BinaryOp → Symbol
  | .add => .plus
  | .sub => .minus
  | .mul => .star
  | .div => .slash

def CompareOp.token : CompareOp → Symbol
  | .eq => .eq
  | .ne => .ne
  | .lt => .lt
  | .gt => .gt
  | .le => .le
  | .ge => .ge

def LogicalOp.token : LogicalOp → Symbol
  | .and => .andAnd
  | .or => .orOr

def NumType.keyword : NumType → Keyword
  | .int => .intWord
  | .float => .floatWord

/-- The words, in parentheses when asked for. -/
def wrapWords (paren : Bool) (words : List Lexeme) : List Lexeme :=
  if paren then symbolWord .lparen :: (words ++ [symbolWord .rparen]) else words

/-- The words of the canonical text of an expression. -/
def Expr.words : Expr → List Lexeme
  | .int v _ => [(.int, Bytes.ofInt v.toInt)]
  | .float _ text _ => [(.float, text)]
  | .var name _ => [(.ident, name)]
  | .readInt _ => [keywordWord .readInt]
  | .readFloat _ => [keywordWord .readFloat]
  | .neg e _ => symbolWord .minus :: wrapWords (e.precedence < 3) e.words
  | .binary op l r s =>
    let p := (binary op l r s).precedence
    wrapWords (l.precedence < p) l.words ++
      symbolWord op.token :: wrapWords (r.precedence ≤ p) r.words

/-- The words of the canonical text of a condition. -/
def Cond.words : Cond → List Lexeme
  | .compare op l r _ => l.words ++ symbolWord op.token :: r.words
  | .not c _ => symbolWord .bang :: wrapWords (!c.isNot) c.words
  | .logical op l r s =>
    let p := (logical op l r s).precedence
    wrapWords (l.precedence < p) l.words ++
      symbolWord op.token :: wrapWords (r.precedence ≤ p) r.words

/-- The words of the canonical text of a declaration. -/
def Decl.words (d : Decl) : List Lexeme :=
  match d.init with
  | some e => keywordWord d.type.keyword :: (.ident, d.name) :: symbolWord .assign ::
      (e.words ++ [symbolWord .semi])
  | none => [keywordWord d.type.keyword, (.ident, d.name), symbolWord .semi]

/-- The words of a header, after its keyword. -/
def Cond.headerWords (c : Cond) : List Lexeme :=
  symbolWord .lparen :: (c.words ++ [symbolWord .rparen])

mutual

/-- The words of the canonical text of a statement. -/
def Stmt.words : Stmt → List Lexeme
  | .assign name value _ =>
    (.ident, name) :: symbolWord .assign :: (value.words ++ [symbolWord .semi])
  | .print value _ => keywordWord .printWord :: (value.words ++ [symbolWord .semi])
  | .block body _ => symbolWord .lbrace :: (itemWords body ++ [symbolWord .rbrace])
  | .ite c yes none _ => keywordWord .ifWord :: (c.headerWords ++ yes.words)
  | .ite c yes (some no) _ =>
    keywordWord .ifWord :: (c.headerWords ++ (yes.words ++ keywordWord .elseWord :: no.words))
  | .loop c body _ => keywordWord .whileWord :: (c.headerWords ++ body.words)

def Item.words : Item → List Lexeme
  | .decl d => d.words
  | .stmt s => s.words

def itemWords : List Item → List Lexeme
  | [] => []
  | u :: rest => u.words ++ itemWords rest

end

/-! Texts. -/

/-- In front of what satisfies the condition, the text is cut into the words. -/
def Prints (C : Bytes → Prop) (text : Bytes) (words : List Lexeme) : Prop :=
  ∀ rest more, C rest → Lexes rest more → Lexes (text ++ rest) (words ++ more)

/-- No condition on what follows. -/
def Anything (_ : Bytes) : Prop := True

namespace Prints
variable {C D : Bytes → Prop} {x y : Bytes} {xs ys : List Lexeme}

theorem append (hx : Prints C x xs) (hy : Prints D y ys) (h : ∀ rest, D rest → C (y ++ rest)) :
    Prints D (x ++ y) (xs ++ ys) := by
  intro rest more hrest hmore
  rw [List.append_assoc, List.append_assoc]
  exact hx _ _ (h rest hrest) (hy rest more hrest hmore)

theorem mono (hx : Prints C x xs) (h : ∀ rest, D rest → C rest) : Prints D x xs :=
  fun rest more hrest hmore => hx rest more (h rest hrest) hmore

theorem blanks (hx : ∀ b ∈ x, Lexer.isBlank b = true) : Prints Anything x [] := by
  intro rest more _ hmore
  induction x with
  | nil => exact hmore
  | cons b x ih =>
    exact .blank (hx b (by simp)) (ih fun c hc => hx c (by simp [hc]))

theorem blank {b : UInt8} (hb : Lexer.isBlank b = true) : Prints Anything [b] [] :=
  fun _ _ _ hmore => .blank hb hmore

theorem genuine {kind : TokenKind} (h : Genuine kind x) (hk : kind ≠ .symbol .slash) :
    Prints Delimits x [(kind, x)] :=
  fun _ _ hrest hmore => .genuine h hk hrest hmore

theorem keyword (k : Keyword) : Prints Delimits k.text [keywordWord k] :=
  genuine (Lexer.keyword_genuine k) (by simp)

theorem symbol (s : Symbol) :
    Prints (fun rest => Ends s rest ∧ (s = .slash → rest.head? ≠ some 47)) s.text
      [symbolWord s] :=
  fun _ _ hrest hmore => .symbol hrest.1 hrest.2 hmore

/-- Most symbols are cut in front of anything. -/
theorem mark (s : Symbol) (hs : s ∉ [Symbol.assign, .lt, .gt, .bang, .slash]) :
    Prints Anything s.text [symbolWord s] := by
  refine (symbol s).mono fun rest _ => ⟨fun h => absurd ?_ hs, fun h => absurd ?_ hs⟩
  · rcases h with rfl | rfl | rfl | rfl <;> simp
  · simp [h]

/-- All symbols are cut between blanks. -/
theorem spaced (s : Symbol) : Prints Anything ([32] ++ s.text ++ [32]) [symbolWord s] := by
  have hblank : Prints Anything [32] [] := blank (by decide)
  refine (hblank.append (symbol s) fun _ _ => trivial).append hblank fun rest _ => ⟨?_, ?_⟩
  · intro _
    simp
  · intro _
    simp

end Prints

theorem delimits_cons {b : UInt8} (hb : b = 32 ∨ b = 59 ∨ b = 41) (rest : Bytes) :
    Delimits (b :: rest) := by
  intro c hc
  obtain rfl : b = c := by simpa using hc
  exact hb

theorem semi_prints : Prints Anything ";" [symbolWord .semi] := Prints.mark .semi (by decide)

theorem Prints.wrap {x : Bytes} {xs : List Lexeme} (paren : Bool) (hx : Prints Delimits x xs) :
    Prints Delimits (wrap paren x) (wrapWords paren xs) := by
  cases paren with
  | false => exact hx
  | true =>
    have hopen := (mark .lparen (by decide)).append hx fun _ _ => trivial
    have hclose := hopen.append (mark .rparen (by decide))
      fun rest _ => delimits_cons (by simp) rest
    exact hclose.mono fun _ _ => trivial

/-- Two operands with an operator between blanks. -/
theorem Prints.joined {x y op : Bytes} {xs ys : List Lexeme} {s : Symbol}
    (hx : Prints Delimits x xs) (hop : s.text = op) (hy : Prints Delimits y ys) :
    Prints Delimits (x ++ " " ++ op ++ " " ++ y) (xs ++ symbolWord s :: ys) := by
  subst hop
  have hleft := hx.append (spaced s) fun rest _ => delimits_cons (by simp) _
  have hall := hleft.append hy fun _ _ => trivial
  have hspace : (" " : Bytes) = [32] := by decide
  rw [hspace]
  simp only [List.append_assoc] at hall ⊢
  exact hall

/-! Numbers. -/

theorem isDigit_digit {d : Nat} (h : d < 10) : Bytes.isDigit (Bytes.digit d) = true := by
  have hcases : ∀ d < 10, Bytes.isDigit (Bytes.digit d) = true := by decide
  exact hcases d h

theorem toNat_digit {d : Nat} (h : d < 10) : (Bytes.digit d).toNat - 48 = d := by
  have hcases : ∀ d < 10, (Bytes.digit d).toNat - 48 = d := by decide
  exact hcases d h

theorem ofNat_digits (n : Nat) :
    Bytes.ofNat n ≠ [] ∧ ∀ b ∈ Bytes.ofNat n, Bytes.isDigit b = true := by
  fun_induction Bytes.ofNat n with
  | case1 n h => exact ⟨by simp, by simpa using isDigit_digit h⟩
  | case2 n h ih =>
    refine ⟨by simp, fun b hb => ?_⟩
    rcases List.mem_append.mp hb with hb | hb
    · exact ih.2 b hb
    · obtain rfl := List.mem_singleton.mp hb
      exact isDigit_digit (by omega)

theorem toNat_ofNat (n : Nat) : Bytes.toNat (Bytes.ofNat n) = n := by
  fun_induction Bytes.ofNat n with
  | case1 n h => simpa [Bytes.toNat] using toNat_digit h
  | case2 n h ih =>
    have hlast := toNat_digit (d := n % 10) (by omega)
    unfold Bytes.toNat at ih ⊢
    rw [List.foldl_append, ih]
    simp only [List.foldl_cons, List.foldl_nil, hlast]
    omega

/-- The digits of a number are read as the number. -/
theorem readInt64?_ofInt {v : Int64} (h : 0 ≤ v.toInt) :
    Genuine .int (Bytes.ofInt v.toInt) ∧ readInt64? (Bytes.ofInt v.toInt) = some v := by
  obtain ⟨n, hn⟩ : ∃ n : Nat, v.toInt = n := ⟨v.toInt.toNat, by omega⟩
  obtain ⟨hne, hdigits⟩ := ofNat_digits n
  have hlt := v.toInt_lt
  have htext : Bytes.ofInt v.toInt = Bytes.ofNat n := by rw [hn]; rfl
  rw [htext]
  refine ⟨Lexer.digits_genuine hne hdigits, ?_⟩
  have hsign : splitSign (Bytes.ofNat n) = (false, Bytes.ofNat n) := by
    unfold splitSign
    split
    · next rest heq => exact absurd (hdigits 43 (by simp [heq])) (by decide)
    · next rest heq => exact absurd (hdigits 45 (by simp [heq])) (by decide)
    · rfl
  have hall : (Bytes.ofNat n).all Bytes.isDigit = true := List.all_eq_true.mpr hdigits
  have hempty : (Bytes.ofNat n).isEmpty = false := by simpa using hne
  have hfits : n < Nat.pow 2 63 := by
    have hpow : Nat.pow 2 63 = 9223372036854775808 := rfl
    omega
  unfold readInt64?
  simp only [hsign, hall, hempty, toNat_ofNat]
  simp [hfits, ← hn]

/-! Expressions and conditions. -/

theorem BinaryOp.token_text (op : BinaryOp) : op.token.text = op.symbol := by cases op <;> rfl

theorem CompareOp.token_text (op : CompareOp) : op.token.text = op.symbol := by cases op <;> rfl

theorem LogicalOp.token_text (op : LogicalOp) : op.token.text = op.symbol := by cases op <;> rfl

theorem Expr.prints (e : Expr) (h : e.Written) : Prints Delimits e.format e.words := by
  induction e with
  | int v s => exact .genuine (readInt64?_ofInt h).1 (by simp)
  | float v text s =>
    have hne : text.isEmpty = false := by simpa using h.1.1
    simp only [format, words, hne, Bool.false_eq_true, if_false]
    exact .genuine h.1 (by simp)
  | var name s => exact .genuine h (by simp)
  | readInt s => exact .keyword .readInt
  | readFloat s => exact .keyword .readFloat
  | neg e s ih =>
    have hminus := Prints.mark .minus (by decide)
    exact hminus.append ((ih h).wrap _) fun _ _ => trivial
  | binary op l r s ihl ihr =>
    exact ((ihl h.1).wrap _).joined op.token_text ((ihr h.2).wrap _)

/-- What is negated starts with a parenthesis or another negation. -/
theorem head_wrap_ne (c : Cond) (rest : Bytes) :
    (wrap (!c.isNot) c.format ++ rest).head? ≠ some 61 := by
  have hbang : ("!" : Bytes) = [33] := by decide
  have hparen : ("(" : Bytes) = [40] := by decide
  cases c with
  | not c s => simp [wrap, Cond.isNot, Cond.format, hbang]
  | compare op l r s => simp [wrap, Cond.isNot, hparen]
  | logical op l r s => simp [wrap, Cond.isNot, hparen]

theorem Cond.prints (c : Cond) (h : c.Written) : Prints Delimits c.format c.words := by
  induction c with
  | compare op l r s => exact (l.prints h.1).joined op.token_text (r.prints h.2)
  | not c s ih =>
    refine (Prints.symbol .bang).append ((ih h).wrap _) fun rest _ => ⟨fun _ => ?_, nofun⟩
    exact head_wrap_ne c rest
  | logical op l r s ihl ihr =>
    exact ((ihl h.1).wrap _).joined op.token_text ((ihr h.2).wrap _)

/-! Declarations and statements. -/

/-- A keyword and the blank after it. -/
theorem Prints.spacedKeyword (k : Keyword) : Prints Anything (k.text ++ [32]) [keywordWord k] :=
  (keyword k).append (blank (by decide)) fun rest _ => delimits_cons (by simp) rest

theorem Expr.prints_semi {e : Expr} (h : e.Written) :
    Prints Anything (e.format ++ ";") (e.words ++ [symbolWord .semi]) :=
  (e.prints h).append semi_prints fun rest _ => delimits_cons (by simp) rest

/-- A value after its equals sign. -/
theorem Expr.prints_assigned {e : Expr} (h : e.Written) :
    Prints Anything (" = " ++ (e.format ++ ";"))
      (symbolWord .assign :: (e.words ++ [symbolWord .semi])) := by
  have hsign : (" = " : Bytes) = [32] ++ Symbol.assign.text ++ [32] := by decide
  rw [hsign]
  exact (Prints.spaced .assign).append (prints_semi h) fun _ _ => trivial

theorem delimits_assigned (x : Bytes) : Delimits (" = " ++ x) := by
  have hsign : (" = " : Bytes) = [32, 61, 32] := by decide
  rw [hsign]
  exact delimits_cons (by simp) _

theorem Decl.prints {d : Decl} (h : d.Written) : Prints Anything d.format d.words := by
  obtain ⟨type, name, init, span⟩ := d
  obtain ⟨hname, hinit⟩ := h
  have htype : Prints Anything (type.name ++ " ") [keywordWord type.keyword] := by
    cases type
    · exact Prints.spacedKeyword .intWord
    · exact Prints.spacedKeyword .floatWord
  have hstart := htype.append (Prints.genuine hname (by simp)) fun _ _ => trivial
  cases init with
  | none => exact hstart.append semi_prints fun rest _ => delimits_cons (by simp) rest
  | some e =>
    have hall := hstart.append (e.prints_assigned (hinit e rfl)) fun rest _ => by
      rw [List.append_assoc]
      exact delimits_assigned _
    simp only [List.append_assoc] at hall
    simp only [Decl.format, List.append_assoc]
    exact hall

/-- A keyword with its header and the blank after it. -/
theorem Cond.prints_header {c : Cond} (h : c.Written) {k : Keyword} {lead : Bytes}
    (hlead : lead = k.text ++ [32] ++ Symbol.lparen.text) :
    Prints Anything (lead ++ c.format ++ ") ") (keywordWord k :: c.headerWords) := by
  subst hlead
  have hopen := (Prints.spacedKeyword k).append (Prints.mark .lparen (by decide)) fun _ _ => trivial
  have hclose : Prints Anything ") " [symbolWord .rparen] :=
    (Prints.mark .rparen (by decide)).append (Prints.blank (by decide))
      fun _ _ => trivial
  exact (hopen.append (c.prints h) fun _ _ => trivial).append hclose
    fun rest _ => delimits_cons (by simp) _

theorem if_lead : ("if (" : Bytes) = Keyword.ifWord.text ++ [32] ++ Symbol.lparen.text := by decide

theorem while_lead :
    ("while (" : Bytes) = Keyword.whileWord.text ++ [32] ++ Symbol.lparen.text := by
  decide

theorem indentation_blank (depth : Nat) : ∀ b ∈ indentation depth, Lexer.isBlank b = true := by
  intro b hb
  obtain rfl : b = 9 := List.eq_of_mem_replicate hb
  decide

mutual

theorem Stmt.prints : (s : Stmt) → s.Written → ∀ depth, Prints Anything (s.format depth) s.words
  | .assign name value _, h, depth => by
    obtain ⟨hname, hvalue⟩ : _ ∧ _ := by simpa only [Stmt.Written] using h
    have hall := (Prints.genuine hname (by simp)).append (value.prints_assigned hvalue)
      fun rest _ => by
        rw [List.append_assoc]
        exact delimits_assigned _
    simp only [Stmt.format, Stmt.words, List.append_assoc]
    exact hall
  | .print value _, h, depth => by
    have hvalue : value.Written := by simpa only [Stmt.Written] using h
    have hall := (Prints.spacedKeyword .printWord).append (value.prints_semi hvalue)
      fun _ _ => trivial
    simp only [Stmt.format, Stmt.words, List.append_assoc] at hall ⊢
    exact hall
  | .block body _, h, depth => by
    have hbody : WrittenIn body := by simpa only [Stmt.Written] using h
    have hopen : Prints Anything "\x7b\n" [symbolWord .lbrace] :=
      (Prints.mark .lbrace (by decide)).append (Prints.blank (by decide))
        fun _ _ => trivial
    have hall := ((hopen.append (items_print body hbody (depth + 1)) fun _ _ => trivial).append
      (Prints.blanks (indentation_blank depth)) fun _ _ => trivial).append
        (Prints.mark .rbrace (by decide)) fun _ _ => trivial
    simp only [Stmt.format, Stmt.words]
    rw [List.append_nil] at hall
    exact hall
  | .ite c yes none _, h, depth => by
    obtain ⟨hc, hyes⟩ : _ ∧ _ := by simpa only [Stmt.Written] using h
    have hall := (c.prints_header hc if_lead).append (Stmt.prints yes hyes depth)
      fun _ _ => trivial
    simp only [Stmt.format, Stmt.words]
    exact hall
  | .ite c yes (some no) _, h, depth => by
    obtain ⟨hc, hyes, hno⟩ : _ ∧ _ ∧ _ := by simpa only [Stmt.Written] using h
    -- `else` follows the brace of a block, and stands on a line of its own otherwise
    have hgap : ∀ b ∈ (if yes.isBlock then [32] else Bytes.newline :: indentation depth),
        Lexer.isBlank b = true := by
      split
      · intro b hb
        obtain rfl := List.mem_singleton.mp hb
        decide
      · intro b hb
        rcases List.mem_cons.mp hb with rfl | hb
        · decide
        · exact indentation_blank depth b hb
    have hthen := (c.prints_header hc if_lead).append
      (Stmt.prints yes hyes depth) fun _ _ => trivial
    have helse := (hthen.append (Prints.blanks hgap) fun _ _ => trivial).append
      (Prints.spacedKeyword .elseWord) fun _ _ => trivial
    have hall := helse.append (Stmt.prints no hno depth) fun _ _ => trivial
    simp only [Stmt.format, Stmt.words]
    simp only [List.append_assoc, List.cons_append, List.nil_append] at hall ⊢
    exact hall
  | .loop c body _, h, depth => by
    obtain ⟨hc, hbody⟩ : _ ∧ _ := by simpa only [Stmt.Written] using h
    have hall := (c.prints_header hc while_lead).append
      (Stmt.prints body hbody depth) fun _ _ => trivial
    simp only [Stmt.format, Stmt.words]
    exact hall

theorem Item.prints : (u : Item) → u.Written → ∀ depth, Prints Anything (u.format depth) u.words
  | .decl d, h, depth => by
    simp only [Item.format, Item.words]
    exact Decl.prints (by simpa only [Item.Written] using h)
  | .stmt s, h, depth => by
    simp only [Item.format, Item.words]
    exact Stmt.prints s (by simpa only [Item.Written] using h) depth

theorem items_print : (us : List Item) → WrittenIn us →
    ∀ depth, Prints Anything (formatItems depth us) (itemWords us)
  | [], _, depth => by
    simp only [formatItems, itemWords]
    exact fun rest more _ h => h
  | u :: us, h, depth => by
    obtain ⟨hu, hus⟩ : _ ∧ _ := by simpa only [WrittenIn] using h
    have hend : Prints Anything "\n" [] := Prints.blank (by decide)
    have hline := ((Prints.blanks (indentation_blank depth)).append (Item.prints u hu depth)
      fun _ _ => trivial).append hend fun _ _ => trivial
    have hall := hline.append (items_print us hus depth) fun _ _ => trivial
    simp only [formatItems, itemWords]
    rw [List.append_nil, List.nil_append] at hall
    exact hall

end

end Signum
