import Signum.Proofs.Syntax.Productions
/- Tokens have at most one derivation in which each `else` belongs to the nearest `if`.

   The statement that carries the induction is about the front of some tokens. Two derivations
   from one nonterminal that take tokens off the same front take the same tokens and are the
   same, when what they leave cannot go on with either (`Determined`). The first token of a
   derivation tells which production it starts with, in all but three places. A repetition
   ends where none of its operators follows; an `if` without `else` is not followed by one; and
   where a parenthesis opens a condition, what it holds reaches an operator of comparison
   before the parenthesis that would close an operand. -/
namespace Signum.Grammar

open Signum.Parser

/-! First tokens. -/

def primaryStarts : List TokenKind :=
  [.int, .float, .ident, .keyword .readInt, .keyword .readFloat, .symbol .lparen]

def stmtStarts : List TokenKind :=
  [.ident, .keyword .printWord, .symbol .lbrace, .keyword .ifWord, .keyword .whileWord]

/-- The kinds of token that can start what is derived. -/
def Nonterminal.starts : Nonterminal → List TokenKind
  | .units | .unit => .keyword .intWord :: .keyword .floatWord :: stmtStarts
  | .stmt => stmtStarts
  | .expr | .term | .unary => .symbol .minus :: primaryStarts
  | .primary => primaryStarts
  | .cond | .conj | .neg => .symbol .bang :: .symbol .minus :: primaryStarts
  | .more l => l.operators

/-- The kinds of token that go on with what is derived. -/
def Nonterminal.continues : Nonterminal → List TokenKind
  | .units => .keyword .elseWord :: Nonterminal.unit.starts
  | .unit | .stmt | .unary | .primary => []
  | .term | .more .product => Level.product.operators
  | .expr | .neg | .more .sum => Level.sum.operators ++ Level.product.operators
  | .conj | .more .conjunction =>
    Level.conjunction.operators ++ Level.sum.operators ++ Level.product.operators
  | .cond | .more .disjunction =>
    Level.disjunction.operators ++ Level.conjunction.operators ++ Level.sum.operators ++
      Level.product.operators

namespace Derivation

/-- The kinds of token the production used first can start with. -/
def starts : {n : Nonterminal} → Derivation n → List TokenKind
  | _, .noUnit => []
  | _, .unit _ _ => Nonterminal.unit.starts
  | _, .decl _ _ _ => [.keyword .intWord, .keyword .floatWord]
  | _, .declInit _ _ _ _ _ => [.keyword .intWord, .keyword .floatWord]
  | _, .stmt _ => stmtStarts
  | _, .assign _ _ _ _ => [.ident]
  | _, .print _ _ _ => [.keyword .printWord]
  | _, .block _ _ _ => [.symbol .lbrace]
  | _, .ite _ _ _ _ _ => [.keyword .ifWord]
  | _, .iteElse _ _ _ _ _ _ _ => [.keyword .ifWord]
  | _, .loop _ _ _ _ _ => [.keyword .whileWord]
  | _, .noMore => []
  | _, @more l _ _ _ => l.operators
  | _, .expr _ _ => Nonterminal.term.starts
  | _, .term _ _ => Nonterminal.unary.starts
  | _, .minus _ _ => [.symbol .minus]
  | _, .primary _ => primaryStarts
  | _, .int _ => [.int]
  | _, .float _ => [.float]
  | _, .var _ => [.ident]
  | _, .readInt _ => [.keyword .readInt]
  | _, .readFloat _ => [.keyword .readFloat]
  | _, .parens _ _ _ => [.symbol .lparen]
  | _, .cond _ _ => Nonterminal.conj.starts
  | _, .conj _ _ => Nonterminal.neg.starts
  | _, .not _ _ => [.symbol .bang]
  | _, .condParens _ _ _ => [.symbol .lparen]
  | _, .compare _ _ _ => Nonterminal.expr.starts

theorem starts_subset {n : Nonterminal} (d : Derivation n) : d.starts ⊆ n.starts := by
  cases d with
  | noMore => exact List.nil_subset _
  | more _ _ _ => exact List.Subset.refl _
  | _ =>
    simp only [starts]
    decide

/-- A derivation is empty, or starts as its first production does. -/
def Starts {n : Nonterminal} (d : Derivation n) : Prop :=
  d.starts = [] ∧ d.tokens = [] ∨ ∃ t us, d.tokens = t :: us ∧ t.kind ∈ d.starts

theorem Starts.word {n : Nonterminal} {d : Derivation n} {t : Token} {us : List Token}
    (h : d.tokens = t :: us) (ht : t.kind ∈ d.starts) : d.Starts :=
  .inr ⟨t, us, h, ht⟩

/-- A derivation starts as the first of its parts. -/
theorem Starts.first {n m : Nonterminal} {d : Derivation n} {first : Derivation m}
    {us : List Token} (h : first.Starts) (hne : first.starts ≠ [])
    (ht : d.tokens = first.tokens ++ us) (hs : m.starts = d.starts) : d.Starts := by
  rcases h with ⟨hnil, -⟩ | ⟨t, vs, htokens, hk⟩
  · exact absurd hnil hne
  · refine .inr ⟨t, vs ++ us, ?_, hs ▸ starts_subset first hk⟩
    rw [ht, htokens, List.cons_append]

theorem head {n : Nonterminal} (d : Derivation n) : d.Starts := by
  induction d with
  | noUnit | noMore => exact .inl ⟨rfl, rfl⟩
  | unit first _ ih => exact ih.first (by cases first <;> simp [starts, stmtStarts]) rfl rfl
  | stmt s ih => exact ih.first (by cases s <;> simp [starts]) (List.append_nil _).symm rfl
  | expr first _ ih => exact ih.first (by cases first; simp [starts, Nonterminal.starts]) rfl rfl
  | term first _ ih =>
    exact ih.first (by cases first <;> simp [starts, primaryStarts]) rfl rfl
  | primary p ih => exact ih.first (by cases p <;> simp [starts]) (List.append_nil _).symm rfl
  | cond first _ ih => exact ih.first (by cases first; simp [starts, Nonterminal.starts]) rfl rfl
  | conj first _ ih =>
    exact ih.first (by cases first <;> simp [starts, Nonterminal.starts]) rfl rfl
  | compare left _ _ ih _ =>
    exact ih.first (by cases left; simp [starts, Nonterminal.starts]) rfl rfl
  | int t | float t => exact .word rfl (by simp [starts, t.2.1])
  | decl t _ _ | declInit t _ _ _ _ _ | assign t _ _ _ _ | print t _ _ _ | block t _ _ _
  | ite t _ _ _ _ _ _ | iteElse t _ _ _ _ _ _ _ _ _ | loop t _ _ _ _ _ _ | more t _ _ _ _
  | minus t _ _ | var t | readInt t | readFloat t | parens t _ _ _ | not t _ _
  | condParens t _ _ _ => exact .word rfl t.2

/-- Productions that start with different kinds of token are not used at the same front. -/
theorem clash {n m : Nonterminal} {d : Derivation n} {d' : Derivation m} {r r' : List Token}
    (h : d.tokens ++ r = d'.tokens ++ r')
    (hs : d.starts ≠ [] ∧ d'.starts ≠ [] ∧ ∀ k ∈ d.starts, k ∉ d'.starts) : False := by
  obtain ⟨hd, hd', hs⟩ := hs
  rcases d.head with ⟨hnil, -⟩ | ⟨t, us, ht, hk⟩
  · exact hd hnil
  rcases d'.head with ⟨hnil, -⟩ | ⟨t', us', ht', hk'⟩
  · exact hd' hnil
  rw [ht, ht'] at h
  obtain rfl : t = t' := (List.cons.inj h).1
  exact hs _ hk hk'

end Derivation

/-! What is left. -/

/-- What comes next does not go on with what is derived. -/
def Ends (n : Nonterminal) (r : List Token) : Prop := ∀ t ∈ r.head?, t.kind ∉ n.continues

theorem Ends.mono {n m : Nonterminal} {r : List Token} (h : Ends n r)
    (hnm : m.continues ⊆ n.continues) : Ends m r :=
  fun t ht hm => h t ht (hnm hm)

theorem word_ne {ks ks' : List TokenKind} (t : Word ks) (t' : Word ks')
    (h : ∀ k ∈ ks, k ∉ ks') : t.1 ≠ t'.1 := by
  intro heq
  have hmem := t'.2
  rw [← heq] at hmem
  exact h _ t.2 hmem

theorem ends_word {n : Nonterminal} {ks : List TokenKind} (t : Word ks)
    (h : ∀ k ∈ ks, k ∉ n.continues) (r : List Token) : Ends n (t.1 :: r) := by
  intro u hu
  obtain rfl : t.1 = u := by simpa using hu
  exact h _ t.2

/-- What is derived stops what comes before it, or leaves that to what comes after. -/
theorem ends_append {n m : Nonterminal} (d : Derivation m) {r : List Token}
    (h : ∀ k ∈ m.starts, k ∉ n.continues) (hr : Ends n r) : Ends n (d.tokens ++ r) := by
  rcases d.head with ⟨-, hnil⟩ | ⟨t, us, ht, hk⟩
  · rw [hnil]
    exact hr
  · rw [ht]
    exact ends_word ⟨t, d.starts_subset hk⟩ h _

theorem ends_operand {l : Level} (rest : Derivation (.more l)) {r : List Token}
    (hr : Ends (.more l) r) : Ends l.operand (rest.tokens ++ r) := by
  refine ends_append rest ?_ (hr.mono ?_)
  · cases l <;> decide
  · cases l <;> decide

/-- Units do not start with an `else`. -/
theorem units_noElse (d : Derivation .units) {r : List Token} (hr : Ends .units r) :
    NoElse (d.tokens ++ r) := by
  intro t ht hk
  rcases d.head with ⟨-, hnil⟩ | ⟨u, us, hu, huk⟩
  · rw [hnil] at ht
    exact hr t ht (by rw [hk]; decide)
  · rw [hu] at ht
    obtain rfl : u = t := by simpa using ht
    have hmem := d.starts_subset huk
    rw [hk] at hmem
    exact absurd hmem (by decide)

namespace Derivation

/-- What comes next goes on with nothing in the derivation. -/
def Stops {n : Nonterminal} (d : Derivation n) (r : List Token) : Prop :=
  Ends n r ∧ (d.isOpen = true → NoElse r)

/-- No other derivation takes tokens off the same front. -/
def Determined {n : Nonterminal} (d : Derivation n) : Prop :=
  d.ElseNearest → ∀ (d' : Derivation n) (r r' : List Token), d'.ElseNearest →
    d.Stops r → d'.Stops r' → d.tokens ++ r = d'.tokens ++ r' → d = d' ∧ r = r'

/-- An expression or a condition, or a part of one. -/
def Phrase : Nonterminal → Prop
  | .units | .unit | .stmt => False
  | _ => True

/-- There is no `else` to place in a phrase. -/
theorem nearest_of_phrase {n : Nonterminal} (hn : Phrase n) (d : Derivation n) : d.ElseNearest := by
  cases d <;> first | exact False.elim hn | trivial

theorem stops_of_phrase {n : Nonterminal} (hn : Phrase n) (d : Derivation n) {r : List Token}
    (hr : Ends n r) : d.Stops r := by
  refine ⟨hr, fun hopen => ?_⟩
  cases d <;> first | exact False.elim hn | cases hopen

theorem Determined.phrase {n : Nonterminal} {d : Derivation n} (h : Determined d) (hn : Phrase n)
    {d' : Derivation n} {r r' : List Token} (hr : Ends n r) (hr' : Ends n r')
    (heq : d.tokens ++ r = d'.tokens ++ r') : d = d' ∧ r = r' :=
  h (nearest_of_phrase hn d) d' r r' (nearest_of_phrase hn d') (stops_of_phrase hn d hr)
    (stops_of_phrase hn d' hr') heq

theorem operand_phrase (l : Level) : Phrase l.operand := by
  cases l <;> trivial

/-- Two chains of operands with the same first operand and the same others are the same. -/
theorem Determined.chain {l : Level} {first first' : Derivation l.operand}
    {rest rest' : Derivation (.more l)} {r r' : List Token} (hf : Determined first)
    (hr : Determined rest) (hs : Ends (.more l) r) (hs' : Ends (.more l) r')
    (h : first.tokens ++ rest.tokens ++ r = first'.tokens ++ rest'.tokens ++ r') :
    first = first' ∧ rest = rest' ∧ r = r' := by
  rw [List.append_assoc, List.append_assoc] at h
  obtain ⟨rfl, hrest⟩ :=
    hf.phrase (operand_phrase l) (ends_operand rest hs) (ends_operand rest' hs') h
  exact ⟨rfl, hr.phrase trivial hs hs' hrest⟩

/-- The condition after `if` or `while` is found, with its parentheses. -/
theorem Determined.header {ks : List TokenKind} {word word' : Word ks}
    {opening opening' : Word [.symbol .lparen]} {c c' : Derivation .cond}
    {closing closing' : Word [.symbol .rparen]} {xs ys : List Token} (hc : Determined c)
    (h : word.1 :: opening.1 :: (c.tokens ++ closing.1 :: xs) =
      word'.1 :: opening'.1 :: (c'.tokens ++ closing'.1 :: ys)) :
    word = word' ∧ opening = opening' ∧ c = c' ∧ closing = closing' ∧ xs = ys := by
  simp only [List.cons.injEq] at h
  obtain ⟨hw, ho, h⟩ := h
  have hstop (t : Word [.symbol .rparen]) (us : List Token) : Ends .cond (t.1 :: us) :=
    ends_word t (by decide) us
  obtain ⟨rfl, hrest⟩ := hc.phrase trivial (hstop closing xs) (hstop closing' ys) h
  obtain ⟨hcl, hxs⟩ := List.cons.inj hrest
  exact ⟨Subtype.ext hw, Subtype.ext ho, rfl, Subtype.ext hcl, hxs⟩

/-- What is derived up to a closing word is found with it. -/
theorem Determined.closed {n : Nonterminal} {d d' : Derivation n} {ks : List TokenKind}
    {closing closing' : Word ks} {r r' : List Token} (h : Determined d)
    (hks : ∀ k ∈ ks, k ∉ n.continues) (hn : Phrase n)
    (heq : d.tokens ++ [closing.1] ++ r = d'.tokens ++ [closing'.1] ++ r') :
    d = d' ∧ closing = closing' ∧ r = r' := by
  rw [List.append_assoc, List.append_assoc] at heq
  obtain ⟨rfl, hrest⟩ := h.phrase hn (ends_word closing hks r) (ends_word closing' hks r') heq
  obtain ⟨hcl, hr⟩ := List.cons.inj hrest
  exact ⟨rfl, Subtype.ext hcl, hr⟩

/-- Where a parenthesis opens a condition, no comparison can be read. -/
theorem not_compare_of_parens {left right : Derivation .expr} {op : Word comparisons}
    {opening : Word [.symbol .lparen]} {c : Derivation .cond} {closing : Word [.symbol .rparen]}
    {r r' : List Token}
    (h : (compare left op right).tokens ++ r = (condParens opening c closing).tokens ++ r') :
    False := by
  simp only [tokens, List.append_assoc, List.cons_append] at h
  have hstop : NoOperator (op.1 :: (right.tokens ++ r)) := noOperator_of_compare (compareOp_spec op)
  have hleft := expr_gives ⟨0, 0⟩ left.sound hstop
  rw [h] at hleft
  exact no_expr_of_parens _ (word_kind opening) (stopsAtCompare_of_cond _ c.sound _) hleft

/-- A repetition that goes on at a front does not stop there. -/
theorem not_empty_of_continues {n : Nonterminal} {d : Derivation n} {r r' : List Token}
    (h : d.tokens ++ r = r') (hd : d.starts ≠ []) (hn : n.starts ⊆ n.continues) : ¬Ends n r' := by
  intro hr'
  rcases d.head with ⟨hnil, -⟩ | ⟨t, us, ht, hk⟩
  · exact hd hnil
  · rw [ht] at h
    subst h
    exact hr' t rfl (hn (d.starts_subset hk))

theorem more_continues (l : Level) :
    Nonterminal.starts (.more l) ⊆ Nonterminal.continues (.more l) := by
  cases l <;> decide

theorem operators_ne_nil (l : Level) : l.operators ≠ [] := by
  cases l <;> decide

/-! One production at a time. -/

section Units
variable {first : Derivation .unit} {rest : Derivation .units} {s : Derivation .stmt}

theorem stops_of_units (d : Derivation .units) {r : List Token} (hr : Ends .units r) :
    d.Stops r :=
  ⟨hr, by cases d <;> nofun⟩

theorem determined_noUnit : Determined .noUnit := by
  intro _ d' r r' _ hr _ h
  cases d' with
  | noUnit => exact ⟨rfl, h⟩
  | unit first rest =>
    exact absurd hr.1 (not_empty_of_continues h.symm (List.cons_ne_nil _ _) (by decide))

theorem determined_unit (hf : Determined first) (hrest : Determined rest) :
    Determined (.unit first rest) := by
  intro hn d' r r' hn' hr hr' h
  cases d' with
  | noUnit => exact absurd hr'.1 (not_empty_of_continues h (List.cons_ne_nil _ _) (by decide))
  | unit first' rest' =>
    rw [tokens, tokens, List.append_assoc, List.append_assoc] at h
    have hstop {d : Derivation .unit} {us : Derivation .units} {q : List Token}
        (hq : Ends .units q) : d.Stops (us.tokens ++ q) :=
      ⟨fun _ _ => List.not_mem_nil, fun _ => units_noElse us hq⟩
    obtain ⟨rfl, hs⟩ := hf hn.1 first' _ _ hn'.1 (hstop hr.1) (hstop hr'.1) h
    obtain ⟨rfl, rfl⟩ :=
      hrest hn.2 rest' r r' hn'.2 (stops_of_units _ hr.1) (stops_of_units _ hr'.1) hs
    exact ⟨rfl, rfl⟩

theorem determined_decl {type : Word [.keyword .intWord, .keyword .floatWord]}
    {name : Word [.ident]} {semi : Word [.symbol .semi]} : Determined (.decl type name semi) := by
  intro _ d' r r' _ _ _ h
  cases d' with
  | decl type' name' semi' =>
    simp only [tokens, List.cons_append, List.nil_append, List.cons.injEq] at h
    obtain ⟨ht, hname, hs, hr⟩ := h
    exact ⟨by rw [Subtype.ext ht, Subtype.ext hname, Subtype.ext hs], hr⟩
  | declInit type' name' eq' init' semi' =>
    simp only [tokens, List.cons_append, List.nil_append, List.cons.injEq] at h
    exact absurd h.2.2.1 (word_ne semi eq' (by decide))
  | stmt s => exact (clash h (by rw [starts, starts]; decide)).elim

theorem determined_declInit {type : Word [.keyword .intWord, .keyword .floatWord]}
    {name : Word [.ident]} {eq : Word [.symbol .assign]} {init : Derivation .expr}
    {semi : Word [.symbol .semi]} (hinit : Determined init) :
    Determined (.declInit type name eq init semi) := by
  intro _ d' r r' _ _ _ h
  cases d' with
  | decl type' name' semi' =>
    simp only [tokens, List.cons_append, List.nil_append, List.cons.injEq] at h
    exact absurd h.2.2.1 (word_ne eq semi' (by decide))
  | declInit type' name' eq' init' semi' =>
    simp only [tokens, List.cons_append, List.cons.injEq] at h
    obtain ⟨ht, hname, heq, hrest⟩ := h
    obtain ⟨rfl, rfl, rfl⟩ := hinit.closed (by decide) trivial hrest
    exact ⟨by rw [Subtype.ext ht, Subtype.ext hname, Subtype.ext heq], rfl⟩
  | stmt s => exact (clash h (by rw [starts, starts]; decide)).elim

theorem determined_stmt (hs : Determined s) : Determined (.stmt s) := by
  intro hn d' r r' hn' hr hr' h
  cases d' with
  | stmt s' =>
    obtain ⟨rfl, rfl⟩ := hs hn s' r r' hn' hr hr' h
    exact ⟨rfl, rfl⟩
  | _ => exact (clash h (by rw [starts, starts]; decide)).elim

end Units

section Statements
variable {c : Derivation .cond} {e : Derivation .expr} {yes no body : Derivation .stmt}
  {opening : Word [.symbol .lparen]} {closing : Word [.symbol .rparen]}
  {semi : Word [.symbol .semi]}

theorem determined_assign {name : Word [.ident]} {eq : Word [.symbol .assign]}
    (he : Determined e) : Determined (.assign name eq e semi) := by
  intro _ d' r r' _ _ _ h
  cases d' with
  | assign name' eq' value' semi' =>
    simp only [tokens, List.cons_append, List.cons.injEq] at h
    obtain ⟨hname, heq, hrest⟩ := h
    obtain ⟨rfl, rfl, rfl⟩ := he.closed (by decide) trivial hrest
    exact ⟨by rw [Subtype.ext hname, Subtype.ext heq], rfl⟩
  | _ => exact (clash h (by rw [starts, starts]; decide)).elim

theorem determined_print {word : Word [.keyword .printWord]} (he : Determined e) :
    Determined (.print word e semi) := by
  intro _ d' r r' _ _ _ h
  cases d' with
  | print word' value' semi' =>
    obtain ⟨hword, hrest⟩ := List.cons.inj h
    obtain ⟨rfl, rfl, rfl⟩ := he.closed (by decide) trivial hrest
    exact ⟨by rw [Subtype.ext hword], rfl⟩
  | _ => exact (clash h (by rw [starts, starts]; decide)).elim

theorem determined_block {opening : Word [.symbol .lbrace]} {units : Derivation .units}
    {closing : Word [.symbol .rbrace]} (hunits : Determined units) :
    Determined (.block opening units closing) := by
  intro hn d' r r' hn' _ _ h
  cases d' with
  | block opening' units' closing' =>
    simp only [tokens, List.cons_append, List.append_assoc, List.cons.injEq] at h
    obtain ⟨hopening, h⟩ := h
    have hstop {us : Derivation .units} (t : Word [.symbol .rbrace]) {q : List Token} :
        us.Stops (t.1 :: q) :=
      stops_of_units us (ends_word t (by decide) q)
    obtain ⟨rfl, hrest⟩ := hunits hn units' _ _ hn' (hstop closing) (hstop closing') h
    obtain ⟨hclosing, hr⟩ := List.cons.inj hrest
    exact ⟨by rw [Subtype.ext hopening, Subtype.ext hclosing], hr⟩
  | _ => exact (clash h (by rw [starts, starts]; decide)).elim

/-- An `else` stops a branch that is closed. -/
theorem stops_of_else (hclosed : yes.isOpen = false) (r : List Token) : yes.Stops r :=
  ⟨fun _ _ => List.not_mem_nil, by simp [hclosed]⟩

theorem determined_ite {word : Word [.keyword .ifWord]} (hc : Determined c)
    (hyes : Determined yes) : Determined (.ite word opening c closing yes) := by
  intro hn d' r r' hn' hr hr' h
  cases d' with
  | ite word' opening' c' closing' yes' =>
    simp only [tokens, List.cons_append, List.append_assoc] at h
    obtain ⟨rfl, rfl, rfl, rfl, hrest⟩ := hc.header h
    obtain ⟨rfl, rfl⟩ := hyes hn yes' r r' hn' ⟨hr.1, fun _ => hr.2 rfl⟩
      ⟨hr'.1, fun _ => hr'.2 rfl⟩ hrest
    exact ⟨rfl, rfl⟩
  | iteElse word' opening' c' closing' yes' elseWord' no' =>
    simp only [tokens, List.cons_append, List.append_assoc] at h
    obtain ⟨-, -, -, -, hrest⟩ := hc.header h
    obtain ⟨hclosed, hyes', -⟩ := hn'
    -- the branches are the same, so an `else` follows the `if` that has none
    obtain ⟨-, rfl⟩ := hyes hn yes' _ _ hyes' ⟨hr.1, fun _ => hr.2 rfl⟩
      (stops_of_else hclosed _) hrest
    exact absurd (word_kind elseWord') (hr.2 rfl _ rfl)
  | _ => exact (clash h (by rw [starts, starts]; decide)).elim

theorem determined_iteElse {word : Word [.keyword .ifWord]} {elseWord : Word [.keyword .elseWord]}
    (hc : Determined c) (hyes : Determined yes) (hno : Determined no) :
    Determined (.iteElse word opening c closing yes elseWord no) := by
  intro hn d' r r' hn' hr hr' h
  obtain ⟨hclosed, hy, hn⟩ := hn
  cases d' with
  | ite word' opening' c' closing' yes' =>
    simp only [tokens, List.cons_append, List.append_assoc] at h
    obtain ⟨-, -, -, -, hrest⟩ := hc.header h
    obtain ⟨-, rfl⟩ := hyes hy yes' _ _ hn' (stops_of_else hclosed _)
      ⟨hr'.1, fun _ => hr'.2 rfl⟩ hrest
    exact absurd (word_kind elseWord) (hr'.2 rfl _ rfl)
  | iteElse word' opening' c' closing' yes' elseWord' no' =>
    simp only [tokens, List.cons_append, List.append_assoc] at h
    obtain ⟨rfl, rfl, rfl, rfl, hrest⟩ := hc.header h
    obtain ⟨hclosed', hy', hn'⟩ := hn'
    obtain ⟨rfl, hafter⟩ := hyes hy yes' _ _ hy' (stops_of_else hclosed _)
      (stops_of_else hclosed' _) hrest
    obtain ⟨helse, hafter⟩ := List.cons.inj hafter
    obtain ⟨rfl, rfl⟩ := hno hn no' r r' hn' hr hr' hafter
    exact ⟨by rw [Subtype.ext helse], rfl⟩
  | _ => exact (clash h (by rw [starts, starts]; decide)).elim

theorem determined_loop {word : Word [.keyword .whileWord]} (hc : Determined c)
    (hbody : Determined body) : Determined (.loop word opening c closing body) := by
  intro hn d' r r' hn' hr hr' h
  cases d' with
  | loop word' opening' c' closing' body' =>
    simp only [tokens, List.cons_append, List.append_assoc] at h
    obtain ⟨rfl, rfl, rfl, rfl, hrest⟩ := hc.header h
    obtain ⟨rfl, rfl⟩ := hbody hn body' r r' hn' hr hr' hrest
    exact ⟨rfl, rfl⟩
  | _ => exact (clash h (by rw [starts, starts]; decide)).elim

end Statements

section Phrases
variable {l : Level} {opening : Word [.symbol .lparen]} {closing : Word [.symbol .rparen]}

theorem determined_noMore : Determined (.noMore (l := l)) := by
  intro _ d' r r' _ hr _ h
  cases d' with
  | noMore => exact ⟨rfl, h⟩
  | more op operand rest =>
    exact absurd hr.1 (not_empty_of_continues h.symm (operators_ne_nil l) (more_continues l))

theorem determined_more {op : Word l.operators} {operand : Derivation l.operand}
    {rest : Derivation (.more l)} (ho : Determined operand) (hrest : Determined rest) :
    Determined (.more op operand rest) := by
  intro _ d' r r' _ hr hr' h
  cases d' with
  | noMore => exact absurd hr'.1 (not_empty_of_continues h (operators_ne_nil l) (more_continues l))
  | more op' operand' rest' =>
    obtain ⟨hop, h⟩ := List.cons.inj h
    obtain ⟨rfl, rfl, rfl⟩ := ho.chain hrest hr.1 hr'.1 h
    exact ⟨by rw [Subtype.ext hop], rfl⟩

theorem determined_unary_minus {op : Word [.symbol .minus]} {operand : Derivation .unary}
    (ho : Determined operand) : Determined (.minus op operand) := by
  intro _ d' r r' _ _ _ h
  cases d' with
  | minus op' operand' =>
    obtain ⟨hop, h⟩ := List.cons.inj h
    obtain ⟨rfl, rfl⟩ := ho.phrase trivial (fun _ _ => List.not_mem_nil)
      (fun _ _ => List.not_mem_nil) h
    exact ⟨by rw [Subtype.ext hop], rfl⟩
  | _ => exact (clash h (by rw [starts, starts]; decide)).elim

theorem determined_unary_primary {p : Derivation .primary} (hp : Determined p) :
    Determined (.primary p) := by
  intro _ d' r r' _ _ _ h
  cases d' with
  | primary p' =>
    obtain ⟨rfl, rfl⟩ := hp.phrase trivial (fun _ _ => List.not_mem_nil)
      (fun _ _ => List.not_mem_nil) h
    exact ⟨rfl, rfl⟩
  | _ => exact (clash h (by rw [starts, starts]; decide)).elim

theorem determined_parens {e : Derivation .expr} (he : Determined e) :
    Determined (.parens opening e closing) := by
  intro _ d' r r' _ _ _ h
  cases d' with
  | parens opening' e' closing' =>
    obtain ⟨hopening, h⟩ := List.cons.inj h
    obtain ⟨rfl, rfl, rfl⟩ := he.closed (by decide) trivial h
    exact ⟨by rw [Subtype.ext hopening], rfl⟩
  | _ => exact (clash h (by rw [starts, starts]; decide)).elim

theorem determined_not {op : Word [.symbol .bang]} {operand : Derivation .neg}
    (ho : Determined operand) : Determined (.not op operand) := by
  intro _ d' r r' _ hr hr' h
  cases d' with
  | not op' operand' =>
    obtain ⟨hop, h⟩ := List.cons.inj h
    obtain ⟨rfl, rfl⟩ := ho.phrase trivial hr.1 hr'.1 h
    exact ⟨by rw [Subtype.ext hop], rfl⟩
  | _ => exact (clash h (by rw [starts, starts]; decide)).elim

theorem determined_condParens {c : Derivation .cond} (hc : Determined c) :
    Determined (.condParens opening c closing) := by
  intro _ d' r r' _ _ _ h
  cases d' with
  | not op' operand' => exact (clash h (by rw [starts, starts]; decide)).elim
  | condParens opening' c' closing' =>
    obtain ⟨hopening, h⟩ := List.cons.inj h
    obtain ⟨rfl, rfl, rfl⟩ := hc.closed (by decide) trivial h
    exact ⟨by rw [Subtype.ext hopening], rfl⟩
  | compare left' op' right' => exact (not_compare_of_parens h.symm).elim

theorem determined_compare {left right : Derivation .expr} {op : Word comparisons}
    (hl : Determined left) (hr : Determined right) : Determined (.compare left op right) := by
  intro _ d' r r' _ hs hs' h
  cases d' with
  | not op' operand' => exact (clash h (by rw [starts, starts]; decide)).elim
  | condParens opening' c' closing' => exact (not_compare_of_parens h).elim
  | compare left' op' right' =>
    simp only [tokens, List.append_assoc, List.cons_append] at h
    have hstop (t : Word comparisons) (us : List Token) : Ends .expr (t.1 :: us) :=
      ends_word t (by decide) us
    obtain ⟨rfl, hrest⟩ := hl.phrase trivial (hstop op _) (hstop op' _) h
    obtain ⟨hop, hrest⟩ := List.cons.inj hrest
    obtain ⟨rfl, rfl⟩ := hr.phrase trivial hs.1 hs'.1 hrest
    exact ⟨by rw [Subtype.ext hop], rfl⟩

end Phrases

theorem determined {n : Nonterminal} (d : Derivation n) : Determined d := by
  induction d with
  | noUnit => exact determined_noUnit
  | unit _ _ ihf ihr => exact determined_unit ihf ihr
  | decl _ _ _ => exact determined_decl
  | declInit _ _ _ _ _ ih => exact determined_declInit ih
  | stmt _ ih => exact determined_stmt ih
  | assign _ _ _ _ ih => exact determined_assign ih
  | print _ _ _ ih => exact determined_print ih
  | block _ _ _ ih => exact determined_block ih
  | ite _ _ _ _ _ ihc ihy => exact determined_ite ihc ihy
  | iteElse _ _ _ _ _ _ _ ihc ihy ihn => exact determined_iteElse ihc ihy ihn
  | loop _ _ _ _ _ ihc ihb => exact determined_loop ihc ihb
  | noMore => exact determined_noMore
  | more _ _ _ iho ihr => exact determined_more iho ihr
  | expr _ _ ihf ihr | term _ _ ihf ihr | cond _ _ ihf ihr | conj _ _ ihf ihr =>
    rintro _ ⟨_, _⟩ r r' _ hr hr' h
    obtain ⟨rfl, rfl, rfl⟩ := Determined.chain ihf ihr hr.1 hr'.1 h
    exact ⟨rfl, rfl⟩
  | minus _ _ ih => exact determined_unary_minus ih
  | primary _ ih => exact determined_unary_primary ih
  | int t | float t | var t | readInt t | readFloat t =>
    intro _ d' r r' _ _ _ h
    cases d'
    all_goals first
      | exact (clash h (by rw [starts, starts]; decide)).elim
      | exact ⟨by rw [Subtype.ext (List.cons.inj h).1], (List.cons.inj h).2⟩
  | parens _ _ _ ih => exact determined_parens ih
  | not _ _ ih => exact determined_not ih
  | condParens _ _ _ ih => exact determined_condParens ih
  | compare _ _ _ ihl ihr => exact determined_compare ihl ihr

/-- The tokens of a program have one derivation that gives each `else` to the nearest `if`. -/
theorem unique {d d' : Derivation .units} (hd : d.ElseNearest) (hd' : d'.ElseNearest)
    (h : d.tokens = d'.tokens) : d = d' := by
  have hstop (d : Derivation .units) : d.Stops [] := stops_of_units d nofun
  exact (d.determined hd d' [] [] hd' (hstop d) (hstop d') (by rw [h])).1

/-- The parser finds the derivation. -/
theorem items_eq (finish : Point) (d : Derivation .units) (hd : d.ElseNearest) :
    items finish d.tokens = .ok d.tree :=
  items_gives finish d.sound (d.alike hd)

end Derivation
end Grammar

open Grammar

theorem Program.parse_of_tokens {source : Bytes} {lexed : Lexer.Lexed}
    (h : Lexer.tokenize source = .ok lexed) :
    Program.parse source = (Parser.items lexed.finish lexed.tokens).map fun units =>
      ⟨units, Lexer.commentText lexed.header, ⟨Point.origin, lexed.finish⟩⟩ := by
  unfold Program.parse
  rw [h]

/-- The parser gives the tree of the derivation that takes each `else` to the nearest `if`. -/
theorem Program.parse_of_derivation {source : Bytes} {lexed : Lexer.Lexed}
    (h : Lexer.tokenize source = .ok lexed) {d : Derivation .units}
    (hd : d.tokens = lexed.tokens) (hnear : d.ElseNearest) :
    Program.parse source =
      .ok ⟨d.tree, Lexer.commentText lexed.header, ⟨Point.origin, lexed.finish⟩⟩ := by
  rw [parse_of_tokens h, ← hd, d.items_eq _ hnear]
  rfl

/-- What the parser gives is the tree of such a derivation. -/
theorem Program.derivation_of_parse {source : Bytes} {p : Program}
    (h : Program.parse source = .ok p) :
    ∃ lexed, Lexer.tokenize source = .ok lexed ∧ ∃ d : Derivation .units,
      d.tokens = lexed.tokens ∧ d.ElseNearest ∧
      p = ⟨d.tree, Lexer.commentText lexed.header, ⟨Point.origin, lexed.finish⟩⟩ := by
  cases hlexed : Lexer.tokenize source with
  | error failure =>
    unfold Program.parse at h
    rw [hlexed] at h
    cases h
  | ok lexed =>
    have hparse := parse_of_tokens hlexed
    rw [h] at hparse
    cases hitems : Parser.items lexed.finish lexed.tokens with
    | error failure =>
      rw [hitems] at hparse
      cases hparse
    | ok units =>
      obtain ⟨d, hd⟩ := (Parser.items_derives lexed.finish lexed.tokens hitems).derivation
      obtain ⟨d', htokens, hnear⟩ := d.exists_nearest
      have hp := parse_of_derivation hlexed (htokens.trans hd) hnear
      rw [h] at hp
      exact ⟨lexed, rfl, d', htokens.trans hd, hnear, Except.ok.inj hp⟩

theorem Program.parse_grammar {source : Bytes} {lexed : Lexer.Lexed}
    (h : Lexer.tokenize source = .ok lexed) :
    ((∃ p, Program.parse source = .ok p) ↔ ∃ d : Derivation .units, d.tokens = lexed.tokens) ∧
      ∀ p, Program.parse source = .ok p →
        ∃ d : Derivation .units, d.tokens = lexed.tokens ∧ d.ElseNearest ∧
          (∀ d' : Derivation .units, d'.tokens = lexed.tokens → d'.ElseNearest → d' = d) ∧
          p = ⟨d.tree, Lexer.commentText lexed.header, ⟨Point.origin, lexed.finish⟩⟩ := by
  have hderived (p : Program) (hp : Program.parse source = .ok p) :
      ∃ d : Derivation .units, d.tokens = lexed.tokens ∧ d.ElseNearest ∧
        p = ⟨d.tree, Lexer.commentText lexed.header, ⟨Point.origin, lexed.finish⟩⟩ := by
    obtain ⟨lexed', h', hd⟩ := derivation_of_parse hp
    obtain rfl : lexed = lexed' := Except.ok.inj (h.symm.trans h')
    exact hd
  refine ⟨⟨fun ⟨p, hp⟩ => ?_, fun ⟨d, hd⟩ => ?_⟩, fun p hp => ?_⟩
  · obtain ⟨d, hd, -⟩ := hderived p hp
    exact ⟨d, hd⟩
  · obtain ⟨d', htokens, hnear⟩ := d.exists_nearest
    exact ⟨_, parse_of_derivation h (htokens.trans hd) hnear⟩
  · obtain ⟨d, hd, hnear, hp⟩ := hderived p hp
    refine ⟨d, hd, hnear, fun d' hd' hnear' => ?_, hp⟩
    exact Derivation.unique hnear' hnear (hd'.trans hd.symm)

theorem exists_ok {ε α : Type} {x : Except ε α} (h : x.isOk = true) : ∃ a, x = .ok a := by
  cases x with
  | error e => cases h
  | ok a => exact ⟨a, rfl⟩

/-- A source where an `else` could belong to either `if`. -/
theorem Program.parse_grammar_dangling :
    ∃ lexed, Lexer.tokenize "if (a < b) if (c < d) print 1; else print 2;" = .ok lexed ∧
      ∃ d : Derivation .units, d.tokens = lexed.tokens ∧ d.ElseNearest := by
  have hok : (Lexer.tokenize "if (a < b) if (c < d) print 1; else print 2;").isOk = true := by
    decide +kernel
  have hparsed : (Program.parse "if (a < b) if (c < d) print 1; else print 2;").isOk = true := by
    decide +kernel
  obtain ⟨lexed, hlexed⟩ := exists_ok hok
  obtain ⟨p, hp⟩ := exists_ok hparsed
  obtain ⟨d, htokens, hnear, -⟩ := (parse_grammar hlexed).2 p hp
  exact ⟨lexed, hlexed, d, htokens, hnear⟩

end Signum
