import Signum.Proofs.Syntax.Grammar
/- The parser reads what the grammar derives.

   `Reads P ts x` says that what the step `x` takes from the tokens `ts`, when it succeeds,
   is related by `P` to what it gives. Every function of the parser reads derivations; the
   functions that go on with the parts read so far extend the derivation of these. -/
namespace Signum.Parser

open Grammar

/-- What a step takes from the front of `ts` is related to what it gives. -/
def Reads {α : Type} {n : Nat} (P : List Token → α → Prop) (ts : List Token) (x : Step α n) : Prop :=
  ∀ a rest h, x = .ok a rest h → ∃ seg, ts = seg ++ rest ∧ P seg a

namespace Reads
variable {α β : Type} {m n : Nat} {P : List Token → α → Prop} {Q : List Token → β → Prop}
  {ts : List Token}

/-- Nothing more is taken. -/
theorem done {a : α} {h : ts.length < n} (hp : P [] a) : Reads P ts (.ok a ts h : Step α n) := by
  intro b rest h' heq
  cases heq
  exact ⟨[], rfl, hp⟩

/-- One token is taken. -/
theorem token {t : Token} {a : α} {h : ts.length < n} (hp : P [t] a) :
    Reads P (t :: ts) (.ok a ts h : Step α n) := by
  intro b rest h' heq
  cases heq
  exact ⟨[t], rfl, hp⟩

theorem error {failure : Failure} {reached : List Token} :
    Reads P ts (.error failure reached : Step α n) :=
  fun _ _ _ h => by cases h

theorem bind {x : Step α m} {f : (a : α) → (rest : List Token) → rest.length < m → Step β n}
    (hx : Reads P ts x)
    (hf : ∀ a rest h seg, ts = seg ++ rest → P seg a →
      Reads (fun seg' b => Q (seg ++ seg') b) rest (f a rest h)) : Reads Q ts (x.bind f) := by
  intro b rest h heq
  cases x with
  | error failure reached => cases heq
  | ok a rest₁ h₁ =>
    obtain ⟨seg, rfl, hp⟩ := hx a rest₁ h₁ rfl
    obtain ⟨seg', rfl, hq⟩ := hf a rest₁ h₁ seg rfl hp b rest h heq
    exact ⟨seg ++ seg', by simp, hq⟩

theorem weaken {x : Step α m} (h : m ≤ n) (hx : Reads P ts x) : Reads P ts (x.weaken h) := by
  cases x with
  | error failure reached => exact error
  | ok a rest hlt =>
    intro b rest' h' heq
    cases heq
    exact hx a rest hlt rfl

theorem mono {P' : List Token → α → Prop} {x : Step α n} (hx : Reads P ts x)
    (hp : ∀ seg a, P seg a → P' seg a) : Reads P' ts x := by
  intro a rest h heq
  obtain ⟨seg, hts, hseg⟩ := hx a rest h heq
  exact ⟨seg, hts, hp seg a hseg⟩

/-- A token that has been looked at is taken along. -/
theorem cons {t : Token} {x : Step α n} (hx : Reads (fun seg a => P (t :: seg) a) ts x) :
    Reads P (t :: ts) x := by
  intro a rest h heq
  obtain ⟨seg, rfl, hp⟩ := hx a rest h heq
  exact ⟨t :: seg, rfl, hp⟩

end Reads

theorem expect_reads (finish : Point) (kind : TokenKind) (what : Bytes) (ts : List Token) :
    Reads (fun seg t => seg = [t] ∧ t.kind = kind) ts (expect finish kind what ts) := by
  unfold expect
  split
  · next t rest =>
    split
    · next hk => exact Reads.token ⟨rfl, hk⟩
    · exact Reads.error
  · exact Reads.error

section Parsing
variable (finish : Point)

mutual

theorem expr_reads (ts : List Token) : Reads (DerivesExpr .sum) ts (expr finish ts) := by
  rw [expr]
  refine Reads.bind (term_reads ts) fun left rest h seg hts hseg => ?_
  exact (exprTail_reads (.ofProduct hseg) rest).weaken _
termination_by 4 * ts.length + 3
decreasing_by all_goals omega

theorem exprTail_reads {left : Expr} {ls : List Token} (hl : DerivesExpr .sum ls left) :
    (ts : List Token) →
    Reads (fun seg e => DerivesExpr .sum (ls ++ seg) e) ts (exprTail finish left ts)
  | [] => by
    rw [exprTail]
    exact Reads.done (by simpa using hl)
  | t :: rest => by
    rw [exprTail]
    split
    · next op hop =>
      refine Reads.cons (Reads.bind (term_reads rest) fun right rest' h seg hts hseg => ?_)
      refine Reads.weaken _ ((exprTail_reads (.sum hl hop hseg) rest').mono fun seg' e he => ?_)
      simpa using he
    · exact Reads.done (by simpa using hl)
termination_by ts => 4 * ts.length
decreasing_by all_goals (simp only [List.length_cons] at *; omega)

theorem term_reads (ts : List Token) : Reads (DerivesExpr .product) ts (term finish ts) := by
  rw [term]
  refine Reads.bind (unary_reads ts) fun left rest h seg hts hseg => ?_
  exact (termTail_reads (.ofSigned hseg) rest).weaken _
termination_by 4 * ts.length + 2
decreasing_by all_goals omega

theorem termTail_reads {left : Expr} {ls : List Token} (hl : DerivesExpr .product ls left) :
    (ts : List Token) →
    Reads (fun seg e => DerivesExpr .product (ls ++ seg) e) ts (termTail finish left ts)
  | [] => by
    rw [termTail]
    exact Reads.done (by simpa using hl)
  | t :: rest => by
    rw [termTail]
    split
    · next op hop =>
      refine Reads.cons (Reads.bind (unary_reads rest) fun right rest' h seg hts hseg => ?_)
      refine Reads.weaken _ ((termTail_reads (.product hl hop hseg) rest').mono fun seg' e he => ?_)
      simpa using he
    · exact Reads.done (by simpa using hl)
termination_by ts => 4 * ts.length
decreasing_by all_goals (simp only [List.length_cons] at *; omega)

theorem unary_reads : (ts : List Token) → Reads (DerivesExpr .signed) ts (unary finish ts)
  | [] => by
    rw [unary]
    exact (primary_reads []).mono fun _ _ he => .ofPrimary he
  | t :: rest => by
    rw [unary]
    split
    · next hk =>
      refine Reads.cons (Reads.bind (unary_reads rest) fun operand rest' h seg hts hseg => ?_)
      exact Reads.done (by simpa using .minus hk hseg)
    · exact (primary_reads (t :: rest)).mono fun _ _ he => .ofPrimary he
termination_by ts => 4 * ts.length + 1
decreasing_by all_goals (try simp only [List.length_cons] at *); omega

theorem primary_reads : (ts : List Token) → Reads (DerivesExpr .primary) ts (primary finish ts)
  | [] => by
    rw [primary]
    exact Reads.error
  | t :: rest => by
    rw [primary]
    split
    · next hk =>
      split
      · next v hv => exact Reads.token (.int hk hv)
      · exact Reads.error
    · next hk =>
      split
      · next v hv => exact Reads.token (.float hk hv)
      · exact Reads.error
    · next hk => exact Reads.token (.var hk)
    · next hk => exact Reads.token (.readInt hk)
    · next hk => exact Reads.token (.readFloat hk)
    · next hk =>
      refine Reads.cons (Reads.bind (expr_reads rest) fun inner rest' h seg hts hseg => ?_)
      refine Reads.bind (expect_reads finish _ _ rest') fun closing rest'' h' seg' hts' hc => ?_
      obtain ⟨rfl, hc⟩ := hc
      exact Reads.done (by simpa using .parens hk hseg hc)
    · exact Reads.error
termination_by ts => 4 * ts.length
decreasing_by all_goals (simp only [List.length_cons] at *; omega)

end

theorem comparison_reads (ts : List Token) :
    Reads (DerivesCond .negation) ts (comparison finish ts) := by
  unfold comparison
  refine Reads.bind (expr_reads finish ts) fun left rest h seg hts hseg => ?_
  cases rest with
  | nil => exact Reads.error
  | cons t rest' =>
    dsimp only
    split
    · next op hop =>
      refine Reads.cons (Reads.bind (expr_reads finish rest') fun right rest'' h' seg' hts' hr => ?_)
      exact Reads.done (by simpa using .compare hseg hop hr)
    · exact Reads.error

mutual

theorem cond_reads (ts : List Token) : Reads (DerivesCond .disjunction) ts (cond finish ts) := by
  rw [cond]
  refine Reads.bind (conj_reads ts) fun left rest h seg hts hseg => ?_
  exact (condTail_reads (.ofConjunction hseg) rest).weaken _
termination_by 3 * ts.length + 2
decreasing_by all_goals omega

theorem condTail_reads {left : Cond} {ls : List Token} (hl : DerivesCond .disjunction ls left) :
    (ts : List Token) →
    Reads (fun seg c => DerivesCond .disjunction (ls ++ seg) c) ts (condTail finish left ts)
  | [] => by
    rw [condTail]
    exact Reads.done (by simpa using hl)
  | t :: rest => by
    rw [condTail]
    split
    · next hk =>
      refine Reads.cons (Reads.bind (conj_reads rest) fun right rest' h seg hts hseg => ?_)
      refine Reads.weaken _ ((condTail_reads (.or hl hk hseg) rest').mono fun seg' c hc => ?_)
      simpa using hc
    · exact Reads.done (by simpa using hl)
termination_by ts => 3 * ts.length
decreasing_by all_goals (simp only [List.length_cons] at *; omega)

theorem conj_reads (ts : List Token) : Reads (DerivesCond .conjunction) ts (conj finish ts) := by
  rw [conj]
  refine Reads.bind (negation_reads ts) fun left rest h seg hts hseg => ?_
  exact (conjTail_reads (.ofNegation hseg) rest).weaken _
termination_by 3 * ts.length + 1
decreasing_by all_goals omega

theorem conjTail_reads {left : Cond} {ls : List Token} (hl : DerivesCond .conjunction ls left) :
    (ts : List Token) →
    Reads (fun seg c => DerivesCond .conjunction (ls ++ seg) c) ts (conjTail finish left ts)
  | [] => by
    rw [conjTail]
    exact Reads.done (by simpa using hl)
  | t :: rest => by
    rw [conjTail]
    split
    · next hk =>
      refine Reads.cons (Reads.bind (negation_reads rest) fun right rest' h seg hts hseg => ?_)
      refine Reads.weaken _ ((conjTail_reads (.and hl hk hseg) rest').mono fun seg' c hc => ?_)
      simpa using hc
    · exact Reads.done (by simpa using hl)
termination_by ts => 3 * ts.length
decreasing_by all_goals (simp only [List.length_cons] at *; omega)

theorem negation_reads : (ts : List Token) →
    Reads (DerivesCond .negation) ts (negation finish ts)
  | [] => by
    rw [negation]
    exact comparison_reads finish []
  | t :: rest => by
    rw [negation]
    split
    · next hk =>
      refine Reads.cons (Reads.bind (negation_reads rest) fun operand rest' h seg hts hseg => ?_)
      exact Reads.done (by simpa using .not hk hseg)
    · have hcompare := comparison_reads finish (t :: rest)
      split
      · next c rest' h heq => rwa [heq] at hcompare
      · split
        · exact Reads.error
        · next hk =>
          have hnested : Reads (DerivesCond .negation) (t :: rest) ((cond finish rest).bind
              fun inner rest' _ =>
                (expect finish (.symbol .rparen) "after condition" rest').bind
                  fun closing rest'' _ =>
                    (.ok (inner.withSpan (t.span.upTo closing.span)) rest''
                      (by simp only [List.length_cons]; omega) : Step Cond (t :: rest).length)) := by
            refine Reads.cons (Reads.bind (cond_reads rest) fun inner rest' h seg hts hseg => ?_)
            refine Reads.bind (expect_reads finish _ _ rest') fun closing rest'' h' seg' hts' hc => ?_
            obtain ⟨rfl, hc⟩ := hc
            exact Reads.done (by simpa using .parens (by simpa using hk) hseg hc)
          dsimp only
          split
          · next c rest' h heq => rwa [heq] at hnested
          · exact Reads.error
termination_by ts => 3 * ts.length
decreasing_by all_goals (simp only [List.length_cons] at *; omega)

end

theorem header_reads (what : Bytes) (ts : List Token) :
    Reads DerivesHeader ts (header finish what ts) := by
  unfold header
  refine Reads.bind (expect_reads finish _ _ ts) fun opening rest h seg hts ho => ?_
  obtain ⟨rfl, ho⟩ := ho
  refine Reads.bind (cond_reads finish rest) fun c rest' h' seg' hts' hc => ?_
  refine Reads.bind (expect_reads finish _ _ rest') fun closing rest'' h'' seg'' hts'' hcl => ?_
  obtain ⟨rfl, hcl⟩ := hcl
  exact Reads.done (by simpa using .parens ho hc hcl)

theorem decl_reads {type : NumType} {t : Token} (ht : Grammar.typeOf? t.kind = some type)
    (ts : List Token) :
    Reads (fun seg d => DerivesDecl (t :: seg) d) ts (decl finish type t ts) := by
  unfold decl
  refine Reads.bind (expect_reads finish _ _ ts) fun name rest h seg hts hn => ?_
  obtain ⟨rfl, hn⟩ := hn
  cases rest with
  | nil =>
    refine Reads.bind (expect_reads finish _ _ []) fun semi rest' h' seg' hts' hs => ?_
    obtain ⟨rfl, hs⟩ := hs
    exact Reads.done (.plain ht hn hs)
  | cons u rest' =>
    dsimp only
    split
    · next hu =>
      refine Reads.cons (Reads.bind (expr_reads finish rest') fun init rest'' h' seg' hts' he => ?_)
      refine Reads.bind (expect_reads finish _ _ rest'') fun semi rest₃ h'' seg'' hts'' hs => ?_
      obtain ⟨rfl, hs⟩ := hs
      exact Reads.done (by simpa using .init ht hn hu he hs)
    · refine Reads.bind (expect_reads finish _ _ (u :: rest')) fun semi rest'' h' seg' hts' hs => ?_
      obtain ⟨rfl, hs⟩ := hs
      exact Reads.done (.plain ht hn hs)

/-- The units of a block with the brace after them. -/
def DerivesBlock (ts : List Token) (body : List Item × Token) : Prop :=
  ∃ us, ts = us ++ [body.2] ∧ body.2.kind = .symbol .rbrace ∧ DerivesItems us body.1

mutual

theorem stmt_reads : (ts : List Token) → Reads DerivesStmt ts (stmt finish ts)
  | [] => by
    rw [stmt]
    exact Reads.error
  | t :: rest => by
    rw [stmt]
    split
    · next hk =>
      refine Reads.cons (Reads.bind (expect_reads finish _ _ rest) fun eq rest₁ h₁ s₁ hs₁ he => ?_)
      obtain ⟨rfl, he⟩ := he
      refine Reads.bind (expr_reads finish rest₁) fun value rest₂ h₂ s₂ hs₂ hv => ?_
      refine Reads.bind (expect_reads finish _ _ rest₂) fun semi rest₃ h₃ s₃ hs₃ hs => ?_
      obtain ⟨rfl, hs⟩ := hs
      exact Reads.done (by simpa using .assign hk he hv hs)
    · next hk =>
      refine Reads.cons (Reads.bind (expr_reads finish rest) fun value rest₁ h₁ s₁ hs₁ hv => ?_)
      refine Reads.bind (expect_reads finish _ _ rest₁) fun semi rest₂ h₂ s₂ hs₂ hs => ?_
      obtain ⟨rfl, hs⟩ := hs
      exact Reads.done (by simpa using .print hk hv hs)
    · next hk =>
      refine Reads.cons (Reads.bind (blockItems_reads rest) fun body rest₁ h₁ s₁ hs₁ hb => ?_)
      obtain ⟨us, rfl, hc, hus⟩ := hb
      exact Reads.done (by simpa using .block hk hus hc)
    · next hk =>
      refine Reads.cons (Reads.bind (header_reads finish _ rest) fun c rest₁ h₁ s₁ hs₁ hc => ?_)
      refine Reads.bind (stmt_reads rest₁) fun yes rest₂ h₂ s₂ hs₂ hy => ?_
      cases rest₂ with
      | nil => exact Reads.done (by simpa using .ite hk hc hy)
      | cons u rest₃ =>
        dsimp only
        split
        · next hu =>
          refine Reads.cons (Reads.bind (stmt_reads rest₃) fun no rest₄ h₄ s₄ hs₄ hn => ?_)
          exact Reads.done (by simpa using .iteElse hk hc hy hu hn)
        · exact Reads.done (by simpa using .ite hk hc hy)
    · next hk =>
      refine Reads.cons (Reads.bind (header_reads finish _ rest) fun c rest₁ h₁ s₁ hs₁ hc => ?_)
      refine Reads.bind (stmt_reads rest₁) fun body rest₂ h₂ s₂ hs₂ hb => ?_
      exact Reads.done (by simpa using .loop hk hc hb)
    · exact Reads.error
termination_by ts => 3 * ts.length
decreasing_by all_goals (simp only [List.length_cons] at *; omega)

theorem item_reads : (ts : List Token) → Reads DerivesItem ts (item finish ts)
  | [] => by
    rw [item]
    refine Reads.bind (stmt_reads []) fun s rest h seg hts hs => ?_
    exact Reads.done (by simpa using .stmt hs)
  | t :: rest => by
    rw [item]
    split
    · next hk =>
      refine Reads.cons (Reads.bind (decl_reads finish (by rw [hk]; rfl) rest)
        fun d rest' h seg hts hd => ?_)
      exact Reads.done (by simpa using .decl hd)
    · next hk =>
      refine Reads.cons (Reads.bind (decl_reads finish (by rw [hk]; rfl) rest)
        fun d rest' h seg hts hd => ?_)
      exact Reads.done (by simpa using .decl hd)
    · refine Reads.bind (stmt_reads (t :: rest)) fun s rest' h seg hts hs => ?_
      exact Reads.done (by simpa using .stmt hs)
termination_by ts => 3 * ts.length + 1
decreasing_by all_goals (try simp only [List.length_cons] at *); omega

theorem blockItems_reads : (ts : List Token) → Reads DerivesBlock ts (blockItems finish ts)
  | [] => by
    rw [blockItems]
    exact Reads.error
  | t :: rest => by
    rw [blockItems]
    split
    · next hk => exact Reads.token ⟨[], rfl, hk, .nil⟩
    · refine Reads.bind (item_reads (t :: rest)) fun u rest₁ h₁ s₁ hs₁ hu => ?_
      refine Reads.bind (blockItems_reads rest₁) fun body rest₂ h₂ s₂ hs₂ hb => ?_
      obtain ⟨us, rfl, hc, hus⟩ := hb
      exact Reads.done ⟨s₁ ++ us, by simp, hc, .cons hu hus⟩
termination_by ts => 3 * ts.length + 2
decreasing_by all_goals (simp only [List.length_cons] at *; omega)

end

/-- The units of a program are derived from all of its tokens. -/
theorem items_derives : (ts : List Token) → ∀ {units : List Item},
    items finish ts = .ok units → DerivesItems ts units
  | [], units, h => by
    rw [items] at h
    cases h
    exact .nil
  | t :: rest, units, h => by
    rw [items] at h
    have hitem := item_reads finish (t :: rest)
    split at h
    · cases h
    · next u rest' hlt heq =>
      obtain ⟨seg, hts, hu⟩ := hitem u rest' hlt heq
      cases hrest : items finish rest' with
      | error failure => rw [hrest] at h; cases h
      | ok us =>
        rw [hrest] at h
        cases h
        rw [hts]
        exact .cons hu (items_derives rest' hrest)
termination_by ts => ts.length
decreasing_by simp only [List.length_cons] at *; omega

end Parsing
end Signum.Parser
