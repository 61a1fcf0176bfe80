import Signum.Proofs.Syntax.Completeness
/- Where a reader of tokens stops.

   `Exact` says what can be known of a reader from how it ends. When it succeeds, it has taken
   tokens that the grammar derives, and of the rest it has looked at the next token only: with
   the same next token it does the same. When it stops with a problem, there is a token to lay
   it on. What stands before that token can be completed to something the reader is after, and
   whatever comes after that token, the reader stops. The rules for `Exact` follow the ways in
   which readers are put together, and the readers of expressions are exact by these rules. -/
namespace Signum.Parser

open Grammar

/-- What a step comes to, without how much shorter the rest is. -/
def Step.result {α : Type} {n : Nat} : Step α n → Except (Failure × List Token) (α × List Token)
  | .ok a rest _ => .ok (a, rest)
  | .error failure reached => .error (failure, reached)

/-- Reads from the front of some tokens: a value and the rest, or a problem and what was left
when it was found. -/
def Reader (α : Type) : Type := List Token → Except (Failure × List Token) (α × List Token)

namespace Reader
variable {α β : Type}

/-- The reader that takes a step. -/
def of {n : List Token → Nat} (x : (ts : List Token) → Step α (n ts)) : Reader α :=
  fun ts => (x ts).result

/-- Takes nothing. -/
def give (a : α) : Reader α := fun ts => .ok (a, ts)

/-- Goes on with what was read. -/
def andThen (x : Reader α) (f : α → Reader β) : Reader β := fun ts =>
  match x ts with
  | .ok (a, rest) => f a rest
  | .error e => .error e

/-- The reader stops with a problem. -/
def Stops (x : Reader α) (ts : List Token) : Prop := ∃ e, x ts = .error e

theorem andThen_ok {x : Reader α} {f : α → Reader β} {ts rest : List Token} {a : α}
    (h : x ts = .ok (a, rest)) : x.andThen f ts = f a rest := by
  unfold andThen
  rw [h]

theorem andThen_error {x : Reader α} {f : α → Reader β} {ts : List Token}
    {e : Failure × List Token} (h : x ts = .error e) : x.andThen f ts = .error e := by
  unfold andThen
  rw [h]

end Reader

open Reader (of give)

theorem result_bind {α β : Type} {m n : Nat} {x : Step α m}
    {f : (a : α) → (rest : List Token) → rest.length < m → Step β n} {g : α → Reader β}
    (h : ∀ a rest hlt, (f a rest hlt).result = g a rest) :
    (x.bind f).result = match x.result with
      | .ok (a, rest) => g a rest
      | .error e => .error e := by
  cases x with
  | ok a rest hlt => exact h a rest hlt
  | error failure reached => rfl

theorem result_weaken {α : Type} {m n : Nat} (x : Step α m) (h : m ≤ n) :
    (x.weaken h).result = x.result := by
  cases x with
  | ok a rest hlt => rfl
  | error failure reached => rfl

theorem gives_iff {α : Type} {n : Nat} {x : Step α n} {a : α} {rest : List Token} :
    Gives x a rest ↔ x.result = .ok (a, rest) := by
  constructor
  · intro h
    obtain ⟨hlt, rfl⟩ := h
    rfl
  · intro h
    cases x with
    | ok b rest' hlt =>
      cases h
      exact .ok hlt
    | error failure reached => cases h

/-- What is said of a problem that is laid on a token: of the tokens before it, of those from it
on, of the failure and of what was left when it was found. -/
structure Blame where
  holds : List Token → List Token → Failure → List Token → Prop

/-- The problem is reported at the token it is laid on, and found there or after it. -/
def Blame.next (finish : Point) : Blame where
  holds _ rest failure reached :=
    failure.span = placeOf finish rest ∧ reached.length ≤ rest.length

/-- What is said of a problem, put in other words when there are more tokens before. -/
structure Carries (B B' : Blame) (early : List Token) : Prop where
  holds : ∀ {before rest failure reached}, B.holds before rest failure reached →
    B'.holds (early ++ before) rest failure reached

/-- There is no problem. -/
def Blame.never : Blame where
  holds _ _ _ _ := False

theorem never_carries (B : Blame) (early : List Token) : Carries .never B early := ⟨False.elim⟩

theorem Carries.refl (B : Blame) : Carries B B [] := ⟨id⟩

theorem next_carries (finish : Point) (early : List Token) :
    Carries (.next finish) (.next finish) early := ⟨id⟩

section Exact
variable {α β : Type} {B B' : Blame} {P : List Token → α → Prop} {Q : List Token → β → Prop}
  {x : Reader α} {ts : List Token}

/-- A problem of a reader on some tokens is laid on the first token of `rest`. -/
structure Offends (B : Blame) (P : List Token → α → Prop) (x : Reader α) (ts : List Token)
    (failure : Failure) (reached before rest : List Token) : Prop where
  split : ts = before ++ rest
  blame : B.holds before rest failure reached
  viable : ∃ more a, P (before ++ more) a
  dead : ∀ tail, tail.head? = rest.head? → x.Stops (before ++ tail)

/-- What the reader gives is derived and depends on one token of the rest, and its problems are
laid on the first token that cannot come next. -/
structure Exact (B : Blame) (P : List Token → α → Prop) (x : Reader α) (ts : List Token) :
    Prop where
  ok : ∀ {a rest}, x ts = .ok (a, rest) → ∃ seg, ts = seg ++ rest ∧ P seg a ∧
    ∀ tail, tail.head? = rest.head? → x (seg ++ tail) = .ok (a, tail)
  error : ∀ {failure reached}, x ts = .error (failure, reached) →
    ∃ before rest, Offends B P x ts failure reached before rest

theorem head?_append_congr {xs ys zs : List Token} (h : ys.head? = zs.head?) :
    (xs ++ ys).head? = (xs ++ zs).head? := by
  rw [List.head?_append, List.head?_append, h]

/-- The first token stays when what comes after `seg` starts as before. -/
theorem head?_of_split {ts seg rest tail : List Token} (hts : ts = seg ++ rest)
    (h : tail.head? = rest.head?) : (seg ++ tail).head? = ts.head? := by
  rw [hts]
  exact head?_append_congr h

/-- A problem of the first reader is one of both, when what the first is after can be completed
to what both are after. -/
theorem Offends.first {f : α → Reader β} {failure : Failure} {reached before rest : List Token}
    (h : Offends B P x ts failure reached before rest)
    (hext : ∀ seg a, P seg a → ∃ more b, Q (seg ++ more) b) :
    Offends B Q (x.andThen f) ts failure reached before rest := by
  obtain ⟨more, a, hmore⟩ := h.viable
  obtain ⟨more', b, hmore'⟩ := hext _ a hmore
  refine ⟨h.split, h.blame, ⟨more ++ more', b, ?_⟩, fun tail htail => ?_⟩
  · rw [← List.append_assoc]
    exact hmore'
  · obtain ⟨e, he⟩ := h.dead tail htail
    exact ⟨e, Reader.andThen_error he⟩

/-- A problem of the second reader is one of both, when the first takes `seg` and has looked at
no more than one token of the rest. -/
theorem Offends.second {f : α → Reader β} {a : α} {failure : Failure}
    {seg rest reached before late : List Token} (hts : ts = seg ++ rest)
    (hlocal : ∀ tail, tail.head? = rest.head? → x (seg ++ tail) = .ok (a, tail))
    (h : Offends B' (fun seg' b => Q (seg ++ seg') b) (f a) rest failure reached before late)
    (hb : Carries B' B seg) :
    Offends B Q (x.andThen f) ts failure reached (seg ++ before) late := by
  refine ⟨by rw [hts, h.split, List.append_assoc], hb.holds h.blame, ?_, fun tail htail => ?_⟩
  · obtain ⟨more, b, hmore⟩ := h.viable
    exact ⟨more, b, by rw [List.append_assoc]; exact hmore⟩
  · obtain ⟨e, he⟩ := h.dead tail htail
    refine ⟨e, ?_⟩
    rw [List.append_assoc, Reader.andThen_ok (hlocal _ (head?_of_split h.split htail))]
    exact he

namespace Exact

theorem mono {P' : List Token → α → Prop} (hx : Exact B P x ts)
    (hp : ∀ seg a, P seg a → P' seg a) (hb : Carries B B' []) : Exact B' P' x ts := by
  constructor
  · intro a rest h
    obtain ⟨seg, hts, hseg, hlocal⟩ := hx.ok h
    exact ⟨seg, hts, hp seg a hseg, hlocal⟩
  · intro failure reached h
    obtain ⟨before, rest, hoff⟩ := hx.error h
    obtain ⟨more, a, hmore⟩ := hoff.viable
    exact ⟨before, rest, hoff.split, hb.holds hoff.blame, ⟨more, a, hp _ a hmore⟩, hoff.dead⟩

/-- On the tokens at hand a reader does one of two things. -/
theorem of_ok {a : α} {rest : List Token} (hx : x ts = .ok (a, rest))
    (h : ∃ seg, ts = seg ++ rest ∧ P seg a ∧
      ∀ tail, tail.head? = rest.head? → x (seg ++ tail) = .ok (a, tail)) : Exact B P x ts := by
  constructor
  · intro b rest' hx'
    cases hx.symm.trans hx'
    exact h
  · intro failure reached hx'
    cases hx.symm.trans hx'

theorem of_error {failure : Failure} {reached : List Token} (hx : x ts = .error (failure, reached))
    (h : ∃ before rest, Offends B P x ts failure reached before rest) : Exact B P x ts := by
  constructor
  · intro a rest hx'
    cases hx.symm.trans hx'
  · intro failure' reached' hx'
    cases hx.symm.trans hx'
    exact h

/-- Readers that agree on all tokens with this next one. -/
theorem congr {y : Reader α} (hy : Exact B P y ts)
    (h : ∀ us, us.head? = ts.head? → x us = y us) : Exact B P x ts := by
  constructor
  · intro a rest hx
    rw [h ts rfl] at hx
    obtain ⟨seg, hts, hseg, hlocal⟩ := hy.ok hx
    refine ⟨seg, hts, hseg, fun tail htail => ?_⟩
    rw [h _ (head?_of_split hts htail)]
    exact hlocal tail htail
  · intro failure reached hx
    rw [h ts rfl] at hx
    obtain ⟨before, rest, hoff⟩ := hy.error hx
    refine ⟨before, rest, hoff.split, hoff.blame, hoff.viable, fun tail htail => ?_⟩
    unfold Reader.Stops
    rw [h _ (head?_of_split hoff.split htail)]
    exact hoff.dead tail htail

/-- A token that has been looked at is taken along. -/
theorem cons {t : Token} {y : Reader α} (hy : Exact B (fun seg a => P (t :: seg) a) y ts)
    (hb : Carries B B' [t]) (h : ∀ us, x (t :: us) = y us) : Exact B' P x (t :: ts) := by
  constructor
  · intro a rest hx
    rw [h] at hx
    obtain ⟨seg, rfl, hseg, hlocal⟩ := hy.ok hx
    refine ⟨t :: seg, rfl, hseg, fun tail htail => ?_⟩
    rw [List.cons_append, h]
    exact hlocal tail htail
  · intro failure reached hx
    rw [h] at hx
    obtain ⟨before, rest, hoff⟩ := hy.error hx
    refine ⟨t :: before, rest, by rw [hoff.split]; rfl, hb.holds hoff.blame, hoff.viable,
      fun tail htail => ?_⟩
    unfold Reader.Stops
    rw [List.cons_append, h]
    exact hoff.dead tail htail

/-- Nothing more is taken. -/
theorem done {a : α} (hp : P [] a) (h : ∀ us, us.head? = ts.head? → x us = .ok (a, us)) :
    Exact B P x ts :=
  of_ok (h ts rfl) ⟨[], rfl, hp, fun tail htail => h tail htail⟩

theorem give {a : α} (hp : P [] a) : Exact B P (give a) ts := done hp fun _ _ => rfl

/-- One token is taken. -/
theorem token {t : Token} {a : α} (hp : P [t] a) (h : ∀ us, x (t :: us) = .ok (a, us)) :
    Exact B P x (t :: ts) :=
  cons (give hp) (never_carries B [t]) h

/-- The next token is the problem, and is reported. -/
theorem stop {finish : Point} (hp : ∃ more a, P more a) (hb : Carries (.next finish) B [])
    (h : ∀ us, us.head? = ts.head? → ∃ failure reached, x us = .error (failure, reached) ∧
      failure.span = placeOf finish us ∧ reached.length ≤ us.length) : Exact B P x ts := by
  obtain ⟨failure, reached, hstop, hspan, hreached⟩ := h ts rfl
  refine of_error hstop ⟨[], ts, rfl, hb.holds ⟨hspan, hreached⟩, hp, fun tail htail => ?_⟩
  obtain ⟨failure, reached, hstop, -⟩ := h tail htail
  exact ⟨_, hstop⟩

/-- Readers one after the other. What the first is after can be completed to what both are
after. -/
theorem bind {f : α → Reader β} (hx : Exact B P x ts)
    (hf : ∀ a seg rest, ts = seg ++ rest → P seg a → x ts = .ok (a, rest) →
      Exact B' (fun seg' b => Q (seg ++ seg') b) (f a) rest)
    (hb : ∀ early, Carries B' B early)
    (hext : ∀ seg a, P seg a → ∃ more b, Q (seg ++ more) b) : Exact B Q (x.andThen f) ts := by
  cases hxts : x ts with
  | error e =>
    obtain ⟨failure, reached⟩ := e
    obtain ⟨before, rest, hoff⟩ := hx.error hxts
    exact of_error (Reader.andThen_error hxts) ⟨before, rest, hoff.first hext⟩
  | ok p =>
    obtain ⟨a, rest⟩ := p
    obtain ⟨seg, hts, hseg, hlocal⟩ := hx.ok hxts
    have hrest := hf a seg rest hts hseg hxts
    have hgoes : x.andThen f ts = f a rest := Reader.andThen_ok hxts
    constructor
    · intro b rest' h
      rw [hgoes] at h
      obtain ⟨seg', hsplit, hq, hlocal'⟩ := hrest.ok h
      refine ⟨seg ++ seg', by rw [hts, hsplit, List.append_assoc], hq, fun tail htail => ?_⟩
      rw [List.append_assoc, Reader.andThen_ok (hlocal _ (head?_of_split hsplit htail))]
      exact hlocal' tail htail
    · intro failure reached h
      rw [hgoes] at h
      obtain ⟨before, late, hoff⟩ := hrest.error h
      exact ⟨seg ++ before, late, hoff.second hts hlocal (hb seg)⟩

/-- A reader whose value is made into another. -/
theorem map {g : α → β} (hx : Exact B P x ts) (hq : ∀ {seg a}, P seg a → Q seg (g a)) :
    Exact B Q (x.andThen fun a => Reader.give (g a)) ts := by
  refine .bind hx (fun a seg rest _ hseg _ => .give ?_) (never_carries B)
    fun seg a hseg => ⟨[], g a, ?_⟩
  · rw [List.append_nil]
    exact hq hseg
  · rw [List.append_nil]
    exact hq hseg

/-- One round of a repetition: after the operator `t` an operand is read, put together with what
was read before (`ls`), and the repetition goes on from there. -/
theorem more {B₀ B₁ : Blame} {t : Token} {ls : List Token} {operand : Reader β} {tail : β → Reader α}
    {whole : β → α} (hoperand : Exact B₁ Q operand ts)
    (hgoes : ∀ us, x (t :: us) = (operand.andThen tail) us)
    (hlead : Carries B₁ B [t]) (hnext : ∀ early, Carries B₀ B₁ early)
    (hstep : ∀ seg b, Q seg b → P (ls ++ t :: seg) (whole b))
    (htail : ∀ b seg rest, ts = seg ++ rest → Q seg b →
      Exact B₀ (fun seg' a => P (ls ++ t :: seg ++ seg') a) (tail b) rest) :
    Exact B (fun seg a => P (ls ++ seg) a) x (t :: ts) := by
  refine .cons (.bind hoperand (fun b seg rest hts hseg _ => ?_) hnext fun seg b hseg => ?_) hlead
    hgoes
  · refine (htail b seg rest hts hseg).mono (fun seg' a ha => ?_) (.refl _)
    simpa using ha
  · exact ⟨[], whole b, by simpa using hstep seg b hseg⟩

end Exact

/-- A problem lies no earlier than any start of the tokens that the reader can go on from. -/
theorem Offends.position {failure : Failure} {reached before rest early late : List Token}
    (h : Offends B P x ts failure reached before rest) (hts : ts = early ++ late)
    (hgo : ∃ more, ¬x.Stops (early ++ more)) : early.length ≤ before.length := by
  obtain ⟨more, hgo⟩ := hgo
  refine Nat.le_of_not_lt fun hlt => hgo ?_
  have hsplit : before ++ rest = early ++ late := by rw [← h.split, hts]
  rcases List.append_eq_append_iff.mp hsplit with ⟨mid, rfl, rfl⟩ | ⟨mid, rfl, -⟩
  · cases mid with
    | nil => simp at hlt
    | cons t mid =>
      rw [List.append_assoc]
      apply h.dead
      rfl
  · simp only [List.length_append] at hlt
    omega

/-- Tokens that go on as others do from a place go on as they do from an earlier one. -/
theorem goes_on_earlier {before rest early late tail : List Token}
    (h : early ++ late = before ++ rest) (hle : early.length ≤ before.length)
    (htail : tail.head? = rest.head?) :
    ∃ tail', before ++ tail = early ++ tail' ∧ tail'.head? = late.head? := by
  rcases List.append_eq_append_iff.mp h with ⟨mid, rfl, rfl⟩ | ⟨mid, rfl, rfl⟩
  · exact ⟨mid ++ tail, List.append_assoc _ _ _, head?_append_congr htail⟩
  · have hmid : mid = [] := by
      simp only [List.length_append] at hle
      exact List.length_eq_zero_iff.mp (by omega)
    subst hmid
    refine ⟨tail, by simp, ?_⟩
    rw [htail]
    rfl

end Exact

/-! Single tokens. -/

/-- A token of a kind, wherever it stands. -/
def sample (kind : TokenKind) : Token := ⟨kind, [48], ⟨Point.origin, Point.origin⟩⟩

@[simp] theorem sample_kind (kind : TokenKind) : (sample kind).kind = kind := rfl

theorem expect_stops (finish : Point) {kind : TokenKind} (what : Bytes) {ts : List Token}
    (h : ∀ t ∈ ts.head?, t.kind ≠ kind) :
    ∃ failure, of (expect finish kind what) ts = .error (failure, ts) ∧
      failure.span = placeOf finish ts := by
  unfold of expect
  cases ts with
  | nil => exact ⟨_, rfl, rfl⟩
  | cons t rest =>
    dsimp only
    rw [if_neg (h t rfl)]
    exact ⟨_, rfl, rfl⟩

section Around
variable {α β : Type} {B B' : Blame} {P : List Token → α → Prop} {Q : List Token → β → Prop}
  {x : Reader α} {ts : List Token} {finish : Point} {kind : TokenKind} {what : Bytes}

/-- A token of a kind, and what comes after it. -/
theorem Exact.opened {f : Token → Reader β} (hb : Carries (.next finish) B [])
    (hf : ∀ t rest, ts = t :: rest → t.kind = kind →
      Exact B' (fun seg b => Q (t :: seg) b) (f t) rest)
    (hb' : ∀ t, t.kind = kind → Carries B' B [t]) (hq : ∃ more b, Q more b) :
    Exact B Q ((of (expect finish kind what)).andThen f) ts := by
  by_cases hnext : ∃ t rest, ts = t :: rest ∧ t.kind = kind
  · obtain ⟨t, rest, rfl, ht⟩ := hnext
    refine .cons (hf t rest rfl ht) (hb' t ht) fun us => ?_
    exact Reader.andThen_ok (gives_iff.mp (expect_gives finish what ht us))
  · have hother : ∀ t ∈ ts.head?, t.kind ≠ kind := by
      intro t ht hk
      obtain ⟨rest, rfl⟩ := List.head?_eq_some_iff.mp ht
      exact hnext ⟨t, rest, rfl, hk⟩
    refine .stop hq hb fun us hus => ?_
    rw [← hus] at hother
    obtain ⟨failure, hstop, hspan⟩ := expect_stops finish what hother
    exact ⟨failure, us, Reader.andThen_error hstop, hspan, Nat.le_refl _⟩

/-- Something, and a token of a kind that ends it. -/
theorem Exact.closed {g : α → Token → β} (hx : Exact B P x ts)
    (hb : ∀ early, Carries (.next finish) B early)
    (hq : ∀ {seg a t}, P seg a → t.kind = kind → Q (seg ++ [t]) (g a t)) :
    Exact B Q (x.andThen fun a => (of (expect finish kind what)).andThen fun t =>
      Reader.give (g a t)) ts := by
  refine .bind hx (fun a seg rest _ hseg _ => ?_) hb fun seg a hseg => ?_
  · exact .opened (.refl _) (fun t rest' _ ht => .give (hq hseg ht))
      (fun t _ => never_carries _ [t]) ⟨[sample kind], _, hq hseg rfl⟩
  · exact ⟨[sample kind], _, hq hseg rfl⟩

end Around

/-! Expressions, as readers. -/

section Expressions
variable (finish : Point)

theorem expr_eq :
    of (expr finish) = (of (term finish)).andThen fun l => of (exprTail finish l) := by
  funext ts
  show (expr finish ts).result = _
  rw [expr]
  exact result_bind fun l rest hlt => result_weaken _ _

theorem term_eq :
    of (term finish) = (of (unary finish)).andThen fun l => of (termTail finish l) := by
  funext ts
  show (term finish ts).result = _
  rw [term]
  exact result_bind fun l rest hlt => result_weaken _ _

theorem exprTail_stays {l : Expr} {ts : List Token} (h : ∀ t ∈ ts.head?, sumOp? t.kind = none) :
    of (exprTail finish l) ts = .ok (l, ts) := by
  show (exprTail finish l ts).result = _
  cases ts with
  | nil => rw [exprTail, Step.result]
  | cons t rest =>
    rw [exprTail]
    simp only [h t rfl]
    rfl

theorem termTail_stays {l : Expr} {ts : List Token}
    (h : ∀ t ∈ ts.head?, productOp? t.kind = none) : of (termTail finish l) ts = .ok (l, ts) := by
  show (termTail finish l ts).result = _
  cases ts with
  | nil => rw [termTail, Step.result]
  | cons t rest =>
    rw [termTail]
    simp only [h t rfl]
    rfl

theorem exprTail_goes {l : Expr} {t : Token} {op : BinaryOp} (h : sumOp? t.kind = some op)
    (ts : List Token) : of (exprTail finish l) (t :: ts) = ((of (term finish)).andThen fun r =>
      of (exprTail finish (.binary op l r (l.span.upTo r.span)))) ts := by
  show (exprTail finish l (t :: ts)).result = _
  rw [exprTail]
  simp only [h]
  exact result_bind fun r rest hlt => result_weaken _ _

theorem termTail_goes {l : Expr} {t : Token} {op : BinaryOp} (h : productOp? t.kind = some op)
    (ts : List Token) : of (termTail finish l) (t :: ts) = ((of (unary finish)).andThen fun r =>
      of (termTail finish (.binary op l r (l.span.upTo r.span)))) ts := by
  show (termTail finish l (t :: ts)).result = _
  rw [termTail]
  simp only [h]
  exact result_bind fun r rest hlt => result_weaken _ _

theorem unary_goes {t : Token} (h : t.kind = .symbol .minus) (ts : List Token) :
    of (unary finish) (t :: ts) = ((of (unary finish)).andThen fun e =>
      give (.neg e (t.span.upTo e.span))) ts := by
  show (unary finish (t :: ts)).result = _
  rw [unary, if_pos h]
  exact result_bind fun e rest hlt => rfl

theorem unary_stays {ts : List Token} (h : ∀ t ∈ ts.head?, t.kind ≠ .symbol .minus) :
    of (unary finish) ts = of (primary finish) ts := by
  show (unary finish ts).result = (primary finish ts).result
  cases ts with
  | nil => rw [unary]
  | cons t rest => rw [unary, if_neg (h t rfl)]

theorem primary_parens {t : Token} (h : t.kind = .symbol .lparen) (ts : List Token) :
    of (primary finish) (t :: ts) = ((of (expr finish)).andThen fun e =>
      (of (expect finish (.symbol .rparen) "after expression")).andThen fun _ => give e) ts := by
  show (primary finish (t :: ts)).result = _
  rw [primary]
  simp only [h]
  exact result_bind fun e rest hlt => result_bind fun closing rest' hlt' => rfl

/-- A token that opens no parenthesis is a primary by itself, or none starts with it. -/
theorem primary_single {t : Token} (h : t.kind ≠ .symbol .lparen) :
    (∃ e, DerivesExpr .primary [t] e ∧ ∀ ts, of (primary finish) (t :: ts) = .ok (e, ts)) ∨
    ∀ ts, ∃ failure reached, of (primary finish) (t :: ts) = .error (failure, reached) ∧
      failure.span = t.span ∧ reached.length ≤ ts.length + 1 := by
  have hread {e : Expr} (he : DerivesExpr .primary [t] e) :
      ∀ ts, of (primary finish) (t :: ts) = .ok (e, ts) :=
    fun ts => gives_iff.mp ((expr_complete finish he).2 ts)
  cases hk : t.kind with
  | int =>
    cases hv : readInt64? t.text with
    | some v => exact .inl ⟨_, .int hk hv, hread (.int hk hv)⟩
    | none =>
      refine .inr fun ts => ⟨⟨.parse, t.span, "integer literal " ++ t.text ++ " out of range"⟩, ts,
        ?_, rfl, Nat.le_succ _⟩
      show (primary finish (t :: ts)).result = _
      rw [primary]
      simp only [hk, hv]
      rfl
  | float =>
    cases hv : Binary64.read? t.text with
    | some v => exact .inl ⟨_, .float hk hv, hread (.float hk hv)⟩
    | none =>
      refine .inr fun ts => ⟨⟨.parse, t.span, "float literal " ++ t.text ++ " out of range"⟩, ts,
        ?_, rfl, Nat.le_succ _⟩
      show (primary finish (t :: ts)).result = _
      rw [primary]
      simp only [hk, hv]
      rfl
  | ident => exact .inl ⟨_, .var hk, hread (.var hk)⟩
  | keyword k =>
    cases k with
    | readInt => exact .inl ⟨_, .readInt hk, hread (.readInt hk)⟩
    | readFloat => exact .inl ⟨_, .readFloat hk, hread (.readFloat hk)⟩
    | _ =>
      refine .inr fun ts => ⟨⟨.parse, t.span, "expected expression, found " ++ t.describe⟩, t :: ts,
        ?_, rfl, Nat.le_refl _⟩
      show (primary finish (t :: ts)).result = _
      rw [primary]
      simp only [hk]
      rfl
  | symbol s =>
    refine .inr fun ts => ⟨⟨.parse, t.span, "expected expression, found " ++ t.describe⟩, t :: ts,
      ?_, rfl, Nat.le_refl _⟩
    show (primary finish (t :: ts)).result = _
    rw [primary]
    cases s with
    | lparen => exact absurd hk h
    | _ =>
      simp only [hk]
      rfl

/-- The number zero, as a token. -/
theorem zero_derives : DerivesExpr .primary [sample .int] (.int 0 (sample .int).span) :=
  .int rfl (by decide +kernel)

theorem zero_signed : DerivesExpr .signed [sample .int] (.int 0 (sample .int).span) :=
  .ofPrimary zero_derives

theorem zero_sum : DerivesExpr .sum [sample .int] (.int 0 (sample .int).span) :=
  .ofProduct (.ofSigned zero_signed)

mutual

theorem expr_exact (ts : List Token) :
    Exact (.next finish) (DerivesExpr .sum) (of (expr finish)) ts := by
  rw [expr_eq]
  refine .bind (term_exact ts) (fun l seg rest hts hseg _ => ?_)
    (next_carries finish) fun seg l hseg => ?_
  · have : rest.length ≤ ts.length := by rw [hts]; simp
    exact exprTail_exact (.ofProduct hseg) rest
  · exact ⟨[], l, by simpa using .ofProduct hseg⟩
termination_by 4 * ts.length + 3
decreasing_by all_goals omega

theorem exprTail_exact {l : Expr} {ls : List Token} (hl : DerivesExpr .sum ls l) :
    (ts : List Token) →
    Exact (.next finish) (fun seg e => DerivesExpr .sum (ls ++ seg) e) (of (exprTail finish l)) ts
  | [] => by
    refine .done (by simpa using hl) fun us hus => exprTail_stays finish ?_
    rw [hus]
    exact nofun
  | t :: rest => by
    cases hop : sumOp? t.kind with
    | none =>
      refine .done (by simpa using hl) fun us hus => exprTail_stays finish ?_
      rw [hus]
      simpa using hop
    | some op =>
      refine .more (term_exact rest) (exprTail_goes finish hop) (next_carries finish _)
        (next_carries finish) (fun seg r hseg => .sum hl hop hseg) fun r seg rest' hts hseg => ?_
      have : rest'.length ≤ rest.length := by rw [hts]; simp
      exact exprTail_exact (.sum hl hop hseg) rest'
termination_by ts => 4 * ts.length
decreasing_by all_goals (simp only [List.length_cons] at *; omega)

theorem term_exact (ts : List Token) :
    Exact (.next finish) (DerivesExpr .product) (of (term finish)) ts := by
  rw [term_eq]
  refine .bind (unary_exact ts) (fun l seg rest hts hseg _ => ?_)
    (next_carries finish) fun seg l hseg => ?_
  · have : rest.length ≤ ts.length := by rw [hts]; simp
    exact termTail_exact (.ofSigned hseg) rest
  · exact ⟨[], l, by simpa using .ofSigned hseg⟩
termination_by 4 * ts.length + 2
decreasing_by all_goals omega

theorem termTail_exact {l : Expr} {ls : List Token} (hl : DerivesExpr .product ls l) :
    (ts : List Token) →
    Exact (.next finish) (fun seg e => DerivesExpr .product (ls ++ seg) e)
      (of (termTail finish l)) ts
  | [] => by
    refine .done (by simpa using hl) fun us hus => termTail_stays finish ?_
    rw [hus]
    exact nofun
  | t :: rest => by
    cases hop : productOp? t.kind with
    | none =>
      refine .done (by simpa using hl) fun us hus => termTail_stays finish ?_
      rw [hus]
      simpa using hop
    | some op =>
      refine .more (unary_exact rest) (termTail_goes finish hop) (next_carries finish _)
        (next_carries finish) (fun seg r hseg => .product hl hop hseg) fun r seg rest' hts hseg => ?_
      have : rest'.length ≤ rest.length := by rw [hts]; simp
      exact termTail_exact (.product hl hop hseg) rest'
termination_by ts => 4 * ts.length
decreasing_by all_goals (simp only [List.length_cons] at *; omega)

theorem unary_exact : (ts : List Token) →
    Exact (.next finish) (DerivesExpr .signed) (of (unary finish)) ts
  | [] => by
    refine ((primary_exact []).mono (fun _ _ he => .ofPrimary he) (.refl _)).congr fun us hus => ?_
    refine unary_stays finish ?_
    rw [hus]
    exact nofun
  | t :: rest => by
    by_cases hk : t.kind = .symbol .minus
    · refine .cons ?_ (next_carries finish _) (unary_goes finish hk)
      exact (unary_exact rest).map fun he => .minus hk he
    · refine ((primary_exact (t :: rest)).mono (fun _ _ he => .ofPrimary he) (.refl _)).congr
        fun us hus => ?_
      refine unary_stays finish ?_
      rw [hus]
      simpa using hk
termination_by ts => 4 * ts.length + 1
decreasing_by all_goals (try simp only [List.length_cons] at *); omega

theorem primary_exact : (ts : List Token) →
    Exact (.next finish) (DerivesExpr .primary) (of (primary finish)) ts
  | [] => by
    refine .stop ⟨_, _, zero_derives⟩ (.refl _) fun us hus => ?_
    rw [List.head?_eq_none_iff.mp hus]
    unfold of
    rw [primary]
    exact ⟨_, [], rfl, rfl, Nat.le_refl _⟩
  | t :: rest => by
    by_cases hk : t.kind = .symbol .lparen
    · refine .cons ?_ (next_carries finish _) (primary_parens finish hk)
      exact (expr_exact rest).closed (next_carries finish) fun he hc => .parens hk he hc
    · rcases primary_single finish hk with ⟨e, he, hread⟩ | hstop
      · exact .token he hread
      · refine .stop ⟨_, _, zero_derives⟩ (.refl _) fun us hus => ?_
        obtain ⟨us, rfl⟩ := List.head?_eq_some_iff.mp hus
        exact hstop us
termination_by ts => 4 * ts.length
decreasing_by all_goals (simp only [List.length_cons] at *; omega)

end

/-- An operator of comparison and the operand after it. -/
def compareTail (l : Expr) : Reader Cond
  | t :: ts =>
    match compareOp? t.kind with
    | some op =>
      ((of (expr finish)).andThen fun r => give (.compare op l r (l.span.upTo r.span))) ts
    | none =>
      .error (⟨.parse, t.span, "expected comparison operator, found " ++ t.describe⟩, t :: ts)
  | [] => .error (⟨.parse, ⟨finish, finish⟩, "expected comparison operator, found end of file"⟩, [])

theorem comparison_eq :
    of (comparison finish) = (of (expr finish)).andThen (compareTail finish) := by
  funext ts
  show (comparison finish ts).result = _
  unfold comparison
  refine result_bind fun l rest hlt => ?_
  cases rest with
  | nil => rfl
  | cons t rest =>
    unfold compareTail
    dsimp only
    cases compareOp? t.kind with
    | none => rfl
    | some op => exact result_bind fun r rest' hlt' => rfl

theorem compareTail_stops {l : Expr} {ts : List Token}
    (h : ∀ t ∈ ts.head?, compareOp? t.kind = none) :
    ∃ failure, compareTail finish l ts = .error (failure, ts) ∧
      failure.span = placeOf finish ts := by
  unfold compareTail
  cases ts with
  | nil => exact ⟨_, rfl, rfl⟩
  | cons t rest =>
    simp only [h t rfl]
    exact ⟨_, rfl, rfl⟩

theorem compareTail_goes {l : Expr} {t : Token} {op : CompareOp} (h : compareOp? t.kind = some op)
    (ts : List Token) : compareTail finish l (t :: ts) = ((of (expr finish)).andThen fun r =>
      give (.compare op l r (l.span.upTo r.span))) ts := by
  unfold compareTail
  simp only [h]

/-- A comparison with zero. -/
theorem compare_zero {ls : List Token} {l : Expr} (hl : DerivesExpr .sum ls l) :
    DerivesCond .negation (ls ++ [sample (.symbol .lt), sample .int])
      (.compare .lt l (.int 0 (sample .int).span) (l.span.upTo (sample .int).span)) :=
  .compare hl rfl zero_sum

theorem comparison_exact (ts : List Token) :
    Exact (.next finish) (DerivesCond .negation) (of (comparison finish)) ts := by
  rw [comparison_eq]
  refine .bind (expr_exact finish ts) (fun l seg rest _ hseg _ => ?_)
    (next_carries finish) fun seg l hseg => ⟨_, _, compare_zero hseg⟩
  by_cases hnext : ∃ t rest' op, rest = t :: rest' ∧ compareOp? t.kind = some op
  · obtain ⟨t, rest', op, rfl, hop⟩ := hnext
    refine .cons ?_ (next_carries finish _) fun us => compareTail_goes finish hop us
    exact (expr_exact finish rest').map fun hr => .compare hseg hop hr
  · refine .stop ⟨_, _, compare_zero hseg⟩ (.refl _) fun us hus => ?_
    have hother : ∀ t ∈ us.head?, compareOp? t.kind = none := by
      intro t ht
      rw [hus] at ht
      obtain ⟨rest', rfl⟩ := List.head?_eq_some_iff.mp ht
      cases hop : compareOp? t.kind with
      | none => rfl
      | some op => exact absurd ⟨t, rest', op, rfl, hop⟩ hnext
    obtain ⟨failure, hstop, hspan⟩ := compareTail_stops finish hother
    exact ⟨failure, us, hstop, hspan, Nat.le_refl _⟩

end Expressions

end Signum.Parser
