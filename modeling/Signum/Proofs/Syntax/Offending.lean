import Signum.Proofs.Syntax.Backtracking
import Signum.Proofs.Syntax.Unambiguous
/- Where a program that is not one goes wrong.

   Some tokens are viable when a program starts with them. The tokens of a source that is
   rejected have a first token that makes them not viable, or they are viable and only end too
   early. Statements, declarations and blocks are read without a second attempt, so by the
   rules for `Exact` their problems are reported where those of the expressions and conditions
   in them are: at that token or at the end, and at an operator of comparison in the one
   situation in which a condition hides the token (`Hides`). -/
namespace Signum
namespace Parser

open Grammar
open Reader (of give)

section Statements
variable (finish : Point)

theorem next_hidden (early : List Token) : Carries (.next finish) (.hidden finish) early :=
  next_either finish Hides early

theorem operand_exact (ts : List Token) :
    Exact (.hidden finish) (DerivesExpr .sum) (of (expr finish)) ts :=
  (expr_exact finish ts).mono (fun _ _ he => he) (next_hidden finish [])

/-! Headers and declarations. -/

theorem header_eq (what : Bytes) :
    of (header finish what) = (of (expect finish (.symbol .lparen) ("after " ++ what))).andThen
      fun _ => (of (cond finish)).andThen fun c =>
        (of (expect finish (.symbol .rparen) ("after " ++ what ++ " condition"))).andThen
          fun _ => give c := by
  funext ts
  show (header finish what ts).result = _
  unfold header
  exact result_bind fun opening rest _ => result_bind fun c rest' _ =>
    result_bind fun closing rest'' _ => rfl

theorem header_exact (what : Bytes) (ts : List Token) :
    Exact (.hidden finish) DerivesHeader (of (header finish what)) ts := by
  rw [header_eq]
  have hzero : DerivesCond .disjunction _ _ := .ofConjunction (.ofNegation (compare_zero zero_sum))
  refine .opened (next_hidden finish []) (fun opening rest _ ho => ?_)
    (fun opening ho => cut_hidden finish (by rw [ho]; decide))
    ⟨_, _, .parens (sample_kind (.symbol .lparen)) hzero (sample_kind (.symbol .rparen))⟩
  exact (cond_exact finish rest).closed (next_either finish _) fun hc hcl => .parens ho hc hcl

/-- The end of a declaration. -/
def declEnd (type : NumType) (t name : Token) (init : Option Expr) : Reader Decl :=
  (of (expect finish (.symbol .semi) "after declaration")).andThen fun semi =>
    give ⟨type, name.text, init, t.span.upTo semi.span⟩

/-- A declaration, after the name. -/
def declRest (type : NumType) (t name : Token) : Reader Decl
  | u :: rest =>
    if u.kind = .symbol .assign then
      ((of (expr finish)).andThen fun init => declEnd finish type t name (some init)) rest
    else declEnd finish type t name none (u :: rest)
  | [] => declEnd finish type t name none []

theorem decl_eq (type : NumType) (t : Token) :
    of (decl finish type t) =
      (of (expect finish .ident "after type")).andThen (declRest finish type t) := by
  funext ts
  show (decl finish type t ts).result = _
  unfold decl
  refine result_bind fun name rest hlt => ?_
  have hend (init : Option Expr) (us : List Token) (h : us.length < ts.length) :
      ((expect finish (.symbol .semi) "after declaration" us).bind fun semi rest' _ =>
        (.ok ⟨type, name.text, init, t.span.upTo semi.span⟩ rest' (by omega) :
          Step Decl ts.length)).result = declEnd finish type t name init us :=
    result_bind fun semi rest' _ => rfl
  cases rest with
  | nil => exact hend none [] hlt
  | cons u rest' =>
    unfold declRest
    dsimp only
    split
    · refine result_bind fun init rest'' hlt' => hend (some init) rest'' ?_
      simp only [List.length_cons] at hlt
      omega
    · exact hend none (u :: rest') hlt

theorem declRest_exact {type : NumType} {t name : Token} (ht : typeOf? t.kind = some type)
    (hn : name.kind = .ident) (ts : List Token) :
    Exact (.hidden finish) (fun seg d => DerivesDecl (t :: name :: seg) d)
      (declRest finish type t name) ts := by
  have hplain : Exact (.hidden finish) (fun seg d => DerivesDecl (t :: name :: seg) d)
      (declEnd finish type t name none) ts :=
    .opened (next_hidden finish []) (fun semi _ _ hs => .give (.plain ht hn hs))
      (fun semi _ => never_carries _ [semi]) ⟨_, _, .plain ht hn (sample_kind (.symbol .semi))⟩
  cases ts with
  | nil =>
    refine hplain.congr fun us hus => ?_
    rw [List.head?_eq_none_iff.mp hus]
    rfl
  | cons u rest =>
    by_cases hu : u.kind = .symbol .assign
    · refine .cons ?_ (hidden_carries finish _) fun us => if_pos hu
      exact (operand_exact finish rest).closed (next_hidden finish)
        fun he hs => .init ht hn hu he hs
    · refine hplain.congr fun us hus => ?_
      obtain ⟨us, rfl⟩ := List.head?_eq_some_iff.mp hus
      exact if_neg hu

theorem decl_exact {type : NumType} {t : Token} (ht : typeOf? t.kind = some type)
    (ts : List Token) :
    Exact (.hidden finish) (fun seg d => DerivesDecl (t :: seg) d) (of (decl finish type t))
      ts := by
  rw [decl_eq]
  exact .opened (next_hidden finish []) (fun name rest _ hn => declRest_exact finish ht hn rest)
    (fun name _ => hidden_carries finish [name])
    ⟨_, _, .plain ht (sample_kind .ident) (sample_kind (.symbol .semi))⟩

/-! Statements, as readers. -/

/-- A statement, after the branch of an `if`. -/
def branchRest (t : Token) (c : Cond) (yes : Stmt) : Reader Stmt
  | u :: rest =>
    if u.kind = .keyword .elseWord then
      ((of (stmt finish)).andThen fun no =>
        give (.ite c yes (some no) (t.span.upTo no.span))) rest
    else .ok (.ite c yes none (t.span.upTo yes.span), u :: rest)
  | [] => .ok (.ite c yes none (t.span.upTo yes.span), [])

section Words
variable {t : Token} (ts : List Token)

theorem stmt_assign (h : t.kind = .ident) :
    of (stmt finish) (t :: ts) = ((of (expect finish (.symbol .assign) "in assignment")).andThen
      fun _ => (of (expr finish)).andThen fun value =>
        (of (expect finish (.symbol .semi) "after assignment")).andThen fun semi =>
          give (.assign t.text value (t.span.upTo semi.span))) ts := by
  show (stmt finish (t :: ts)).result = _
  rw [stmt]
  simp only [h]
  exact result_bind fun _ _ _ => result_bind fun _ _ _ => result_bind fun _ _ _ => rfl

theorem stmt_print (h : t.kind = .keyword .printWord) :
    of (stmt finish) (t :: ts) = ((of (expr finish)).andThen fun value =>
      (of (expect finish (.symbol .semi) "after print")).andThen fun semi =>
        give (.print value (t.span.upTo semi.span))) ts := by
  show (stmt finish (t :: ts)).result = _
  rw [stmt]
  simp only [h]
  exact result_bind fun _ _ _ => result_bind fun _ _ _ => rfl

theorem stmt_block (h : t.kind = .symbol .lbrace) :
    of (stmt finish) (t :: ts) = ((of (blockItems finish)).andThen fun body =>
      give (.block body.1 (t.span.upTo body.2.span))) ts := by
  show (stmt finish (t :: ts)).result = _
  rw [stmt]
  simp only [h]
  exact result_bind fun _ _ _ => rfl

theorem stmt_ite (h : t.kind = .keyword .ifWord) :
    of (stmt finish) (t :: ts) = ((of (header finish "if")).andThen fun c =>
      (of (stmt finish)).andThen (branchRest finish t c)) ts := by
  show (stmt finish (t :: ts)).result = _
  rw [stmt]
  simp only [h]
  refine result_bind fun c rest _ => result_bind fun yes rest' _ => ?_
  cases rest' with
  | nil => rfl
  | cons u rest'' =>
    unfold branchRest
    dsimp only
    split
    · exact result_bind fun _ _ _ => rfl
    · rfl

theorem stmt_loop (h : t.kind = .keyword .whileWord) :
    of (stmt finish) (t :: ts) = ((of (header finish "while")).andThen fun c =>
      (of (stmt finish)).andThen fun body => give (.loop c body (t.span.upTo body.span))) ts := by
  show (stmt finish (t :: ts)).result = _
  rw [stmt]
  simp only [h]
  exact result_bind fun _ _ _ => result_bind fun _ _ _ => rfl

theorem item_declares {type : NumType} (h : typeOf? t.kind = some type) :
    of (item finish) (t :: ts) =
      ((of (decl finish type t)).andThen fun d => give (.decl d)) ts := by
  show (item finish (t :: ts)).result = _
  rw [item]
  split
  · next hk =>
    rw [hk] at h
    cases h
    exact result_bind fun _ _ _ => rfl
  · next hk =>
    rw [hk] at h
    cases h
    exact result_bind fun _ _ _ => rfl
  · next hint hfloat =>
    unfold typeOf? at h
    split at h
    · next hk => exact absurd hk hint
    · next hk => exact absurd hk hfloat
    · cases h

theorem blockItems_ends (h : t.kind = .symbol .rbrace) :
    of (blockItems finish) (t :: ts) = .ok (([], t), ts) := by
  show (blockItems finish (t :: ts)).result = _
  rw [blockItems, if_pos h]
  rfl

theorem blockItems_goes (h : t.kind ≠ .symbol .rbrace) :
    of (blockItems finish) (t :: ts) = ((of (item finish)).andThen fun u =>
      (of (blockItems finish)).andThen fun body => give (u :: body.1, body.2)) (t :: ts) := by
  show (blockItems finish (t :: ts)).result = _
  rw [blockItems, if_neg h]
  exact result_bind fun _ _ _ => result_bind fun _ _ _ => rfl

end Words

/-- No statement starts with another word. -/
theorem stmt_stops {ts : List Token} (h : ∀ t ∈ ts.head?, t.kind ∉ stmtStarts) :
    ∃ failure, of (stmt finish) ts = .error (failure, ts) ∧ failure.span = placeOf finish ts := by
  show ∃ failure, (stmt finish ts).result = _ ∧ _
  cases ts with
  | nil =>
    rw [stmt]
    exact ⟨_, rfl, rfl⟩
  | cons t rest =>
    have hother := h t rfl
    rw [stmt]
    split
    all_goals first
      | exact ⟨_, rfl, rfl⟩
      | next hk => exact absurd (by rw [hk]; decide) hother

theorem item_states {ts : List Token} (h : ∀ t ∈ ts.head?, typeOf? t.kind = none) :
    of (item finish) ts = ((of (stmt finish)).andThen fun s => give (.stmt s)) ts := by
  show (item finish ts).result = _
  cases ts with
  | nil =>
    rw [item]
    exact result_bind fun _ _ _ => rfl
  | cons t rest =>
    have hnone := h t rfl
    rw [item]
    split
    · next hk =>
      rw [hk] at hnone
      cases hnone
    · next hk =>
      rw [hk] at hnone
      cases hnone
    · exact result_bind fun _ _ _ => rfl

/-! Statements are read exactly. -/

/-- The empty block. -/
theorem block_derives : DerivesStmt [sample (.symbol .lbrace), sample (.symbol .rbrace)]
    (.block [] ⟨Point.origin, Point.origin⟩) :=
  .block (sample_kind (.symbol .lbrace)) .nil (sample_kind (.symbol .rbrace))

theorem units_single {ts : List Token} {u : Item} (h : DerivesItem ts u) : DerivesItems ts [u] := by
  rw [← List.append_nil ts]
  exact .cons h .nil

/-- Units, in a block that ends after them. -/
theorem block_of_units {ts : List Token} {units : List Item} (h : DerivesItems ts units) :
    DerivesBlock (ts ++ [sample (.symbol .rbrace)]) (units, sample (.symbol .rbrace)) :=
  ⟨ts, rfl, rfl, h⟩

theorem other_exact {ts : List Token} (h : ∀ t ∈ ts.head?, t.kind ∉ stmtStarts) :
    Exact (.hidden finish) DerivesStmt (of (stmt finish)) ts := by
  refine .stop ⟨_, _, block_derives⟩ (next_hidden finish []) fun us hus => ?_
  rw [← hus] at h
  obtain ⟨failure, hstop, hspan⟩ := stmt_stops finish h
  exact ⟨failure, us, hstop, hspan, Nat.le_refl _⟩

section Words
variable {t : Token}

theorem assign_exact (h : t.kind = .ident) (rest : List Token) :
    Exact (.hidden finish) DerivesStmt (of (stmt finish)) (t :: rest) := by
  refine .cons ?_ (hidden_carries finish _) fun us => stmt_assign finish us h
  refine .opened (next_hidden finish []) (fun eq rest₁ _ heq => ?_)
    (fun eq _ => hidden_carries finish [eq])
    ⟨_, _, .assign h (sample_kind (.symbol .assign)) zero_sum (sample_kind (.symbol .semi))⟩
  exact (operand_exact finish rest₁).closed (next_hidden finish) fun he hs => .assign h heq he hs

theorem print_exact (h : t.kind = .keyword .printWord) (rest : List Token) :
    Exact (.hidden finish) DerivesStmt (of (stmt finish)) (t :: rest) := by
  refine .cons ?_ (hidden_carries finish _) fun us => stmt_print finish us h
  exact (operand_exact finish rest).closed (next_hidden finish) fun he hs => .print h he hs

/-- An `else` after the branch belongs to this `if`. -/
theorem branchRest_exact {hs ys : List Token} {c : Cond} {yes : Stmt}
    (h : t.kind = .keyword .ifWord) (hc : DerivesHeader hs c) (hy : DerivesStmt ys yes)
    (ts : List Token) (hno : ∀ u rest, ts = u :: rest →
      Exact (.hidden finish) DerivesStmt (of (stmt finish)) rest) :
    Exact (.hidden finish) (fun seg s => DerivesStmt (t :: (hs ++ (ys ++ seg))) s)
      (branchRest finish t c yes) ts := by
  have hnone : DerivesStmt (t :: (hs ++ (ys ++ []))) (.ite c yes none (t.span.upTo yes.span)) := by
    rw [List.append_nil]
    exact .ite h hc hy
  cases ts with
  | nil =>
    refine .done hnone fun us hus => ?_
    rw [List.head?_eq_none_iff.mp hus]
    rfl
  | cons u rest =>
    by_cases hu : u.kind = .keyword .elseWord
    · refine .cons ?_ (hidden_carries finish _) fun us => if_pos hu
      exact (hno u rest rfl).map fun hn => .iteElse h hc hy hu hn
    · refine .done hnone fun us hus => ?_
      obtain ⟨us, rfl⟩ := List.head?_eq_some_iff.mp hus
      exact if_neg hu

end Words

mutual

theorem stmt_exact : (ts : List Token) →
    Exact (.hidden finish) DerivesStmt (of (stmt finish)) ts
  | [] => other_exact finish nofun
  | t :: rest => by
    by_cases hstart : t.kind ∈ stmtStarts
    · simp only [stmtStarts, List.mem_cons, List.not_mem_nil, or_false] at hstart
      rcases hstart with hassign | hprint | hblock | hif | hwhile
      · exact assign_exact finish hassign rest
      · exact print_exact finish hprint rest
      · refine .cons ?_ (hidden_carries finish _) fun us => stmt_block finish us hblock
        refine (blockItems_exact rest).map fun hb => ?_
        obtain ⟨us, rfl, hc, hus⟩ := hb
        exact .block hblock hus hc
      · refine .cons ?_ (hidden_carries finish _) fun us => stmt_ite finish us hif
        refine .bind (header_exact finish _ rest) (fun c seg rest₁ hts hc _ => ?_)
          (hidden_carries finish) fun seg c hc => ⟨_, _, .ite hif hc block_derives⟩
        have hlen : rest₁.length ≤ rest.length := by rw [hts]; simp
        refine .bind (stmt_exact rest₁) (fun yes seg' rest₂ hts' hy _ => ?_)
          (hidden_carries finish) fun seg' yes hy => ⟨[], _, by simpa using .ite hif hc hy⟩
        refine branchRest_exact finish hif hc hy rest₂ fun u rest₃ hrest₂ => ?_
        have hlen' : rest₃.length < rest₁.length := by rw [hts', hrest₂]; simp; omega
        exact stmt_exact rest₃
      · refine .cons ?_ (hidden_carries finish _) fun us => stmt_loop finish us hwhile
        refine .bind (header_exact finish _ rest) (fun c seg rest₁ hts hc _ => ?_)
          (hidden_carries finish) fun seg c hc => ⟨_, _, .loop hwhile hc block_derives⟩
        have hlen : rest₁.length ≤ rest.length := by rw [hts]; simp
        exact (stmt_exact rest₁).map fun hb => .loop hwhile hc hb
    · exact other_exact finish (by simpa using hstart)
termination_by ts => 3 * ts.length
decreasing_by all_goals (simp only [List.length_cons] at *; omega)

theorem item_exact (ts : List Token) :
    Exact (.hidden finish) DerivesItem (of (item finish)) ts := by
  by_cases hdecl : ∃ t rest type, ts = t :: rest ∧ typeOf? t.kind = some type
  · obtain ⟨t, rest, type, rfl, ht⟩ := hdecl
    refine .cons ?_ (hidden_carries finish _) fun us => item_declares finish us ht
    exact (decl_exact finish ht rest).map fun hd => .decl hd
  · have hnone : ∀ t ∈ ts.head?, typeOf? t.kind = none := by
      intro t ht
      obtain ⟨rest, rfl⟩ := List.head?_eq_some_iff.mp ht
      cases hk : typeOf? t.kind with
      | none => rfl
      | some type => exact absurd ⟨t, rest, type, rfl, hk⟩ hdecl
    have hstmt : Exact (.hidden finish) DerivesItem
        ((of (stmt finish)).andThen fun s => give (.stmt s)) ts :=
      (stmt_exact ts).map fun hs => .stmt hs
    refine hstmt.congr fun us hus => item_states finish ?_
    rw [hus]
    exact hnone
termination_by 3 * ts.length + 1

theorem blockItems_exact : (ts : List Token) →
    Exact (.hidden finish) DerivesBlock (of (blockItems finish)) ts
  | [] => by
    refine .stop ⟨_, _, block_of_units .nil⟩ (next_hidden finish []) fun us hus => ?_
    rw [List.head?_eq_none_iff.mp hus]
    unfold of
    rw [blockItems]
    exact ⟨_, [], rfl, rfl, Nat.le_refl _⟩
  | t :: rest => by
    by_cases hk : t.kind = .symbol .rbrace
    · exact .token ⟨[], rfl, hk, .nil⟩ fun us => blockItems_ends finish us hk
    · have hgoes : Exact (.hidden finish) DerivesBlock ((of (item finish)).andThen fun u =>
          (of (blockItems finish)).andThen fun body => give (u :: body.1, body.2)) (t :: rest) := by
        refine .bind (item_exact (t :: rest)) (fun u seg rest₁ _ hu hitem => ?_)
          (hidden_carries finish) fun seg u hu => ?_
        · have hshort := result_shorter (x := item finish (t :: rest)) hitem
          refine (blockItems_exact rest₁).map fun hb => ?_
          obtain ⟨vs, rfl, hc, hvs⟩ := hb
          exact ⟨seg ++ vs, (List.append_assoc _ _ _).symm, hc, .cons hu hvs⟩
        · exact ⟨[sample (.symbol .rbrace)], _, block_of_units (units_single hu)⟩
      refine hgoes.congr fun us hus => ?_
      obtain ⟨us, rfl⟩ := List.head?_eq_some_iff.mp hus
      exact blockItems_goes finish us hk
termination_by ts => 3 * ts.length + 2
decreasing_by all_goals (simp only [List.length_cons] at *; omega)

end

/-! Programs. -/

theorem items_stops {t : Token} {ts reached : List Token} {failure : Failure}
    (h : of (item finish) (t :: ts) = .error (failure, reached)) :
    items finish (t :: ts) = .error failure := by
  change (item finish (t :: ts)).result = _ at h
  rw [items]
  cases hitem : item finish (t :: ts) with
  | ok u rest hlt =>
    rw [hitem] at h
    cases h
  | error failure' reached' =>
    rw [hitem] at h
    cases h
    rfl

theorem items_goes {ts rest : List Token} {u : Item}
    (h : of (item finish) ts = .ok (u, rest)) :
    items finish ts = (items finish rest).map (u :: ·) := by
  change (item finish ts).result = _ at h
  cases ts with
  | nil =>
    have hshort := result_shorter h
    cases hshort
  | cons t ts =>
    rw [items]
    cases hitem : item finish (t :: ts) with
    | ok u' rest' hlt =>
      rw [hitem] at h
      cases h
      rfl
    | error failure reached =>
      rw [hitem] at h
      cases h

/-- A problem of a program is laid on a token before which the tokens can be completed, and
which no program has after them. -/
theorem items_offends (ts : List Token) {failure : Failure} (h : items finish ts = .error failure) :
    ∃ before rest, ts = before ++ rest ∧
      (failure.span = placeOf finish rest ∨ ∃ op, Hides before op ∧ failure.span = op.span) ∧
      (∃ more units, DerivesItems (before ++ more) units) ∧
      ∀ tail, tail.head? = rest.head? →
        ∃ failure', items finish (before ++ tail) = .error failure' := by
  -- a unit takes at least one token
  induction hn : ts.length using Nat.strongRecOn generalizing ts failure with
  | ind n ih =>
    cases ts with
    | nil =>
      rw [items] at h
      cases h
    | cons t ts =>
      have hexact := item_exact finish (t :: ts)
      cases hitem : of (item finish) (t :: ts) with
      | error e =>
        obtain ⟨failure', reached⟩ := e
        cases (items_stops finish hitem).symm.trans h
        obtain ⟨before, rest, hoff⟩ := hexact.error hitem
        obtain ⟨more, u, hu⟩ := hoff.viable
        refine ⟨before, rest, hoff.split, hoff.blame.1, ⟨more, [u], units_single hu⟩, ?_⟩
        intro tail htail
        -- there is a first token still, the problem or one before it
        have hhead : (before ++ tail).head? = some t := head?_of_split hoff.split htail
        obtain ⟨us, hus⟩ := List.head?_eq_some_iff.mp hhead
        obtain ⟨⟨f, r⟩, hstop⟩ := hoff.dead tail htail
        rw [hus] at hstop ⊢
        exact ⟨f, items_stops finish hstop⟩
      | ok p =>
        obtain ⟨u, rest⟩ := p
        have hshort := result_shorter (x := item finish (t :: ts)) hitem
        obtain ⟨seg, hts, hseg, hlocal⟩ := hexact.ok hitem
        rw [items_goes finish hitem] at h
        cases hrest : items finish rest with
        | ok units =>
          rw [hrest] at h
          cases h
        | error failure' =>
          rw [hrest] at h
          cases h
          obtain ⟨before, late, hsplit, hplace, ⟨more, units, hunits⟩, hdead⟩ :=
            ih rest.length (hn ▸ hshort) rest hrest rfl
          refine ⟨seg ++ before, late, by rw [hts, hsplit, List.append_assoc], hplace.imp_right ?_,
            ⟨more, u :: units, ?_⟩, fun tail htail => ?_⟩
          · rintro ⟨op, hop, hspan⟩
            exact ⟨op, hop.append seg, hspan⟩
          · rw [List.append_assoc]
            exact .cons hseg hunits
          · obtain ⟨f, hf⟩ := hdead tail htail
            have hhead := head?_of_split hsplit htail
            rw [List.append_assoc, items_goes finish (hlocal _ hhead), hf]
            exact ⟨f, rfl⟩

end Statements

/-- A program starts with the tokens. -/
def Viable (ts : List Token) : Prop :=
  ∃ more finish units, items finish (ts ++ more) = .ok units

/-- What is derived is read, wherever the source ends. -/
theorem items_of_derives (finish : Point) {ts : List Token} {units : List Item}
    (h : DerivesItems ts units) : ∃ units', items finish ts = .ok units' := by
  obtain ⟨d, hd⟩ := h.derivation
  obtain ⟨d', htokens, hnear⟩ := d.exists_nearest
  refine ⟨d'.tree, ?_⟩
  rw [← hd, ← htokens]
  exact d'.items_eq finish hnear

/-- The first token of `rest` is the first to make the tokens not viable. Without one, they are
viable and end too early. -/
structure Diverges (ts before rest : List Token) : Prop where
  split : ts = before ++ rest
  viable : Viable before
  dead : ∀ t ∈ rest.head?, ¬Viable (before ++ [t])

theorem items_error_place (finish : Point) {ts : List Token} {failure : Failure}
    (h : items finish ts = .error failure) :
    ∃ before rest, Diverges ts before rest ∧
      (failure.span = placeOf finish rest ∨ ∃ op, Hides before op ∧ failure.span = op.span) := by
  obtain ⟨before, rest, hsplit, hplace, ⟨more, units, hunits⟩, hdead⟩ := items_offends finish ts h
  refine ⟨before, rest, ⟨hsplit, ?_, ?_⟩, hplace⟩
  · obtain ⟨units', hread⟩ := items_of_derives finish hunits
    exact ⟨more, finish, units', hread⟩
  · intro t ht hviable
    obtain ⟨more', finish', units', hread⟩ := hviable
    rw [List.append_assoc, List.singleton_append] at hread
    have hderived := items_derives finish' _ hread
    obtain ⟨units'', hread'⟩ := items_of_derives finish hderived
    obtain ⟨failure', hstop⟩ := hdead (t :: more') (Option.mem_def.mp ht).symm
    cases hstop.symm.trans hread'

end Parser

open Signum.Parser (Diverges Hides placeOf)

/-- A source is rejected at the first token that makes its tokens not viable, or at its end, and
at an operator of comparison when that hides the token. -/
theorem Program.parse_error_place {source : Bytes} {lexed : Lexer.Lexed} {failure : Failure}
    (h : Lexer.tokenize source = .ok lexed) (hparse : Program.parse source = .error failure) :
    ∃ before rest, Diverges lexed.tokens before rest ∧
      (failure.span = placeOf lexed.finish rest ∨
        ∃ op, Hides before op ∧ failure.span = op.span) := by
  rw [parse_of_tokens h] at hparse
  cases hitems : Parser.items lexed.finish lexed.tokens with
  | ok units =>
    rw [hitems] at hparse
    cases hparse
  | error failure' =>
    rw [hitems] at hparse
    cases hparse
    exact Parser.items_error_place lexed.finish hitems

/-- The problem a result consists of. -/
def problem? {ε α : Type} : Except ε α → Option ε
  | .error e => some e
  | .ok _ => none

theorem problem?_eq_some {ε α : Type} {x : Except ε α} {e : ε} (h : problem? x = some e) :
    x = .error e := by
  cases x with
  | error e' => exact congrArg Except.error (Option.some.inj h)
  | ok a => cases h

/-- A source with an operand missing in nested conditions. -/
theorem Program.parse_error_place_nested :
    ∃ lexed failure, Lexer.tokenize "while (!((a < 1) && (b + ))) b = 2;" = .ok lexed ∧
      Program.parse "while (!((a < 1) && (b + ))) b = 2;" = .error failure ∧
      ∃ before rest, Diverges lexed.tokens before rest ∧
        (failure.span = placeOf lexed.finish rest ∨
          ∃ op, Hides before op ∧ failure.span = op.span) := by
  have hok : (Lexer.tokenize "while (!((a < 1) && (b + ))) b = 2;").isOk = true := by
    decide +kernel
  have hrejected :
      (problem? (Program.parse "while (!((a < 1) && (b + ))) b = 2;")).isSome = true := by
    decide +kernel
  obtain ⟨lexed, hlexed⟩ := exists_ok hok
  obtain ⟨failure, hfailure⟩ := Option.isSome_iff_exists.mp hrejected
  have hparse := problem?_eq_some hfailure
  exact ⟨lexed, failure, hlexed, hparse, parse_error_place hlexed hparse⟩

/-- Where every token that stands at the reported place leaves the tokens viable, the report is
not at the token that makes them not viable. -/
theorem Parser.not_diverges {finish : Point} {ts more : List Token} {span : Span}
    (hend : span ≠ ⟨finish, finish⟩)
    (h : ∀ i < ts.length, placeOf finish (ts.drop i) = span →
      (Parser.items finish (ts.take (i + 1) ++ more)).isOk = true)
    {before rest : List Token} (hdiv : Diverges ts before rest) : span ≠ placeOf finish rest := by
  intro hspan
  cases rest with
  | nil => exact hend hspan
  | cons t rest =>
    have hts := hdiv.split
    have hlt : before.length < ts.length := by rw [hts]; simp
    have hdrop : ts.drop before.length = t :: rest := by rw [hts, List.drop_left]
    have htake : ts.take (before.length + 1) = before ++ [t] := by
      rw [hts, List.take_length_add_append]
      rfl
    have hread := h before.length hlt (by rw [hdrop]; exact hspan.symm)
    rw [htake] at hread
    obtain ⟨units, hunits⟩ := exists_ok hread
    exact hdiv.dead t rfl ⟨more, finish, units, hunits⟩

/-- The operator is reported, and not the parenthesis after it. -/
theorem Program.operator_takes_blame :
    ∃ lexed failure, Lexer.tokenize "if (((1) < )) print 1;" = .ok lexed ∧
      Program.parse "if (((1) < )) print 1;" = .error failure ∧
      failure.span = ⟨⟨0, 9⟩, ⟨0, 10⟩⟩ ∧
      ∀ before rest, Diverges lexed.tokens before rest →
        failure.span ≠ placeOf lexed.finish rest := by
  have hok : (Lexer.tokenize "if (((1) < )) print 1;").isOk = true := by decide +kernel
  have hrejected : (problem? (Program.parse "if (((1) < )) print 1;")).isSome = true := by
    decide +kernel
  -- `0)) {}` completes the tokens up to the operator
  have hrun : ∀ lexed ∈ (Lexer.tokenize "if (((1) < )) print 1;").toOption,
      ∀ failure ∈ problem? (Program.parse "if (((1) < )) print 1;"),
        failure.span = ⟨⟨0, 9⟩, ⟨0, 10⟩⟩ ∧ failure.span ≠ ⟨lexed.finish, lexed.finish⟩ ∧
        ∀ i < lexed.tokens.length, placeOf lexed.finish (lexed.tokens.drop i) = failure.span →
          (Parser.items lexed.finish (lexed.tokens.take (i + 1) ++ [Parser.sample .int,
            Parser.sample (.symbol .rparen), Parser.sample (.symbol .rparen),
            Parser.sample (.symbol .lbrace), Parser.sample (.symbol .rbrace)])).isOk = true := by
    decide +kernel
  obtain ⟨lexed, hlexed⟩ := exists_ok hok
  obtain ⟨failure, hfailure⟩ := Option.isSome_iff_exists.mp hrejected
  obtain ⟨hspan, hend, hviable⟩ := hrun lexed (by rw [hlexed]; rfl) failure hfailure
  refine ⟨lexed, failure, hlexed, problem?_eq_some hfailure, hspan, fun before rest hdiv => ?_⟩
  exact Parser.not_diverges hend hviable hdiv

end Signum
