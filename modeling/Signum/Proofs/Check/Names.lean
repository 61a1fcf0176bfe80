import Signum.Proofs.Check.Rules
import Signum.Proofs.Fits
/- The checker's tests of names and types are the rules on them.

   The names in sight at a place are those the checker has in scope there (`Shows`). So
   what it accepts obeys the rules on names and types (`items_obeyed`), and it accepts an
   expression that obeys them and reads only assigned variables (`expr_accepts`). -/
namespace Signum.Check

/-- The names in sight are those of the checker's scopes, and only its outermost scope
has names of types. -/
structure Shows (c : Context) (Γ : Names) : Prop where
  cells : Fits (fun v t => t = v.type) c.scopes.items Γ
  types : ∀ i n t, cell c.scopes.items i n = some (.type t) → i + 1 = c.scopes.items.length

section Stacks
variable {γ : Type} {R R' : Variable → γ → Prop} {c : Context} {stack : List (List (Bytes × γ))}

theorem Coherent.stack_ne_nil (hc : Coherent c) (h : Fits R c.scopes.items stack) :
    stack ≠ [] := by
  rintro rfl
  have hheight := h.height
  have hnested := hc.nested
  simp only [List.length_nil] at hheight
  omega

/-- Telling of a variable that was just declared. -/
theorem fits_declared {d : Decl} {x : γ} (hc : Coherent c) (h : Fits R c.scopes.items stack)
    (hd : c.scopes.declaredHere d.name = false) (hx : R' (declared c d) x)
    (hR : ∀ w y, w.number < c.variables.size → R w y → R' w y) :
    Fits R' (c.scopes.add d.name (.variable (declared c d))).items (tellHere d.name x stack) := by
  obtain ⟨-, hnames, -⟩ := sets_declared (o := .variable (declared c d)) hd hc.items_ne_nil
  refine h.declare hnames (tellHere_sets (hc.stack_ne_nil h)) hx fun j m w y hw hy => ?_
  exact hR w y (hc.number_lt hw) hy

/-- Telling of a variable in sight. -/
theorem fits_told {name : Bytes} {v : Variable} {x : γ} (hc : Coherent c)
    (h : Fits R c.scopes.items stack) (hv : c.scopes.search? name = some (.variable v))
    (hx : R' v x) (hR : ∀ w y, w.number ≠ v.number → R w y → R' w y) :
    Fits R' c.scopes.items (tellNearest name x stack) := by
  obtain ⟨i, y, hcell, hi, -, -⟩ := h.nearest hv
  refine h.set hcell (tellNearest_sets hi) hx fun j m w y hjm hw hy => ?_
  exact hR w y (fun heq => hjm (hc.same_cell hw hcell heq)) hy

theorem inSight_of_search {name : Bytes} {v : Variable} (h : Fits R c.scopes.items stack)
    (hv : c.scopes.search? name = some (.variable v)) :
    ∃ x, inSight name stack = some x ∧ R v x := by
  obtain ⟨i, x, -, hi, hx, hr⟩ := h.nearest hv
  exact ⟨x, findSome?_lookup.mpr ⟨i, hi, hx⟩, hr⟩

end Stacks

namespace Shows
variable {c c' : Context} {Γ : Names}

theorem of_scopes (h : Shows c Γ) (hs : c'.scopes = c.scopes) : Shows c' Γ :=
  ⟨hs ▸ h.cells, hs ▸ h.types⟩

theorem inSight_eq (h : Shows c Γ) {name : Bytes} {v : Variable}
    (hv : c.scopes.search? name = some (.variable v)) : inSight name Γ = some v.type := by
  obtain ⟨t, ht, rfl⟩ := inSight_of_search h.cells hv
  exact ht

/-- A name in sight is one the checker finds: no name of a type stands before it. -/
theorem search?_eq (h : Shows c Γ) {name : Bytes} (hn : (inSight name Γ).isSome) :
    ∃ v, c.scopes.search? name = some (.variable v) := by
  obtain ⟨t, ht⟩ := Option.isSome_iff_exists.mp hn
  obtain ⟨i, hi, hcell⟩ := findSome?_lookup.mp ht
  obtain ⟨v, hv⟩ := h.cells.owned i name t hcell
  refine ⟨v, findSome?_lookup.mpr ⟨i, ⟨by simp [hv], fun j hj => ?_⟩, hv⟩⟩
  -- A nearer scope is not the outermost, so it has no type; and a variable would be in sight.
  cases hx : cell c.scopes.items j name with
  | none => rfl
  | some o =>
    cases o with
    | type t =>
      have hlast := h.types j name t hx
      have hlt : i < c.scopes.items.length := by
        unfold cell at hv
        obtain ⟨s, hs, -⟩ := Option.bind_eq_some_iff.mp hv
        exact (List.getElem?_eq_some_iff.mp hs).1
      omega
    | «variable» w =>
      obtain ⟨u, hu, -⟩ := h.cells.known j name w hx
      rw [hi.2 j hj] at hu
      cases hu

theorem push (h : Shows c Γ) : Shows { c with scopes := c.scopes.push } ([] :: Γ) := by
  refine ⟨h.cells.push, fun i n t hx => ?_⟩
  cases i with
  | zero => cases hx
  | succ i =>
    have := h.types i n t hx
    simp only [Scopes.push, List.length_cons]
    omega

theorem item (h : Shows c Γ) (hc : Coherent c) {u : Item} {w : Unit}
    (hu : Succeeds (Check.item u) c w c') : Shows c' (u.scope Γ) := by
  cases u with
  | stmt s => exact h.of_scopes (stmt_extends s (by simpa only [Check.item] using hu)).2
  | decl d =>
    obtain ⟨c₁, hd, -, -, rfl⟩ := decl_accepted (by simpa only [Check.item] using hu)
    refine ⟨fits_declared hc h.cells hd rfl fun _ _ _ hy => hy, fun i n t hx => ?_⟩
    obtain ⟨-, hset, -⟩ := sets_declared (o := .variable (declared c d)) hd hc.items_ne_nil
    change cell (c.scopes.add d.name _).items i n = _ at hx
    change i + 1 = (c.scopes.add d.name _).items.length
    rw [hset.length]
    rw [hset.cell i n] at hx
    split at hx
    · cases hx
    · exact h.types i n t hx

end Shows

/-! Expressions and conditions. -/

/-- The name is that of a variable which counts as assigned. -/
def Assigned (c : Context) (name : Bytes) : Prop :=
  ∃ v, c.scopes.search? name = some (.variable v) ∧ v.number ∈ c.assigned

section Expressions
variable {c : Context} {Γ : Names} {types : List (Expr × NumType)}

/-- Every name an accepted expression reads is assigned. -/
theorem Typed.assigned {e : Expr} {t : NumType} (h : Typed c.scopes c.assigned types e t) :
    ∀ n ∈ e.names, Assigned c n := by
  induction h with
  | int _ => simp [Expr.names]
  | float _ => simp [Expr.names]
  | readInt _ => simp [Expr.names]
  | readFloat _ => simp [Expr.names]
  | var hv ha _ =>
    intro n hn
    obtain rfl := List.mem_singleton.mp hn
    exact ⟨_, hv, ha⟩
  | neg _ _ ih => exact ih
  | binary _ _ _ ihl ihr => exact fun n hn => (List.mem_append.mp hn).elim (ihl n) (ihr n)

theorem Typed.agrees {e : Expr} {t : NumType} (h : Typed c.scopes c.assigned types e t)
    (hs : Shows c Γ) : e.Agrees Γ ∧ e.type? Γ = some t := by
  induction h with
  | int _ => exact ⟨trivial, rfl⟩
  | float _ => exact ⟨trivial, rfl⟩
  | readInt _ => exact ⟨trivial, rfl⟩
  | readFloat _ => exact ⟨trivial, rfl⟩
  | var hv _ _ => exact ⟨trivial, hs.inSight_eq hv⟩
  | neg _ _ ih => exact ih
  | binary _ _ _ ihl ihr =>
    obtain ⟨hal, htl⟩ := ihl
    obtain ⟨har, htr⟩ := ihr
    refine ⟨⟨hal, har, ?_⟩, htl⟩
    rw [htl, htr]
    exact agree_some.mpr rfl

theorem TypedCond.assigned {b : Cond} (h : TypedCond c.scopes c.assigned types b) :
    ∀ n ∈ b.names, Assigned c n := by
  induction h with
  | compare hl hr =>
    exact fun n hn => (List.mem_append.mp hn).elim (hl.assigned n) (hr.assigned n)
  | logical _ _ ihl ihr => exact fun n hn => (List.mem_append.mp hn).elim (ihl n) (ihr n)
  | not _ ih => exact ih

theorem TypedCond.agrees {b : Cond} (h : TypedCond c.scopes c.assigned types b)
    (hs : Shows c Γ) : b.Agrees Γ := by
  induction h with
  | compare hl hr =>
    obtain ⟨hal, htl⟩ := hl.agrees hs
    obtain ⟨har, htr⟩ := hr.agrees hs
    refine ⟨hal, har, ?_⟩
    rw [htl, htr]
    exact agree_some.mpr rfl
  | logical _ _ ihl ihr => exact ⟨ihl, ihr⟩
  | not _ ih => exact ih

theorem record_succeeds (c : Context) (e : Expr) (t : NumType) :
    Succeeds (record e t) c t { c with types := c.types.push (e, t) } := rfl

theorem lookup_succeeds {name : Bytes} {v : Variable} (s : Span)
    (hv : c.scopes.search? name = some (.variable v)) : Succeeds (lookup name s) c v c := by
  simp only [lookup, succeeds_get_bind, hv]
  exact succeeds_pure.mpr ⟨rfl, rfl⟩

theorem sameType_succeeds (c : Context) {t u : NumType} (op : Bytes) (s : Span) (h : t = u) :
    Succeeds (sameType t u op s) c () c := by
  unfold sameType
  rw [if_pos h]
  exact succeeds_pure.mpr ⟨rfl, rfl⟩

theorem expr_accepts {e : Expr} (hs : Shows c Γ) (hn : ∀ n ∈ e.names, Assigned c n)
    (ha : e.Agrees Γ) : ∃ t c', Succeeds (expr e) c t c' ∧ e.type? Γ = some t := by
  induction e generalizing c with
  | int v s => exact ⟨_, _, record_succeeds c _ _, rfl⟩
  | float v text s => exact ⟨_, _, record_succeeds c _ _, rfl⟩
  | readInt s => exact ⟨_, _, record_succeeds c _ _, rfl⟩
  | readFloat s => exact ⟨_, _, record_succeeds c _ _, rfl⟩
  | var name s =>
    obtain ⟨v, hv, hassigned⟩ := hn name (List.mem_singleton.mpr rfl)
    refine ⟨v.type, { c with types := c.types.push (.var name s, v.type) },
      succeeds_bind.mpr ⟨v, c, lookup_succeeds s hv, ?_⟩, hs.inSight_eq hv⟩
    rw [succeeds_get_bind, if_pos (List.contains_iff_mem.mpr hassigned)]
    exact record_succeeds c _ _
  | neg e s ih =>
    obtain ⟨t, c₁, he, ht⟩ := ih hs hn ha
    exact ⟨t, _, succeeds_bind.mpr ⟨t, c₁, he, record_succeeds c₁ _ _⟩, ht⟩
  | binary op l r s ihl ihr =>
    obtain ⟨hal, har, hagree⟩ := ha
    obtain ⟨t, c₁, hl, htl⟩ := ihl hs (fun n hmem => hn n (List.mem_append_left _ hmem)) hal
    obtain ⟨⟨more, rfl⟩, -⟩ := expr_accepted hl
    obtain ⟨u, c₂, hr, htr⟩ := ihr (c := { c with types := c.types ++ more }) (hs.of_scopes rfl)
      (fun n hmem => hn n (List.mem_append_right _ hmem)) har
    rw [htl, htr, agree_some] at hagree
    have hend := record_succeeds c₂ (.binary op l r s) t
    have hsame := sameType_succeeds c₂ op.symbol s hagree
    exact ⟨t, _, succeeds_bind.mpr ⟨t, _, hl, succeeds_bind.mpr ⟨u, c₂, hr,
      succeeds_bind.mpr ⟨(), c₂, hsame, hend⟩⟩⟩, htl⟩

theorem cond_accepts {b : Cond} (hs : Shows c Γ) (hn : ∀ n ∈ b.names, Assigned c n)
    (ha : b.Agrees Γ) : ∃ c', Succeeds (cond b) c () c' := by
  induction b generalizing c with
  | compare op l r s =>
    obtain ⟨hal, har, hagree⟩ := ha
    obtain ⟨t, c₁, hl, htl⟩ := expr_accepts hs (fun n hmem => hn n (List.mem_append_left _ hmem)) hal
    obtain ⟨⟨more, rfl⟩, -⟩ := expr_accepted hl
    obtain ⟨u, c₂, hr, htr⟩ := expr_accepts (c := { c with types := c.types ++ more })
      (hs.of_scopes rfl) (fun n hmem => hn n (List.mem_append_right _ hmem)) har
    rw [htl, htr, agree_some] at hagree
    refine ⟨c₂, succeeds_bind.mpr ⟨t, _, hl, succeeds_bind.mpr ⟨u, c₂, hr, ?_⟩⟩⟩
    exact sameType_succeeds c₂ _ s hagree
  | logical op l r s ihl ihr =>
    obtain ⟨c₁, hl⟩ := ihl hs (fun n hmem => hn n (List.mem_append_left _ hmem)) ha.1
    obtain ⟨⟨more, rfl⟩, -⟩ := cond_accepted hl
    obtain ⟨c₂, hr⟩ := ihr (c := { c with types := c.types ++ more }) (hs.of_scopes rfl)
      (fun n hmem => hn n (List.mem_append_right _ hmem)) ha.2
    exact ⟨c₂, succeeds_bind.mpr ⟨(), _, hl, hr⟩⟩
  | not b s ih => exact ih hs hn ha

/-- Either all names that resolve are assigned, or one is not. -/
theorem assigned_or (hs : Shows c Γ) {names : List Bytes}
    (hn : ∀ n ∈ names, (inSight n Γ).isSome) : (∀ n ∈ names, Assigned c n) ∨
      ∃ n ∈ names, ∃ v, c.scopes.search? n = some (.variable v) ∧ v.number ∉ c.assigned := by
  by_cases h : ∀ n ∈ names, Assigned c n
  · exact .inl h
  · push Not at h
    obtain ⟨n, hmem, hnot⟩ := h
    obtain ⟨v, hv⟩ := hs.search?_eq (hn n hmem)
    exact .inr ⟨n, hmem, v, hv, fun hk => hnot ⟨v, hv, hk⟩⟩

end Expressions

/-! Statements that succeed when their parts do. -/

theorem decl_succeeds {c : Context} {d : Decl} (hd : c.scopes.declaredHere d.name = false)
    (hinit : ∀ e, d.init = some e → ∃ c₁, Succeeds (expr e) c d.type c₁) :
    ∃ c', Succeeds (decl d) c () c' := by
  have hfree : ¬c.scopes.declaredHere d.name = true := by simp [hd]
  cases he : d.init with
  | none =>
    refine ⟨{ c with
      scopes := c.scopes.add d.name (.variable (declared c d)),
      «variables» := c.variables.push (declared c d) }, ?_⟩
    unfold decl
    rw [succeeds_get_bind, if_neg hfree, he]
    rfl
  | some e =>
    obtain ⟨c₁, hexpr⟩ := hinit e he
    refine ⟨{ c₁ with
      scopes := c₁.scopes.add d.name (.variable (declared c d)),
      «variables» := c₁.variables.push (declared c d),
      assigned := c₁.assigned.insert c.variables.size }, ?_⟩
    unfold decl
    rw [succeeds_get_bind, if_neg hfree, he]
    refine succeeds_bind.mpr ⟨d.type, c₁, hexpr, ?_⟩
    rw [if_neg (fun hne => hne rfl)]
    rfl

theorem assign_succeeds {c c₁ : Context} {name : Bytes} {value : Expr} {v : Variable} (s : Span)
    (hv : c.scopes.search? name = some (.variable v)) (he : Succeeds (expr value) c v.type c₁) :
    Succeeds (stmt (.assign name value s)) c ()
      { c₁ with assigned := c₁.assigned.insert v.number } := by
  rw [stmt]
  refine succeeds_bind.mpr ⟨v, c, lookup_succeeds s hv, succeeds_bind.mpr ⟨v.type, c₁, he, ?_⟩⟩
  rw [if_neg (fun hne => hne rfl)]
  rfl

theorem within_succeeds {m : CheckM Unit} {c c₁ : Context}
    (h : Succeeds m { c with scopes := c.scopes.push } () c₁) :
    Succeeds (within m) c () { c₁ with scopes := c₁.scopes.pop } :=
  congrArg (fun r : Except Failure Unit × Context =>
    (r.1, ({ r.2 with scopes := r.2.scopes.pop } : Context))) h

theorem branch_succeeds {m : CheckM Unit} {c c₁ : Context} (h : Succeeds m c () c₁) :
    Succeeds (branch m) c c₁.assigned { c₁ with assigned := c.assigned } :=
  congrArg (fun r : Except Failure Unit × Context =>
    (r.1.map fun _ => r.2.assigned, ({ r.2 with assigned := c.assigned } : Context))) h

/-! Accepted programs keep the rules. -/

/-- The rules on names and types hold of the uses. -/
def Obeyed (uses : List (Names × Use)) : Prop :=
  ∀ q ∈ uses, (∀ n ∈ q.2.names, (inSight n q.1).isSome) ∧ q.2.Agrees q.1

theorem obeyed_cons {q : Names × Use} {uses : List (Names × Use)} :
    Obeyed (q :: uses) ↔
      ((∀ n ∈ q.2.names, (inSight n q.1).isSome) ∧ q.2.Agrees q.1) ∧ Obeyed uses :=
  List.forall_mem_cons

theorem obeyed_append {l r : List (Names × Use)} : Obeyed (l ++ r) ↔ Obeyed l ∧ Obeyed r :=
  List.forall_mem_append

section Uses
variable {c c' : Context} {Γ : Names} {w : Unit}

theorem Shows.resolved (h : Shows c Γ) {n : Bytes} (ha : Assigned c n) :
    (inSight n Γ).isSome := by
  obtain ⟨v, hv, -⟩ := ha
  rw [h.inSight_eq hv]
  rfl

theorem test_obeyed {b : Cond} {types : List (Expr × NumType)} (hs : Shows c Γ)
    (h : TypedCond c.scopes c.assigned types b) :
    (∀ n ∈ b.names, (inSight n Γ).isSome) ∧ b.Agrees Γ :=
  ⟨fun n hmem => hs.resolved (h.assigned n hmem), h.agrees hs⟩

theorem decl_obeyed {d : Decl} (hs : Shows c Γ) (h : Succeeds (decl d) c w c') :
    Obeyed [(Γ, .declare d)] := by
  obtain ⟨c₁, -, -, hinit, -⟩ := decl_accepted h
  refine obeyed_cons.mpr ⟨⟨fun n hn => ?_, fun e he => ?_⟩, by simp [Obeyed]⟩
  · cases he : d.init with
    | none => simp [Use.names, he] at hn
    | some e =>
      exact hs.resolved ((hinit e he).assigned n (by simpa [Use.names, he] using hn))
  · obtain ⟨ha, ht⟩ := (hinit e he).agrees hs
    rw [ht]
    exact ⟨ha, agree_some.mpr rfl⟩

theorem declaredHere_add {scopes : Scopes} {name n : Bytes} {o : Object}
    (hne : scopes.items ≠ []) : (scopes.add name o).declaredHere n = false ↔
      n ≠ name ∧ scopes.declaredHere n = false := by
  obtain ⟨items⟩ := scopes
  cases items with
  | nil => exact absurd rfl hne
  | cons here rest =>
    by_cases hn : n = name
    · simp [Scopes.add, Scopes.declaredHere, hn]
    · simp [Scopes.add, Scopes.declaredHere, List.lookup_cons, beq_eq_false_iff_ne.mpr hn, hn]

/-- What the innermost scope has after a unit. -/
theorem item_declaredHere {u : Item} (hc : Coherent c) (h : Succeeds (item u) c w c') :
    (∀ n ∈ u.declares?, c.scopes.declaredHere n = false) ∧
      ∀ n, c'.scopes.declaredHere n = false ↔
        u.declares? ≠ some n ∧ c.scopes.declaredHere n = false := by
  cases u with
  | stmt s =>
    have hsame : c'.scopes = c.scopes := (stmt_extends s (by simpa only [item] using h)).2
    rw [hsame]
    simp [Item.declares?]
  | decl d =>
    obtain ⟨c₁, hd, -, -, rfl⟩ := decl_accepted (by simpa only [item] using h)
    refine ⟨fun n hn => ?_, fun n => ?_⟩
    · obtain rfl : d.name = n := by simpa [Item.declares?] using hn
      exact hd
    · change (c.scopes.add d.name _).declaredHere n = false ↔ _
      rw [declaredHere_add hc.items_ne_nil]
      simp [Item.declares?, ne_comm]

end Uses

mutual

theorem stmt_obeyed : (s : Stmt) → ∀ {c c' : Context} {Γ : Names} {w : Unit},
    Succeeds (stmt s) c w c' → Coherent c → Shows c Γ →
    Obeyed (s.uses Γ) ∧ ∀ names ∈ s.scopes, names.Nodup
  | .assign name value s, c, c', Γ, w, h, hc, hs => by
    obtain ⟨v, c₁, hv, -, ht, -⟩ := assign_accepted h
    obtain ⟨ha, htype⟩ := ht.agrees hs
    refine ⟨obeyed_cons.mpr ⟨⟨fun n hmem => ?_, ha, ?_⟩, by simp [Obeyed]⟩, by simp [Stmt.scopes]⟩
    · rcases List.mem_cons.mp hmem with rfl | hmem
      · rw [hs.inSight_eq hv]
        rfl
      · exact hs.resolved (ht.assigned n hmem)
    · rw [hs.inSight_eq hv, htype]
      exact agree_some.mpr rfl
  | .print value s, c, c', Γ, w, h, hc, hs => by
    obtain ⟨-, t, ht⟩ := print_accepted h
    refine ⟨obeyed_cons.mpr ⟨⟨fun n hmem => ?_, (ht.agrees hs).1⟩, by simp [Obeyed]⟩,
      by simp [Stmt.scopes]⟩
    exact hs.resolved (ht.assigned n hmem)
  | .block body s, c, c', Γ, w, h, hc, hs => by
    obtain ⟨c₁, hbody, -⟩ := within_accepted (by simpa only [stmt] using h)
    obtain ⟨huses, hscopes, hown, -⟩ := items_obeyed body hbody (push_coherent hc) hs.push
    exact ⟨huses, List.forall_mem_cons.mpr ⟨hown, hscopes⟩⟩
  | .ite b yes none s, c, c', Γ, w, h, hc, hs => by
    obtain ⟨c₁, c₂, ⟨more, rfl⟩, hb, hyes, -⟩ := ite_accepted h
    obtain ⟨huses, hscopes⟩ := stmt_obeyed yes hyes ((Extends.of_records ⟨more, rfl⟩).coherent hc)
      (hs.of_scopes rfl)
    exact ⟨obeyed_cons.mpr ⟨test_obeyed hs hb, huses⟩, hscopes⟩
  | .ite b yes (some no) s, c, c', Γ, w, h, hc, hs => by
    obtain ⟨c₁, c₂, c₃, ⟨more, rfl⟩, hb, hyes, hno, -⟩ := iteElse_accepted h
    have hc₁ := (Extends.of_records ⟨more, rfl⟩).coherent hc
    obtain ⟨ext, hsame⟩ := stmt_extends yes hyes
    obtain ⟨huses, hscopes⟩ := stmt_obeyed yes hyes hc₁ (hs.of_scopes rfl)
    obtain ⟨huses', hscopes'⟩ := stmt_obeyed no hno (ext.restored.coherent hc₁)
      (hs.of_scopes hsame)
    exact ⟨obeyed_cons.mpr ⟨test_obeyed hs hb, obeyed_append.mpr ⟨huses, huses'⟩⟩,
      List.forall_mem_append.mpr ⟨hscopes, hscopes'⟩⟩
  | .loop b body s, c, c', Γ, w, h, hc, hs => by
    obtain ⟨c₁, c₂, ⟨more, rfl⟩, hb, hbody, -⟩ := loop_accepted h
    obtain ⟨huses, hscopes⟩ := stmt_obeyed body hbody
      ((Extends.of_records ⟨more, rfl⟩).coherent hc) (hs.of_scopes rfl)
    exact ⟨obeyed_cons.mpr ⟨test_obeyed hs hb, huses⟩, hscopes⟩

theorem item_obeyed : (u : Item) → ∀ {c c' : Context} {Γ : Names} {w : Unit},
    Succeeds (item u) c w c' → Coherent c → Shows c Γ →
    Obeyed (u.uses Γ) ∧ ∀ names ∈ u.scopes, names.Nodup
  | .decl d, c, c', Γ, w, h, hc, hs =>
    ⟨decl_obeyed hs (by simpa only [item] using h), by simp [Item.scopes]⟩
  | .stmt s, c, c', Γ, w, h, hc, hs => stmt_obeyed s (by simpa only [item] using h) hc hs

theorem items_obeyed : (us : List Item) → ∀ {c c' : Context} {Γ : Names} {w : Unit},
    Succeeds (items us) c w c' → Coherent c → Shows c Γ →
    Obeyed (usesOf Γ us) ∧ (∀ names ∈ scopesOf us, names.Nodup) ∧
      (us.filterMap Item.declares?).Nodup ∧
      ∀ n ∈ us.filterMap Item.declares?, c.scopes.declaredHere n = false
  | [], c, c', Γ, w, h, hc, hs => by simp [usesOf, scopesOf, Obeyed]
  | u :: rest, c, c', Γ, w, h, hc, hs => by
    simp only [items, succeeds_bind] at h
    obtain ⟨_, c₁, hu, hrest⟩ := h
    obtain ⟨huses, hscopes⟩ := item_obeyed u hu hc hs
    obtain ⟨huses', hscopes', hown, hfree⟩ := items_obeyed rest hrest
      ((item_extends u hc.items_ne_nil hu).coherent hc) (hs.item hc hu)
    obtain ⟨hnew, hafter⟩ := item_declaredHere hc hu
    refine ⟨obeyed_append.mpr ⟨huses, huses'⟩, List.forall_mem_append.mpr ⟨hscopes, hscopes'⟩, ?_⟩
    -- What the rest declares is free after the unit, so it is not what the unit declares.
    cases hdecl : u.declares? with
    | none =>
      rw [List.filterMap_cons_none hdecl]
      exact ⟨hown, fun n hn => ((hafter n).mp (hfree n hn)).2⟩
    | some name =>
      rw [List.filterMap_cons_some hdecl, List.nodup_cons, List.forall_mem_cons]
      refine ⟨⟨fun hmem => ?_, hown⟩, hnew name hdecl, fun n hn => ((hafter n).mp (hfree n hn)).2⟩
      exact ((hafter name).mp (hfree name hmem)).1 hdecl

end

end Signum.Check
