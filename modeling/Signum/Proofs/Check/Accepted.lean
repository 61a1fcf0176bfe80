import Signum.Proofs.Stack
import Signum.Proofs.Steps
/- What it means that the checker accepts something.

   `Typed` and `TypedCond` are the typing rules of expressions and conditions: every
   variable read is in sight and assigned, operands have one type, and the type of
   each node is among the recorded ones. The lemmas named `*_accepted` say that the
   checker accepts only what follows the rules, and what it does to its context. A
   statement leaves the names in sight as they were and only adds to what is recorded
   and assigned (`Extends`). -/
namespace Signum.Check

/-- The typing rules of expressions, each node with its recorded type. -/
inductive Typed (scopes : Scopes) (assigned : List Nat) (types : List (Expr × NumType)) :
    Expr → NumType → Prop where
  | int {v s} : (Expr.int v s, NumType.int) ∈ types →
      Typed scopes assigned types (.int v s) .int
  | float {v t s} : (Expr.float v t s, NumType.float) ∈ types →
      Typed scopes assigned types (.float v t s) .float
  | readInt {s} : (Expr.readInt s, NumType.int) ∈ types →
      Typed scopes assigned types (.readInt s) .int
  | readFloat {s} : (Expr.readFloat s, NumType.float) ∈ types →
      Typed scopes assigned types (.readFloat s) .float
  | var {name s v} : scopes.search? name = some (.variable v) → v.number ∈ assigned →
      (Expr.var name s, v.type) ∈ types → Typed scopes assigned types (.var name s) v.type
  | neg {e s t} : Typed scopes assigned types e t → (Expr.neg e s, t) ∈ types →
      Typed scopes assigned types (.neg e s) t
  | binary {op l r s t} : Typed scopes assigned types l t → Typed scopes assigned types r t →
      (Expr.binary op l r s, t) ∈ types → Typed scopes assigned types (.binary op l r s) t

/-- The typing rules of conditions. -/
inductive TypedCond (scopes : Scopes) (assigned : List Nat) (types : List (Expr × NumType)) :
    Cond → Prop where
  | compare {op l r s t} : Typed scopes assigned types l t → Typed scopes assigned types r t →
      TypedCond scopes assigned types (.compare op l r s)
  | logical {op l r s} : TypedCond scopes assigned types l → TypedCond scopes assigned types r →
      TypedCond scopes assigned types (.logical op l r s)
  | not {c s} : TypedCond scopes assigned types c → TypedCond scopes assigned types (.not c s)

section Mono
variable {scopes : Scopes} {assigned : List Nat} {types types' : List (Expr × NumType)}

theorem Typed.mono {e : Expr} {t : NumType} (h : Typed scopes assigned types e t)
    (ht : types ⊆ types') : Typed scopes assigned types' e t := by
  induction h with
  | int hm => exact .int (ht hm)
  | float hm => exact .float (ht hm)
  | readInt hm => exact .readInt (ht hm)
  | readFloat hm => exact .readFloat (ht hm)
  | var hv ha hm => exact .var hv ha (ht hm)
  | neg _ hm ih => exact .neg ih (ht hm)
  | binary _ _ hm ihl ihr => exact .binary ihl ihr (ht hm)

theorem TypedCond.mono {c : Cond} (h : TypedCond scopes assigned types c) (ht : types ⊆ types') :
    TypedCond scopes assigned types' c := by
  induction h with
  | compare hl hr => exact .compare (hl.mono ht) (hr.mono ht)
  | logical _ _ ihl ihr => exact .logical ihl ihr
  | not _ ih => exact .not ih

end Mono

/-- One context differs from another only in having recorded more types. -/
def Records (c c' : Context) : Prop :=
  ∃ more, c' = { c with types := c.types ++ more }

namespace Records
variable {c c' c'' : Context}

theorem refl (c : Context) : Records c c := ⟨#[], by simp⟩

theorem trans (h : Records c c') (h' : Records c' c'') : Records c c'' := by
  obtain ⟨more, rfl⟩ := h
  obtain ⟨more', rfl⟩ := h'
  exact ⟨more ++ more', by simp⟩

theorem types_subset (h : Records c c') : c.types.toList ⊆ c'.types.toList := by
  obtain ⟨more, rfl⟩ := h
  simp

end Records

theorem record_accepted {e : Expr} {t u : NumType} {c c' : Context}
    (h : Succeeds (record e t) c u c') : t = u ∧ Records c c' ∧ (e, t) ∈ c'.types.toList := by
  simp only [record, succeeds_bind, succeeds_modify, succeeds_pure] at h
  obtain ⟨_, _, rfl, rfl, rfl⟩ := h
  exact ⟨rfl, ⟨#[(e, t)], by simp⟩, by simp⟩

theorem sameType_accepted {l r : NumType} {op : Bytes} {s : Span} {c c' : Context} {u : Unit}
    (h : Succeeds (sameType l r op s) c u c') : l = r ∧ c = c' := by
  unfold sameType at h
  split at h
  · next heq => exact ⟨heq, (succeeds_pure.mp h).2⟩
  · exact (succeeds_throw.mp h).elim

theorem lookup_accepted {name : Bytes} {s : Span} {c c' : Context} {v : Variable}
    (h : Succeeds (lookup name s) c v c') : c.scopes.search? name = some (.variable v) ∧ c = c' := by
  simp only [lookup, succeeds_bind, succeeds_get] at h
  obtain ⟨_, _, ⟨rfl, rfl⟩, h⟩ := h
  split at h
  · next w hw =>
    obtain ⟨rfl, rfl⟩ := succeeds_pure.mp h
    exact ⟨hw, rfl⟩
  · exact (succeeds_throw.mp h).elim

theorem expr_accepted {e : Expr} {t : NumType} {c c' : Context} (h : Succeeds (expr e) c t c') :
    Records c c' ∧ Typed c.scopes c.assigned c'.types.toList e t := by
  induction e generalizing t c c' with
  | int v s =>
    obtain ⟨rfl, hr, hm⟩ := record_accepted h
    exact ⟨hr, .int hm⟩
  | float v text s =>
    obtain ⟨rfl, hr, hm⟩ := record_accepted h
    exact ⟨hr, .float hm⟩
  | readInt s =>
    obtain ⟨rfl, hr, hm⟩ := record_accepted h
    exact ⟨hr, .readInt hm⟩
  | readFloat s =>
    obtain ⟨rfl, hr, hm⟩ := record_accepted h
    exact ⟨hr, .readFloat hm⟩
  | var name s =>
    simp only [expr, succeeds_bind, succeeds_get] at h
    obtain ⟨v, _, hv, _, _, ⟨rfl, rfl⟩, h⟩ := h
    obtain ⟨found, rfl⟩ := lookup_accepted hv
    split at h
    · next ha =>
      obtain ⟨rfl, hr, hm⟩ := record_accepted h
      exact ⟨hr, .var found (List.contains_iff_mem.mp ha) hm⟩
    · exact (succeeds_throw.mp h).elim
  | neg e s ih =>
    simp only [expr, succeeds_bind] at h
    obtain ⟨u, c₁, he, h⟩ := h
    obtain ⟨hr, ht⟩ := ih he
    obtain ⟨rfl, hr', hm⟩ := record_accepted h
    exact ⟨hr.trans hr', .neg (ht.mono hr'.types_subset) hm⟩
  | binary op l r s ihl ihr =>
    simp only [expr, succeeds_bind] at h
    obtain ⟨u, c₁, hl, w, c₂, hr, _, _, hs, h⟩ := h
    obtain ⟨rfl, rfl⟩ := sameType_accepted hs
    obtain ⟨hl, htl⟩ := ihl hl
    obtain ⟨hr, htr⟩ := ihr hr
    obtain ⟨rfl, hr', hm⟩ := record_accepted h
    refine ⟨(hl.trans hr).trans hr', .binary (htl.mono ?_) (Typed.mono ?_ hr'.types_subset) hm⟩
    · exact fun _ hx => hr'.types_subset (hr.types_subset hx)
    · obtain ⟨more, rfl⟩ := hl
      exact htr

theorem cond_accepted {b : Cond} {c c' : Context} {u : Unit} (h : Succeeds (cond b) c u c') :
    Records c c' ∧ TypedCond c.scopes c.assigned c'.types.toList b := by
  induction b generalizing c c' u with
  | compare op l r s =>
    simp only [cond, succeeds_bind] at h
    obtain ⟨t, c₁, hl, w, c₂, hr, hs⟩ := h
    obtain ⟨rfl, rfl⟩ := sameType_accepted hs
    obtain ⟨hl, htl⟩ := expr_accepted hl
    obtain ⟨hr, htr⟩ := expr_accepted hr
    refine ⟨hl.trans hr, .compare (htl.mono hr.types_subset) ?_⟩
    obtain ⟨more, rfl⟩ := hl
    exact htr
  | logical op l r s ihl ihr =>
    simp only [cond, succeeds_bind] at h
    obtain ⟨_, c₁, hl, hr⟩ := h
    obtain ⟨hl, htl⟩ := ihl hl
    obtain ⟨hr, htr⟩ := ihr hr
    refine ⟨hl.trans hr, .logical (htl.mono hr.types_subset) ?_⟩
    obtain ⟨more, rfl⟩ := hl
    exact htr
  | not b s ih =>
    obtain ⟨hr, ht⟩ := ih h
    exact ⟨hr, .not ht⟩

/-! Statements: what each kind does to the context. -/

theorem within_accepted {m : CheckM Unit} {c c' : Context} {u : Unit}
    (h : Succeeds (within m) c u c') : ∃ c₁, Succeeds m { c with scopes := c.scopes.push } () c₁ ∧
      c' = { c₁ with scopes := c₁.scopes.pop } := by
  change ((m.run.run { c with scopes := c.scopes.push }).1, _) = _ at h
  obtain ⟨hr, rfl⟩ := Prod.mk.inj h
  exact ⟨_, Prod.ext hr rfl, rfl⟩

theorem branch_accepted {m : CheckM Unit} {c c' : Context} {assigned : List Nat}
    (h : Succeeds (branch m) c assigned c') : ∃ c₁, Succeeds m c () c₁ ∧
      assigned = c₁.assigned ∧ c' = { c₁ with assigned := c.assigned } := by
  change ((m.run.run c).1.map (fun _ => (m.run.run c).2.assigned), _) = _ at h
  obtain ⟨hr, rfl⟩ := Prod.mk.inj h
  cases hm : (m.run.run c).1 with
  | error e => rw [hm] at hr; cases hr
  | ok w =>
    rw [hm] at hr
    cases hr
    exact ⟨_, Prod.ext hm rfl, rfl, rfl⟩

theorem assign_accepted {name : Bytes} {value : Expr} {s : Span} {c c' : Context} {u : Unit}
    (h : Succeeds (stmt (.assign name value s)) c u c') :
    ∃ v c₁, c.scopes.search? name = some (.variable v) ∧ Records c c₁ ∧
      Typed c.scopes c.assigned c₁.types.toList value v.type ∧
      c' = { c₁ with assigned := c₁.assigned.insert v.number } := by
  simp only [stmt, succeeds_bind] at h
  obtain ⟨v, _, hv, t, c₁, he, h⟩ := h
  obtain ⟨found, rfl⟩ := lookup_accepted hv
  obtain ⟨hr, ht⟩ := expr_accepted he
  split at h
  · obtain ⟨_, _, h, _⟩ := succeeds_bind.mp h
    exact (succeeds_throw.mp h).elim
  · next heq =>
    have heq : t = v.type := by simpa using heq
    subst heq
    exact ⟨v, c₁, found, hr, ht, (succeeds_modify.mp h).symm⟩

theorem print_accepted {value : Expr} {s : Span} {c c' : Context} {u : Unit}
    (h : Succeeds (stmt (.print value s)) c u c') :
    Records c c' ∧ ∃ t, Typed c.scopes c.assigned c'.types.toList value t := by
  simp only [stmt, succeeds_bind, succeeds_pure] at h
  obtain ⟨t, _, he, _, rfl⟩ := h
  obtain ⟨hr, ht⟩ := expr_accepted he
  exact ⟨hr, t, ht⟩

/-- A condition and then a branch. -/
theorem guarded_accepted {b : Cond} {m : CheckM Unit} {c c' : Context} {u : Unit}
    (h : Succeeds (do cond b; let _ ← branch m) c u c') :
    ∃ c₁ c₂, Records c c₁ ∧ TypedCond c.scopes c.assigned c₁.types.toList b ∧
      Succeeds m c₁ () c₂ ∧ c' = { c₂ with assigned := c₁.assigned } := by
  simp only [succeeds_bind, succeeds_pure] at h
  obtain ⟨_, c₁, hb, _, _, hm, _, rfl⟩ := h
  obtain ⟨hr, ht⟩ := cond_accepted hb
  obtain ⟨c₂, hbranch, _, rfl⟩ := branch_accepted hm
  exact ⟨c₁, c₂, hr, ht, hbranch, rfl⟩

theorem ite_accepted {b : Cond} {yes : Stmt} {s : Span} {c c' : Context} {u : Unit}
    (h : Succeeds (stmt (.ite b yes none s)) c u c') :
    ∃ c₁ c₂, Records c c₁ ∧ TypedCond c.scopes c.assigned c₁.types.toList b ∧
      Succeeds (stmt yes) c₁ () c₂ ∧ c' = { c₂ with assigned := c₁.assigned } :=
  guarded_accepted (by simpa only [stmt] using h)

theorem loop_accepted {b : Cond} {body : Stmt} {s : Span} {c c' : Context} {u : Unit}
    (h : Succeeds (stmt (.loop b body s)) c u c') :
    ∃ c₁ c₂, Records c c₁ ∧ TypedCond c.scopes c.assigned c₁.types.toList b ∧
      Succeeds (stmt body) c₁ () c₂ ∧ c' = { c₂ with assigned := c₁.assigned } :=
  guarded_accepted (by simpa only [stmt] using h)

theorem iteElse_accepted {b : Cond} {yes no : Stmt} {s : Span} {c c' : Context} {u : Unit}
    (h : Succeeds (stmt (.ite b yes (some no) s)) c u c') :
    ∃ c₁ c₂ c₃, Records c c₁ ∧ TypedCond c.scopes c.assigned c₁.types.toList b ∧
      Succeeds (stmt yes) c₁ () c₂ ∧ Succeeds (stmt no) { c₂ with assigned := c₁.assigned } () c₃ ∧
      c' = { c₃ with
        assigned := (c₂.assigned.filter c₃.assigned.contains).foldr List.insert c₁.assigned } := by
  simp only [stmt, succeeds_bind, succeeds_modify] at h
  obtain ⟨_, c₁, hb, _, _, hy, _, _, hn, rfl⟩ := h
  obtain ⟨hr, ht⟩ := cond_accepted hb
  obtain ⟨c₂, inYes, rfl, rfl⟩ := branch_accepted hy
  obtain ⟨c₃, inNo, rfl, rfl⟩ := branch_accepted hn
  exact ⟨c₁, c₂, c₃, hr, ht, inYes, inNo, rfl⟩

/-- The variable that a declaration makes in a context. -/
def declared (c : Context) (d : Decl) : Variable :=
  { name := d.name, type := d.type, span := d.span, depth := c.scopes.depth,
    number := c.variables.size }

theorem decl_accepted {d : Decl} {c c' : Context} {u : Unit} (h : Succeeds (decl d) c u c') :
    ∃ c₁, c.scopes.declaredHere d.name = false ∧ Records c c₁ ∧
      (∀ e, d.init = some e → Typed c.scopes c.assigned c₁.types.toList e d.type) ∧
      c' = { c₁ with
        scopes := c.scopes.add d.name (.variable (declared c d)),
        «variables» := c.variables.push (declared c d),
        assigned := if d.init.isSome then c.assigned.insert c.variables.size else c.assigned } := by
  simp only [decl, succeeds_bind, succeeds_get] at h
  obtain ⟨_, _, ⟨rfl, rfl⟩, h⟩ := h
  split at h
  · obtain ⟨_, _, h, _⟩ := succeeds_bind.mp h
    exact (succeeds_throw.mp h).elim
  · next hd =>
    have hd : c.scopes.declaredHere d.name = false := by simpa using hd
    split at h
    · next e he =>
      obtain ⟨t, c₁, hexpr, h⟩ := succeeds_bind.mp h
      obtain ⟨⟨more, rfl⟩, ht⟩ := expr_accepted hexpr
      split at h
      · obtain ⟨_, _, h, _⟩ := succeeds_bind.mp h
        exact (succeeds_throw.mp h).elim
      · next heq =>
        have heq : t = d.type := by simpa using heq
        subst heq
        simp only [he, Option.isSome_some, if_true, assign, succeeds_bind, succeeds_modify] at h
        obtain ⟨_, _, rfl, rfl⟩ := h
        refine ⟨{ c with types := c.types ++ more }, hd, ⟨more, rfl⟩, ?_, by simp [he, declared]⟩
        intro e' he'
        obtain rfl : e = e' := by simpa [he] using he'
        exact ht
    · next he =>
      simp only [he, Option.isSome_none, Bool.false_eq_true, if_false, succeeds_bind,
        succeeds_modify, succeeds_pure] at h
      obtain ⟨_, _, rfl, _, rfl⟩ := h
      exact ⟨c, hd, .refl c, by simp [he], by simp [he, declared]⟩

end Signum.Check
