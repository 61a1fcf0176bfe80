import Signum.Proofs.Check.Context
import Signum.Proofs.Syntax.Nodes
import Mathlib.Data.List.Perm.Basic
/- What the checker records of an accepted program.

   Every expression of the program is recorded once, in some order. When the program's
   expressions are told apart by their places, the recorded type of an expression is
   therefore the one it was accepted with (`typeOf?_of_mem`). Every declaration of the
   program is recorded as one variable (`items_variables`). -/
namespace Signum.Check

/-- Between two contexts exactly these expressions were recorded. -/
def RecordsAll (c c' : Context) (es : List Expr) : Prop :=
  (c'.types.toList.map Prod.fst).Perm (c.types.toList.map Prod.fst ++ es)

namespace RecordsAll
variable {c c' c'' : Context} {es es' : List Expr}

theorem refl (c : Context) : RecordsAll c c [] := by simp [RecordsAll]

theorem trans (h : RecordsAll c c' es) (h' : RecordsAll c' c'' es') :
    RecordsAll c c'' (es ++ es') := by
  unfold RecordsAll at *
  rw [← List.append_assoc]
  exact h'.trans (h.append_right es')

theorem reorder (h : RecordsAll c c' es) (hp : es.Perm es') : RecordsAll c c' es' :=
  List.Perm.trans h (hp.append_left _)

/-- Only the recorded types count. -/
theorem of_types (h : RecordsAll c c' es) (hc : c''.types = c'.types) : RecordsAll c c'' es := by
  unfold RecordsAll
  rw [hc]
  exact h

theorem from_types (h : RecordsAll c c' es) (hc : c''.types = c.types) : RecordsAll c'' c' es := by
  unfold RecordsAll
  rw [hc]
  exact h

end RecordsAll

theorem record_records {e : Expr} {t u : NumType} {c c' : Context}
    (h : Succeeds (record e t) c u c') : RecordsAll c c' [e] := by
  simp only [record, succeeds_bind, succeeds_modify, succeeds_pure] at h
  obtain ⟨_, _, rfl, -, rfl⟩ := h
  simp [RecordsAll]

theorem lookup_records {name : Bytes} {s : Span} {v : Variable} {c c' : Context}
    (h : Succeeds (lookup name s) c v c') : RecordsAll c c' [] := by
  obtain ⟨-, rfl⟩ := lookup_accepted h
  exact .refl c

theorem expr_records {e : Expr} {t : NumType} {c c' : Context} (h : Succeeds (expr e) c t c') :
    RecordsAll c c' (exprsOf (e.inspect everywhere)) := by
  induction e generalizing t c c' with
  | int v s => exact record_records h
  | float v text s => exact record_records h
  | readInt s => exact record_records h
  | readFloat s => exact record_records h
  | var name s =>
    simp only [expr, succeeds_bind, succeeds_get] at h
    obtain ⟨v, _, hv, _, _, ⟨rfl, rfl⟩, h⟩ := h
    split at h
    · exact (lookup_records hv).trans (record_records h)
    · exact (succeeds_throw.mp h).elim
  | neg e s ih =>
    simp only [expr, succeeds_bind] at h
    obtain ⟨u, c₁, he, h⟩ := h
    exact ((ih he).trans (record_records h)).reorder (List.perm_append_singleton _ _)
  | binary op l r s ihl ihr =>
    simp only [expr, succeeds_bind] at h
    obtain ⟨u, c₁, hl, w, c₂, hr, _, _, hs, h⟩ := h
    obtain ⟨rfl, rfl⟩ := sameType_accepted hs
    refine (((ihl hl).trans (ihr hr)).trans (record_records h)).reorder ?_
    rw [Expr.inspect, exprsOf_expr, exprsOf_append]
    exact List.perm_append_singleton _ _

theorem cond_records {b : Cond} {c c' : Context} {u : Unit} (h : Succeeds (cond b) c u c') :
    RecordsAll c c' (exprsOf (b.inspect everywhere)) := by
  induction b generalizing c c' u with
  | compare op l r s =>
    simp only [cond, succeeds_bind] at h
    obtain ⟨t, c₁, hl, w, c₂, hr, hs⟩ := h
    obtain ⟨rfl, rfl⟩ := sameType_accepted hs
    rw [Cond.inspect, exprsOf_cond, exprsOf_append]
    exact (expr_records hl).trans (expr_records hr)
  | logical op l r s ihl ihr =>
    simp only [cond, succeeds_bind] at h
    obtain ⟨_, c₁, hl, hr⟩ := h
    rw [Cond.inspect, exprsOf_cond, exprsOf_append]
    exact (ihl hl).trans (ihr hr)
  | not b s ih => exact ih h

theorem branch_records {m : CheckM Unit} {es : List Expr} {c c' : Context} {assigned : List Nat}
    (hm : ∀ {c₁}, Succeeds m c () c₁ → RecordsAll c c₁ es)
    (h : Succeeds (branch m) c assigned c') : RecordsAll c c' es := by
  obtain ⟨c₁, hrun, -, rfl⟩ := branch_accepted h
  exact (hm hrun).of_types rfl

theorem decl_records {d : Decl} {c c' : Context} {u : Unit} (h : Succeeds (decl d) c u c') :
    RecordsAll c c' (exprsOf (d.inspect everywhere)) := by
  rw [Decl.inspect, exprsOf_decl]
  simp only [decl, succeeds_bind, succeeds_get] at h
  obtain ⟨_, _, ⟨rfl, rfl⟩, h⟩ := h
  split at h
  · obtain ⟨_, _, h, _⟩ := succeeds_bind.mp h
    exact (succeeds_throw.mp h).elim
  · cases he : d.init with
    | some e =>
      rw [he] at h
      obtain ⟨t, c₁, hexpr, h⟩ := succeeds_bind.mp h
      split at h
      · obtain ⟨_, _, h, _⟩ := succeeds_bind.mp h
        exact (succeeds_throw.mp h).elim
      · simp only [Option.isSome_some, if_true, assign, succeeds_bind, succeeds_modify] at h
        obtain ⟨_, _, rfl, rfl⟩ := h
        exact (expr_records hexpr).of_types rfl
    | none =>
      simp only [he, Option.isSome_none, Bool.false_eq_true, if_false, succeeds_bind,
        succeeds_modify, succeeds_pure] at h
      obtain ⟨_, _, rfl, _, rfl⟩ := h
      exact (RecordsAll.refl c).of_types rfl

mutual

theorem stmt_records : (s : Stmt) → ∀ {c c' : Context} {u : Unit}, Succeeds (stmt s) c u c' →
    RecordsAll c c' (exprsOf (s.inspect everywhere))
  | .assign name value s, c, c', u, h => by
    rw [Stmt.inspect, exprsOf_stmt]
    simp only [stmt, succeeds_bind] at h
    obtain ⟨v, _, hv, t, c₁, he, h⟩ := h
    split at h
    · obtain ⟨_, _, h, _⟩ := succeeds_bind.mp h
      exact (succeeds_throw.mp h).elim
    · obtain rfl := succeeds_modify.mp h
      exact ((lookup_records hv).trans (expr_records he)).of_types rfl
  | .print value s, c, c', u, h => by
    rw [Stmt.inspect, exprsOf_stmt]
    simp only [stmt, succeeds_bind, succeeds_pure] at h
    obtain ⟨t, _, he, _, rfl⟩ := h
    exact expr_records he
  | .block body s, c, c', u, h => by
    rw [Stmt.inspect, exprsOf_stmt]
    obtain ⟨c₁, hbody, rfl⟩ := within_accepted (by simpa only [stmt] using h)
    exact ((items_records body hbody).of_types rfl).from_types rfl
  | .ite b yes none s, c, c', u, h => by
    rw [Stmt.inspect, exprsOf_stmt, exprsOf_append]
    simp only [stmt, succeeds_bind, succeeds_pure] at h
    obtain ⟨_, c₁, hb, _, _, hy, _, rfl⟩ := h
    exact (cond_records hb).trans (branch_records (fun hr => stmt_records yes hr) hy)
  | .ite b yes (some no) s, c, c', u, h => by
    rw [Stmt.inspect, exprsOf_stmt, exprsOf_append, exprsOf_append]
    simp only [stmt, succeeds_bind, succeeds_modify] at h
    obtain ⟨_, c₁, hb, _, _, hy, _, _, hn, rfl⟩ := h
    have hyes := branch_records (fun hr => stmt_records yes hr) hy
    have hno := branch_records (fun hr => stmt_records no hr) hn
    exact (((cond_records hb).trans hyes).trans hno).of_types rfl
  | .loop b body s, c, c', u, h => by
    rw [Stmt.inspect, exprsOf_stmt, exprsOf_append]
    simp only [stmt, succeeds_bind, succeeds_pure] at h
    obtain ⟨_, c₁, hb, _, _, hy, _, rfl⟩ := h
    exact (cond_records hb).trans (branch_records (fun hr => stmt_records body hr) hy)

theorem item_records : (i : Item) → ∀ {c c' : Context} {u : Unit}, Succeeds (item i) c u c' →
    RecordsAll c c' (exprsOf (i.inspect everywhere))
  | .decl d, c, c', u, h => by
    rw [Item.inspect]
    exact decl_records (by simpa only [item] using h)
  | .stmt s, c, c', u, h => by
    rw [Item.inspect]
    exact stmt_records s (by simpa only [item] using h)

theorem items_records : (us : List Item) → ∀ {c c' : Context} {u : Unit},
    Succeeds (items us) c u c' → RecordsAll c c' (exprsOf (inspectItems everywhere us))
  | [], c, c', u, h => by
    obtain ⟨-, rfl⟩ := succeeds_pure.mp (by simpa only [items] using h)
    exact .refl c
  | i :: rest, c, c', u, h => by
    simp only [items, succeeds_bind] at h
    obtain ⟨_, c₁, hi, hrest⟩ := h
    rw [inspectItems, exprsOf_append]
    exact (item_records i hi).trans (items_records rest hrest)

end

/-- Where expressions are told apart by their places, each has its one recorded type. -/
theorem typeOf?_of_mem {c : Context} {e : Expr} {t : NumType}
    (hn : (c.types.toList.map Prod.fst).Nodup) (h : (e, t) ∈ c.types.toList) :
    c.typeOf? e = some t := by
  obtain ⟨l₁, l₂, hl⟩ := List.append_of_mem h
  rw [hl, List.map_append, List.map_cons] at hn
  have hnot := (List.nodup_append.mp hn).2.2
  unfold Context.typeOf?
  rw [← Array.find?_toList, hl, List.find?_append]
  have hnone : l₁.find? (·.1 = e) = none := by
    refine List.find?_eq_none.mpr fun x hx => ?_
    simpa using hnot x.1 (List.mem_map_of_mem hx) e (by simp)
  simp [hnone]

/-! Declarations. -/

/-- The declarations among some nodes. -/
def declsOf (nodes : List Node) : List Decl :=
  nodes.filterMap fun
    | .decl d => some d
    | _ => none

theorem declsOf_append (ns ms : List Node) : declsOf (ns ++ ms) = declsOf ns ++ declsOf ms :=
  List.filterMap_append

theorem declsOf_expr (e : Expr) : declsOf (e.inspect everywhere) = [] := by
  induction e with
  | neg e s ih => exact ih
  | binary op l r s ihl ihr =>
    change declsOf (l.inspect everywhere ++ r.inspect everywhere) = []
    rw [declsOf_append, ihl, ihr]
    rfl
  | _ => rfl

theorem declsOf_cond (c : Cond) : declsOf (c.inspect everywhere) = [] := by
  induction c with
  | compare op l r s =>
    change declsOf (l.inspect everywhere ++ r.inspect everywhere) = []
    rw [declsOf_append, declsOf_expr, declsOf_expr]
    rfl
  | logical op l r s ihl ihr =>
    change declsOf (l.inspect everywhere ++ r.inspect everywhere) = []
    rw [declsOf_append, ihl, ihr]
    rfl
  | not c s ih => exact ih

theorem declsOf_decl (d : Decl) : declsOf (d.inspect everywhere) = [d] := by
  obtain ⟨t, name, init, span⟩ := d
  cases init with
  | none => rfl
  | some e =>
    change _ :: declsOf (e.inspect everywhere) = _
    rw [declsOf_expr]

mutual

theorem stmt_variables : (s : Stmt) → ∀ {c c' : Context} {u : Unit}, Succeeds (stmt s) c u c' →
    c'.variables.size = c.variables.size + (declsOf (s.inspect everywhere)).length
  | .assign name value s, c, c', u, h => by
    obtain ⟨v, c₁, -, ⟨more, rfl⟩, -, rfl⟩ := assign_accepted h
    change _ = _ + (declsOf (value.inspect everywhere)).length
    rw [declsOf_expr]
    rfl
  | .print value s, c, c', u, h => by
    obtain ⟨⟨more, rfl⟩, -⟩ := print_accepted h
    change _ = _ + (declsOf (value.inspect everywhere)).length
    rw [declsOf_expr]
    rfl
  | .block body s, c, c', u, h => by
    obtain ⟨c₁, hbody, rfl⟩ := within_accepted (by simpa only [stmt] using h)
    have hsize := items_variables body hbody
    exact hsize
  | .ite b yes none s, c, c', u, h => by
    obtain ⟨c₁, c₂, ⟨more, rfl⟩, -, hyes, rfl⟩ := ite_accepted h
    change _ = _ + (declsOf (b.inspect everywhere ++ yes.inspect everywhere)).length
    rw [declsOf_append, declsOf_cond]
    have hsize := stmt_variables yes hyes
    exact hsize
  | .ite b yes (some no) s, c, c', u, h => by
    obtain ⟨c₁, c₂, c₃, ⟨more, rfl⟩, -, hyes, hno, rfl⟩ := iteElse_accepted h
    change _ = _ + (declsOf (b.inspect everywhere ++ yes.inspect everywhere ++
      no.inspect everywhere)).length
    rw [declsOf_append, declsOf_append, declsOf_cond, List.nil_append, List.length_append]
    have hyes := stmt_variables yes hyes
    have hno := stmt_variables no hno
    dsimp only at hyes hno ⊢
    omega
  | .loop b body s, c, c', u, h => by
    obtain ⟨c₁, c₂, ⟨more, rfl⟩, -, hbody, rfl⟩ := loop_accepted h
    change _ = _ + (declsOf (b.inspect everywhere ++ body.inspect everywhere)).length
    rw [declsOf_append, declsOf_cond]
    have hsize := stmt_variables body hbody
    exact hsize

theorem item_variables : (i : Item) → ∀ {c c' : Context} {u : Unit}, Succeeds (item i) c u c' →
    c'.variables.size = c.variables.size + (declsOf (i.inspect everywhere)).length
  | .decl d, c, c', u, h => by
    obtain ⟨c₁, -, -, -, rfl⟩ := decl_accepted (by simpa only [item] using h)
    rw [Item.inspect, declsOf_decl]
    exact Array.size_push _
  | .stmt s, c, c', u, h => by
    rw [Item.inspect]
    exact stmt_variables s (by simpa only [item] using h)

/-- The checker records one variable for each declaration. -/
theorem items_variables : (us : List Item) → ∀ {c c' : Context} {u : Unit},
    Succeeds (items us) c u c' →
    c'.variables.size = c.variables.size + (declsOf (inspectItems everywhere us)).length
  | [], c, c', u, h => by
    obtain ⟨-, rfl⟩ := succeeds_pure.mp (by simpa only [items] using h)
    rfl
  | i :: rest, c, c', u, h => by
    simp only [items, succeeds_bind] at h
    obtain ⟨_, c₁, hi, hrest⟩ := h
    rw [inspectItems, declsOf_append, List.length_append]
    have hi := item_variables i hi
    have hrest := items_variables rest hrest
    omega

end

end Signum.Check
