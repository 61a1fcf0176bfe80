import Signum.Proofs.Safety
import Signum.Proofs.Scoping.Analysis
import Signum.Proofs.Scoping.Run
import Mathlib.Data.List.Pairwise
/- The three scopes agree.

   The checker, the analysis and the run each have their own scopes and their own rules
   for declaring a name and for finding it. In an accepted program they pick the same
   declaration: whenever an analysis or a run evaluates or assigns an occurrence of a
   name, the slot it reaches comes from a declaration that the checker took the
   occurrence to stand for.

   That there is one such declaration takes the nodes of the program to be told apart,
   as those of a parsed program are. The checker then looks at each occurrence once, and
   it numbers the variables it makes, so its findings settle both the variable of an
   occurrence and the declaration of a variable (`Tally`). -/
namespace Signum

namespace Finding

/-- The expression whose name was resolved. -/
def reader : Finding → Option Expr
  | .resolved (.read name s) _ => some (.var name s)
  | _ => none

/-- The value of the assignment whose name was resolved. -/
def value : Finding → Option Expr
  | .resolved (.assign _ value _) _ => some value
  | _ => none

/-- The number of the variable that was declared. -/
def number : Finding → Option Nat
  | .declared _ v => some v.number
  | _ => none

end Finding

namespace Check

open Logged (note lift history_bind)

/-- What was found: names are resolved for some of the expressions and assigned values
listed, each once, and `n` variables are declared, numbered from `first`. -/
structure Tally (found : List Finding) (reads values : List Expr) (first n : Nat) : Prop where
  reads : (found.filterMap Finding.reader).Sublist reads
  values : (found.filterMap Finding.value).Sublist values
  numbers : found.filterMap Finding.number = List.range' first n

namespace Tally
variable {found found' : List Finding} {reads reads' values values' : List Expr}
  {first n n' : Nat}

theorem nil (reads values : List Expr) (first : Nat) : Tally [] reads values first 0 :=
  ⟨List.nil_sublist _, List.nil_sublist _, rfl⟩

theorem append (h : Tally found reads values first n)
    (h' : Tally found' reads' values' (first + n) n') :
    Tally (found ++ found') (reads ++ reads') (values ++ values') first (n + n') := by
  refine ⟨?_, ?_, ?_⟩
  · rw [List.filterMap_append]
    exact h.reads.append h'.reads
  · rw [List.filterMap_append]
    exact h.values.append h'.values
  · rw [List.filterMap_append, h.numbers, h'.numbers, List.range'_append_1]

theorem mono (h : Tally found reads values first n) (hr : reads.Sublist reads')
    (hv : values.Sublist values') : Tally found reads' values' first n :=
  ⟨h.reads.trans hr, h.values.trans hv, h.numbers⟩

end Tally

/-- A check that ends well finds no more than the expressions and values listed, and
declares `n` variables. -/
def Orderly {α : Type} (x : Resolving α) (reads values : List Expr) (n : Nat) : Prop :=
  ∀ c a c', Succeeds x.forget c a c' →
    Tally (x c).history reads values c.variables.size n ∧
      c'.variables.size = c.variables.size + n

namespace Orderly
variable {α β : Type} {x y : Resolving α} {f : α → Resolving β}
  {reads reads' values values' : List Expr} {n n' : Nat}

theorem bind (hx : Orderly x reads values n) (hf : ∀ a, Orderly (f a) reads' values' n') :
    Orderly (x >>= f) (reads ++ reads') (values ++ values') (n + n') := by
  intro c b c' h
  rw [Logged.forget_bind, succeeds_bind] at h
  obtain ⟨a, c₁, hxa, hfa⟩ := h
  obtain ⟨hl, hsize⟩ := hx c a c₁ hxa
  obtain ⟨hr, hsize'⟩ := hf a c₁ b c' hfa
  rw [history_bind hxa]
  rw [hsize] at hr
  exact ⟨hl.append hr, by omega⟩

theorem mono (h : Orderly x reads values n) (hr : reads.Sublist reads')
    (hv : values.Sublist values') : Orderly x reads' values' n := by
  intro c a c' hx
  obtain ⟨ht, hsize⟩ := h c a c' hx
  exact ⟨ht.mono hr hv, hsize⟩

/-- A step that notes nothing and declares nothing. -/
theorem lift {m : CheckM α} (h : ∀ {c a c'}, Succeeds m c a c' → c'.variables = c.variables) :
    Orderly (Logged.lift m) [] [] 0 := by
  intro c a c' hm
  exact ⟨.nil _ _ _, congrArg Array.size (h hm)⟩

theorem pure (a : α) : Orderly (Pure.pure a : Resolving α) [] [] 0 := by
  intro c b c' h
  obtain ⟨-, rfl⟩ := succeeds_pure.mp h
  exact ⟨.nil _ _ _, rfl⟩

theorem fail (kind : ErrorKind) (s : Span) (message : Bytes) :
    Orderly (Logged.lift (Check.fail kind s message : CheckM α)) reads values n :=
  fun _ _ _ h => (succeeds_throw.mp h).elim

theorem ite {p : Prop} [Decidable p] (hx : Orderly x reads values n)
    (hy : Orderly y reads values n) : Orderly (if p then x else y) reads values n := by
  split
  · exact hx
  · exact hy

theorem within (h : Orderly x reads values n) : Orderly (resolveWithin x) reads values n := by
  intro c a c' hx
  change ((x { c with scopes := c.scopes.push }).result, _) = _ at hx
  obtain ⟨hr, rfl⟩ := Prod.mk.inj hx
  obtain ⟨ht, hsize⟩ := h { c with scopes := c.scopes.push } a _ (Prod.ext hr rfl)
  exact ⟨ht, hsize⟩

theorem branch {x : Resolving Unit} (h : Orderly x reads values n) :
    Orderly (resolveBranch x) reads values n := by
  intro c a c' hbranch
  obtain ⟨c₁, hx, -, rfl⟩ := branch_accepted (m := x.forget) hbranch
  obtain ⟨ht, hsize⟩ := h c () c₁ hx
  exact ⟨ht, hsize⟩

end Orderly

theorem Records.variables {c c' : Context} (h : Records c c') : c'.variables = c.variables := by
  obtain ⟨more, rfl⟩ := h
  rfl

theorem lookup_orderly (name : Bytes) (s : Span) : Orderly (lift (lookup name s)) [] [] 0 :=
  .lift fun h => by rw [(lookup_accepted h).2]

theorem record_orderly (e : Expr) (t : NumType) : Orderly (lift (record e t)) [] [] 0 :=
  .lift fun h => (record_accepted h).2.1.variables

theorem sameType_orderly (t u : NumType) (op : Bytes) (s : Span) :
    Orderly (lift (sameType t u op s)) [] [] 0 :=
  .lift fun h => by rw [(sameType_accepted h).2]

theorem get_orderly : Orderly (lift get) [] [] 0 :=
  .lift fun h => by rw [← (succeeds_get.mp h).2]

theorem assign_orderly (v : Variable) : Orderly (lift (assign v)) [] [] 0 :=
  .lift fun h => by rw [← succeeds_modify.mp h]

theorem resolved_orderly (o : Occurrence) (v : Variable) : Orderly (note (.resolved o v))
    (Finding.resolved o v).reader.toList (Finding.resolved o v).value.toList 0 := by
  intro c a c' h
  obtain ⟨-, rfl⟩ := succeeds_pure.mp h
  cases o <;> exact ⟨⟨.refl _, .refl _, rfl⟩, rfl⟩

/-- An expression resolves the names in it, each once. -/
theorem expr_orderly (e : Expr) :
    Orderly (resolveExpr e) (exprsOf (e.inspect everywhere)) [] 0 := by
  induction e with
  | int | float | readInt | readFloat =>
    exact (Orderly.lift fun h => (expr_accepted h).1.variables).mono (List.nil_sublist _) (.refl _)
  | var name s =>
    have hnote (v : Variable) : Orderly (note (.resolved (.read name s) v)) [.var name s] [] 0 :=
      resolved_orderly (.read name s) v
    have hrest (v : Variable) (c : Context) : Orderly
        (if c.assigned.contains v.number then lift (record (.var name s) v.type)
        else lift (fail .uninitialized s (name ++ " may be read before it is assigned"))) [] [] 0 :=
      .ite (record_orderly _ _) (.fail _ _ _)
    exact (lookup_orderly name s).bind fun v => (hnote v).bind fun _ =>
      get_orderly.bind fun c => hrest v c
  | neg e s ih =>
    refine (ih.bind fun t => record_orderly _ t).mono ?_ (.refl _)
    rw [Expr.inspect, exprsOf_expr, List.append_nil]
    exact List.sublist_cons_self _ _
  | binary op l r s ihl ihr =>
    refine (ihl.bind fun t => ihr.bind fun u => (sameType_orderly t u _ s).bind fun _ =>
      record_orderly _ t).mono ?_ (.refl _)
    rw [Expr.inspect, exprsOf_expr, exprsOf_append, List.append_nil, List.append_nil]
    exact List.sublist_cons_self _ _

theorem cond_orderly (b : Cond) :
    Orderly (resolveCond b) (exprsOf (b.inspect everywhere)) [] 0 := by
  induction b with
  | compare op l r s =>
    refine ((expr_orderly l).bind fun t => (expr_orderly r).bind fun u =>
      sameType_orderly t u _ s).mono ?_ (.refl _)
    rw [Cond.inspect, exprsOf_cond, exprsOf_append, List.append_nil]
  | logical op l r s ihl ihr =>
    refine (ihl.bind fun _ => ihr).mono ?_ (.refl _)
    rw [Cond.inspect, exprsOf_cond, exprsOf_append]
  | not b s ih =>
    rw [Cond.inspect, exprsOf_cond]
    exact ih

theorem init_orderly (d : Decl) : Orderly (resolveInit d d.init)
    (exprsOf (d.inspect everywhere)) [] 0 := by
  unfold Decl.inspect
  rw [exprsOf_decl]
  cases d.init with
  | none => exact .pure ()
  | some e =>
    refine ((expr_orderly e).bind fun t => .ite (.fail _ _ _) (.pure ())).mono ?_ (.refl _)
    rw [List.append_nil]

/-- A declaration gives its variable the next number. -/
theorem decl_orderly (d : Decl) :
    Orderly (resolveDecl d) (exprsOf (d.inspect everywhere)) [] 1 := by
  intro c u c' h
  have hget : Succeeds (lift get : Resolving Context).forget c c c := rfl
  unfold resolveDecl at h ⊢
  rw [history_bind hget]
  rw [Logged.forget_bind, Logged.forget_lift, succeeds_get_bind] at h
  by_cases hd : c.scopes.declaredHere d.name = true
  · rw [if_pos hd] at h
    exact (succeeds_throw.mp h).elim
  · rw [if_neg hd] at h ⊢
    simp only [Logged.forget_bind, succeeds_bind] at h
    obtain ⟨_, c₁, hinit, _, c₂, hpush, _, c₃, hnote, hrest⟩ := h
    obtain ⟨htally, hsize⟩ := init_orderly d c _ c₁ hinit
    have hlast :
        Orderly (if d.init.isSome then lift (assign (declared c d)) else pure ()) [] [] 0 :=
      .ite (assign_orderly _) (.pure ())
    obtain ⟨hnil, hsize'⟩ := hlast c₃ u c' hrest
    rw [history_bind hinit, history_bind hpush, history_bind hnote]
    obtain rfl := succeeds_modify.mp hpush
    obtain ⟨-, rfl⟩ := succeeds_pure.mp hnote
    -- the initializer declares nothing, so the next number is still the variable's
    have hpushed : (c₁.variables.push (declared c d)).size = c.variables.size + 0 + 1 := by
      rw [Array.size_push, hsize]
    have hone : Tally [.declared d (declared c d)] [] [] (c.variables.size + 0) 1 :=
      ⟨.refl _, .refl _, rfl⟩
    refine ⟨(htally.append (hone.append (hpushed ▸ hnil))).mono ?_ (.refl _), hsize'.trans hpushed⟩
    rw [List.append_nil, List.append_nil]

/-- The expressions in an expression begin with itself. -/
theorem single_sublist (e : Expr) : [e].Sublist (exprsOf (e.inspect everywhere)) := by
  cases e <;> exact List.cons_sublist_cons.mpr (List.nil_sublist _)

/-- A condition and a branch that is checked once, as in an `if` or a loop. -/
theorem guarded_orderly {b : Cond} {x : Resolving Unit} {es : List Expr} {n : Nat}
    (h : Orderly x es es n) :
    Orderly (do resolveCond b; let _ ← resolveBranch x; pure ())
      (exprsOf (b.inspect everywhere) ++ es) (exprsOf (b.inspect everywhere) ++ es) n := by
  have hguard := (cond_orderly b).bind fun _ => h.branch.bind fun _ => .pure ()
  rw [List.append_nil, Nat.zero_add] at hguard
  exact hguard.mono (.refl _) (List.sublist_append_right _ _)

mutual

/-- A statement resolves the names in it, each once, and numbers its variables in
order. -/
theorem stmt_orderly : (s : Stmt) → ∃ n, Orderly (resolveStmt s)
    (exprsOf (s.inspect everywhere)) (exprsOf (s.inspect everywhere)) n
  | .assign name value s => by
    have hnote (v : Variable) :
        Orderly (note (.resolved (.assign name value s) v)) [] [value] 0 :=
      resolved_orderly (.assign name value s) v
    have hrest (v : Variable) (t : NumType) : Orderly
        (if t ≠ v.type then lift (fail .staticCheck value.span
          ("cannot assign " ++ t.name ++ " to " ++ v.type.name ++ " " ++ name))
        else lift (assign v)) [] [] 0 := .ite (.fail _ _ _) (assign_orderly v)
    have h := (lookup_orderly name s).bind fun v => (hnote v).bind fun _ =>
      (expr_orderly value).bind fun t => hrest v t
    refine ⟨0, ?_⟩
    rw [resolveStmt, Stmt.inspect, exprsOf_stmt]
    exact h.mono (by simp) (single_sublist value)
  | .print value s => by
    refine ⟨0, ?_⟩
    rw [resolveStmt, Stmt.inspect, exprsOf_stmt]
    have h := (expr_orderly value).bind fun _ => Orderly.pure ()
    rw [List.append_nil] at h
    exact h.mono (.refl _) (List.nil_sublist _)
  | .block body s => by
    obtain ⟨n, h⟩ := items_orderly body
    refine ⟨n, ?_⟩
    rw [resolveStmt, Stmt.inspect, exprsOf_stmt]
    exact h.within
  | .ite b yes none s => by
    obtain ⟨n, h⟩ := stmt_orderly yes
    refine ⟨n, ?_⟩
    rw [resolveStmt, Stmt.inspect, exprsOf_stmt, exprsOf_append]
    exact guarded_orderly h
  | .ite b yes (some no) s => by
    obtain ⟨n, hyes⟩ := stmt_orderly yes
    obtain ⟨n', hno⟩ := stmt_orderly no
    have hjoin (inYes inNo : List Nat) : Orderly (lift (modify fun c => { c with
        assigned := (inYes.filter inNo.contains).foldr List.insert c.assigned })) [] [] 0 :=
      .lift fun h => by rw [← succeeds_modify.mp h]
    have h := (cond_orderly b).bind fun _ => hyes.branch.bind fun inYes =>
      hno.branch.bind fun inNo => hjoin inYes inNo
    refine ⟨0 + (n + (n' + 0)), ?_⟩
    rw [resolveStmt, Stmt.inspect, exprsOf_stmt, exprsOf_append, exprsOf_append]
    exact h.mono (by simp) (by simp)
  | .loop b body s => by
    obtain ⟨n, h⟩ := stmt_orderly body
    refine ⟨n, ?_⟩
    rw [resolveStmt, Stmt.inspect, exprsOf_stmt, exprsOf_append]
    exact guarded_orderly h

theorem item_orderly : (i : Item) → ∃ n, Orderly (resolveItem i)
    (exprsOf (i.inspect everywhere)) (exprsOf (i.inspect everywhere)) n
  | .decl d => by
    rw [resolveItem, Item.inspect]
    exact ⟨1, (decl_orderly d).mono (.refl _) (List.nil_sublist _)⟩
  | .stmt s => by
    rw [resolveItem, Item.inspect]
    exact stmt_orderly s

theorem items_orderly : (us : List Item) → ∃ n, Orderly (resolveItems us)
    (exprsOf (inspectItems everywhere us)) (exprsOf (inspectItems everywhere us)) n
  | [] => by
    rw [resolveItems, inspectItems]
    exact ⟨0, .pure ()⟩
  | i :: rest => by
    obtain ⟨n, hi⟩ := item_orderly i
    obtain ⟨n', hrest⟩ := items_orderly rest
    rw [resolveItems, inspectItems, exprsOf_append]
    exact ⟨n + n', hi.bind fun _ => hrest⟩

end

end Check

/-- Where the keys of a list are distinct, a key has one member. -/
theorem eq_of_key {α β : Type} {key : α → Option β} {l : List α} (h : (l.filterMap key).Nodup)
    {a b : α} (ha : a ∈ l) (hb : b ∈ l) {k : β} (hka : key a = some k) (hkb : key b = some k) :
    a = b := by
  by_contra hne
  have hpair := List.pairwise_filterMap.mp h
  have : Std.Symm fun a a' => ∀ k, key a = some k → ∀ k', key a' = some k' → k ≠ k' :=
    ⟨fun _ _ hne k hk k' hk' => (hne k' hk' k hk).symm⟩
  exact hpair.forall ha hb hne k hka k hkb rfl

/-- The declaration that an accepted program means by an occurrence of a name, if there is
one, is the only one. -/
theorem refers_unique {p : Program} {ctx : Context} (h : p.check = (.ok (), ctx))
    (hdistinct : p.Distinct) {o : Occurrence} {d d' : Decl} (hd : p.Refers o d)
    (hd' : p.Refers o d') : d = d' := by
  obtain ⟨c, hc, -⟩ := Check.check_accepted h
  obtain ⟨n, horderly⟩ := Check.items_orderly p.units
  obtain ⟨tally, -⟩ := horderly Check.inside () c (Check.forget_resolveItems p.units ▸ hc)
  have hexprs : (exprsOf (inspectItems everywhere p.units)).Nodup := hdistinct.expressions
  obtain ⟨v, ho, hv⟩ := hd
  obtain ⟨v', ho', hv'⟩ := hd'
  -- an expression or an assigned value is looked at once, so the two findings are one
  have hsame : Finding.resolved o v = Finding.resolved o v' := by
    cases o with
    | read name s => exact eq_of_key (hexprs.sublist tally.reads) ho ho' rfl rfl
    | assign name value s => exact eq_of_key (hexprs.sublist tally.values) ho ho' rfl rfl
  obtain ⟨-, rfl⟩ := Finding.resolved.inj hsame
  have hnumbers : (p.findings.filterMap Finding.number).Nodup := by
    have := tally.numbers
    change p.findings.filterMap Finding.number = _ at this
    rw [this]
    exact List.nodup_range' 1
  exact (Finding.declared.inj (eq_of_key hnumbers hv hv' rfl rfl)).1

/-- Before the first unit there are no slots and no variables. -/
theorem fresh_origins (notes : List Finding) :
    OriginsFit notes Check.inside.scopes Origins.fresh := by
  refine ⟨rfl, fun i n d hd => ?_, fun i n v hv => ?_⟩
  · cases i <;> cases hd
  · obtain ⟨w, hw, -⟩ := Fits.known Check.inside_store i n v hv
    cases i <;> cases hw

/-- Whatever an accepted program evaluates or assigns is in the slot the checker means.
Each time an analysis or a run of it evaluates an occurrence of a name, or assigns one,
the slot it reaches was made by a declaration that the checker took the occurrence to
stand for; and where the nodes of the program can be told apart there is only one. -/
theorem names_reach_their_declarations {p : Program} {ctx : Context}
    (h : p.check = (.ok (), ctx)) :
    (∀ config,
      ((Analysis.traced config p).result, (Analysis.traced config p).state.1) =
        Analysis.run config p ∧
      ∀ x ∈ Analysis.visits config p, ∃ d, x.origin = some d ∧ p.Refers x.occurrence d) ∧
    (∀ fuel input,
      ((Run.traced fuel p input).result, (Run.traced fuel p input).state.1) =
        Run.run fuel p input ∧
      ∀ x ∈ Run.visits fuel p input, ∃ d, x.origin = some d ∧ p.Refers x.occurrence d) ∧
    (p.Distinct → ∀ o d d', p.Refers o d → p.Refers o d' → d = d') := by
  obtain ⟨c, hc, -⟩ := Check.check_accepted h
  have hyields : Logged.Yields p.findings (Check.resolveItems p.units) Check.inside () c :=
    ⟨Check.forget_resolveItems p.units ▸ hc, fun _ hf => hf⟩
  have ho : OriginsFit p.findings Check.inside.scopes Origins.fresh := fresh_origins _
  refine ⟨fun config => ⟨Analysis.traced_eq_run config p, fun x hx => ?_⟩,
    fun fuel input => ⟨Run.traced_eq_run fuel p input, fun x hx => ?_⟩,
    fun hdistinct _ _ _ => refers_unique h hdistinct⟩
  · have hready : Analysis.Ready Check.inside Analysis.State.start :=
      ⟨Check.inside_environment, fun _ _ _ ha => (by cases ha)⟩
    have hvisits : (Traced.visiting (Found p.findings) : Promise Analysis.Halt Visit).History
        (Analysis.visits config p) :=
      (Analysis.items_origins p.units hyields Check.inside_coherent hready ho).1
    obtain ⟨d, v, horigin, hfound⟩ := hvisits.seen_of_mem (fun _ => trivial) hx
    exact ⟨d, horigin, v, hfound⟩
  · have hfit : StoreFits Check.inside (Run.State.start input).store := Check.inside_store
    have hvisits : (Traced.visiting (Found p.findings) : Promise Run.Halt Visit).History
        (Run.visits fuel p input) :=
      (Run.items_origins p.units hyields Check.inside_coherent hfit ho).1
    obtain ⟨d, v, horigin, hfound⟩ := hvisits.seen_of_mem (fun _ => trivial) hx
    exact ⟨d, horigin, v, hfound⟩

namespace Shadowing

/-- The first `x` of the program below. -/
def outer : Decl := ⟨.int, [120], some (.int 1 (.inRow 0 8 9)), .inRow 0 0 10⟩

/-- The second `x`, whose initializer reads the first. -/
def inner : Decl := ⟨.int, [120], some (.var [120] (.inRow 2 10 11)), .inRow 2 2 12⟩

/-- The variable of the loop's body. -/
def step : Decl :=
  ⟨.int, [121], some (.binary .sub (.var [120] (.inRow 1 24 25)) (.int 1 (.inRow 1 28 29))
    (.inRow 1 24 29)), .inRow 1 16 30⟩

/-- The value that is assigned to the second `x`. -/
def negated : Expr := .neg (.var [120] (.inRow 2 18 19)) (.inRow 2 17 19)

/-- A program that hides a variable:
```
int x = 1;
while (x > 0) { int y = x - 1; x = y; }
{ int x = x; x = -x; }
``` -/
def program : Program where
  units := [
    .decl outer,
    .stmt (.loop (.compare .gt (.var [120] (.inRow 1 7 8)) (.int 0 (.inRow 1 11 12))
      (.inRow 1 7 12)) (.block [
        .decl step,
        .stmt (.assign [120] (.var [121] (.inRow 1 35 36)) (.inRow 1 31 37))] (.inRow 1 14 39))
      (.inRow 1 0 39)),
    .stmt (.block [
      .decl inner,
      .stmt (.assign [120] negated (.inRow 2 13 20))] (.inRow 2 0 22))]
  documentation := []
  span := ⟨Point.origin, ⟨3, 0⟩⟩

theorem accepted : program.check = (.ok (), program.check.2) := rfl

/-- The initializer of the second `x` reads the first one, in an analysis and in a run, and
the assignment after it is to the second. -/
theorem names_are_told_apart :
    ⟨.read [120] (.inRow 2 10 11), some outer⟩ ∈ Analysis.visits ⟨0, true⟩ program ∧
    ⟨.assign [120] negated (.inRow 2 13 20), some inner⟩ ∈ Run.visits 2 program ⟨[]⟩ ∧
    (∀ d, program.Refers (.read [120] (.inRow 2 10 11)) d ↔ d = outer) ∧
    (∀ d, program.Refers (.assign [120] negated (.inRow 2 13 20)) d ↔ d = inner) := by
  have hdistinct : program.Distinct := ⟨by decide +kernel, by decide +kernel⟩
  have hread : ⟨.read [120] (.inRow 2 10 11), some outer⟩ ∈ Analysis.visits ⟨0, true⟩ program := by
    decide +kernel
  have hassign : ⟨.assign [120] negated (.inRow 2 13 20), some inner⟩ ∈
      Run.visits 2 program ⟨[]⟩ := by
    decide +kernel
  obtain ⟨hanalysis, hrun, hunique⟩ := names_reach_their_declarations accepted
  obtain ⟨d, hd, houter⟩ := (hanalysis _).2 _ hread
  obtain rfl := Option.some.inj hd
  obtain ⟨d, hd, hinner⟩ := (hrun _ _).2 _ hassign
  obtain rfl := Option.some.inj hd
  refine ⟨hread, hassign, fun d => ⟨fun h => ?_, ?_⟩, fun d => ⟨fun h => ?_, ?_⟩⟩
  · exact hunique hdistinct _ _ _ h houter
  · rintro rfl
    exact houter
  · exact hunique hdistinct _ _ _ h hinner
  · rintro rfl
    exact hinner

end Shadowing
end Signum
