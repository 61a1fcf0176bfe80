import Signum.Proofs.Check.Enclosing
/- The variables a checker records, next to the declarations of the tree.

   A check `Lists` declarations when it records one variable for each, in order, numbered on from
   those recorded before, and with the number of blocks around it as its depth; when it fails it
   has recorded the first few. The checker keeps no count of blocks but reads the depth off the
   scopes that are open. So the judgement is about contexts with a scope for each block around the
   check, besides that of the program and the prelude. -/
namespace Signum

/-- The variables of some declarations, numbered from `first`. -/
def numbered (first : Nat) (placed : List (Decl × Nat)) : List Variable :=
  (placed.zipIdx first).map fun ((d, depth), number) =>
    { name := d.name, type := d.type, span := d.span, depth := depth, number := number }

theorem numbered_append (first : Nat) (placed placed' : List (Decl × Nat)) :
    numbered first (placed ++ placed') =
      numbered first placed ++ numbered (first + placed.length) placed' := by
  unfold numbered
  rw [List.zipIdx_append, List.map_append]

@[simp] theorem length_numbered (first : Nat) (placed : List (Decl × Nat)) :
    (numbered first placed).length = placed.length := by
  unfold numbered
  rw [List.length_map, List.length_zipIdx]

theorem numbered_starts (first : Nat) (placed : List (Decl × Nat)) :
    (numbered first placed).map (·.span.start) = placed.map (·.1.span.start) := by
  unfold numbered
  rw [List.map_map]
  have hmap : placed.map (·.1.span.start) =
      ((placed.zipIdx first).map Prod.fst).map (·.1.span.start) := by
    rw [List.zipIdx_map_fst]
  rw [hmap, List.map_map]
  rfl

theorem mem_numbered (first : Nat) {placed : List (Decl × Nat)} {d : Decl} {depth : Nat}
    (h : (d, depth) ∈ placed) : ∃ number, (⟨d.name, d.type, d.span, depth, number⟩ : Variable) ∈
      numbered first placed := by
  obtain ⟨i, hi, heq⟩ := List.mem_iff_getElem.mp h
  refine ⟨first + i, List.mem_map.mpr ⟨((d, depth), first + i), ?_, rfl⟩⟩
  exact List.mk_add_mem_zipIdx_iff_getElem?.mpr (List.getElem?_eq_some_iff.mpr ⟨hi, heq⟩)

theorem exists_of_mem_numbered {first : Nat} {placed : List (Decl × Nat)} {v : Variable}
    (h : v ∈ numbered first placed) : ∃ d depth number, (d, depth) ∈ placed ∧
      v = ⟨d.name, d.type, d.span, depth, number⟩ := by
  obtain ⟨⟨⟨d, depth⟩, number⟩, hmem, rfl⟩ := List.mem_map.mp h
  exact ⟨d, depth, number, List.fst_mem_of_mem_zipIdx hmem, rfl⟩

namespace Check

/-! Checks that declare nothing. -/

/-- The check leaves the scopes and the recorded variables alone, however it ends. -/
def Aloof {α : Type} (m : CheckM α) : Prop :=
  ∀ c, (m.run.run c).2.scopes = c.scopes ∧ (m.run.run c).2.variables = c.variables

namespace Aloof
variable {α β : Type}

theorem pure (a : α) : Aloof (Pure.pure a : CheckM α) := fun _ => ⟨rfl, rfl⟩

theorem fail (kind : ErrorKind) (span : Span) (message : Bytes) :
    Aloof (fail kind span message : CheckM α) := fun _ => ⟨rfl, rfl⟩

theorem bind {x : CheckM α} {f : α → CheckM β} (hx : Aloof x) (hf : ∀ a, Aloof (f a)) :
    Aloof (x >>= f) := by
  intro c
  rw [run_bind]
  have h := hx c
  generalize x.run.run c = out at h
  obtain ⟨e | a, c₁⟩ := out
  · exact h
  · exact ⟨(hf a c₁).1.trans h.1, (hf a c₁).2.trans h.2⟩

theorem get_bind {f : Context → CheckM α} (h : ∀ c, Aloof (f c)) : Aloof (get >>= f) :=
  fun c => h c c

theorem update {f : Context → Context}
    (h : ∀ c, (f c).scopes = c.scopes ∧ (f c).variables = c.variables) :
    Aloof (modify f : CheckM PUnit) := h

theorem ite {p : Prop} [Decidable p] {x y : CheckM α} (hx : Aloof x) (hy : Aloof y) :
    Aloof (if p then x else y) := by
  split
  · exact hx
  · exact hy

end Aloof

theorem record_aloof (e : Expr) (t : NumType) : Aloof (record e t) :=
  .bind (.update fun _ => ⟨rfl, rfl⟩) fun _ => .pure t

theorem lookup_aloof (name : Bytes) (span : Span) : Aloof (lookup name span) := by
  refine .get_bind fun c => ?_
  split
  · exact .pure _
  · exact .fail _ _ _

theorem assign_aloof (v : Variable) : Aloof (assign v) := .update fun _ => ⟨rfl, rfl⟩

theorem sameType_aloof (l r : NumType) (op : Bytes) (span : Span) :
    Aloof (sameType l r op span) := by
  unfold sameType
  split
  · exact .pure _
  · exact .fail _ _ _

theorem expr_aloof (e : Expr) : Aloof (expr e) := by
  induction e with
  | int v s | float v t s | readInt s | readFloat s => exact record_aloof _ _
  | var name s =>
    refine .bind (lookup_aloof name s) fun v => .get_bind fun c => ?_
    split
    · exact record_aloof _ _
    · exact .fail _ _ _
  | neg e s ih => exact .bind ih fun t => record_aloof _ t
  | binary op l r s ihl ihr =>
    refine .bind ihl fun t => .bind ihr fun u => ?_
    exact .bind (sameType_aloof t u op.symbol s) fun _ => record_aloof _ t

theorem cond_aloof (b : Cond) : Aloof (cond b) := by
  induction b with
  | compare op l r s =>
    exact .bind (expr_aloof l) fun t => .bind (expr_aloof r) fun u => sameType_aloof t u _ s
  | logical op l r s ihl ihr => exact .bind ihl fun _ => ihr
  | not b s ih => exact ih

/-! Checks that declare. -/

theorem run_within {α : Type} (m : CheckM α) (c : Context) : (within m).run.run c =
    ((m.run.run { c with scopes := c.scopes.push }).1,
      { (m.run.run { c with scopes := c.scopes.push }).2 with
        scopes := (m.run.run { c with scopes := c.scopes.push }).2.scopes.pop }) := rfl

theorem run_branch (m : CheckM Unit) (c : Context) : (branch m).run.run c =
    ((m.run.run c).1.map fun _ => (m.run.run c).2.assigned,
      { (m.run.run c).2 with assigned := c.assigned }) := rfl

/-- In contexts with a scope for each of `depth` blocks, the check records one variable for each
of these declarations and leaves as many scopes open; when it fails it has recorded the first few
of them. -/
def Lists {α : Type} (depth : Nat) (placed : List (Decl × Nat)) (m : CheckM α) : Prop :=
  ∀ c : Context, c.scopes.items.length = depth + 2 → ∃ seen, seen <+: placed ∧
    (m.run.run c).2.variables.toList = c.variables.toList ++ numbered c.variables.size seen ∧
    ∀ a, (m.run.run c).1 = .ok a →
      seen = placed ∧ (m.run.run c).2.scopes.items.length = depth + 2

namespace Lists
variable {α β : Type} {depth : Nat} {placed placed' : List (Decl × Nat)}

theorem aloof {m : CheckM α} (h : Aloof m) : Lists depth [] m := by
  intro c hc
  refine ⟨[], List.prefix_rfl, ?_, fun a _ => ⟨rfl, ?_⟩⟩
  · rw [(h c).2]
    exact (List.append_nil _).symm
  · rw [(h c).1, hc]

theorem pure (a : α) : Lists depth [] (Pure.pure a : CheckM α) := aloof (.pure a)

theorem bind {x : CheckM α} {f : α → CheckM β} (hx : Lists depth placed x)
    (hf : ∀ a, Lists depth placed' (f a)) : Lists depth (placed ++ placed') (x >>= f) := by
  intro c hc
  obtain ⟨seen, hseen, hvars, hok⟩ := hx c hc
  rw [run_bind]
  generalize x.run.run c = out at hvars hok
  obtain ⟨e | a, c₁⟩ := out
  · exact ⟨seen, hseen.trans (List.prefix_append _ _), hvars, nofun⟩
  · obtain ⟨rfl, hc₁⟩ := hok a rfl
    obtain ⟨seen', hseen', hvars', hok'⟩ := hf a c₁ hc₁
    -- the second check numbers on from what the first has recorded
    have hsize : c₁.variables.size = c.variables.size + seen.length := by
      have hlength := congrArg List.length hvars
      simpa using hlength
    refine ⟨seen ++ seen', (List.prefix_append_right_inj _).mpr hseen', ?_, fun b hb => ?_⟩
    · rw [hvars', hvars, List.append_assoc, numbered_append, hsize]
    · exact ⟨congrArg (seen ++ ·) (hok' b hb).1, (hok' b hb).2⟩

theorem bind_aloof {x : CheckM α} {f : α → CheckM β} (hx : Lists depth placed x)
    (hf : ∀ a, Aloof (f a)) : Lists depth placed (x >>= f) := by
  rw [← List.append_nil placed]
  exact hx.bind fun a => aloof (hf a)

theorem aloof_bind {x : CheckM α} {f : α → CheckM β} (hx : Aloof x)
    (hf : ∀ a, Lists depth placed (f a)) : Lists depth placed (x >>= f) :=
  bind (aloof hx) hf

theorem within {m : CheckM α} (h : Lists (depth + 1) placed m) :
    Lists depth placed (within m) := by
  intro c hc
  have hpush : c.scopes.push.items.length = depth + 1 + 2 := by
    rw [Scopes.push, List.length_cons, hc]
  obtain ⟨seen, hseen, hvars, hok⟩ := h { c with scopes := c.scopes.push } hpush
  rw [run_within]
  refine ⟨seen, hseen, hvars, fun a ha => ⟨(hok a ha).1, ?_⟩⟩
  rw [Scopes.pop, List.length_tail, (hok a ha).2]
  rfl

theorem branch {m : CheckM Unit} (h : Lists depth placed m) : Lists depth placed (branch m) := by
  intro c hc
  obtain ⟨seen, hseen, hvars, hok⟩ := h c hc
  rw [run_branch]
  refine ⟨seen, hseen, hvars, fun assigned ha => ?_⟩
  dsimp only at ha
  cases hr : (m.run.run c).1 with
  | error f =>
    rw [hr] at ha
    cases ha
  | ok u => exact hok u hr

end Lists

/-- What is required of a declaration. -/
def permit (c : Context) (d : Decl) : CheckM Unit := do
  if c.scopes.declaredHere d.name then
    fail .staticCheck d.span (d.name ++ " is already declared in this scope")
  match d.init with
  | some e =>
    let t ← expr e
    if t ≠ d.type then
      fail .staticCheck e.span
        ("cannot initialize " ++ d.type.name ++ " " ++ d.name ++ " with " ++ t.name)
  | none => pure ()

theorem length_add (name : Bytes) (o : Object) (scopes : Scopes) :
    (scopes.add name o).items.length = scopes.items.length := by
  unfold Scopes.add
  cases hs : scopes.items with
  | nil => rw [hs]
  | cons here rest => rfl

theorem decl_eq (d : Decl) : decl d = (do
    let c ← get
    permit c d
    modify fun c' => { c' with
      scopes := c'.scopes.add d.name (.variable (declared c d)),
      «variables» := c'.variables.push (declared c d) }
    if d.init.isSome then assign (declared c d)) := by
  obtain ⟨type, name, init, span⟩ := d
  cases init with
  | none => simp only [decl, permit, bind_assoc, ite_bind, pure_bind, declared]
  | some e => simp only [decl, permit, bind_assoc, ite_bind, pure_bind, declared]

theorem permit_aloof (c : Context) (d : Decl) : Aloof (permit c d) := by
  have hinit : Aloof (match d.init with
      | some e => do
        let t ← expr e
        if t ≠ d.type then
          fail .staticCheck e.span
            ("cannot initialize " ++ d.type.name ++ " " ++ d.name ++ " with " ++ t.name)
      | none => pure () : CheckM Unit) := by
    cases d.init with
    | none => exact .pure _
    | some e => exact .bind (expr_aloof e) fun t => .ite (.fail _ _ _) (.pure _)
  exact .ite (.bind (.fail _ _ _) fun _ => hinit) hinit

/-- A declaration that is permitted is recorded; one that is not leaves no record. -/
theorem decl_lists (depth : Nat) (d : Decl) : Lists depth [(d, depth)] (decl d) := by
  intro c hc
  have haloof := permit_aloof c d c
  rw [decl_eq, run_bind, run_get]
  dsimp only
  rw [run_bind]
  generalize (permit c d).run.run c = out at haloof
  obtain ⟨e | u, c₁⟩ := out
  · refine ⟨[], List.nil_prefix, ?_, nofun⟩
    rw [haloof.2]
    exact (List.append_nil _).symm
  · obtain ⟨hscopes, hvars⟩ := haloof
    dsimp only at hscopes hvars ⊢
    rw [run_bind, run_modify]
    dsimp only
    have hassign : Aloof (if d.init.isSome then assign (declared c d) else pure ⟨⟩) :=
      .ite (assign_aloof _) (.pure _)
    have hrest := hassign { c₁ with
      scopes := c₁.scopes.add d.name (.variable (declared c d)),
      «variables» := c₁.variables.push (declared c d) }
    -- the depth was read before the initializer was checked, which has left the scopes alone
    have hdepth : c.scopes.depth = depth := by
      rw [Scopes.depth, hc]
      omega
    refine ⟨[(d, depth)], List.prefix_rfl, ?_, fun a _ => ⟨rfl, ?_⟩⟩
    · rw [hrest.2, Array.toList_push, hvars, declared, hdepth]
      rfl
    · rw [hrest.1, length_add, hscopes, hc]

mutual

/-- A statement lists the declarations in it. -/
theorem stmt_lists (depth : Nat) : (s : Stmt) → Lists depth (s.placedAt depth) (stmt s)
  | .assign name value s => by
    rw [Stmt.placedAt]
    simp only [stmt]
    refine .aloof (.bind (lookup_aloof name s) fun v => .bind (expr_aloof value) fun t => ?_)
    exact .ite (.bind (.fail _ _ _) fun _ => assign_aloof v) (assign_aloof v)
  | .print value s => by
    rw [Stmt.placedAt]
    simp only [stmt]
    exact .aloof (.bind (expr_aloof value) fun _ => .pure _)
  | .block body s => by
    rw [Stmt.placedAt]
    simp only [stmt]
    exact .within (items_list (depth + 1) body)
  | .ite c yes none s => by
    rw [Stmt.placedAt]
    simp only [stmt]
    refine .aloof_bind (cond_aloof c) fun _ => ?_
    exact .bind_aloof (.branch (stmt_lists depth yes)) fun _ => .pure _
  | .ite c yes (some no) s => by
    rw [Stmt.placedAt]
    simp only [stmt]
    refine .aloof_bind (cond_aloof c) fun _ => ?_
    refine .bind (.branch (stmt_lists depth yes)) fun inYes => ?_
    exact .bind_aloof (.branch (stmt_lists depth no)) fun inNo => .update fun _ => ⟨rfl, rfl⟩
  | .loop c body s => by
    rw [Stmt.placedAt]
    simp only [stmt]
    refine .aloof_bind (cond_aloof c) fun _ => ?_
    exact .bind_aloof (.branch (stmt_lists depth body)) fun _ => .pure _

theorem item_lists (depth : Nat) : (u : Item) → Lists depth (u.placedAt depth) (item u)
  | .decl d => by
    rw [Item.placedAt]
    simp only [item]
    exact decl_lists depth d
  | .stmt s => by
    rw [Item.placedAt]
    simp only [item]
    exact stmt_lists depth s

theorem items_list (depth : Nat) : (us : List Item) → Lists depth (placedIn depth us) (items us)
  | [] => by
    rw [placedIn]
    simp only [items]
    exact .pure _
  | u :: rest => by
    rw [placedIn]
    simp only [items]
    exact .bind (item_lists depth u) fun _ => items_list depth rest

end

end Check

/-- A check records the first few declarations of the program, and when it succeeds all. -/
theorem Program.check_lists (p : Program) : ∃ seen, seen <+: p.placed ∧
    p.check.2.variables.toList = numbered 0 seen ∧ (p.check.1 = .ok () → seen = p.placed) := by
  obtain ⟨seen, hseen, hvars, hok⟩ := Check.items_list 0 p.units
    { Context.start with scopes := Scopes.prelude.push } rfl
  exact ⟨seen, hseen, hvars, fun h => (hok () h).1⟩

/-- A check that succeeds records a type for each expression of the program, once. -/
theorem Program.check_records {p : Program} (h : p.check.1 = .ok ()) :
    (p.check.2.types.toList.map Prod.fst).Perm p.expressions := by
  have hrun : Succeeds (Check.within (Check.items p.units)) Context.start () p.check.2 :=
    Prod.ext h rfl
  obtain ⟨c, hc, hctx⟩ := Check.within_accepted hrun
  rw [hctx]
  exact Check.items_records p.units hc

/-- The expressions that have a type are those of which one was recorded. -/
theorem Context.typeOf?_isSome {c : Context} {e : Expr} :
    (c.typeOf? e).isSome ↔ e ∈ c.types.toList.map Prod.fst := by
  unfold Context.typeOf?
  rw [Option.isSome_map, ← Array.find?_toList, List.find?_isSome]
  simp

end Signum
