import Signum.Proofs.Scoping.Origins
/- What the checker takes names to stand for.

   The functions named `resolve*` are the checker with a note of each variable it makes
   for a declaration and of each variable its search finds for an occurrence of a name.
   Without the notes they are the checker (`forget_resolveItems`), so `Program.findings`
   is what the checker found, and `Program.Refers` says which declaration it took an
   occurrence to stand for.

   `Yields` takes a success of the checker apart together with its notes. What the
   notes say of every slot of a stack is `OriginsFit`: the slot of a variable in sight
   comes from the declaration that the checker made the variable for. -/
namespace Signum

/-- What the checker finds out about names. -/
inductive Finding where
  | declared (d : Decl) (v : Variable)
  | resolved (o : Occurrence) (v : Variable)
  deriving DecidableEq, Repr

namespace Check

/-- A check that notes its findings. -/
abbrev Resolving := Logged Failure Context Finding

open Logged (note lift)

/-- The type of an expression. -/
def resolveExpr : Expr → Resolving NumType
  | .var name s => do
    let v ← lift (lookup name s)
    note (.resolved (.read name s) v)
    if (← lift get).assigned.contains v.number then lift (record (.var name s) v.type)
    else lift (fail .uninitialized s (name ++ " may be read before it is assigned"))
  | .neg e s => do
    let t ← resolveExpr e
    lift (record (.neg e s) t)
  | .binary op l r s => do
    let t ← resolveExpr l
    let u ← resolveExpr r
    lift (sameType t u op.symbol s)
    lift (record (.binary op l r s) t)
  | e => lift (expr e)

/-- Checks a condition. -/
def resolveCond : Cond → Resolving Unit
  | .compare op l r s => do
    let t ← resolveExpr l
    let u ← resolveExpr r
    lift (sameType t u op.symbol s)
  | .logical _ l r _ => do
    resolveCond l
    resolveCond r
  | .not c _ => resolveCond c

/-- Checks the initializer of a declaration. -/
def resolveInit (d : Decl) : Option Expr → Resolving Unit
  | some e => do
    let t ← resolveExpr e
    if t ≠ d.type then
      lift (fail .staticCheck e.span
        ("cannot initialize " ++ d.type.name ++ " " ++ d.name ++ " with " ++ t.name))
    else pure ()
  | none => pure ()

/-- Checks a declaration. -/
def resolveDecl (d : Decl) : Resolving Unit := do
  let c ← lift get
  if c.scopes.declaredHere d.name then
    lift (fail .staticCheck d.span (d.name ++ " is already declared in this scope"))
  else do
    resolveInit d d.init
    lift (modify fun c' => { c' with
      scopes := c'.scopes.add d.name (.variable (declared c d)),
      «variables» := c'.variables.push (declared c d) })
    note (.declared d (declared c d))
    if d.init.isSome then lift (assign (declared c d)) else pure ()

/-- Runs a check inside a scope of its own. -/
def resolveWithin {α : Type} : Resolving α → Resolving α :=
  Logged.around (fun c => { c with scopes := c.scopes.push })
    fun c => { c with scopes := c.scopes.pop }

/-- Runs a check on a copy of what is assigned, and returns what it assigns. -/
def resolveBranch (x : Resolving Unit) : Resolving (List Nat) := fun c =>
  ⟨(x c).result.map fun _ => (x c).state.assigned, { (x c).state with assigned := c.assigned },
    (x c).history⟩

mutual

/-- Checks a statement. -/
def resolveStmt : Stmt → Resolving Unit
  | .assign name value s => do
    let v ← lift (lookup name s)
    note (.resolved (.assign name value s) v)
    let t ← resolveExpr value
    if t ≠ v.type then
      lift (fail .staticCheck value.span
        ("cannot assign " ++ t.name ++ " to " ++ v.type.name ++ " " ++ name))
    else lift (assign v)
  | .print value _ => do
    let _ ← resolveExpr value
  | .block body _ => resolveWithin (resolveItems body)
  | .ite c yes none _ => do
    resolveCond c
    let _ ← resolveBranch (resolveStmt yes)
  | .ite c yes (some no) _ => do
    resolveCond c
    let inYes ← resolveBranch (resolveStmt yes)
    let inNo ← resolveBranch (resolveStmt no)
    lift (modify fun c => { c with
      assigned := (inYes.filter inNo.contains).foldr List.insert c.assigned })
  | .loop c body _ => do
    resolveCond c
    let _ ← resolveBranch (resolveStmt body)

/-- Checks a unit. -/
def resolveItem : Item → Resolving Unit
  | .decl d => resolveDecl d
  | .stmt s => resolveStmt s

/-- Checks units in order. -/
def resolveItems : List Item → Resolving Unit
  | [] => pure ()
  | u :: rest => do
    resolveItem u
    resolveItems rest

end

/-! The notes are those of the checker: without them a resolving check is the check. -/

theorem forget_resolveExpr (e : Expr) : (resolveExpr e).forget = expr e := by
  induction e with
  | var name s => simp [resolveExpr, expr]
  | neg e s ih => simp [resolveExpr, expr, ih]
  | binary op l r s ihl ihr => simp [resolveExpr, expr, ihl, ihr]
  | _ => rfl

theorem forget_resolveCond (c : Cond) : (resolveCond c).forget = cond c := by
  induction c with
  | compare op l r s => simp [resolveCond, cond, forget_resolveExpr]
  | logical op l r s ihl ihr => simp [resolveCond, cond, ihl, ihr]
  | not c s ih => exact ih

theorem forget_resolveDecl (d : Decl) : (resolveDecl d).forget = decl d := by
  obtain ⟨t, name, init, span⟩ := d
  cases init with
  | none => simp [resolveDecl, resolveInit, decl, declared, fail]
  | some e =>
    simp [resolveDecl, resolveInit, decl, declared, fail, ite_bind, forget_resolveExpr]

theorem forget_resolveWithin {α : Type} (x : Resolving α) :
    (resolveWithin x).forget = within x.forget := rfl

theorem forget_resolveBranch (x : Resolving Unit) :
    (resolveBranch x).forget = branch x.forget := rfl

mutual

theorem forget_resolveStmt : (s : Stmt) → (resolveStmt s).forget = stmt s
  | .assign name value s => by
    simp [resolveStmt, stmt, forget_resolveExpr, fail]
  | .print value s => by simp [resolveStmt, stmt, forget_resolveExpr]
  | .block body s => by
    simp only [resolveStmt, stmt, forget_resolveWithin, forget_resolveItems body]
  | .ite c yes none s => by
    simp only [resolveStmt, stmt, Logged.forget_bind, forget_resolveCond, forget_resolveBranch,
      forget_resolveStmt yes, Logged.forget_pure]
  | .ite c yes (some no) s => by
    simp only [resolveStmt, stmt, Logged.forget_bind, forget_resolveCond, forget_resolveBranch,
      forget_resolveStmt yes, forget_resolveStmt no, Logged.forget_lift]
  | .loop c body s => by
    simp only [resolveStmt, stmt, Logged.forget_bind, forget_resolveCond, forget_resolveBranch,
      forget_resolveStmt body, Logged.forget_pure]

theorem forget_resolveItem : (i : Item) → (resolveItem i).forget = item i
  | .decl d => by simp only [resolveItem, item, forget_resolveDecl]
  | .stmt s => by simp only [resolveItem, item, forget_resolveStmt s]

theorem forget_resolveItems : (us : List Item) → (resolveItems us).forget = items us
  | [] => by simp only [resolveItems, items, Logged.forget_pure]
  | u :: rest => by
    simp only [resolveItems, items, Logged.forget_bind, forget_resolveItem u,
      forget_resolveItems rest]

end

end Check

namespace Program

/-- What the checker finds out about the names of a program. -/
def findings (p : Program) : List Finding :=
  (Check.resolveWithin (Check.resolveItems p.units) Context.start).history

/-- The checker takes an occurrence to stand for the variable of a declaration. -/
def Refers (p : Program) (o : Occurrence) (d : Decl) : Prop :=
  ∃ v, .resolved o v ∈ p.findings ∧ .declared d v ∈ p.findings

end Program

/-! Successes with their notes. -/

namespace Logged
variable {ε σ ω α β : Type} {notes : List ω} {s s' : σ}

/-- The step ends well, and all it notes is among `notes`. -/
def Yields (notes : List ω) (x : Logged ε σ ω α) (s : σ) (a : α) (s' : σ) : Prop :=
  Succeeds x.forget s a s' ∧ (x s).history ⊆ notes

theorem history_bind {x : Logged ε σ ω α} {f : α → Logged ε σ ω β} {a : α} {t : σ}
    (h : Succeeds x.forget s a t) : ((x >>= f) s).history = (x s).history ++ (f a t).history := by
  obtain ⟨hr, rfl⟩ := Prod.mk.inj h
  simp only [Bind.bind, hr]

theorem yields_bind {x : Logged ε σ ω α} {f : α → Logged ε σ ω β} {b : β} :
    Yields notes (x >>= f) s b s' ↔ ∃ a t, Yields notes x s a t ∧ Yields notes (f a) t b s' := by
  unfold Yields
  rw [forget_bind, succeeds_bind]
  constructor
  · rintro ⟨⟨a, t, hx, hf⟩, hsub⟩
    rw [history_bind hx, List.append_subset] at hsub
    exact ⟨a, t, ⟨hx, hsub.1⟩, hf, hsub.2⟩
  · rintro ⟨a, t, ⟨hx, hsub⟩, hf, hsub'⟩
    refine ⟨⟨a, t, hx, hf⟩, ?_⟩
    rw [history_bind hx, List.append_subset]
    exact ⟨hsub, hsub'⟩

theorem yields_lift {m : ExceptT ε (StateM σ) α} {a : α} :
    Yields notes (lift m : Logged ε σ ω α) s a s' ↔ Succeeds m s a s' :=
  ⟨fun h => h.1, fun h => ⟨h, List.nil_subset _⟩⟩

theorem yields_pure {a b : α} :
    Yields notes (pure a : Logged ε σ ω α) s b s' ↔ a = b ∧ s = s' :=
  ⟨fun h => succeeds_pure.mp h.1, fun h => ⟨succeeds_pure.mpr h, List.nil_subset _⟩⟩

theorem yields_note {o : ω} {u : PUnit} :
    Yields notes (note o : Logged ε σ ω PUnit) s u s' ↔ o ∈ notes ∧ s = s' := by
  constructor
  · rintro ⟨h, hsub⟩
    exact ⟨hsub (List.mem_singleton.mpr rfl), (succeeds_pure.mp h).2⟩
  · rintro ⟨ho, rfl⟩
    refine ⟨rfl, fun o' ho' => ?_⟩
    rwa [List.mem_singleton.mp ho']

end Logged

namespace Check

open Logged (Yields yields_bind yields_lift yields_pure yields_note)

variable {notes : List Finding} {c c' : Context} {u : Unit}

/-- Every variable that an expression reads is in sight and assigned, and was noted. -/
def SeesExpr (notes : List Finding) (scopes : Scopes) (assigned : List Nat) : Expr → Prop
  | .var name s => ∃ v, scopes.search? name = some (.variable v) ∧ v.number ∈ assigned ∧
      .resolved (.read name s) v ∈ notes
  | .neg e _ => SeesExpr notes scopes assigned e
  | .binary _ l r _ => SeesExpr notes scopes assigned l ∧ SeesExpr notes scopes assigned r
  | .int _ _ | .float _ _ _ | .readInt _ | .readFloat _ => True

/-- Every variable that a condition reads is in sight and assigned, and was noted. -/
def SeesCond (notes : List Finding) (scopes : Scopes) (assigned : List Nat) : Cond → Prop
  | .compare _ l r _ => SeesExpr notes scopes assigned l ∧ SeesExpr notes scopes assigned r
  | .logical _ l r _ => SeesCond notes scopes assigned l ∧ SeesCond notes scopes assigned r
  | .not b _ => SeesCond notes scopes assigned b

theorem expr_yields {e : Expr} {t : NumType} (h : Yields notes (resolveExpr e) c t c') :
    SeesExpr notes c.scopes c.assigned e := by
  induction e generalizing t c c' with
  | int | float | readInt | readFloat => trivial
  | var name s =>
    simp only [resolveExpr, yields_bind, yields_lift, yields_note, succeeds_get] at h
    obtain ⟨v, _, hv, _, _, ⟨ho, rfl⟩, _, _, ⟨rfl, rfl⟩, h⟩ := h
    obtain ⟨found, rfl⟩ := lookup_accepted hv
    split at h
    · next ha => exact ⟨v, found, List.contains_iff_mem.mp ha, ho⟩
    · exact (succeeds_throw.mp (yields_lift.mp h)).elim
  | neg e s ih =>
    simp only [resolveExpr, yields_bind] at h
    obtain ⟨t, c₁, he, -⟩ := h
    exact ih he
  | binary op l r s ihl ihr =>
    simp only [resolveExpr, yields_bind] at h
    obtain ⟨t, c₁, hl, u, c₂, hr, -⟩ := h
    obtain ⟨more, rfl⟩ := (expr_accepted (forget_resolveExpr l ▸ hl.1)).1
    have hright := ihr hr
    exact ⟨ihl hl, hright⟩

theorem cond_yields {b : Cond} (h : Yields notes (resolveCond b) c u c') :
    SeesCond notes c.scopes c.assigned b := by
  induction b generalizing c c' u with
  | compare op l r s =>
    simp only [resolveCond, yields_bind] at h
    obtain ⟨t, c₁, hl, u, c₂, hr, -⟩ := h
    have hleft := expr_yields hl
    obtain ⟨more, rfl⟩ := (expr_accepted (forget_resolveExpr l ▸ hl.1)).1
    have hright := expr_yields hr
    exact ⟨hleft, hright⟩
  | logical op l r s ihl ihr =>
    simp only [resolveCond, yields_bind] at h
    obtain ⟨_, c₁, hl, hr⟩ := h
    obtain ⟨more, rfl⟩ := (cond_accepted (forget_resolveCond l ▸ hl.1)).1
    have hright := ihr hr
    exact ⟨ihl hl, hright⟩
  | not b s ih => exact ih h

/-- An accepted declaration noted its variable and what its initializer reads. -/
theorem decl_yields {d : Decl} (h : Yields notes (resolveDecl d) c u c') :
    .declared d (declared c d) ∈ notes ∧
      ∀ e, d.init = some e → SeesExpr notes c.scopes c.assigned e := by
  simp only [resolveDecl, yields_bind, yields_lift, succeeds_get] at h
  obtain ⟨_, _, ⟨rfl, rfl⟩, h⟩ := h
  split at h
  · exact (succeeds_throw.mp (yields_lift.mp h)).elim
  · simp only [yields_bind, yields_note] at h
    obtain ⟨_, c₁, hinit, _, _, -, _, _, ⟨ho, -⟩, -⟩ := h
    refine ⟨ho, fun e he => ?_⟩
    rw [he] at hinit
    simp only [resolveInit, yields_bind] at hinit
    obtain ⟨t, c₂, hexpr, -⟩ := hinit
    exact expr_yields hexpr

theorem assign_yields {name : Bytes} {value : Expr} {s : Span}
    (h : Yields notes (resolveStmt (.assign name value s)) c u c') :
    ∃ v, c.scopes.search? name = some (.variable v) ∧
      .resolved (.assign name value s) v ∈ notes ∧ SeesExpr notes c.scopes c.assigned value := by
  simp only [resolveStmt, yields_bind, yields_lift, yields_note] at h
  obtain ⟨v, _, hv, _, _, ⟨ho, rfl⟩, t, c₁, hvalue, -⟩ := h
  obtain ⟨found, rfl⟩ := lookup_accepted hv
  exact ⟨v, found, ho, expr_yields hvalue⟩

theorem print_yields {value : Expr} {s : Span}
    (h : Yields notes (resolveStmt (.print value s)) c u c') :
    SeesExpr notes c.scopes c.assigned value := by
  simp only [resolveStmt, yields_bind] at h
  obtain ⟨t, c₁, hvalue, -⟩ := h
  exact expr_yields hvalue

theorem within_yields {x : Resolving Unit} (h : Yields notes (resolveWithin x) c u c') :
    ∃ c₁, Yields notes x { c with scopes := c.scopes.push } () c₁ ∧
      c' = { c₁ with scopes := c₁.scopes.pop } := by
  obtain ⟨c₁, hx, rfl⟩ := within_accepted (m := x.forget) h.1
  exact ⟨c₁, ⟨hx, h.2⟩, rfl⟩

theorem branch_yields {x : Resolving Unit} {assigned : List Nat}
    (h : Yields notes (resolveBranch x) c assigned c') : ∃ c₁, Yields notes x c () c₁ ∧
      assigned = c₁.assigned ∧ c' = { c₁ with assigned := c.assigned } := by
  obtain ⟨c₁, hx, rfl, rfl⟩ := branch_accepted (m := x.forget) h.1
  exact ⟨c₁, ⟨hx, h.2⟩, rfl, rfl⟩

/-- A condition and a branch that is checked once, as in an `if` or a loop. -/
theorem guarded_yields {b : Cond} {x : Resolving Unit}
    (h : Yields notes (do resolveCond b; let _ ← resolveBranch x; pure ()) c u c') :
    ∃ c₁ c₂, Records c c₁ ∧ TypedCond c.scopes c.assigned c₁.types.toList b ∧
      SeesCond notes c.scopes c.assigned b ∧ Yields notes x c₁ () c₂ ∧
      c' = { c₂ with assigned := c₁.assigned } := by
  simp only [yields_bind, yields_pure] at h
  obtain ⟨_, c₁, hb, _, _, hbranch, _, rfl⟩ := h
  obtain ⟨hr, ht⟩ := cond_accepted (forget_resolveCond b ▸ hb.1)
  obtain ⟨c₂, hx, -, rfl⟩ := branch_yields hbranch
  exact ⟨c₁, c₂, hr, ht, cond_yields hb, hx, rfl⟩

theorem iteElse_yields {b : Cond} {yes no : Stmt} {s : Span}
    (h : Yields notes (resolveStmt (.ite b yes (some no) s)) c u c') :
    ∃ c₁ c₂ c₃, Records c c₁ ∧ TypedCond c.scopes c.assigned c₁.types.toList b ∧
      SeesCond notes c.scopes c.assigned b ∧
      Yields notes (resolveStmt yes) c₁ () c₂ ∧
      Yields notes (resolveStmt no) { c₂ with assigned := c₁.assigned } () c₃ ∧
      c' = { c₃ with
        assigned := (c₂.assigned.filter c₃.assigned.contains).foldr List.insert c₁.assigned } := by
  simp only [resolveStmt, yields_bind, yields_lift, succeeds_modify] at h
  obtain ⟨_, c₁, hb, _, _, inYes, _, _, inNo, rfl⟩ := h
  obtain ⟨hr, ht⟩ := cond_accepted (forget_resolveCond b ▸ hb.1)
  obtain ⟨c₂, hyes, rfl, rfl⟩ := branch_yields inYes
  obtain ⟨c₃, hno, rfl, rfl⟩ := branch_yields inNo
  exact ⟨c₁, c₂, c₃, hr, ht, cond_yields hb, hyes, hno, rfl⟩

/-- The checker accepts the statement. -/
theorem stmt_checked {s : Stmt} (h : Yields notes (resolveStmt s) c u c') :
    Succeeds (stmt s) c u c' := forget_resolveStmt s ▸ h.1

theorem item_checked {i : Item} (h : Yields notes (resolveItem i) c u c') :
    Succeeds (item i) c u c' := forget_resolveItem i ▸ h.1

end Check

/-! Origins that are the checker's declarations. -/

/-- The slot that is visited comes from the declaration that the checker took the
occurrence to stand for. -/
def Found (notes : List Finding) (visit : Visit) : Prop :=
  ∃ d v, visit.origin = some d ∧ .resolved visit.occurrence v ∈ notes ∧ .declared d v ∈ notes

/-- The slots come from the declarations of the variables that the checker has in
sight. -/
def OriginsFit (notes : List Finding) (scopes : Scopes) (o : Origins) : Prop :=
  Fits (fun v d => .declared d v ∈ notes) scopes.items o.scopes

namespace OriginsFit
variable {notes : List Finding} {scopes : Scopes} {o : Origins}

theorem ne_nil (h : OriginsFit notes scopes o) (hn : 2 ≤ scopes.items.length) :
    o.scopes ≠ [] := by
  intro hnil
  have hh := Fits.height h
  rw [hnil] at hh
  simp only [List.length_nil] at hh
  omega

/-- A visit to the slot of the variable that an occurrence was resolved to. -/
theorem found (h : OriginsFit notes scopes o) {occurrence : Occurrence} {name : Bytes} {i : Nat}
    {v : Variable} (hv : cell scopes.items i name = some (.variable v))
    (hn : .resolved occurrence v ∈ notes) :
    Found notes ⟨occurrence, (some i).bind (cell o.scopes · name)⟩ := by
  obtain ⟨d, hd, hmade⟩ := h.known i name v hv
  exact ⟨d, v, hd, hn, hmade⟩

theorem enter (h : OriginsFit notes scopes o) : OriginsFit notes scopes.push o.enter :=
  Fits.push h

/-- Declaring adds the slot of the declaration. -/
theorem declare_sets (h : OriginsFit notes scopes o) (hn : 2 ≤ scopes.items.length) (d : Decl) :
    Sets o.scopes 0 d.name d (o.declare d).scopes := by
  have hne := h.ne_nil hn
  obtain ⟨stack, stashed⟩ := o
  cases stack with
  | nil => exact absurd rfl hne
  | cons here rest => exact sets_cons here rest d.name d

theorem declare (h : OriginsFit notes scopes o) {d : Decl} {v : Variable}
    (hn : 2 ≤ scopes.items.length) (hd : scopes.declaredHere d.name = false)
    (hv : .declared d v ∈ notes) :
    OriginsFit notes (scopes.add d.name (.variable v)) (o.declare d) := by
  obtain ⟨-, hnames, -⟩ := Check.sets_declared (o := .variable v) hd
    (List.ne_nil_of_length_pos (by omega))
  exact Fits.declare h hnames (h.declare_sets hn d) hv fun _ _ _ _ _ hy => hy

end OriginsFit

/-- What units make of the origins: those of the names in sight after them, with nothing
changed outside the innermost scope. -/
structure OriginsGrow (notes : List Finding) (scopes' : Scopes) (o o' : Origins) : Prop where
  fits : OriginsFit notes scopes' o'
  outer : o'.scopes.tail = o.scopes.tail
  stashed : o'.stashed = o.stashed

namespace OriginsGrow
variable {notes : List Finding} {scopes scopes' : Scopes} {o o' o'' : Origins}

theorem refl (h : OriginsFit notes scopes o) : OriginsGrow notes scopes o o := ⟨h, rfl, rfl⟩

theorem trans (h : OriginsGrow notes scopes o o') (h' : OriginsGrow notes scopes' o' o'') :
    OriginsGrow notes scopes' o o'' :=
  ⟨h'.fits, h'.outer.trans h.outer, h'.stashed.trans h.stashed⟩

theorem declare (h : OriginsFit notes scopes o) {d : Decl} {v : Variable}
    (hn : 2 ≤ scopes.items.length) (hd : scopes.declaredHere d.name = false)
    (hv : .declared d v ∈ notes) :
    OriginsGrow notes (scopes.add d.name (.variable v)) o (o.declare d) := by
  have hfits := h.declare hn hd hv
  obtain ⟨stack, stashed⟩ := o
  cases stack with
  | nil => exact ⟨hfits, rfl, rfl⟩
  | cons here rest => exact ⟨hfits, rfl, rfl⟩

/-- The units of a block leave the origins from before it. -/
theorem exit (h : OriginsGrow notes scopes' o.enter o') (hne : o.scopes ≠ []) : o'.exit = o :=
  Origins.exit_enter hne h.outer h.stashed

end OriginsGrow

end Signum
