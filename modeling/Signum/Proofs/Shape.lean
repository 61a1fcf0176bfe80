import Signum.Proofs.Analysis.Failing
import Signum.Proofs.Scoping.Run
/- Statements leave the shape of the scopes alone.

   The environment of an analysis and the store of a run are stacks of scopes. While a
   statement is gone through, scopes are opened and closed, variables are declared in them,
   and an analysis sets whole stacks aside and takes them up again. When the statement has
   come to its end, well or with a failure from deep inside it, all that is undone: the same
   scopes are open, with the same names in the same order.

   A `Frame` says what a stack of scopes is to an interpreter and how little may become of
   what a name stands for. `Upholds n` is the judgement about steps: all but the `n`
   innermost scopes keep their shape. Units uphold it for one scope, as they declare in it,
   and closing that scope makes a block uphold it for none. -/
namespace Signum

section Steady
variable {γ : Type} {lasts : γ → γ → Prop}

/-- Stacks with the same names in the same order in each scope, where what stands behind a name
has lasted. -/
def Steady (lasts : γ → γ → Prop) :
    List (List (Bytes × γ)) → List (List (Bytes × γ)) → Prop :=
  List.Forall₂ (List.Forall₂ fun p q => p.1 = q.1 ∧ lasts p.2 q.2)

/-- A stack keeps its height, and all but its `n` innermost scopes are steady. -/
structure SteadyBelow (lasts : γ → γ → Prop) (n : Nat) (stack stack' : List (List (Bytes × γ))) :
    Prop where
  height : stack'.length = stack.length
  outer : Steady lasts (stack.drop n) (stack'.drop n)

theorem Steady.below {stack stack' : List (List (Bytes × γ))} (h : Steady lasts stack stack')
    (n : Nat) : SteadyBelow lasts n stack stack' :=
  ⟨(List.Forall₂.length_eq h).symm, List.forall₂_drop n h⟩

theorem Steady.names {stack stack' : List (List (Bytes × γ))} (h : Steady lasts stack stack') :
    stack'.map (·.map Prod.fst) = stack.map (·.map Prod.fst) := stackNames_forall₂ And.left h

/-- Changing what the entries of some name stand for, in one scope. -/
theorem Steady.map (hrefl : ∀ x, lasts x x) {f : γ → γ} (hf : ∀ x, lasts x (f x))
    (s : List (Bytes × γ)) (rest : List (List (Bytes × γ))) (n : Bytes) :
    Steady lasts (s :: rest)
      ((s.map fun (k, x) => if k = n then (k, f x) else (k, x)) :: rest) := by
  refine .cons (List.forall₂_map_right_iff.mpr (List.forall₂_same.mpr fun p _ => ?_))
    (List.forall₂_same.mpr fun t _ => List.forall₂_same.mpr fun p _ => ⟨rfl, hrefl p.2⟩)
  dsimp only
  split
  · exact ⟨rfl, hf p.2⟩
  · exact ⟨rfl, hrefl p.2⟩

/-- Once a scope that was opened is closed, the stack is steady. -/
theorem SteadyBelow.closed {opened : List (Bytes × γ)} {stack stack' : List (List (Bytes × γ))}
    (h : SteadyBelow lasts 1 (opened :: stack) stack') : Steady lasts stack stack'.tail := by
  rw [← List.drop_one]
  exact h.outer

/-- A stack that a scope was opened on has two scopes. -/
theorem SteadyBelow.two_le {opened : List (Bytes × γ)} {stack stack' : List (List (Bytes × γ))}
    {n : Nat} (h : SteadyBelow lasts n (opened :: stack) stack') (hs : stack ≠ []) :
    2 ≤ stack'.length := by
  rw [h.height, List.length_cons]
  exact Nat.succ_le_succ (List.length_pos_of_ne_nil hs)

end Steady

/-- What a stack of scopes is to an interpreter: where it is found in a state, what has to last
of what a name stands for, and which ends of a step come back to whoever took it. -/
structure Frame (ε σ γ : Type) where
  stack : σ → List (List (Bytes × γ))
  lasts : γ → γ → Prop
  returns : ε → Prop
  refl : ∀ x, lasts x x
  trans : ∀ {x y z}, lasts x y → lasts y z → lasts x z

namespace Frame
variable {ε σ γ α β : Type} {F : Frame ε σ γ} {n : Nat}

theorem steady_refl (F : Frame ε σ γ) (stack : List (List (Bytes × γ))) :
    Steady F.lasts stack stack :=
  List.forall₂_same.mpr fun _ _ => List.forall₂_same.mpr fun p _ => ⟨rfl, F.refl p.2⟩

theorem steady_trans {stack stack' stack'' : List (List (Bytes × γ))}
    (h : Steady F.lasts stack stack') (h' : Steady F.lasts stack' stack'') :
    Steady F.lasts stack stack'' := by
  refine forall₂_trans (forall₂_trans ?_) h h'
  intro p q r hpq hqr
  exact ⟨hpq.1.trans hqr.1, F.trans hpq.2 hqr.2⟩

theorem below_trans {stack stack' stack'' : List (List (Bytes × γ))}
    (h : SteadyBelow F.lasts n stack stack') (h' : SteadyBelow F.lasts n stack' stack'') :
    SteadyBelow F.lasts n stack stack'' :=
  ⟨h'.height.trans h.height, steady_trans h.outer h'.outer⟩

/-- The result comes back. -/
def Returned (F : Frame ε σ γ) (r : Except ε α) : Prop := ∀ e, r = .error e → F.returns e

/-- Whenever the step comes back, all but the `n` innermost scopes have kept their shape. -/
def Upholds (F : Frame ε σ γ) (n : Nat) (m : ExceptT ε (StateM σ) α) : Prop :=
  ∀ ⦃s r s'⦄, F.stack s ≠ [] → m.run.run s = (r, s') → F.Returned r →
    SteadyBelow F.lasts n (F.stack s) (F.stack s')

theorem Upholds.still {m : ExceptT ε (StateM σ) α}
    (h : ∀ s, F.stack (m.run.run s).2 = F.stack s) : F.Upholds n m := by
  intro s r s' _ hrun _
  have hs := h s
  rw [hrun] at hs
  rw [hs]
  exact (F.steady_refl _).below n

theorem Upholds.weaken {m : ExceptT ε (StateM σ) α} (h : F.Upholds 0 m) : F.Upholds n m := by
  intro s r s' hs hrun hr
  exact (h hs hrun hr).outer.below n

theorem Upholds.bind {x : ExceptT ε (StateM σ) α} {f : α → ExceptT ε (StateM σ) β}
    (hx : F.Upholds n x) (hf : ∀ a, F.Upholds n (f a)) : F.Upholds n (x >>= f) := by
  intro s r s' hs hrun hr
  rw [run_bind] at hrun
  split at hrun
  · next a t hxa =>
    have hfirst := hx hs hxa nofun
    have hopen : F.stack t ≠ [] := by
      intro hnil
      have hheight := hfirst.height
      rw [hnil] at hheight
      exact hs (List.length_eq_zero_iff.mp hheight.symm)
    exact below_trans hfirst (hf a hopen hrun hr)
  · next e t hxe =>
    cases hrun
    refine hx hs hxe fun e' he' => ?_
    cases he'
    exact hr e rfl

theorem Upholds.ite {c : Prop} [Decidable c] {x y : ExceptT ε (StateM σ) α} (hx : F.Upholds n x)
    (hy : F.Upholds n y) : F.Upholds n (if c then x else y) := by
  split
  · exact hx
  · exact hy

end Frame

/-- A variable keeps its domain, and stays bound once it is. -/
def Slot.Lasts (x y : Slot) : Prop := y.domain = x.domain ∧ (x.value.isSome → y.value.isSome)

namespace Analysis

open Environment (Raised)

/-- The scopes of an analysis. A step that ends in a fault does not come back. -/
def frame : Frame Halt State Slot where
  stack s := s.env.scopes
  lasts := Slot.Lasts
  returns h := ∀ f, h ≠ .fault f
  refl _ := ⟨rfl, id⟩
  trans hxy hyz := ⟨hyz.1.trans hxy.1, hyz.2 ∘ hxy.2⟩

theorem steady_of_raised {scopes scopes' : List Scope} (h : Raised scopes scopes') :
    Steady frame.lasts scopes scopes' := by
  refine h.imp fun s s' hs => hs.imp fun p q hpq => ⟨hpq.1, hpq.2.domain.symm, ?_⟩
  have hv := hpq.2.value
  generalize p.2.value = x at hv
  generalize q.2.value = y at hv
  cases hv with
  | none => exact id
  | some _ => exact fun _ => rfl

theorem steady_of_bindIn {n : Bytes} {a : Atom} {scopes scopes' : List Scope}
    (h : Environment.bindIn n a scopes = .ok scopes') : Steady frame.lasts scopes scopes' := by
  induction scopes generalizing scopes' with
  | nil => cases h
  | cons s rest ih =>
    unfold Environment.bindIn at h
    split at h
    · split at h
      · cases h
        exact Steady.map (f := fun slot => { slot with value := some a }) frame.refl
          (fun _ => ⟨rfl, fun _ => rfl⟩) s rest n
      · cases h
    · cases hb : Environment.bindIn n a rest with
      | error f => rw [hb] at h; cases h
      | ok rest' =>
        rw [hb] at h
        cases h
        exact .cons (List.forall₂_same.mpr fun p _ => ⟨rfl, frame.refl p.2⟩) (ih hb)

section Upholds
variable {α : Type} {n : Nat}

/-- A step that comes back has succeeded or failed. -/
theorem upholds_of_ends {m : M α}
    (hdone : ∀ {s a s'}, s.env.scopes ≠ [] → Succeeds m s a s' →
      SteadyBelow frame.lasts n s.env.scopes s'.env.scopes)
    (hfails : ∀ {s kind span s'}, s.env.scopes ≠ [] → Fails m s kind span s' →
      SteadyBelow frame.lasts n s.env.scopes s'.env.scopes) : frame.Upholds n m := by
  intro s r s' hs hrun hr
  match r with
  | .ok a => exact hdone hs hrun
  | .error (.failed kind span) => exact hfails hs hrun
  | .error (.fault f) => exact absurd rfl (hr _ rfl f)

theorem upholds_done {m : M α} (h : frame.Upholds n m) {s s' : State} {a : α}
    (hs : s.env.scopes ≠ []) (hm : Succeeds m s a s') :
    SteadyBelow frame.lasts n s.env.scopes s'.env.scopes := h hs hm nofun

theorem upholds_fails {m : M α} (h : frame.Upholds n m) {s s' : State} {kind : ErrorKind}
    {span : Span} (hs : s.env.scopes ≠ []) (hm : Fails m s kind span s') :
    SteadyBelow frame.lasts n s.env.scopes s'.env.scopes := by
  refine h hs hm fun e he f => ?_
  cases he
  exact nofun

theorem Quiet.upholds {m : M α} (h : Quiet m) : frame.Upholds n m :=
  .still fun s => congrArg Environment.scopes (h s).1

theorem report_upholds (e : Event) : frame.Upholds n (report e) := .still fun _ => rfl

theorem bind_upholds (name : Bytes) (a : Atom) : frame.Upholds n (bind name a) := by
  refine upholds_of_ends (fun {s _ _} hs hm => ?_) fun _ hm => (fails_bindName.mp hm).elim
  obtain ⟨env, hb, rfl⟩ := succeeds_bindName.mp hm
  unfold Environment.bind at hb
  cases hscopes : Environment.bindIn name a s.env.scopes with
  | error f => rw [hscopes] at hb; cases hb
  | ok scopes =>
    rw [hscopes] at hb
    cases hb
    exact (steady_of_bindIn hscopes).below n

/-- Declaring touches the innermost scope only. -/
theorem introduce_upholds (d : Decl) : frame.Upholds 1 (introduce d) := by
  refine upholds_of_ends (fun hs hm => ?_) fun _ hm => (fails_introduce.mp hm).elim
  obtain ⟨env, hd, rfl⟩ := succeeds_introduce.mp hm
  unfold Environment.declare at hd
  split at hd
  · next here rest hscopes =>
    split at hd
    · cases hd
    · cases hd
      rw [hscopes]
      exact ⟨rfl, frame.steady_refl rest⟩
  · cases hd

theorem steady_of_join {e o e' : Environment} {changed : Bool}
    (h : e.join o = (.ok changed, e')) : Steady frame.lasts e.scopes e'.scopes := by
  have hup := Environment.join_raised e o
  rw [h] at hup
  exact steady_of_raised hup

theorem joinIn_upholds (other : Environment) : frame.Upholds n (joinIn other) := by
  refine upholds_of_ends (fun hs hm => ?_) fun _ hm => (fails_joinIn.mp hm).elim
  obtain ⟨env, hj, rfl⟩ := succeeds_joinIn.mp hm
  exact (steady_of_join hj).below n

theorem settle_upholds (after : Environment) : frame.Upholds n (settle after) := by
  refine upholds_of_ends (fun hs hm => ?_) fun _ hm => (fails_settle.mp hm).elim
  rcases succeeds_settle.mp hm with ⟨-, -, rfl⟩ | ⟨-, env, hj, rfl⟩
  · exact (frame.steady_refl _).below n
  · exact (steady_of_join hj).below n

theorem exit_steady {scopes : List Scope} {env : Environment} (hs : scopes ≠ [])
    (h : SteadyBelow frame.lasts 1 ([] :: scopes) env.scopes) :
    SteadyBelow frame.lasts 0 scopes env.exit.2.scopes := by
  rw [Environment.exit_scopes (h.two_le hs)]
  exact h.closed.below 0

theorem within_upholds {m : M Unit} (h : frame.Upholds 1 m) : frame.Upholds 0 (within m) := by
  refine upholds_of_ends (fun hs hm => ?_) fun hs hm => ?_
  · obtain ⟨t, ht, rfl⟩ := succeeds_within.mp hm
    exact exit_steady hs (upholds_done h (List.cons_ne_nil _ _) ht)
  · obtain ⟨t, ht, rfl⟩ := fails_within.mp hm
    exact exit_steady hs (upholds_fails h (List.cons_ne_nil _ _) ht)

/-- A branch goes back to the scopes it set aside, however its body ends. -/
theorem branch_upholds {m : M Unit} (hbal : Balanced m) : frame.Upholds n (branch m) := by
  refine upholds_of_ends (fun hs hm => ?_) fun hs hm => ?_
  · obtain ⟨t, -, -, rfl⟩ := branch_succeeds hbal hm
    exact (frame.steady_refl _).below n
  · rw [branch_fails_same hbal hm]
    exact (frame.steady_refl _).below n

theorem rounds_upholds {config : Config} {place : Span} {c : Cond} {body : M Unit}
    (hbal : Balanced body) (left number : Nat) :
    frame.Upholds n (rounds config place c body left number) := by
  induction left generalizing number with
  | zero => exact (Quiet.throw _).upholds
  | succ left ih =>
    rw [rounds_succ]
    refine .bind (cond_quiet config c).upholds fun verdict => .bind (branch_upholds hbal) fun after => ?_
    refine .bind (settle_upholds after) fun stable => .bind (report_upholds _) fun _ => ?_
    exact .ite (Quiet.pure _).upholds (ih (number + 1))

end Upholds

mutual

/-- A statement keeps the shape of every scope. -/
theorem stmt_upholds (config : Config) : (s : Stmt) → frame.Upholds 0 (stmt config s)
  | .assign name value place => by
    simp only [stmt]
    exact .bind (expr_quiet config value).upholds fun v => bind_upholds name v
  | .print value place => by
    simp only [stmt]
    refine .bind (expr_quiet config value).upholds fun v => .bind (report_upholds _) fun _ => ?_
    exact .still fun _ => rfl
  | .block body place => by
    simp only [stmt]
    exact within_upholds (items_upholds config body)
  | .ite c yes none place => by
    simp only [stmt]
    refine .bind (cond_quiet config c).upholds fun v => .bind (report_upholds _) fun _ => ?_
    refine .bind (branch_upholds (stmt_balanced config yes)) fun inYes => ?_
    exact .bind (joinIn_upholds inYes) fun _ => (Quiet.pure _).upholds
  | .ite c yes (some no) place => by
    refine upholds_of_ends (fun {st _ _} hs hm => ?_) fun {st _ _ _} hs hm => ?_
    · -- what is adopted is the fork of the first branch, with the other joined in
      simp only [stmt] at hm
      obtain ⟨verdict, st₁, hc, hm⟩ := succeeds_bind.mp hm
      obtain ⟨u, st₂, hreport, hm⟩ := succeeds_bind.mp hm
      obtain rfl := succeeds_report.mp hreport
      obtain ⟨inYes, st₃, hyes, hm⟩ := succeeds_bind.mp hm
      obtain ⟨inNo, st₄, hno, hm⟩ := succeeds_bind.mp hm
      obtain ⟨changed, joined, hj, rfl⟩ := succeeds_adopt.mp hm
      have henv := ((cond_quiet config c).of_succeeds hc).1
      obtain ⟨t, ht, rfl, rfl⟩ := branch_stmt_succeeds hyes
      have hfork := upholds_done (stmt_upholds config yes)
        (s := { st₁ with trace := _, env := st₁.env.fork }) (henv ▸ hs) ht
      have hjoined := steady_of_join hj
      rw [← henv]
      exact (frame.steady_trans hfork.outer hjoined).below 0
    · rw [ite_fails hm]
      exact (frame.steady_refl _).below 0
  | .loop c body place => by
    simp only [stmt]
    exact .bind Quiet.get.upholds fun st => rounds_upholds (stmt_balanced config body) _ 1

/-- A unit keeps the shape of the scopes around the one it stands in. -/
theorem item_upholds (config : Config) : (u : Item) → frame.Upholds 1 (item config u)
  | .decl d => by
    simp only [item, decl_eq]
    refine .bind (introduce_upholds d) fun _ => ?_
    cases d.init with
    | none => exact (Quiet.pure _).upholds
    | some e => exact .bind (expr_quiet config e).upholds fun v => bind_upholds d.name v
  | .stmt s => by
    simp only [item]
    exact (stmt_upholds config s).weaken

theorem items_upholds (config : Config) : (us : List Item) → frame.Upholds 1 (items config us)
  | [] => by
    simp only [items]
    exact (Quiet.pure _).upholds
  | u :: rest => by
    simp only [items]
    exact .bind (item_upholds config u) fun _ => items_upholds config rest

end

/-- A step that comes back leaves what forks set aside alone. -/
theorem Balanced.stashed {α : Type} {m : M α} (h : Balanced m) {s s' : State} {r : Except Halt α}
    (hrun : m.run.run s = (r, s')) (hr : frame.Returned r) : s'.env.stashed = s.env.stashed := by
  have hs := h s
  unfold BalancedAt at hs
  rw [hrun] at hs
  match r, hr, hs with
  | .ok _, _, hs => exact hs
  | .error (.failed _ _), _, hs => exact hs
  | .error (.fault f), hr, _ => exact absurd rfl (hr _ rfl f)

/-- After an analysis that comes back one scope is open and nothing is set aside. -/
theorem run_closed {config : Config} {p : Program} (h : frame.Returned (run config p).1) :
    (run config p).2.env.depth = 1 ∧ (run config p).2.env.forks = 0 := by
  have hshape := items_upholds config p.units (s := State.start) nofun rfl h
  have hstashed := (items_balanced config p.units).stashed (s := State.start) rfl h
  exact ⟨hshape.height, congrArg List.length hstashed⟩

/-- Without a cap the analysis of an accepted program comes back. -/
theorem run_returns {p : Program} {ctx : Context} (h : p.check = (.ok (), ctx)) {config : Config}
    (hcap : config.maxIterations ≤ 0) : frame.Returned (run config p).1 := by
  obtain ⟨c, -, -, -, hout⟩ := analysis_safe h config
  have hout := hout fun _ _ => trivial
  intro e he f heq
  subst heq
  rw [← observed_eq_run] at he
  have hresult : ((observing config).items p.units State.start).result = .error (.fault f) := he
  rw [hresult] at hout
  match f, hout with
  | .unsettled _ _, hpos => exact absurd hpos (Int.not_lt.mpr hcap)

end Analysis

namespace Run

/-- The scopes of a run: what is bound stays bound. Every end of a step comes back. -/
def frame : Frame Halt State (Option Value) where
  stack s := s.store.scopes
  lasts x y := x.isSome → y.isSome
  returns _ := True
  refl _ := id
  trans hxy hyz := hyz ∘ hxy

/-- The step leaves the store alone, however it ends. -/
def Still {α : Type} (m : M α) : Prop := ∀ s, (m.run.run s).2.store = s.store

section Still
variable {α β : Type}

theorem Still.pure (a : α) : Still (Pure.pure a : M α) := fun _ => rfl

theorem Still.throw (h : Halt) : Still (MonadExcept.throw h : M α) := fun _ => rfl

theorem Still.bind {x : M α} {f : α → M β} (hx : Still x) (hf : ∀ a, Still (f a)) :
    Still (x >>= f) := by
  intro s
  rw [run_bind]
  have h := hx s
  generalize x.run.run s = out at h
  obtain ⟨e | a, t⟩ := out
  · exact h
  · exact (hf a t).trans h

theorem Still.ite {c : Prop} [Decidable c] {x y : M α} (hx : Still x) (hy : Still y) :
    Still (if c then x else y) := by
  split
  · exact hx
  · exact hy

theorem take_still (read : Input → Option α × Input) (span : Span) : Still (take read span) := by
  intro s
  unfold take
  simp only [run_bind, run_get, run_modify]
  cases (read s.input).1 with
  | some a => rfl
  | none => rfl

theorem arith_still (op : BinaryOp) (span : Span) (a b : Value) : Still (arith op span a b) := by
  unfold arith
  split
  · split
    · exact .pure _
    · exact .throw _
  · split
    · exact .pure _
    · exact .throw _
  · exact .throw _

theorem expr_still (e : Expr) : Still (expr e) := by
  induction e with
  | int v s | float v t s => exact .pure _
  | readInt s | readFloat s => exact .bind (take_still _ s) fun _ => .pure _
  | var name s =>
    refine .bind (fun _ => rfl) fun st => ?_
    cases st.store.lookup? name with
    | some v => exact .pure v
    | none => exact .throw _
  | neg e s ih => exact .bind ih fun _ => .pure _
  | binary op l r s ihl ihr => exact .bind ihl fun a => .bind ihr fun b => arith_still op s a b

theorem cond_still (c : Cond) : Still (cond c) := by
  induction c with
  | compare op l r s => exact .bind (expr_still l) fun _ => .bind (expr_still r) fun _ => .pure _
  | logical op l r s ihl ihr =>
    cases op with
    | and => exact .bind ihl fun _ => .ite ihr (.pure _)
    | or => exact .bind ihl fun _ => .ite (.pure _) ihr
  | not c s ih => exact .bind ih fun _ => .pure _

end Still

theorem steady_of_bindIn {n : Bytes} {v : Value} {scopes scopes' : List (List (Bytes × Option Value))}
    (h : Store.bindIn n v scopes = some scopes') : Steady frame.lasts scopes scopes' := by
  induction scopes generalizing scopes' with
  | nil => cases h
  | cons s rest ih =>
    unfold Store.bindIn at h
    split at h
    · cases h
      exact Steady.map (f := fun _ => some v) frame.refl (fun _ _ => rfl) s rest n
    · obtain ⟨rest', hr, rfl⟩ := Option.map_eq_some_iff.mp h
      exact .cons (List.forall₂_same.mpr fun p _ => ⟨rfl, frame.refl p.2⟩) (ih hr)

theorem steady_of_bind {n : Bytes} {v : Value} {store store' : Store}
    (h : store.bind? n v = some store') : Steady frame.lasts store.scopes store'.scopes := by
  obtain ⟨scopes, hscopes, rfl⟩ := Option.map_eq_some_iff.mp h
  exact steady_of_bindIn hscopes

section Upholds
variable {α : Type} {n : Nat}

theorem Still.upholds {m : M α} (h : Still m) : frame.Upholds n m :=
  .still fun s => congrArg Store.scopes (h s)

/-- Every end of a step of a run comes back. -/
theorem upholds_iff {m : M α} : frame.Upholds n m ↔ ∀ s, s.store.scopes ≠ [] →
    SteadyBelow frame.lasts n s.store.scopes (m.run.run s).2.store.scopes := by
  constructor
  · intro h s hs
    exact h hs rfl fun _ _ => trivial
  · intro h s r s' hs hrun _
    have hleft := h s hs
    rw [hrun] at hleft
    exact hleft

theorem assign_upholds (name : Bytes) (v : Value) (place : Span) :
    frame.Upholds n (assign name v place) := by
  refine upholds_iff.mpr fun s hs => ?_
  cases hb : s.store.bind? name v with
  | none =>
    simp only [assign, run_bind, run_get, hb]
    exact (frame.steady_refl _).below n
  | some store =>
    simp only [assign, run_bind, run_get, hb]
    exact (steady_of_bind hb).below n

/-- Declaring touches the innermost scope only. -/
theorem declare_steady (name : Bytes) (store : Store) :
    SteadyBelow frame.lasts 1 store.scopes (store.declare name).2.scopes := by
  unfold Store.declare
  split
  · next here rest hscopes =>
    split
    · exact (frame.steady_refl _).below 1
    · rw [hscopes]
      exact ⟨rfl, frame.steady_refl rest⟩
  · exact (frame.steady_refl _).below 1

theorem introduce_upholds (d : Decl) (init : Option Value) :
    frame.Upholds 1 (introduce d init) := by
  refine upholds_iff.mpr fun s hs => ?_
  have hdeclared := declare_steady d.name s.store
  simp only [introduce, run_bind, run_get]
  generalize s.store.declare d.name = out at hdeclared
  obtain ⟨isNew, store⟩ := out
  cases isNew with
  | false => exact (frame.steady_refl _).below 1
  | true =>
    cases init with
    | none => exact hdeclared
    | some v =>
      cases hb : store.bind? d.name v with
      | none =>
        simp only [hb]
        exact hdeclared
      | some store' =>
        simp only [hb]
        exact frame.below_trans hdeclared ((steady_of_bind hb).below 1)

theorem exit_steady {scopes : List (List (Bytes × Option Value))} {store : Store}
    (hs : scopes ≠ []) (h : SteadyBelow frame.lasts 1 ([] :: scopes) store.scopes) :
    SteadyBelow frame.lasts 0 scopes store.exit.2.scopes := by
  rw [Store.exit_scopes (h.two_le hs)]
  exact h.closed.below 0

theorem within_upholds {m : M Unit} (h : frame.Upholds 1 m) : frame.Upholds 0 (within m) := by
  refine upholds_iff.mpr fun s hs => ?_
  rw [run_within]
  exact exit_steady hs (upholds_iff.mp h { s with store := s.store.enter } (List.cons_ne_nil _ _))

theorem repeatWhile_upholds {step : M Bool} (h : frame.Upholds n step) (fuel : Nat) :
    frame.Upholds n (ExceptT.mk fun s => repeatWhile step fuel s : M Unit) := by
  induction fuel with
  | zero => exact .still fun _ => rfl
  | succ fuel ih =>
    rw [repeatWhile_succ]
    exact .bind h fun _ => .ite ih (Still.pure _).upholds

end Upholds

mutual

/-- A statement keeps the shape of every scope. -/
theorem stmt_upholds (fuel : Nat) : (s : Stmt) → frame.Upholds 0 (stmt fuel s)
  | .assign name value place => by
    simp only [stmt]
    exact .bind (expr_still value).upholds fun v => assign_upholds name v place
  | .print value place => by
    simp only [stmt]
    exact .bind (expr_still value).upholds fun v => .still fun _ => rfl
  | .block body place => by
    simp only [stmt]
    exact within_upholds (items_upholds fuel body)
  | .ite c yes none place => by
    simp only [stmt]
    exact .bind (cond_still c).upholds fun _ => .ite (stmt_upholds fuel yes) (Still.pure _).upholds
  | .ite c yes (some no) place => by
    simp only [stmt]
    exact .bind (cond_still c).upholds fun _ => .ite (stmt_upholds fuel yes) (stmt_upholds fuel no)
  | .loop c body place => by
    simp only [stmt]
    refine repeatWhile_upholds (.bind (cond_still c).upholds fun _ => .ite ?_ ?_) fuel
    · exact .bind (stmt_upholds fuel body) fun _ => (Still.pure _).upholds
    · exact (Still.pure _).upholds

/-- A unit keeps the shape of the scopes around the one it stands in. -/
theorem item_upholds (fuel : Nat) : (u : Item) → frame.Upholds 1 (item fuel u)
  | .decl d => by
    rw [item, decl_eq]
    refine .bind ?_ fun init => introduce_upholds d init
    cases d.init with
    | none => exact (Still.pure _).upholds
    | some e => exact .bind (expr_still e).upholds fun v => (Still.pure _).upholds
  | .stmt s => by
    simp only [item]
    exact (stmt_upholds fuel s).weaken

theorem items_upholds (fuel : Nat) : (us : List Item) → frame.Upholds 1 (items fuel us)
  | [] => by
    simp only [items]
    exact (Still.pure _).upholds
  | u :: rest => by
    simp only [items]
    exact .bind (item_upholds fuel u) fun _ => items_upholds fuel rest

end

end Run

/-- Statements leave the shape of the scopes alone. When a statement of an analysis comes back,
well or with a failure from however deep inside it, the same scopes are open and the same states
set aside, and every scope has its names in the same order and of the same domains, bound if they
were bound. So an analysis that comes back, as that of an accepted program does when no cap is
set, ends with one scope and nothing set aside. And a statement of a run, however it ends, leaves
the same scopes with the same names. -/
theorem statements_keep_shape :
    (∀ config s (st st' : Analysis.State) r, st.env.scopes ≠ [] →
      (Analysis.stmt config s).run.run st = (r, st') → (∀ f, r ≠ .error (.fault f)) →
      st'.env.depth = st.env.depth ∧ st'.env.forks = st.env.forks ∧
        st'.env.stashed = st.env.stashed ∧ Steady Slot.Lasts st.env.scopes st'.env.scopes) ∧
    (∀ config p, (∀ f, (Analysis.run config p).1 ≠ .error (.fault f)) →
      (Analysis.run config p).2.env.depth = 1 ∧ (Analysis.run config p).2.env.forks = 0) ∧
    (∀ config p ctx, p.check = (.ok (), ctx) → config.maxIterations ≤ 0 →
      (Analysis.run config p).2.env.depth = 1 ∧ (Analysis.run config p).2.env.forks = 0) ∧
    ∀ fuel s (st : Run.State), st.store.scopes ≠ [] →
      ((Run.stmt fuel s).run.run st).2.store.scopes.map (·.map Prod.fst) =
        st.store.scopes.map (·.map Prod.fst) := by
  have hreturned {α : Type} {r : Except Analysis.Halt α} (hr : ∀ f, r ≠ .error (.fault f)) :
      Analysis.frame.Returned r := by
    intro e he f heq
    exact hr f (heq ▸ he)
  refine ⟨fun config s st st' r hst hrun hr => ?_, fun config p hr => ?_,
    fun config p ctx h hcap => ?_, fun fuel s st hst => ?_⟩
  · have hshape := Analysis.stmt_upholds config s hst hrun (hreturned hr)
    have hstashed := (Analysis.stmt_balanced config s).stashed hrun (hreturned hr)
    exact ⟨hshape.height, congrArg List.length hstashed, hstashed, hshape.outer⟩
  · exact Analysis.run_closed (hreturned hr)
  · exact Analysis.run_closed (Analysis.run_returns h hcap)
  · exact (Run.upholds_iff.mp (Run.stmt_upholds fuel s) st hst).outer.names

namespace Analysis.Fading

/-- The choice in a block with a declaration of its own. -/
def nested : Stmt := .block [.decl ⟨.int, [121], none, .inRow 0 23 29⟩, .stmt choice] (.inRow 0 21 74)

/-- The choice fails inside the block, with a fork made and the scope of the block open; neither
is left. A run of it fails for want of input, and leaves the scopes as they were. -/
theorem nested_keeps_shape :
    (∃ st', (stmt ⟨0, false⟩ nested).run.run (state .any) =
        (.error (.failed .divisionByZero (.inRow 0 66 71)), st') ∧
      st'.env.depth = 1 ∧ st'.env.forks = 1 ∧ st'.env.stashed = [[[]]] ∧
      Steady Slot.Lasts (state .any).env.scopes st'.env.scopes) ∧
    (Analysis.run ⟨0, true⟩ Countdown.program).2.env.depth = 1 ∧
    (Run.State.start ⟨[]⟩).store.scopes ≠ [] ∧
    ((Run.stmt 2 nested).run.run (Run.State.start ⟨[]⟩)).1 =
      .error (.failed .failedRead (.inRow 0 35 42)) ∧
    ((Run.stmt 2 nested).run.run (Run.State.start ⟨[]⟩)).2.store.scopes.map (·.map Prod.fst) = [[]] := by
  obtain ⟨hstmt, -, hprogram, hrun⟩ := statements_keep_shape
  have hfails : (stmt ⟨0, false⟩ nested).run.run (state .any) =
      (.error (.failed .divisionByZero (.inRow 0 66 71)),
        ((stmt ⟨0, false⟩ nested).run.run (state .any)).2) := Prod.ext (by decide +kernel) rfl
  refine ⟨⟨_, hfails, hstmt _ _ _ _ _ (by decide) hfails nofun⟩, ?_, by decide,
    by decide +kernel, ?_⟩
  · exact (hprogram ⟨0, true⟩ _ _ Countdown.accepted (by decide)).1
  · exact hrun 2 nested (Run.State.start ⟨[]⟩) (by decide)

end Analysis.Fading
end Signum
