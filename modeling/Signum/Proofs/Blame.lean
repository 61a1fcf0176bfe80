import Signum.Proofs.Analysis.History
import Signum.Check.Checker
import Signum.Proofs.Steps
import Signum.Proofs.Syntax.Nesting
import Signum.Run.Interpreter
/- Failures stand at nodes of the program.

   The checker, the analysis and the run report every failure at the place of a node they
   were given, and make up no places of their own. `StopsOnly P` is the judgement: whatever
   state a step is taken in, it stops only as `P` says. It has a rule for each way steps are
   composed, and the functions of the three are followed rule by rule. -/
namespace Signum

section Steps
variable {ε σ α β : Type} {P : ε → Prop}

/-- Whatever state the step is taken in, it stops only as `P` says. -/
def StopsOnly (P : ε → Prop) (m : ExceptT ε (StateM σ) α) : Prop :=
  ∀ s e, (m.run.run s).1 = .error e → P e

namespace StopsOnly

/-- A step that stops only where another does, and in the same way. -/
theorem of_step {x : ExceptT ε (StateM σ) α} {y : ExceptT ε (StateM σ) β} (hx : StopsOnly P x)
    (h : ∀ s e, (y.run.run s).1 = .error e → P e ∨ ∃ t, (x.run.run t).1 = .error e) :
    StopsOnly P y := by
  intro s e heq
  rcases h s e heq with he | ⟨t, ht⟩
  · exact he
  · exact hx t e ht

theorem bind {x : ExceptT ε (StateM σ) α} {f : α → ExceptT ε (StateM σ) β}
    (hx : StopsOnly P x) (hf : ∀ a, StopsOnly P (f a)) : StopsOnly P (x >>= f) := by
  intro s e heq
  rw [run_bind] at heq
  cases hr : x.run.run s with
  | mk r s' =>
    rw [hr] at heq
    cases r with
    | ok a => exact hf a s' e heq
    | error e' =>
      cases heq
      exact hx s e (by rw [hr])

theorem ite {c : Prop} [Decidable c] {x y : ExceptT ε (StateM σ) α} (hx : StopsOnly P x)
    (hy : StopsOnly P y) : StopsOnly P (if c then x else y) := by
  split
  · exact hx
  · exact hy

/-- A step that is taken on a condition, and what comes after it in either case. -/
theorem guarded {c : Prop} [Decidable c] {x : ExceptT ε (StateM σ) PUnit}
    {f : PUnit → ExceptT ε (StateM σ) β} (hx : StopsOnly P x) (hf : ∀ u, StopsOnly P (f u)) :
    StopsOnly P (if c then x >>= f else f ⟨⟩) :=
  .ite (.bind hx hf) (hf ⟨⟩)

theorem pure (a : α) : StopsOnly P (pure a : ExceptT ε (StateM σ) α) := nofun

theorem throw {e : ε} (h : P e) : StopsOnly P (throw e : ExceptT ε (StateM σ) α) := by
  intro s e' heq
  cases heq
  exact h

theorem get : StopsOnly P (get : ExceptT ε (StateM σ) σ) := nofun

theorem modify (f : σ → σ) : StopsOnly P (modify f : ExceptT ε (StateM σ) PUnit) := nofun

end StopsOnly
end Steps

/-- The places of all nodes of a node are such. -/
def Node.All (P : Span → Prop) (n : Node) : Prop := ∀ m ∈ n.nodes, P m.span

namespace Node.All
variable {P : Span → Prop} {n : Node}

theorem self (h : n.All P) : P n.span := h n n.self_mem

theorem part {m : Node} (h : n.All P) (hm : m ∈ n.parts) : m.All P :=
  fun k hk => h k (Node.mem_nodes_of_part hm hk)

/-- The units of a block or a program. -/
theorem units {us : List Item} (h : n.All P) (hn : n.parts = us.map Item.node) :
    ∀ u ∈ us, u.node.All P := by
  intro u hu
  apply h.part
  rw [hn]
  exact List.mem_map_of_mem hu

end Node.All

/-! The checker. -/

namespace Check
variable {P : Span → Prop}

/-- The failure stands at such a place. -/
def FailsAt (P : Span → Prop) (f : Failure) : Prop := P f.span

theorem fail_stops {α : Type} {kind : ErrorKind} {span : Span} {message : Bytes} (h : P span) :
    StopsOnly (FailsAt P) (fail kind span message : CheckM α) :=
  .throw h

theorem within_stops {α : Type} {check : CheckM α} (h : StopsOnly (FailsAt P) check) :
    StopsOnly (FailsAt P) (within check) :=
  h.of_step fun s _ heq => .inr ⟨{ s with scopes := s.scopes.push }, heq⟩

theorem branch_stops {check : CheckM Unit} (h : StopsOnly (FailsAt P) check) :
    StopsOnly (FailsAt P) (branch check) := by
  apply h.of_step
  intro s e heq
  refine .inr ⟨s, ?_⟩
  change (check.run.run s).1.map (fun _ => (check.run.run s).2.assigned) = .error e at heq
  cases hr : (check.run.run s).1 with
  | ok a =>
    rw [hr] at heq
    cases heq
  | error e' =>
    rw [hr] at heq
    cases heq
    rfl

theorem lookup_stops {span : Span} (name : Bytes) (h : P span) :
    StopsOnly (FailsAt P) (lookup name span) := by
  refine .bind .get fun c => ?_
  split
  · exact .pure _
  · exact fail_stops h

theorem record_stops (e : Expr) (t : NumType) : StopsOnly (FailsAt P) (record e t) :=
  .bind (.modify _) fun _ => .pure _

theorem sameType_stops {span : Span} (l r : NumType) (op : Bytes) (h : P span) :
    StopsOnly (FailsAt P) (sameType l r op span) :=
  .ite (.pure _) (fail_stops h)

theorem expr_stops {e : Expr} (h : (Node.expr e).All P) : StopsOnly (FailsAt P) (expr e) := by
  induction e with
  | int | float | readInt | readFloat => exact record_stops _ _
  | var name s =>
    refine .bind (lookup_stops name h.self) fun v => .bind .get fun c => ?_
    exact .ite (record_stops _ _) (fail_stops h.self)
  | neg e s ih => exact .bind (ih (h.part (.head _))) fun t => record_stops _ _
  | binary op l r s ihl ihr =>
    refine .bind (ihl (h.part (.head _))) fun t => ?_
    refine .bind (ihr (h.part (.tail _ (.head _)))) fun u => ?_
    exact .bind (sameType_stops _ _ _ h.self) fun _ => record_stops _ _

theorem cond_stops {c : Cond} (h : (Node.cond c).All P) : StopsOnly (FailsAt P) (cond c) := by
  induction c with
  | compare op l r s =>
    refine .bind (expr_stops (h.part (.head _))) fun t => ?_
    refine .bind (expr_stops (h.part (.tail _ (.head _)))) fun u => ?_
    exact sameType_stops _ _ _ h.self
  | logical op l r s ihl ihr =>
    exact .bind (ihl (h.part (.head _))) fun _ => ihr (h.part (.tail _ (.head _)))
  | not c s ih => exact ih (h.part (.head _))

theorem decl_stops {d : Decl} (h : (Node.decl d).All P) : StopsOnly (FailsAt P) (decl d) := by
  obtain ⟨type, name, init, span⟩ := d
  refine .bind .get fun c => .guarded (fail_stops h.self) fun _ => ?_
  cases init with
  | none => exact .bind (.modify _) fun _ => .ite (.modify _) (.pure _)
  | some e =>
    have he : (Node.expr e).All P := h.part (.head _)
    refine .bind (expr_stops he) fun t => .guarded (fail_stops he.self) fun _ => ?_
    exact .bind (.modify _) fun _ => .ite (.modify _) (.pure _)

mutual

theorem stmt_stops : {s : Stmt} → (Node.stmt s).All P → StopsOnly (FailsAt P) (stmt s)
  | .assign name value s, h => by
    have hvalue : (Node.expr value).All P := h.part (.head _)
    rw [stmt]
    refine .bind (lookup_stops name h.self) fun v => .bind (expr_stops hvalue) fun t => ?_
    exact .guarded (fail_stops hvalue.self) fun _ => .modify _
  | .print value s, h => by
    rw [stmt]
    exact .bind (expr_stops (h.part (.head _))) fun _ => .pure _
  | .block body s, h => by
    rw [stmt]
    exact within_stops (items_stops (h.units rfl))
  | .ite c yes none s, h => by
    rw [stmt]
    refine .bind (cond_stops (h.part (.head _))) fun _ => ?_
    exact .bind (branch_stops (stmt_stops (h.part (.tail _ (.head _))))) fun _ => .pure _
  | .ite c yes (some no) s, h => by
    rw [stmt]
    refine .bind (cond_stops (h.part (.head _))) fun _ => ?_
    refine .bind (branch_stops (stmt_stops (h.part (.tail _ (.head _))))) fun inYes => ?_
    refine .bind (branch_stops (stmt_stops (h.part (.tail _ (.tail _ (.head _)))))) fun inNo => ?_
    exact .modify _
  | .loop c body s, h => by
    rw [stmt]
    refine .bind (cond_stops (h.part (.head _))) fun _ => ?_
    exact .bind (branch_stops (stmt_stops (h.part (.tail _ (.head _))))) fun _ => .pure _

theorem item_stops : {u : Item} → u.node.All P → StopsOnly (FailsAt P) (item u)
  | .decl d, h => by
    rw [item]
    exact decl_stops h
  | .stmt s, h => by
    rw [item]
    exact stmt_stops h

theorem items_stops : {us : List Item} → (∀ u ∈ us, u.node.All P) →
    StopsOnly (FailsAt P) (items us)
  | [], _ => by
    rw [items]
    exact .pure _
  | u :: us, h => by
    obtain ⟨hu, hus⟩ := List.forall_mem_cons.mp h
    rw [items]
    exact .bind (item_stops hu) fun _ => items_stops hus

end

end Check

/-! The analysis. -/

namespace Analysis
variable {P : Span → Prop}

/-- The analysis stops with a fault, or with a failure that stands at such a place. -/
def HaltsAt (P : Span → Prop) : Halt → Prop
  | .failed _ span => P span
  | .fault _ => True

theorem fault_stops {α : Type} (f : Fault) :
    StopsOnly (HaltsAt P) (throw (.fault f) : M α) := .throw trivial

theorem fail_stops {α : Type} {kind : ErrorKind} {span : Span} (h : P span) :
    StopsOnly (HaltsAt P) (fail kind span : M α) :=
  .throw h

theorem ofSign_stops {α : Type} (r : Except SignFault α) :
    StopsOnly (HaltsAt P) (ofSign r) := by
  cases r with
  | ok a => exact .pure a
  | error f => exact fault_stops _

theorem bind_stops (name : Bytes) (value : Atom) : StopsOnly (HaltsAt P) (bind name value) := by
  refine .bind .get fun s => ?_
  split
  · exact .modify _
  · exact fault_stops _

theorem read_stops (config : Config) (t : NumType) (span : Span) :
    StopsOnly (HaltsAt P) (read config t span) := by
  unfold read
  refine .ite (.pure _) (.bind .get fun s => ?_)
  split
  · exact .pure _
  · exact .bind (.modify _) fun _ => .pure _

variable (config : Config)

theorem expr_stops {e : Expr} (h : (Node.expr e).All P) :
    StopsOnly (HaltsAt P) (expr config e) := by
  induction e with
  | int | float => exact .pure _
  | readInt | readFloat => exact read_stops _ _ _
  | var name s =>
    refine .bind .get fun st => ?_
    split
    · exact .pure _
    · exact fail_stops h.self
  | neg e s ih => exact .bind (ih (h.part (.head _))) fun a => ofSign_stops _
  | binary op l r s ihl ihr =>
    refine .bind (ihl (h.part (.head _))) fun a => ?_
    refine .bind (ihr (h.part (.tail _ (.head _)))) fun b => ?_
    exact .bind (ofSign_stops _) fun v => .ite (fail_stops h.self) (.pure _)

theorem cond_stops {c : Cond} (h : (Node.cond c).All P) :
    StopsOnly (HaltsAt P) (cond config c) := by
  induction c with
  | compare op l r s =>
    refine .bind (expr_stops config (h.part (.head _))) fun a => ?_
    exact .bind (expr_stops config (h.part (.tail _ (.head _)))) fun b => ofSign_stops _
  | logical op l r s ihl ihr =>
    refine .bind (ihl (h.part (.head _))) fun a => ?_
    exact .bind (ihr (h.part (.tail _ (.head _)))) fun b => ofSign_stops _
  | not c s ih => exact .bind (ih (h.part (.head _))) fun a => ofSign_stops _

theorem within_stops {run : M Unit} (h : StopsOnly (HaltsAt P) run) :
    StopsOnly (HaltsAt P) (within run) :=
  h.of_step fun s _ heq => .inr ⟨{ s with env := s.env.enter }, heq⟩

theorem branch_stops {run : M Unit} (h : StopsOnly (HaltsAt P) run) :
    StopsOnly (HaltsAt P) (branch run) := by
  apply h.of_step
  intro s e heq
  rw [run_branch] at heq
  cases hr : run.run.run { s with env := s.env.fork } with
  | mk r t =>
    rw [hr] at heq
    -- a fault of its own stands nowhere, and a failure is that of the step on the fork
    cases r with
    | error halt =>
      refine (eq_or_ne e halt).symm.imp (fun hne => ?_) fun he => ⟨_, by rw [hr, he]⟩
      cases halt with
      | fault f => cases heq; trivial
      | failed kind span =>
        dsimp only at heq
        split at heq
        · cases heq; trivial
        · cases heq; exact absurd rfl hne
    | ok a =>
      dsimp only at heq
      split at heq
      · cases heq; exact .inl trivial
      · cases heq

theorem joinIn_stops (other : Environment) : StopsOnly (HaltsAt P) (joinIn other) :=
  .bind .get fun _ => .bind (.modify _) fun _ => ofSign_stops _

/-- No round of a loop stops otherwise than its condition and body. -/
theorem rounds_stops {c : Cond} {body : M Unit} (span : Span) (hc : (Node.cond c).All P)
    (hbody : StopsOnly (HaltsAt P) body) (left number : Nat) :
    StopsOnly (HaltsAt P) (rounds config span c body left number) := by
  induction left generalizing number with
  | zero => exact fault_stops _
  | succ left ih =>
    refine .bind (cond_stops config hc) fun verdict => .bind (branch_stops hbody) fun after => ?_
    have hend (stable : Bool) : StopsOnly (HaltsAt P) (do
        report (.round span c number verdict stable)
        if stable then pure () else rounds config span c body left (number + 1)) :=
      .bind (.modify _) fun _ => .ite (.pure _) (ih _)
    refine .bind .get fun s => .ite (.bind (.pure _) hend) ?_
    exact .bind (joinIn_stops _) fun _ => .bind (.pure _) hend

theorem decl_stops {d : Decl} (h : (Node.decl d).All P) :
    StopsOnly (HaltsAt P) (decl config d) := by
  obtain ⟨type, name, init, span⟩ := d
  refine .bind .get fun s => .guarded (fault_stops _) fun _ => .bind (.modify _) fun _ => ?_
  cases init with
  | none => exact .pure _
  | some e => exact .bind (expr_stops config (h.part (.head _))) fun v => bind_stops _ _

mutual

theorem stmt_stops : {s : Stmt} → (Node.stmt s).All P → StopsOnly (HaltsAt P) (stmt config s)
  | .assign name value s, h => by
    rw [stmt]
    exact .bind (expr_stops config (h.part (.head _))) fun v => bind_stops _ _
  | .print value s, h => by
    rw [stmt]
    refine .bind (expr_stops config (h.part (.head _))) fun v => ?_
    exact .bind (.modify _) fun _ => .modify _
  | .block body s, h => by
    rw [stmt]
    exact within_stops (items_stops (h.units rfl))
  | .ite c yes none s, h => by
    rw [stmt]
    refine .bind (cond_stops config (h.part (.head _))) fun verdict => .bind (.modify _) fun _ => ?_
    refine .bind (branch_stops (stmt_stops (h.part (.tail _ (.head _))))) fun inYes => ?_
    exact .bind (joinIn_stops _) fun _ => .pure _
  | .ite c yes (some no) s, h => by
    rw [stmt]
    refine .bind (cond_stops config (h.part (.head _))) fun verdict => .bind (.modify _) fun _ => ?_
    refine .bind (branch_stops (stmt_stops (h.part (.tail _ (.head _))))) fun inYes => ?_
    refine .bind (branch_stops (stmt_stops (h.part (.tail _ (.tail _ (.head _)))))) fun inNo => ?_
    exact .bind (ofSign_stops _) fun _ => .modify _
  | .loop c body s, h => by
    rw [stmt]
    refine .bind .get fun st => ?_
    exact rounds_stops config s (h.part (.head _)) (stmt_stops (h.part (.tail _ (.head _)))) _ _

theorem item_stops : {u : Item} → u.node.All P → StopsOnly (HaltsAt P) (item config u)
  | .decl d, h => by
    rw [item]
    exact decl_stops config h
  | .stmt s, h => by
    rw [item]
    exact stmt_stops h

theorem items_stops : {us : List Item} → (∀ u ∈ us, u.node.All P) →
    StopsOnly (HaltsAt P) (items config us)
  | [], _ => by
    rw [items]
    exact .pure _
  | u :: us, h => by
    obtain ⟨hu, hus⟩ := List.forall_mem_cons.mp h
    rw [items]
    exact .bind (item_stops hu) fun _ => items_stops hus

end

end Analysis

/-! The run. -/

namespace Run
variable {P : Span → Prop}

/-- The run stops with a fault, for want of rounds, or with a failure that stands at such a
place. -/
def HaltsAt (P : Span → Prop) : Halt → Prop
  | .failed _ span => P span
  | .fault _ => True
  | .unfinished => True

theorem fail_stops {α : Type} {kind : ErrorKind} {span : Span} (h : P span) :
    StopsOnly (HaltsAt P) (fail kind span : M α) :=
  .throw h

theorem arith_stops {span : Span} (op : BinaryOp) (a b : Value) (h : P span) :
    StopsOnly (HaltsAt P) (arith op span a b) := by
  unfold arith
  split
  · split
    · exact .pure _
    · exact fail_stops h
  · split
    · exact .pure _
    · exact fail_stops h
  · exact .throw trivial

theorem take_stops {α : Type} {span : Span} (read : Input → Option α × Input) (h : P span) :
    StopsOnly (HaltsAt P) (take read span) := by
  refine .bind .get fun s => .bind (.modify _) fun _ => ?_
  split
  · exact .pure _
  · exact fail_stops h

theorem expr_stops {e : Expr} (h : (Node.expr e).All P) : StopsOnly (HaltsAt P) (expr e) := by
  induction e with
  | int | float => exact .pure _
  | readInt | readFloat => exact .bind (take_stops _ h.self) fun _ => .pure _
  | var name s =>
    refine .bind .get fun st => ?_
    split
    · exact .pure _
    · exact fail_stops h.self
  | neg e s ih => exact .bind (ih (h.part (.head _))) fun _ => .pure _
  | binary op l r s ihl ihr =>
    refine .bind (ihl (h.part (.head _))) fun a => ?_
    exact .bind (ihr (h.part (.tail _ (.head _)))) fun b => arith_stops _ _ _ h.self

theorem cond_stops {c : Cond} (h : (Node.cond c).All P) : StopsOnly (HaltsAt P) (cond c) := by
  induction c with
  | compare op l r s =>
    refine .bind (expr_stops (h.part (.head _))) fun a => ?_
    exact .bind (expr_stops (h.part (.tail _ (.head _)))) fun b => .pure _
  | logical op l r s ihl ihr =>
    have hl := ihl (h.part (.head _))
    have hr := ihr (h.part (.tail _ (.head _)))
    cases op with
    | and => exact .bind hl fun _ => .ite hr (.pure _)
    | or => exact .bind hl fun _ => .ite (.pure _) hr
  | not c s ih => exact .bind (ih (h.part (.head _))) fun _ => .pure _

theorem within_stops {run : M Unit} (h : StopsOnly (HaltsAt P) run) :
    StopsOnly (HaltsAt P) (within run) :=
  h.of_step fun s _ heq => .inr ⟨{ s with store := s.store.enter }, heq⟩

/-- No round of a loop stops otherwise than its step. -/
theorem repeatWhile_stops {step : M Bool} (h : StopsOnly (HaltsAt P) step) (fuel : Nat) :
    StopsOnly (HaltsAt P) (ExceptT.mk fun s => repeatWhile step fuel s) := by
  intro s e heq
  change (repeatWhile step fuel s).1 = .error e at heq
  induction fuel generalizing s with
  | zero =>
    cases heq
    trivial
  | succ fuel ih =>
    rw [repeatWhile] at heq
    split at heq
    · exact ih _ heq
    · cases heq
    · next halt s' hstep =>
      cases heq
      exact h s e (by rw [hstep])

theorem decl_stops {d : Decl} (h : (Node.decl d).All P) : StopsOnly (HaltsAt P) (decl d) := by
  obtain ⟨type, name, init, span⟩ := d
  cases init with
  | none =>
    exact .bind (.pure _) fun _ => .bind .get fun _ => .guarded (.throw trivial) fun _ => .modify _
  | some e =>
    refine .bind (expr_stops (h.part (.head _))) fun v => .bind (.pure _) fun _ => ?_
    exact .bind .get fun _ => .guarded (.throw trivial) fun _ => .modify _

variable (fuel : Nat)

mutual

theorem stmt_stops : {s : Stmt} → (Node.stmt s).All P → StopsOnly (HaltsAt P) (stmt fuel s)
  | .assign name value s, h => by
    rw [stmt]
    refine .bind (expr_stops (h.part (.head _))) fun v => .bind .get fun st => ?_
    split
    · exact .modify _
    · exact fail_stops h.self
  | .print value s, h => by
    rw [stmt]
    exact .bind (expr_stops (h.part (.head _))) fun v => .modify _
  | .block body s, h => by
    rw [stmt]
    exact within_stops (items_stops (h.units rfl))
  | .ite c yes none s, h => by
    rw [stmt]
    refine .bind (cond_stops (h.part (.head _))) fun b => .ite ?_ (.pure _)
    exact stmt_stops (h.part (.tail _ (.head _)))
  | .ite c yes (some no) s, h => by
    rw [stmt]
    refine .bind (cond_stops (h.part (.head _))) fun b => .ite ?_ ?_
    · exact stmt_stops (h.part (.tail _ (.head _)))
    · exact stmt_stops (h.part (.tail _ (.tail _ (.head _))))
  | .loop c body s, h => by
    rw [stmt]
    refine repeatWhile_stops (.bind (cond_stops (h.part (.head _))) fun b => .ite ?_ (.pure _)) fuel
    exact .bind (stmt_stops (h.part (.tail _ (.head _)))) fun _ => .pure _

theorem item_stops : {u : Item} → u.node.All P → StopsOnly (HaltsAt P) (item fuel u)
  | .decl d, h => by
    rw [item]
    exact decl_stops h
  | .stmt s, h => by
    rw [item]
    exact stmt_stops h

theorem items_stops : {us : List Item} → (∀ u ∈ us, u.node.All P) →
    StopsOnly (HaltsAt P) (items fuel us)
  | [], _ => by
    rw [items]
    exact .pure _
  | u :: us, h => by
    obtain ⟨hu, hus⟩ := List.forall_mem_cons.mp h
    rw [items]
    exact .bind (item_stops hu) fun _ => items_stops hus

end

end Run
end Signum
