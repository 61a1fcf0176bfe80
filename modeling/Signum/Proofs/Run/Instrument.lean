import Signum.Proofs.Steps
import Signum.Run.Interpreter
/- A run with notes.

   An `Instrument` says what is noted while a program runs: of an observation, of a variable that
   is read or bound, of a declaration. The states may carry more than those of the run.
   `Instrument.stmt` is the run with it. Where each part only adds notes (`Instrument.Faithful`),
   so does the whole: without the notes it is the run (`Faithful.items`). -/
namespace Signum.Run

open Logged (Erases Keeps)

/-- Something that happens in a run. -/
inductive Observation where
  | value (e : Expr) (v : Value)
  | negation (v : Value)
  | operation (op : BinaryOp) (a b : Value)
  | printed (span : Span) (e : Expr) (v : Value)
  | branched (span : Span) (c : Cond) (holds : Bool)
  | looped (span : Span) (c : Cond) (holds : Bool)
  deriving DecidableEq, Repr

/-! The parts of larger steps. -/

/-- Adds the variable of a declaration, with its first value if it has one. -/
def introduce (d : Decl) (init : Option Value) : M Unit := do
  let (isNew, store) := (← get).store.declare d.name
  if !isNew then throw (.fault (.redeclared d.name d.span))
  let store := match init with
    | some v => (store.bind? d.name v).getD store
    | none => store
  modify fun s => { s with store }

/-- Binds the variable that an assignment names. -/
def assign (name : Bytes) (v : Value) (s : Span) : M Unit := do
  match (← get).store.bind? name v with
  | some store => modify fun st => { st with store }
  | none => fail .uninitialized s

/-- The value a declared variable starts with. -/
def init : Option Expr → M (Option Value)
  | some e => do pure (some (← expr e))
  | none => pure none

theorem decl_eq (d : Decl) : decl d = (do
    let v ← init d.init
    introduce d v) := by
  obtain ⟨t, name, e, s⟩ := d
  cases e with
  | none => simp only [decl, init, introduce, pure_bind]
  | some e => simp only [decl, init, introduce, bind_assoc, pure_bind]

/-- One round of a loop, and what follows it. -/
theorem repeatWhile_succ (step : M Bool) (fuel : Nat) :
    (ExceptT.mk fun s => repeatWhile step (fuel + 1) s : M Unit) = (do
      if ← step then ExceptT.mk fun s => repeatWhile step fuel s else pure ()) := by
  apply ExceptT.ext
  funext s
  change repeatWhile step (fuel + 1) s = (step >>= _).run.run s
  rw [run_bind, repeatWhile]
  cases step.run.run s with
  | mk r s' =>
    cases r with
    | error h => rfl
    | ok go => cases go <;> rfl

/-! Programs with notes. -/

/-- The steps of a run with notes `ω`, on states `σ`. -/
structure Instrument (σ ω : Type) where
  /-- A step of the run as it is. -/
  lift : {α : Type} → M α → Logged Halt σ ω α
  /-- What is noted of an observation. -/
  note : Observation → Logged Halt σ ω Unit
  /-- Reads a variable. -/
  var : Bytes → Span → Logged Halt σ ω Value
  /-- Binds the variable of an assignment. -/
  assign : Bytes → Expr → Span → Value → Logged Halt σ ω Unit
  introduce : Decl → Option Value → Logged Halt σ ω Unit
  within : Logged Halt σ ω Unit → Logged Halt σ ω Unit

namespace Instrument
variable {σ ω : Type}

section Interpreter
variable (I : Instrument σ ω)

/-- Notes the value an expression got. -/
def computed (e : Expr) (v : Value) : Logged Halt σ ω Value := do
  I.note (.value e v)
  pure v

/-- The value of an expression. -/
def expr : Expr → Logged Halt σ ω Value
  | .var name s => do
    let v ← I.var name s
    I.computed (.var name s) v
  | .neg e s => do
    let v ← expr e
    I.note (.negation v)
    I.computed (.neg e s) (negate v)
  | .binary op l r s => do
    let a ← expr l
    let b ← expr r
    I.note (.operation op a b)
    let v ← I.lift (arith op s a b)
    I.computed (.binary op l r s) v
  | e => do
    let v ← I.lift (Run.expr e)
    I.computed e v

/-- Whether a condition holds. -/
def cond : Cond → Logged Halt σ ω Bool
  | .compare op l r _ => do
    let a ← I.expr l
    let b ← I.expr r
    pure (compare op a b)
  | .logical .and l r _ => do
    if ← cond l then cond r else pure false
  | .logical .or l r _ => do
    if ← cond l then pure true else cond r
  | .not c _ => do pure !(← cond c)

/-- A round of a loop: whether to go on, and the body if so. -/
def round (s : Span) (c : Cond) (body : Logged Halt σ ω Unit) : Logged Halt σ ω Bool := do
  let holds ← I.cond c
  I.note (.looped s c holds)
  if holds then
    body
    pure true
  else pure false

/-- Repeats a step that tells whether to go on, at most `fuel` times. -/
def repeats (step : Logged Halt σ ω Bool) : (fuel : Nat) → Logged Halt σ ω Unit
  | 0 => I.lift (throw .unfinished)
  | fuel + 1 => do
    if ← step then repeats step fuel else pure ()

/-- The value a declared variable starts with. -/
def init : Option Expr → Logged Halt σ ω (Option Value)
  | some e => do pure (some (← I.expr e))
  | none => pure none

mutual

/-- Runs a statement. -/
def stmt (fuel : Nat) : Stmt → Logged Halt σ ω Unit
  | .assign name value s => do
    let v ← I.expr value
    I.assign name value s v
  | .print value s => do
    let v ← I.expr value
    I.note (.printed s value v)
    I.lift (modify fun st => { st with printed := st.printed.push v })
  | .block body _ => I.within (items fuel body)
  | .ite c yes none s => do
    let holds ← I.cond c
    I.note (.branched s c holds)
    if holds then stmt fuel yes else pure ()
  | .ite c yes (some no) s => do
    let holds ← I.cond c
    I.note (.branched s c holds)
    if holds then stmt fuel yes else stmt fuel no
  | .loop c body s => I.repeats (I.round s c (stmt fuel body)) fuel

/-- Runs a unit. -/
def item (fuel : Nat) : Item → Logged Halt σ ω Unit
  | .decl d => do
    let v ← I.init d.init
    I.introduce d v
  | .stmt s => stmt fuel s

/-- Runs units in order. -/
def items (fuel : Nat) : List Item → Logged Halt σ ω Unit
  | [] => pure ()
  | u :: rest => do
    item fuel u
    items fuel rest

end

/-- A loop keeps a promise that each of its rounds keeps. -/
theorem repeats_keeps {p : Promise Halt ω} {step : Logged Halt σ ω Bool} {P : σ → Prop}
    {Q : Unit → σ → Prop} (hstop : ∀ s, P s → Keeps p (I.lift (throw .unfinished)) s Q)
    (hstep : ∀ s, P s → Keeps p step s fun go s' => if go then P s' else Q () s')
    (fuel : Nat) {s : σ} (hs : P s) : Keeps p (I.repeats step fuel) s Q := by
  induction fuel generalizing s with
  | zero => exact hstop s hs
  | succ fuel ih =>
    refine Keeps.bind ((hstep s hs).mono fun go s' hgo => ?_)
    cases go with
    | true => exact ih hgo
    | false => exact Keeps.pure hgo

end Interpreter

/-- Each part does what the run does, and notes something. -/
structure Faithful (I : Instrument σ ω) (view : σ → State) : Prop where
  lift : ∀ {α : Type} (m : M α), Erases view (I.lift m) m
  note : ∀ o, Erases view (I.note o) (pure ())
  var : ∀ name s, Erases view (I.var name s) (Run.expr (.var name s))
  assign : ∀ name value s v, Erases view (I.assign name value s v) (Run.assign name v s)
  introduce : ∀ d v, Erases view (I.introduce d v) (Run.introduce d v)
  within : ∀ {x m}, Erases view x m → Erases view (I.within x) (Run.within m)

namespace Faithful
variable {I : Instrument σ ω} {view : σ → State}

theorem computed (h : I.Faithful view) (e : Expr) (v : Value) :
    Erases view (I.computed e v) (pure v) := .skip (h.note _) (.pure v)

theorem expr (h : I.Faithful view) (e : Expr) : Erases view (I.expr e) (Run.expr e) := by
  induction e with
  | var name s => exact .noted (h.var name s) fun v => h.computed _ v
  | neg e s ih =>
    simp only [Instrument.expr, Run.expr]
    exact .bind ih fun v => .skip (h.note _) (h.computed _ _)
  | binary op l r s ihl ihr =>
    simp only [Instrument.expr, Run.expr]
    refine .bind ihl fun a => .bind ihr fun b => .skip (h.note _) ?_
    exact .noted (h.lift _) fun v => h.computed _ v
  | _ => exact .noted (h.lift _) fun v => h.computed _ v

theorem cond (h : I.Faithful view) (c : Cond) : Erases view (I.cond c) (Run.cond c) := by
  induction c with
  | compare op l r s =>
    simp only [Instrument.cond, Run.cond]
    exact .bind (h.expr l) fun _ => .bind (h.expr r) fun _ => .pure _
  | logical op l r s ihl ihr =>
    cases op with
    | and =>
      simp only [Instrument.cond, Run.cond]
      exact .bind ihl fun _ => .ite ihr (.pure _)
    | or =>
      simp only [Instrument.cond, Run.cond]
      exact .bind ihl fun _ => .ite (.pure _) ihr
  | not c s ih =>
    simp only [Instrument.cond, Run.cond]
    exact .bind ih fun _ => .pure _

theorem repeats (h : I.Faithful view) {step : Logged Halt σ ω Bool} {m : M Bool}
    (hstep : Erases view step m) (fuel : Nat) :
    Erases view (I.repeats step fuel) (ExceptT.mk fun s => repeatWhile m fuel s) := by
  induction fuel with
  | zero => exact h.lift _
  | succ fuel ih =>
    rw [repeatWhile_succ]
    exact .bind hstep fun _ => .ite ih (.pure ())

theorem init (h : I.Faithful view) (e : Option Expr) :
    Erases view (I.init e) (Run.init e) := by
  cases e with
  | none => exact .pure none
  | some e => exact .bind (h.expr e) fun v => .pure _

mutual

/-- Without its notes a statement is the statement. -/
theorem stmt (h : I.Faithful view) (fuel : Nat) :
    (s : Stmt) → Erases view (I.stmt fuel s) (Run.stmt fuel s)
  | .assign name value s => by
    simp only [Instrument.stmt, Run.stmt]
    exact .bind (h.expr value) fun v => h.assign name value s v
  | .print value s => by
    simp only [Instrument.stmt, Run.stmt]
    exact .bind (h.expr value) fun v => .skip (h.note _) (h.lift _)
  | .block body s => by
    simp only [Instrument.stmt, Run.stmt]
    exact h.within (items h fuel body)
  | .ite c yes none s => by
    simp only [Instrument.stmt, Run.stmt]
    refine .bind (h.cond c) fun holds => .skip (h.note _) ?_
    exact .ite (stmt h fuel yes) (.pure ())
  | .ite c yes (some no) s => by
    simp only [Instrument.stmt, Run.stmt]
    refine .bind (h.cond c) fun holds => .skip (h.note _) ?_
    exact .ite (stmt h fuel yes) (stmt h fuel no)
  | .loop c body s => by
    simp only [Instrument.stmt, Run.stmt]
    refine h.repeats (.bind (h.cond c) fun holds => .skip (h.note _) ?_) fuel
    exact .ite (.bind (stmt h fuel body) fun _ => .pure true) (.pure false)

theorem item (h : I.Faithful view) (fuel : Nat) :
    (u : Item) → Erases view (I.item fuel u) (Run.item fuel u)
  | .decl d => by
    simp only [Instrument.item, Run.item, decl_eq]
    exact .bind (h.init d.init) fun v => h.introduce d v
  | .stmt s => by
    simp only [Instrument.item, Run.item]
    exact stmt h fuel s

theorem items (h : I.Faithful view) (fuel : Nat) :
    (us : List Item) → Erases view (I.items fuel us) (Run.items fuel us)
  | [] => by
    simp only [Instrument.items, Run.items]
    exact .pure ()
  | u :: rest => by
    simp only [Instrument.items, Run.items]
    exact .bind (item h fuel u) fun _ => items h fuel rest

end

end Faithful
end Instrument
end Signum.Run
