import Signum.Proofs.Analysis.Instrument
import Signum.Report.Recording
/- What an analysis does in its scopes and its loops.

   The instrument `chronicling` makes two kinds of notes. A declaration is noted with the index of
   the scope it adds its variable to, counted from the outermost one. An execution of a loop is
   noted when it is over, with the rounds it reported: either it ended by itself, after a stable
   round, or it was still going on when the analysis stopped. -/
namespace Signum

/-- Notes something if a step stops. -/
def Logged.onStop {ε σ ω α : Type} (o : ω) (x : Logged ε σ ω α) : Logged ε σ ω α := fun s =>
  match (x s).result with
  | .ok _ => x s
  | .error _ => { x s with history := (x s).history ++ [o] }

theorem Logged.onStop_ok {ε σ ω α : Type} {o : ω} {x : Logged ε σ ω α} {s : σ} {a : α}
    (h : (x s).result = .ok a) : onStop o x s = x s := by
  unfold onStop
  rw [h]

theorem Logged.onStop_error {ε σ ω α : Type} {o : ω} {x : Logged ε σ ω α} {s : σ} {e : ε}
    (h : (x s).result = .error e) :
    onStop o x s = ⟨.error e, (x s).state, (x s).history ++ [o]⟩ := by
  simp only [onStop, h]

@[simp] theorem Logged.forget_onStop {ε σ ω α : Type} (o : ω) (x : Logged ε σ ω α) :
    (onStop o x).forget = x.forget := by
  apply ExceptT.ext
  funext s
  change ((onStop o x s).result, (onStop o x s).state) = ((x s).result, (x s).state)
  unfold onStop
  split <;> rfl

namespace Analysis

open Logged (note lift onStop)

/-- An execution of a loop: the rounds it reported, each with its place in the trace, and whether
it ended or was still going on when the analysis stopped. -/
structure Execution where
  span : Span
  cond : Cond
  rounds : List (Nat × LoopRound)
  ended : Bool

/-- What is noted of an analysis. -/
inductive Happening where
  | declared (d : Decl) (scope : Nat)
  | executed (x : Execution)

/-- A step of an analysis with notes of its declarations and its loops. -/
abbrev Chronicled := Logged Halt State Happening

/-- Notes the scope a declaration has added its variable to. -/
def noteScope (d : Decl) : Chronicled Unit := fun s =>
  ⟨.ok (), s, [.declared d (s.env.depth - 1)]⟩

/-- Keeps the rounds of an execution, each with the place in the trace that its report is about to
get, and notes the execution when it ends. -/
def chronicleLoop (x : Execution) : Moment → Chronicled Execution
  | .settled number verdict stable => fun s =>
    ⟨.ok { x with rounds := x.rounds ++ [(s.trace.size, ⟨number, verdict, stable⟩)] }, s, []⟩
  | .ended => do
    note (.executed { x with ended := true })
    pure x
  | _ => pure x

/-- Analyses with a note of every declaration and every execution of a loop. -/
def chronicling (config : Config) : Instrument State Happening Environment Execution :=
  { Instrument.silent config fun span c _ => ⟨span, c, [], false⟩ with
    introduce := fun d => do
      lift (introduce d)
      noteScope d
    during := fun x => onStop (.executed x)
    tell := chronicleLoop }

/-- What happens while a program is analysed, in order. -/
def chronicle (config : Config) (p : Program) : List Happening :=
  ((chronicling config).items p.units State.start).history

/-- The executions of loops. -/
def executionsOf (history : List Happening) : List Execution :=
  history.filterMap fun
    | .executed x => some x
    | .declared _ _ => none

/-- The declarations, with the scopes they added their variables to. -/
def declaredIn (history : List Happening) : List (Decl × Nat) :=
  history.filterMap fun
    | .declared d scope => some (d, scope)
    | .executed _ => none

@[simp] theorem executionsOf_append (h h' : List Happening) :
    executionsOf (h ++ h') = executionsOf h ++ executionsOf h' := List.filterMap_append

@[simp] theorem declaredIn_append (h h' : List Happening) :
    declaredIn (h ++ h') = declaredIn h ++ declaredIn h' := List.filterMap_append

/-! The notes are those of the analysis. -/

theorem chronicling_faithful (config : Config) : (chronicling config).Faithful config id :=
  { Instrument.silent_faithful config fun span c _ => ⟨span, c, [], false⟩ with
    introduce := fun d => .noted (fun _ => rfl) fun _ _ => rfl
    during := fun x => Logged.forget_onStop (Happening.executed x)
    tell := fun x moment => by cases moment <;> exact fun _ => rfl }

/-- A round of a loop, and what follows it. -/
theorem chronicling_rounds (config : Config) (span : Span) (c : Cond) (body : Chronicled Unit)
    (left number : Nat) (x : Execution) :
    (chronicling config).rounds span c body (left + 1) number x = (do
      let turn ← onStop (.executed x) ((chronicling config).turn c body number x)
      let x ← chronicleLoop x (.settled number turn.1 turn.2)
      lift (report (.round span c number turn.1 turn.2))
      if turn.2 then do
        let _ ← chronicleLoop x .ended
      else (chronicling config).rounds span c body left (number + 1) x) := rfl

/-- The outcome of a chronicled analysis is the outcome of the analysis. -/
theorem chronicled_eq_run (config : Config) (p : Program) :
    (((chronicling config).items p.units State.start).result,
      ((chronicling config).items p.units State.start).state) = run config p :=
  (chronicling_faithful config).items p.units State.start

end Analysis
end Signum
