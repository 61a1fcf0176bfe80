import Signum.Proofs.Analysis.Effects
/- An analysis with notes.

   An `Instrument` says what is noted while a program is analysed: its fields are the steps that
   an analysis is made of, taken with notes, and `Instrument.stmt` puts them together as the
   analysis does. The states may carry more than those of the analysis, a branch may hand back
   more than an environment, and something may be known of an execution of a loop while it goes
   on. A field may also do something else than the analysis does, such as to settle a loop by
   another rule.

   Where each field does with its notes what the analysis does (`Instrument.Faithful`), the whole
   does so: without the notes it is the analysis (`Faithful.items`). This is proved here once, for
   all instruments. -/
namespace Signum.Analysis

open Logged (Erases Keeps)

/-! Expressions with notes. -/

/-- How expressions are evaluated with notes. -/
structure Reader (σ ω : Type) where
  /-- A step of the analysis as it is. -/
  lift : M Atom → Logged Halt σ ω Atom
  /-- Reads a variable. -/
  var : Bytes → Span → Logged Halt σ ω Atom
  /-- What is noted when an expression gets its atom. -/
  computed : Expr → Atom → Logged Halt σ ω Atom

namespace Reader
variable {σ ω : Type}

/-- The atom of an expression. -/
def expr (r : Reader σ ω) (config : Config) : Expr → Logged Halt σ ω Atom
  | .var name s => do
    let a ← r.var name s
    r.computed (.var name s) a
  | .neg e s => do
    let a ← r.expr config e
    let v ← r.lift (ofSign a.neg)
    r.computed (.neg e s) v
  | .binary op left right s => do
    let a ← r.expr config left
    let b ← r.expr config right
    let v ← r.lift (ofSign (binary op a b))
    if v = Atom.illegal then r.lift (fail .divisionByZero s)
    else r.computed (.binary op left right s) v
  | e => do
    let a ← r.lift (Analysis.expr config e)
    r.computed e a

/-- The verdict of a condition. -/
def cond (r : Reader σ ω) (config : Config) : Cond → Logged Halt σ ω Atom
  | .compare op left right _ => do
    let a ← r.expr config left
    let b ← r.expr config right
    r.lift (ofSign (compare op a b))
  | .logical op left right _ => do
    let a ← r.cond config left
    let b ← r.cond config right
    r.lift (ofSign (logical op a b))
  | .not c _ => do
    let a ← r.cond config c
    r.lift (ofSign a.not)

/-- Without the notes the reader does what the analysis does. -/
structure Faithful (r : Reader σ ω) (config : Config) (view : σ → State) : Prop where
  lift : ∀ m, Erases view (r.lift m) m
  var : ∀ name s, Erases view (r.var name s) (Analysis.expr config (.var name s))
  computed : ∀ e a, Erases view (r.computed e a) (pure a)

variable {r : Reader σ ω} {config : Config} {view : σ → State}

theorem Faithful.expr (h : r.Faithful config view) (e : Expr) :
    Erases view (r.expr config e) (Analysis.expr config e) := by
  induction e with
  | var name s => exact .noted (h.var name s) fun a => h.computed _ a
  | neg e s ih =>
    simp only [Reader.expr, Analysis.expr]
    exact .bind ih fun a => .noted (h.lift _) fun v => h.computed _ v
  | binary op left right s ihl ihr =>
    simp only [Reader.expr, Analysis.expr]
    refine .bind ihl fun a => .bind ihr fun b => .bind (h.lift _) fun v => ?_
    exact .ite (h.lift _) (h.computed _ v)
  | _ => exact .noted (h.lift _) fun a => h.computed _ a

theorem Faithful.cond (h : r.Faithful config view) (c : Cond) :
    Erases view (r.cond config c) (Analysis.cond config c) := by
  induction c with
  | compare op left right s =>
    simp only [Reader.cond, Analysis.cond]
    exact .bind (h.expr left) fun _ => .bind (h.expr right) fun _ => h.lift _
  | logical op left right s ihl ihr =>
    simp only [Reader.cond, Analysis.cond]
    exact .bind ihl fun _ => .bind ihr fun _ => h.lift _
  | not c s ih =>
    simp only [Reader.cond, Analysis.cond]
    exact .bind ih fun _ => h.lift _

end Reader

/-! Statements with notes. -/

/-- What happens in an execution of a loop: a round begins, its test comes to a verdict, the round
is settled, or the loop is over. -/
inductive Moment where
  | begun (number : Nat)
  | tested (number : Nat) (verdict : Atom)
  | settled (number : Nat) (verdict : Atom) (stable : Bool)
  | ended

/-- The steps of an analysis with notes `ω`, on states `σ`. A branch hands back a `φ`, and `κ` is
what is known of an execution of a loop while it goes on. -/
structure Instrument (σ ω φ κ : Type) where
  config : Config
  /-- A step of the analysis as it is. -/
  lift : {α : Type} → M α → Logged Halt σ ω α
  expr : Expr → Logged Halt σ ω Atom
  cond : Cond → Logged Halt σ ω Atom
  /-- Binds the variable of an assignment. -/
  assign : Bytes → Expr → Span → Atom → Logged Halt σ ω Unit
  introduce : Decl → Logged Halt σ ω Unit
  within : Logged Halt σ ω Unit → Logged Halt σ ω Unit
  branch : Logged Halt σ ω Unit → Logged Halt σ ω φ
  /-- The environment that a branch hands back. -/
  environment : φ → Environment
  adopt : φ → φ → Logged Halt σ ω Unit
  /-- The most rounds of a loop entered with an environment. -/
  limit : Environment → Nat
  settle : κ → Environment → M Bool
  /-- What is known when a loop is entered. -/
  opened : Span → Cond → Environment → κ
  /-- A step inside of an execution. -/
  during : {α : Type} → κ → Logged Halt σ ω α → Logged Halt σ ω α
  /-- What is noted at a moment of an execution, and what is known from then on. -/
  tell : κ → Moment → Logged Halt σ ω κ

namespace Instrument
variable {σ ω φ κ : Type}

section Interpreter
variable (I : Instrument σ ω φ κ)

/-- A round up to its report: the verdict, and whether the round is stable. -/
def turn (c : Cond) (body : Logged Halt σ ω Unit) (number : Nat) (k : κ) :
    Logged Halt σ ω (Atom × Bool) := do
  let verdict ← I.cond c
  let _ ← I.tell k (.tested number verdict)
  let after ← I.branch body
  let stable ← I.lift (I.settle k (I.environment after))
  pure (verdict, stable)

/-- A round of a loop, which goes on unless it is settled. -/
def round (span : Span) (c : Cond) (body : Logged Halt σ ω Unit) (number : Nat)
    (again : κ → Logged Halt σ ω Unit) (k : κ) : Logged Halt σ ω Unit := do
  let (verdict, stable) ← I.during k (I.turn c body number k)
  let k ← I.tell k (.settled number verdict stable)
  I.lift (report (.round span c number verdict stable))
  if stable then do
    let _ ← I.tell k .ended
  else again k

/-- Runs a loop, given how many rounds are left and the number of the next one. -/
def rounds (span : Span) (c : Cond) (body : Logged Halt σ ω Unit) :
    (left : Nat) → (number : Nat) → κ → Logged Halt σ ω Unit
  | 0, _, k => I.during k (I.lift (throw (.fault (.unsettled span I.config.maxIterations))))
  | left + 1, number, k => do
    let k ← I.tell k (.begun number)
    I.round span c body number (rounds span c body left (number + 1)) k

/-- Gives a declared variable its first value. -/
def init (name : Bytes) : Option Expr → Logged Halt σ ω Unit
  | some e => do
    let v ← I.expr e
    I.lift (bind name v)
  | none => pure ()

mutual

/-- Runs a statement. -/
def stmt : Stmt → Logged Halt σ ω Unit
  | .assign name value s => do
    let v ← I.expr value
    I.assign name value s v
  | .print value s => do
    let v ← I.expr value
    I.lift (report (.print s value v))
    I.lift (modify fun st => { st with printed := st.printed.push v })
  | .block body _ => I.within (items body)
  | .ite c yes none s => do
    let verdict ← I.cond c
    I.lift (report (.branch s c verdict))
    let inYes ← I.branch (stmt yes)
    let _ ← I.lift (joinIn (I.environment inYes))
  | .ite c yes (some no) s => do
    let verdict ← I.cond c
    I.lift (report (.branch s c verdict))
    let inYes ← I.branch (stmt yes)
    let inNo ← I.branch (stmt no)
    I.adopt inYes inNo
  | .loop c body s => do
    let st ← I.lift get
    I.rounds s c (stmt body) (I.limit st.env) 1 (I.opened s c st.env)

/-- Runs a unit. -/
def item : Item → Logged Halt σ ω Unit
  | .decl d => do
    I.introduce d
    I.init d.name d.init
  | .stmt s => stmt s

/-- Runs units in order, up to the first that fails. -/
def items : List Item → Logged Halt σ ω Unit
  | [] => pure ()
  | u :: rest => do
    item u
    items rest

end

/-- A round of which nothing is noted once it has begun, and what follows it. -/
theorem round_untold (hduring : ∀ {α : Type} k (x : Logged Halt σ ω α), I.during k x = x)
    (htell : ∀ k moment, (∀ number, moment ≠ .begun number) → I.tell k moment = pure k)
    (span : Span) (c : Cond) (body : Logged Halt σ ω Unit) (number : Nat)
    (again : κ → Logged Halt σ ω Unit) (k : κ) :
    I.round span c body number again k = (do
      let verdict ← I.cond c
      let after ← I.branch body
      let stable ← I.lift (I.settle k (I.environment after))
      I.lift (report (.round span c number verdict stable))
      if stable then pure () else again k) := by
  have htested (verdict : Atom) := htell k (.tested number verdict) nofun
  have hsettled (verdict : Atom) (stable : Bool) := htell k (.settled number verdict stable) nofun
  simp only [round, turn, hduring, htested, hsettled, htell k .ended nofun, pure_bind, bind_assoc]

/-- A round of a loop of which nothing is noted, and what follows it. -/
theorem rounds_untold (hduring : ∀ {α : Type} k (x : Logged Halt σ ω α), I.during k x = x)
    (htell : ∀ k moment, I.tell k moment = pure k) (span : Span) (c : Cond)
    (body : Logged Halt σ ω Unit) (left number : Nat) (k : κ) :
    I.rounds span c body (left + 1) number k = (do
      let verdict ← I.cond c
      let after ← I.branch body
      let stable ← I.lift (I.settle k (I.environment after))
      I.lift (report (.round span c number verdict stable))
      if stable then pure () else I.rounds span c body left (number + 1) k) := by
  rw [rounds, htell, pure_bind]
  exact I.round_untold hduring (fun k moment _ => htell k moment) span c body number _ k

end Interpreter

/-- Each step does what the analysis does, and notes something. -/
structure Faithful (I : Instrument σ ω φ κ) (config : Config) (view : σ → State) : Prop where
  config_eq : I.config = config
  lift : ∀ {α : Type} (m : M α), Erases view (I.lift m) m
  expr : ∀ e, Erases view (I.expr e) (Analysis.expr config e)
  cond : ∀ c, Erases view (I.cond c) (Analysis.cond config c)
  assign : ∀ name value s v, Erases view (I.assign name value s v) (Analysis.bind name v)
  introduce : ∀ d, Erases view (I.introduce d) (Analysis.introduce d)
  within : ∀ {x m}, Erases view x m → Erases view (I.within x) (Analysis.within m)
  branch : ∀ {x m}, Erases view x m →
    Erases view (I.environment <$> I.branch x) (Analysis.branch m)
  adopt : ∀ inYes inNo, Erases view (I.adopt inYes inNo)
    (Analysis.adopt (I.environment inYes) (I.environment inNo))
  limit : I.limit = roundLimit config
  settle : ∀ k, I.settle k = Analysis.settle
  during : ∀ {α : Type} k (x : Logged Halt σ ω α), (I.during k x).forget = x.forget
  tell : ∀ k moment, Erases view ((fun _ => ()) <$> I.tell k moment) (pure ())

section Faithful
variable {I : Instrument σ ω φ κ} {config : Config} {view : σ → State} {x : Logged Halt σ ω Unit}
  {m : M Unit}

namespace Faithful

theorem turn (h : I.Faithful config view) (hx : Erases view x m) (c : Cond) (number : Nat) (k : κ) :
    Erases view (I.turn c x number k) (do
      let verdict ← Analysis.cond config c
      let after ← Analysis.branch m
      let stable ← Analysis.settle after
      pure (verdict, stable)) := by
  refine .bind (h.cond c) fun verdict => .skip_map (h.tell k _) fun _ => ?_
  refine .bind_map (h.branch hx) fun after => .bind ?_ fun stable => .pure _
  rw [h.settle]
  exact h.lift _

theorem rounds (h : I.Faithful config view) (hx : Erases view x m) (span : Span) (c : Cond)
    (left number : Nat) (k : κ) : Erases view (I.rounds span c x left number k)
      (Analysis.rounds config span c m left number) := by
  induction left generalizing number k with
  | zero =>
    refine Erases.congr ?_ (h.during k _)
    rw [h.config_eq]
    exact h.lift _
  | succ left ih =>
    -- the analysis too takes a round up to its report, and then reports it
    have hround : Analysis.rounds config span c m (left + 1) number = (do
        let (verdict, stable) ← (do
          let verdict ← Analysis.cond config c
          let after ← Analysis.branch m
          let stable ← Analysis.settle after
          pure (verdict, stable))
        report (.round span c number verdict stable)
        if stable then pure () else Analysis.rounds config span c m left (number + 1)) := by
      simp only [rounds_succ, bind_assoc, pure_bind]
    rw [hround]
    refine .skip_map (h.tell k _) fun k => ?_
    refine .bind ((h.turn hx c number k).congr (h.during k _)) fun (verdict, stable) => ?_
    refine .skip_map (h.tell k _) fun k => .bind (h.lift _) fun _ => .ite ?_ (ih _ k)
    exact .skip_map (h.tell k _) fun _ => .pure ()

theorem init (h : I.Faithful config view) (name : Bytes) (init : Option Expr) :
    Erases view (I.init name init) (match init with
      | some e => do
        let v ← Analysis.expr config e
        Analysis.bind name v
      | none => pure ()) := by
  cases init with
  | none => exact .pure ()
  | some e => exact .bind (h.expr e) fun v => h.lift _

mutual

/-- Without its notes a statement is the statement. -/
theorem stmt (h : I.Faithful config view) :
    (s : Stmt) → Erases view (I.stmt s) (Analysis.stmt config s)
  | .assign name value s => by
    simp only [Instrument.stmt, Analysis.stmt]
    exact .bind (h.expr value) fun v => h.assign name value s v
  | .print value s => by
    simp only [Instrument.stmt, Analysis.stmt]
    exact .bind (h.expr value) fun v => .bind (h.lift _) fun _ => h.lift _
  | .block body s => by
    simp only [Instrument.stmt, Analysis.stmt]
    exact h.within (items h body)
  | .ite c yes none s => by
    simp only [Instrument.stmt, Analysis.stmt]
    refine .bind (h.cond c) fun verdict => .bind (h.lift _) fun _ => ?_
    refine .bind_map (h.branch (stmt h yes)) fun inYes => ?_
    exact .bind (h.lift _) fun _ => .pure _
  | .ite c yes (some no) s => by
    simp only [Instrument.stmt, Analysis.stmt]
    refine .bind (h.cond c) fun verdict => .bind (h.lift _) fun _ => ?_
    refine .bind_map (h.branch (stmt h yes)) fun inYes => ?_
    exact .bind_map (h.branch (stmt h no)) fun inNo => h.adopt inYes inNo
  | .loop c body s => by
    simp only [Instrument.stmt, Analysis.stmt, h.limit]
    exact .bind (h.lift _) fun st => h.rounds (stmt h body) s c _ 1 _

theorem item (h : I.Faithful config view) :
    (u : Item) → Erases view (I.item u) (Analysis.item config u)
  | .decl d => by
    simp only [Instrument.item, Analysis.item, decl_eq]
    exact .bind (h.introduce d) fun _ => h.init d.name d.init
  | .stmt s => by
    simp only [Instrument.item, Analysis.item]
    exact stmt h s

theorem items (h : I.Faithful config view) :
    (us : List Item) → Erases view (I.items us) (Analysis.items config us)
  | [] => by
    simp only [Instrument.items, Analysis.items]
    exact .pure ()
  | u :: rest => by
    simp only [Instrument.items, Analysis.items]
    exact .bind (item h u) fun _ => items h rest

end

end Faithful
end Faithful
end Instrument

/-! Notes on the states of the analysis itself. -/

section Silent
variable {ω κ : Type} {x : Logged Halt State ω Unit} {s : State}

/-- Runs in a scope of its own. -/
def inScope : Logged Halt State ω Unit → Logged Halt State ω Unit :=
  Logged.around (fun s => { s with env := s.env.enter }) fun s => { s with env := s.env.exit.2 }

/-- Runs on a fork of the environment and hands back the fork. -/
def onFork (x : Logged Halt State ω Unit) : Logged Halt State ω Environment := fun s =>
  ⟨((branch x.forget).run.run s).1, ((branch x.forget).run.run s).2,
    (x { s with env := s.env.fork }).history⟩

/-- The instrument that notes nothing. -/
def Instrument.silent (config : Config) (opened : Span → Cond → Environment → κ) :
    Instrument State ω Environment κ where
  config := config
  lift := Logged.lift
  expr e := Logged.lift (Analysis.expr config e)
  cond c := Logged.lift (Analysis.cond config c)
  assign name _ _ v := Logged.lift (bind name v)
  introduce d := Logged.lift (Analysis.introduce d)
  within := inScope
  branch := onFork
  environment env := env
  adopt inYes inNo := Logged.lift (Analysis.adopt inYes inNo)
  limit := roundLimit config
  settle _ := Analysis.settle
  opened := opened
  during _ x := x
  tell k _ := pure k

theorem forget_onFork : (onFork x).forget = branch x.forget := rfl

theorem Instrument.silent_faithful (config : Config) (opened : Span → Cond → Environment → κ) :
    (silent config opened : Instrument State ω Environment κ).Faithful config id where
  config_eq := rfl
  lift _ _ := rfl
  expr _ _ := rfl
  cond _ _ := rfl
  assign _ _ _ _ _ := rfl
  introduce _ _ := rfl
  within hx := by
    obtain rfl := hx.forget
    exact fun _ => rfl
  branch {x _} hx := by
    obtain rfl := hx.forget
    change Erases id ((fun env => env) <$> onFork x) _
    rw [id_map']
    exact fun _ => rfl
  adopt _ _ _ := rfl
  limit := rfl
  settle _ := rfl
  during _ _ := rfl
  tell _ _ _ := rfl

/-- A branch only succeeds when its body does. -/
theorem onFork_fails {e : Halt} (h : (x { s with env := s.env.fork }).result = .error e)
    (env : Environment) : (onFork x s).result ≠ .ok env := by
  change ((branch x.forget).run.run s).1 ≠ .ok env
  rw [run_branch, Logged.run_forget, h]
  cases e with
  | fault f => exact nofun
  | failed kind span =>
    dsimp only
    split <;> exact nofun

/-- A branch keeps what its body keeps. -/
theorem onFork_keeps {p : Promise Halt ω} {Q : Environment → State → Prop}
    (hb : Balanced x.forget)
    (h : Keeps p x { s with env := s.env.fork } fun _ t =>
      Q ⟨t.env.scopes, []⟩ { t with env := s.env }) : Keeps p (onFork x) s Q := by
  have hout : ((onFork x s).result, (onFork x s).state) = (branch x.forget).run.run s := rfl
  rw [run_branch_balanced hb, Logged.run_forget] at hout
  refine ⟨h.1, fun fair => ?_⟩
  have out := h.2 fair
  generalize (x { s with env := s.env.fork }).result = r at out hout
  obtain (⟨kind, span⟩ | f) | a := r
  all_goals
    obtain ⟨hr, hs⟩ := Prod.mk.inj hout
    rw [hr, hs]
    exact out

end Silent
end Signum.Analysis
