import Signum.Proofs.Analysis.Instrument
/- What happens while a program is analysed.

   The instrument `observing` notes the atom that every expression gets. It is faithful
   (`observing_faithful`), so `evaluations` is what the analysis evaluates. -/
namespace Signum.Analysis

open Logged (note lift)

/-- A step of an analysis with the atoms expressions get in it. -/
abbrev Observed := Logged Halt State (Expr × Atom)

/-- Notes the atom an expression got. -/
def computed (e : Expr) (a : Atom) : Observed Atom := do
  note (e, a)
  pure a

/-- Evaluates with a note of every atom. -/
def observer (config : Config) : Reader State (Expr × Atom) where
  lift := lift
  var name s := lift (expr config (.var name s))
  computed := computed

/-- Analyses with a note of every atom. -/
def observing (config : Config) : Instrument State (Expr × Atom) Environment Unit :=
  { Instrument.silent config fun _ _ _ => () with
    expr := (observer config).expr config
    cond := (observer config).cond config }

/-- The atoms that the expressions of a program get when it is analysed, in order. -/
def evaluations (config : Config) (p : Program) : List (Expr × Atom) :=
  ((observing config).items p.units State.start).history

theorem observer_faithful (config : Config) : (observer config).Faithful config id where
  lift _ _ := rfl
  var _ _ _ := rfl
  computed _ _ _ := rfl

theorem observing_faithful (config : Config) : (observing config).Faithful config id :=
  { Instrument.silent_faithful config fun _ _ _ => () with
    expr := (observer_faithful config).expr
    cond := (observer_faithful config).cond }

/-- The outcome of an observed analysis is the outcome of the analysis. -/
theorem observed_eq_run (config : Config) (p : Program) :
    (((observing config).items p.units State.start).result,
      ((observing config).items p.units State.start).state) = run config p :=
  (observing_faithful config).items p.units State.start

/-- A statement that is observed leaves what forks set aside alone. -/
theorem observed_balanced (config : Config) (s : Stmt) :
    Balanced ((observing config).stmt s).forget :=
  ((observing_faithful config).stmt s).forget ▸ stmt_balanced config s

end Signum.Analysis
