import Signum.Proofs.Run.Instrument
/- What happens while a program runs.

   The instrument `observing` notes every observation: the values expressions get, the operands of
   operations, what every `print` prints and what the conditions of an `if` or a loop come to. It
   is faithful (`observing_faithful`), so `history` is the history of the run.

   An observation is `exact` unless it is an integer sum, difference, product or negation
   that leaves the 64 bits, or a float product of a zero with an infinity or with "not a
   number". -/
namespace Signum.Run

open Logged (lift)

/-- A step of a run with its history. -/
abbrev Observed := Logged Halt State Observation

/-- Runs in a scope of its own. -/
def inScope : Observed Unit → Observed Unit :=
  Logged.around (fun s => { s with store := s.store.enter })
    fun s => { s with store := s.store.exit.2 }

/-- Runs with a note of every observation. -/
def observing : Instrument State Observation where
  lift := lift
  note := Logged.note
  var name s := lift (expr (.var name s))
  assign name _ s v := lift (assign name v s)
  introduce d v := lift (introduce d v)
  within := inScope

/-- What happens when a program runs on some input, each loop for at most `fuel`
rounds. -/
def history (fuel : Nat) (p : Program) (input : Input) : List Observation :=
  (observing.items fuel p.units (State.start input)).history

/-- Whether an integer fits in 64 bits. -/
def fits64 (i : Int) : Bool := Int64.minValue.toInt ≤ i && i ≤ Int64.maxValue.toInt

/-- Whether a float is neither infinite nor "not a number". -/
def isFinite : Binary64 → Bool
  | .finite _ _ => true
  | _ => false

/-- Whether a float product is one of a zero with something that is no finite number. -/
def zeroTimesNonfinite (x y : Binary64) : Bool :=
  (x.isZero && !isFinite y) || (!isFinite x && y.isZero)

/-- Whether an operation gives the exact result, or for floats one whose sign follows
from the signs of its operands. -/
def Observation.exact : Observation → Bool
  | .negation (.int m) => fits64 (-m.toInt)
  | .operation .add (.int m) (.int n) => fits64 (m.toInt + n.toInt)
  | .operation .sub (.int m) (.int n) => fits64 (m.toInt - n.toInt)
  | .operation .mul (.int m) (.int n) => fits64 (m.toInt * n.toInt)
  | .operation .mul (.float x) (.float y) => !zeroTimesNonfinite x y
  | _ => true

theorem observing_faithful : observing.Faithful id where
  lift _ _ := rfl
  note _ _ := rfl
  var _ _ _ := rfl
  assign _ _ _ _ _ := rfl
  introduce _ _ _ := rfl
  within hx := by
    obtain rfl := hx.forget
    exact fun _ => rfl

/-- The outcome of an observed run is the outcome of the run. -/
theorem observed_eq_run (fuel : Nat) (p : Program) (input : Input) :
    ((observing.items fuel p.units (State.start input)).result,
      (observing.items fuel p.units (State.start input)).state) = run fuel p input :=
  observing_faithful.items fuel p.units (State.start input)

end Signum.Run
