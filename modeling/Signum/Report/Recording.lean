import Signum.Analysis.Interpreter
/- What an analysis observed, sorted for a reader.

   The verdicts on branches and the printed atoms keep their order. The rounds of
   loops are grouped: round 1 opens an entry, and a later round goes to the last
   entry opened for the same loop. A loop inside another has an entry for each
   time it was analysed. -/
namespace Signum

/-- The verdict on the condition of an `if`. -/
structure BranchVerdict where
  span : Span
  cond : Cond
  verdict : Atom
  deriving DecidableEq, Repr

/-- The verdict on the condition of a loop in one round. -/
structure LoopRound where
  number : Nat
  verdict : Atom
  stable : Bool
  deriving DecidableEq, Repr

/-- The rounds of one analysis of a loop. -/
structure LoopEntry where
  span : Span
  cond : Cond
  rounds : List LoopRound
  deriving DecidableEq, Repr

/-- What a `print` printed. -/
structure Printed where
  span : Span
  value : Expr
  atom : Atom
  deriving DecidableEq, Repr

/-- What an analysis observed. -/
structure Recording where
  branches : List BranchVerdict
  loops : List LoopEntry
  prints : List Printed
  deriving DecidableEq, Repr

namespace Recording

/-- Nothing observed. -/
def empty : Recording := ⟨[], [], []⟩

/-- Adds a round to the last entry for the loop at `span`, when there is one. -/
def addToLast? (span : Span) (r : LoopRound) : List LoopEntry → Option (List LoopEntry)
  | [] => none
  | e :: rest =>
    match addToLast? span r rest with
    | some rest => some (e :: rest)
    | none => if e.span = span then some ({ e with rounds := e.rounds ++ [r] } :: rest) else none

/-- Adds a round of the loop at `span`. -/
def addRound (span : Span) (cond : Cond) (r : LoopRound) (loops : List LoopEntry) :
    List LoopEntry :=
  let fresh := loops ++ [⟨span, cond, [r]⟩]
  if r.number = 1 then fresh else (addToLast? span r loops).getD fresh

/-- Adds an event. -/
def add (r : Recording) : Analysis.Event → Recording
  | .branch span cond verdict => { r with branches := r.branches ++ [⟨span, cond, verdict⟩] }
  | .round span cond number verdict stable =>
    { r with loops := addRound span cond ⟨number, verdict, stable⟩ r.loops }
  | .print span value atom => { r with prints := r.prints ++ [⟨span, value, atom⟩] }

/-- What a sequence of events tells. -/
def ofEvents (events : List Analysis.Event) : Recording := events.foldl add empty

end Recording
end Signum
