import Signum.Proofs.Analysis.Chronicle
import Mathlib.Data.List.Infix
/- How a recording sorts the rounds of loops.

   A recording keeps the verdicts on branches and the printed atoms in order, and sorts the
   rounds of loops into entries. A loop inside another is analysed once for each round of the
   outer one, so its rounds and those of the outer loop alternate in the trace; a round finds its
   entry because it goes to the last one opened for its loop, and the loops inside have other
   places (`Recording.addRound_later`).

   Events are `Grouped` by executions when their rounds are those the executions reported and
   each execution that reported any has one entry. While a loop runs, its own entry stands among
   those of the loops inside (`Ongoing`). -/
namespace Signum

open Analysis (Event Execution)

/-! What the recorder does with one event, and with a sequence of them. -/

namespace Analysis.Event

/-- The verdict on a branch. -/
def branch? : Event → Option BranchVerdict
  | .branch span cond verdict => some ⟨span, cond, verdict⟩
  | _ => none

/-- What was printed. -/
def printed? : Event → Option Printed
  | .print span value atom => some ⟨span, value, atom⟩
  | _ => none

/-- Whether a round of a loop was reported. -/
def isRound : Event → Bool
  | .round _ _ _ _ _ => true
  | _ => false

end Analysis.Event

namespace Recording

/-- The entries for loops after an event. -/
def addLoop (loops : List LoopEntry) : Event → List LoopEntry
  | .round span cond number verdict stable => addRound span cond ⟨number, verdict, stable⟩ loops
  | _ => loops

theorem foldl_add (r : Recording) (events : List Event) : events.foldl add r =
    ⟨r.branches ++ events.filterMap Event.branch?, events.foldl addLoop r.loops,
      r.prints ++ events.filterMap Event.printed?⟩ := by
  induction events generalizing r with
  | nil => simp
  | cons e rest ih =>
    rw [List.foldl_cons, ih]
    cases e <;> simp [add, addLoop, Event.branch?, Event.printed?, List.filterMap_cons]

theorem ofEvents_eq (events : List Event) : ofEvents events =
    ⟨events.filterMap Event.branch?, events.foldl addLoop [],
      events.filterMap Event.printed?⟩ := by
  rw [ofEvents, foldl_add]
  rfl

variable {span : Span} {r : LoopRound}

theorem addToLast?_eq_none {loops : List LoopEntry} (h : ∀ l ∈ loops, l.span ≠ span) :
    addToLast? span r loops = none := by
  induction loops with
  | nil => rfl
  | cons l rest ih =>
    obtain ⟨hl, hrest⟩ := List.forall_mem_cons.mp h
    rw [addToLast?, ih hrest, if_neg hl]

theorem addToLast?_append {loops loops' : List LoopEntry} (before : List LoopEntry)
    (h : addToLast? span r loops = some loops') :
    addToLast? span r (before ++ loops) = some (before ++ loops') := by
  induction before with
  | nil => exact h
  | cons l rest ih => rw [List.cons_append, addToLast?, ih, List.cons_append]

/-- The first round of a loop opens an entry. -/
theorem addRound_first (cond : Cond) (h : r.number = 1) (loops : List LoopEntry) :
    addRound span cond r loops = loops ++ [⟨span, cond, [r]⟩] := by
  unfold addRound
  rw [if_pos h]

/-- A later round goes to the last entry opened for its loop. -/
theorem addRound_later (cond : Cond) (h : r.number ≠ 1) (before : List LoopEntry)
    (earlier : List LoopRound) {after : List LoopEntry} (hafter : ∀ l ∈ after, l.span ≠ span) :
    addRound span cond r (before ++ ⟨span, cond, earlier⟩ :: after) =
      before ++ ⟨span, cond, earlier ++ [r]⟩ :: after := by
  have hlast : addToLast? span r (⟨span, cond, earlier⟩ :: after) =
      some (⟨span, cond, earlier ++ [r]⟩ :: after) := by
    rw [addToLast?, addToLast?_eq_none hafter, if_pos rfl]
  unfold addRound
  rw [if_neg h, addToLast?_append before hlast]
  rfl

end Recording

/-! Executions of loops. -/

namespace Analysis

namespace Execution

/-- Whether a round was reported. -/
def reported (x : Execution) : Bool := !x.rounds.isEmpty

/-- The entry of an execution. -/
def entry (x : Execution) : LoopEntry := ⟨x.span, x.cond, x.rounds.map (·.2)⟩

/-- The reports of the rounds, each with its place in the trace. -/
def reports (x : Execution) : List (Event × Nat) :=
  x.rounds.map fun (place, r) => (.round x.span x.cond r.number r.verdict r.stable, place)

/-- The rounds are numbered from 1, only the last may be stable, and it is when the execution
ended by itself. -/
structure Orderly (x : Execution) : Prop where
  numbers : x.rounds.map (·.2.number) = List.range' 1 x.rounds.length
  unstable : ∀ r ∈ x.rounds.dropLast, r.2.stable = false
  ended : x.ended = true ↔ ∃ r, x.rounds.getLast? = some r ∧ r.2.stable = true

end Execution

/-- The rounds among some events, each with its place, when the first event is at `start`. -/
def roundsFrom (start : Nat) (events : List Event) : List (Event × Nat) :=
  (events.zipIdx start).filter (·.1.isRound)

theorem roundsFrom_append (start : Nat) (events events' : List Event) :
    roundsFrom start (events ++ events') =
      roundsFrom start events ++ roundsFrom (start + events.length) events' := by
  unfold roundsFrom
  rw [List.zipIdx_append, List.filter_append]

/-- The events are grouped by the executions: the entries that they add are those of `groups`,
which are the executions that reported a round, and their rounds are what was reported. -/
structure Grouped (spans : List Span) (start : Nat) (events : List Event)
    (executions groups : List Execution) : Prop where
  entries : ∀ held, events.foldl Recording.addLoop held = held ++ groups.map Execution.entry
  kept : groups.Perm (executions.filter Execution.reported)
  placed : ∀ x ∈ groups, x.span ∈ spans
  rounds : (executions.flatMap Execution.reports).Perm (roundsFrom start events)

/-- The events of a loop that still runs: its own entry, if it has one, stands somewhere among
those of the loops inside. -/
structure Ongoing (spans : List Span) (x : Execution) (start : Nat) (events : List Event)
    (executions before after : List Execution) : Prop where
  entries : ∀ held, events.foldl Recording.addLoop held = held ++
    (before ++ [x].filter Execution.reported ++ after).map Execution.entry
  kept : (before ++ after).Perm (executions.filter Execution.reported)
  placed : ∀ x ∈ before ++ after, x.span ∈ spans
  rounds : ((executions ++ [x]).flatMap Execution.reports).Perm (roundsFrom start events)

namespace Grouped
variable {spans spans' : List Span} {start : Nat} {events events' : List Event}
  {executions executions' groups groups' : List Execution}

/-- Events without rounds. -/
theorem plain (h : ∀ e ∈ events, e.isRound = false) : Grouped spans start events [] [] := by
  refine ⟨fun held => ?_, .nil, nofun, ?_⟩
  · rw [List.map_nil, List.append_nil]
    induction events with
    | nil => rfl
    | cons e rest ih =>
      obtain ⟨he, hrest⟩ := List.forall_mem_cons.mp h
      have hstep : Recording.addLoop held e = held := by
        cases e with
        | round => cases he
        | branch | print => rfl
      rw [List.foldl_cons, hstep, ih hrest]
  · suffices roundsFrom start events = [] by rw [this]; exact .nil
    refine List.filter_eq_nil_iff.mpr fun x hx => ?_
    rw [h x.1 (List.fst_mem_of_mem_zipIdx hx)]
    exact Bool.false_ne_true

theorem append (h : Grouped spans start events executions groups)
    (h' : Grouped spans (start + events.length) events' executions' groups') :
    Grouped spans start (events ++ events') (executions ++ executions') (groups ++ groups') := by
  refine ⟨fun held => ?_, ?_, List.forall_mem_append.mpr ⟨h.placed, h'.placed⟩, ?_⟩
  · rw [List.foldl_append, h.entries, h'.entries, List.map_append, List.append_assoc]
  · rw [List.filter_append]
    exact h.kept.append h'.kept
  · rw [List.flatMap_append, roundsFrom_append]
    exact h.rounds.append h'.rounds

theorem mono (h : Grouped spans start events executions groups) (hs : spans ⊆ spans') :
    Grouped spans' start events executions groups :=
  ⟨h.entries, h.kept, fun x hx => hs (h.placed x hx), h.rounds⟩

end Grouped

/-- What stands in the middle may stand at the end. -/
theorem perm_middle_last {α : Type} (before middle after : List α) :
    (before ++ middle ++ after).Perm (before ++ after ++ middle) := by
  rw [List.append_assoc, List.append_assoc]
  exact List.Perm.append_left before List.perm_append_comm

namespace Ongoing
variable {spans : List Span} {span : Span} {cond : Cond} {reported : List (Nat × LoopRound)}
  {start : Nat} {events events' : List Event}
  {executions executions' before after groups : List Execution}

/-- A loop that has not reported anything. -/
theorem fresh : Ongoing spans ⟨span, cond, [], false⟩ start [] [] [] [] :=
  ⟨fun held => (List.append_nil held).symm, .nil, nofun, .nil⟩

/-- The loops inside a round. -/
theorem inside
    (h : Ongoing spans ⟨span, cond, reported, false⟩ start events executions before after)
    (h' : Grouped spans (start + events.length) events' executions' groups) :
    Ongoing spans ⟨span, cond, reported, false⟩ start (events ++ events')
      (executions ++ executions') before (after ++ groups) := by
  refine ⟨fun held => ?_, ?_, ?_, ?_⟩
  · rw [List.foldl_append, h.entries, h'.entries, List.append_assoc, ← List.map_append]
    simp only [List.append_assoc]
  · rw [List.filter_append, ← List.append_assoc]
    exact h.kept.append h'.kept
  · rw [← List.append_assoc]
    exact List.forall_mem_append.mpr ⟨h.placed, h'.placed⟩
  · rw [roundsFrom_append]
    refine List.Perm.trans ?_ (h.rounds.append h'.rounds)
    rw [← List.flatMap_append]
    exact (perm_middle_last executions executions' _).flatMap_right _

/-- A round of the loop itself. -/
theorem round (h : Ongoing spans ⟨span, cond, reported, false⟩ start events executions before after)
    (hspan : span ∉ spans) {r : LoopRound} (hr : r.number = reported.length + 1) :
    ∃ before' after', Ongoing spans
      ⟨span, cond, reported ++ [(start + events.length, r)], false⟩ start
      (events ++ [.round span cond r.number r.verdict r.stable]) executions before' after' := by
  have hrounds : ((executions ++ [(⟨span, cond, reported ++ [(start + events.length, r)], false⟩ :
      Execution)]).flatMap Execution.reports).Perm
      (roundsFrom start (events ++ [.round span cond r.number r.verdict r.stable])) := by
    rw [roundsFrom_append]
    refine List.Perm.trans (.of_eq ?_) (h.rounds.append_right _)
    simp [Execution.reports, roundsFrom, Event.isRound]
  cases reported with
  | nil =>
    -- the entry is opened last, after those of loops that ran in the first round
    refine ⟨before ++ after, [], fun held => ?_, ?_, ?_, hrounds⟩
    · rw [List.foldl_append, h.entries]
      exact (Recording.addRound_first cond hr _).trans (by simp [Execution.reported, Execution.entry])
    · rw [List.append_nil]
      exact h.kept
    · rw [List.append_nil]
      exact h.placed
  | cons first rest =>
    refine ⟨before, after, fun held => ?_, h.kept, h.placed, hrounds⟩
    have hlater : r.number ≠ 1 := by
      rw [hr, List.length_cons]
      omega
    -- so no entry after its own can take the round
    have hafter : ∀ l ∈ after.map Execution.entry, l.span ≠ span := by
      rintro _ hl rfl
      obtain ⟨x, hx, rfl⟩ := List.mem_map.mp hl
      exact hspan (h.placed x (List.mem_append_right _ hx))
    have hadd := Recording.addRound_later cond hlater
      (held ++ before.map Execution.entry) ((first :: rest).map (·.2)) hafter
    rw [List.foldl_append, h.entries]
    simpa [Execution.reported, Execution.entry, Recording.addLoop] using hadd

/-- The loop is over, one way or the other. -/
theorem close (h : Ongoing spans ⟨span, cond, reported, false⟩ start events executions before after)
    (ended : Bool) : Grouped (span :: spans) start events
      (executions ++ [⟨span, cond, reported, ended⟩])
      (before ++ [⟨span, cond, reported, ended⟩].filter Execution.reported ++ after) := by
  refine ⟨fun held => ?_, ?_, ?_, ?_⟩
  · rw [h.entries]
    cases reported <;> simp [Execution.reported, Execution.entry]
  · rw [List.filter_append]
    exact (perm_middle_last before _ after).trans (h.kept.append_right _)
  · obtain ⟨hbefore, hafter⟩ := List.forall_mem_append.mp h.placed
    refine List.forall_mem_append.mpr ⟨List.forall_mem_append.mpr ⟨?_, fun x hx => ?_⟩, ?_⟩
    · exact fun x hx => List.mem_cons_of_mem _ (hbefore x hx)
    · obtain rfl := List.mem_singleton.mp (List.mem_of_mem_filter hx)
      exact List.mem_cons_self
    · exact fun x hx => List.mem_cons_of_mem _ (hafter x hx)
  · refine List.Perm.trans (.of_eq ?_) h.rounds
    simp [Execution.reports]

end Ongoing

end Analysis
end Signum
