import Signum.Proofs.Report.Grouping
import Signum.Proofs.Syntax.Nesting
/- A recording loses nothing.

   A step `Tells` its story when the events it reported are grouped by the executions of loops
   noted while it was taken, whether it succeeds or not. The rules for `Telling` steps follow
   the statements. A loop is followed from round to round (`Underway`): its first round opens its
   entry, the loops of its body add theirs after it, and it closes with a stable round or where
   the analysis stops. So a recording has one entry for each execution that reported a round
   (`recording_loses_nothing`). -/
namespace Signum

namespace Analysis

open Logged (note lift onStop)

/-! Steps that report and print nothing. -/

/-- The step leaves the trace and what was printed alone, however it ends. -/
def Silent {α : Type} (m : M α) : Prop :=
  ∀ s, (m.run.run s).2.trace = s.trace ∧ (m.run.run s).2.printed = s.printed

namespace Silent
variable {α β : Type}

theorem pure (a : α) : Silent (Pure.pure a : M α) := fun _ => ⟨rfl, rfl⟩

theorem throw (h : Halt) : Silent (MonadExcept.throw h : M α) := fun _ => ⟨rfl, rfl⟩

theorem bind {x : M α} {f : α → M β} (hx : Silent x) (hf : ∀ a, Silent (f a)) :
    Silent (x >>= f) := by
  intro s
  rw [run_bind]
  have h := hx s
  generalize x.run.run s = out at h
  obtain ⟨e | a, t⟩ := out
  · exact h
  · exact ⟨(hf a t).1.trans h.1, (hf a t).2.trans h.2⟩

theorem get_bind {f : State → M α} (h : ∀ s, Silent (f s)) : Silent (get >>= f) := fun s => h s s

theorem update {f : State → State} (h : ∀ s, (f s).trace = s.trace ∧ (f s).printed = s.printed) :
    Silent (modify f : M PUnit) := h

theorem setEnv (env : State → Environment) :
    Silent (modify fun s => { s with env := env s } : M PUnit) := .update fun _ => ⟨rfl, rfl⟩

theorem ofSign (r : Except SignFault α) : Silent (ofSign r) := by
  cases r with
  | ok a => exact .pure a
  | error f => exact .throw _

end Silent

theorem OnlyReads.silent {α : Type} {m : M α} (h : OnlyReads m) : Silent m := by
  intro s
  obtain ⟨reads, hs⟩ := h s
  rw [hs]
  exact ⟨rfl, rfl⟩

theorem expr_silent (config : Config) (e : Expr) : Silent (expr config e) :=
  (expr_onlyReads config e).silent

theorem cond_silent (config : Config) (c : Cond) : Silent (cond config c) :=
  (cond_onlyReads config c).silent

theorem bind_silent (name : Bytes) (value : Atom) : Silent (bind name value) := by
  refine .get_bind fun s => ?_
  cases s.env.bind name value with
  | ok env => exact .setEnv fun _ => env
  | error f => exact .throw _

theorem joinIn_silent (other : Environment) : Silent (joinIn other) :=
  .get_bind fun s => .bind (.setEnv fun _ => (s.env.join other).2) fun _ => .ofSign _

theorem adopt_silent (inYes inNo : Environment) : Silent (adopt inYes inNo) :=
  .bind (.ofSign _) fun _ => .setEnv _

theorem settle_silent (after : Environment) : Silent (settle after) := by
  refine .get_bind fun s => ?_
  split
  · exact .pure _
  · exact .bind (joinIn_silent after) fun _ => .pure _

theorem introduce_silent (d : Decl) : Silent (introduce d) := by
  refine .get_bind fun s => ?_
  generalize s.env.declare d.name (domainOf d.type) = out
  obtain ⟨isNew, env⟩ := out
  cases isNew with
  | false => exact .throw _
  | true => exact .setEnv fun _ => env

/-- A branch reports and prints what its body does. -/
theorem branch_shows (m : M Unit) (s : State) :
    ((branch m).run.run s).2.trace = (m.run.run { s with env := s.env.fork }).2.trace ∧
      ((branch m).run.run s).2.printed = (m.run.run { s with env := s.env.fork }).2.printed := by
  rw [run_branch]
  generalize m.run.run { s with env := s.env.fork } = out
  obtain ⟨(⟨kind, span⟩ | f) | u, t⟩ := out
  · dsimp only
    cases t.env.restore <;> exact ⟨rfl, rfl⟩
  · exact ⟨rfl, rfl⟩
  · dsimp only
    cases t.env.restore <;> exact ⟨rfl, rfl⟩

/-! The story of a step. -/

/-- From the first state to the second these events were reported, and the atoms of those among
them that print were printed. -/
structure Shows (s s' : State) (events : List Event) : Prop where
  trace : s'.trace.toList = s.trace.toList ++ events
  printed : s'.printed.toList = s.printed.toList ++ (events.filterMap Event.printed?).map (·.atom)

namespace Shows
variable {s s' s'' : State} {events events' : List Event}

theorem nothing (htrace : s'.trace = s.trace) (hprinted : s'.printed = s.printed) :
    Shows s s' [] := by
  refine ⟨?_, ?_⟩
  · rw [htrace, List.append_nil]
  · rw [hprinted, List.filterMap_nil, List.map_nil, List.append_nil]

/-- A report of something that does not print. -/
theorem report {e : Event} (h : e.printed? = none) :
    Shows s { s with trace := s.trace.push e } [e] := by
  refine ⟨Array.toList_push, ?_⟩
  rw [List.filterMap_cons_none h, List.filterMap_nil, List.map_nil, List.append_nil]

theorem trans (h : Shows s s' events) (h' : Shows s' s'' events') :
    Shows s s'' (events ++ events') := by
  refine ⟨?_, ?_⟩
  · rw [h'.trace, h.trace, List.append_assoc]
  · rw [h'.printed, h.printed, List.filterMap_append, List.map_append, List.append_assoc]

theorem size (h : Shows s s' events) : s'.trace.size = s.trace.size + events.length := by
  rw [← Array.length_toList, h.trace, List.length_append, Array.length_toList]

end Shows

/-- What a step taken in `s` told: what it showed, grouped by the loops it executed. If it
succeeded, every execution has ended. -/
structure Tells {α : Type} (spans : List Span) (s : State) (out : Outcome Halt State Happening α)
    (events : List Event) (groups : List Execution) : Prop where
  shown : Shows s out.state events
  grouped : Grouped spans s.trace.size events (executionsOf out.history) groups
  orderly : ∀ x ∈ executionsOf out.history, x.Orderly
  ended : ∀ a, out.result = .ok a → ∀ x ∈ executionsOf out.history, x.ended = true

/-- Wherever the step is taken, there is a story of it. -/
def Telling {α : Type} (spans : List Span) (x : Chronicled α) : Prop :=
  ∀ s, ∃ events groups, Tells spans s (x s) events groups

namespace Telling
variable {α β : Type} {spans spans' : List Span} {x : Chronicled α}

theorem silent {m : M α} (h : Silent m) : Telling spans (lift m) := fun s =>
  ⟨[], [], .nothing (h s).1 (h s).2, .plain nofun, nofun, nofun⟩

theorem pure (a : α) : Telling spans (Pure.pure a : Chronicled α) := silent (.pure a)

/-- A report of something other than a round or an atom that is printed. -/
theorem report {e : Event} (h : e.isRound = false) (hprint : e.printed? = none) :
    Telling spans (lift (report e)) := fun _ =>
  ⟨[e], [], .report hprint, .plain (List.forall_mem_singleton.mpr h), nofun, nofun⟩

/-- A printed atom is reported when it is printed. -/
theorem print (span : Span) (value : Expr) (v : Atom) : Telling spans (lift (do
    Analysis.report (.print span value v)
    modify fun st => { st with printed := st.printed.push v })) := fun _ =>
  ⟨[.print span value v], [], ⟨Array.toList_push, Array.toList_push⟩,
    .plain (List.forall_mem_singleton.mpr rfl), nofun, nofun⟩

theorem noteScope (d : Decl) : Telling spans (noteScope d) := fun _ =>
  ⟨[], [], .nothing rfl rfl, .plain nofun, nofun, nofun⟩

theorem bind {f : α → Chronicled β} (hx : Telling spans x) (hf : ∀ a, Telling spans (f a)) :
    Telling spans (x >>= f) := by
  intro s
  obtain ⟨events, groups, h⟩ := hx s
  cases hr : (x s).result with
  | error e =>
    rw [Logged.bind_of_error hr]
    exact ⟨events, groups, h.shown, h.grouped, h.orderly, nofun⟩
  | ok a =>
    obtain ⟨events', groups', h'⟩ := hf a (x s).state
    rw [Logged.bind_of_ok hr]
    refine ⟨events ++ events', groups ++ groups', h.shown.trans h'.shown, ?_, ?_, fun b hb => ?_⟩
    · rw [executionsOf_append]
      exact h.grouped.append (h.shown.size ▸ h'.grouped)
    · rw [executionsOf_append]
      exact List.forall_mem_append.mpr ⟨h.orderly, h'.orderly⟩
    · rw [executionsOf_append]
      exact List.forall_mem_append.mpr ⟨h.ended a hr, h'.ended b hb⟩

theorem mono (h : Telling spans x) (hs : spans ⊆ spans') : Telling spans' x := by
  intro s
  obtain ⟨events, groups, h⟩ := h s
  exact ⟨events, groups, h.shown, h.grouped.mono hs, h.orderly, h.ended⟩

theorem within {x : Chronicled Unit} (h : Telling spans x) : Telling spans (inScope x) := by
  intro s
  obtain ⟨events, groups, h⟩ := h { s with env := s.env.enter }
  exact ⟨events, groups, ⟨h.shown.trace, h.shown.printed⟩, h.grouped, h.orderly, h.ended⟩

theorem branch {x : Chronicled Unit} (h : Telling spans x) : Telling spans (onFork x) := by
  intro s
  obtain ⟨events, groups, h⟩ := h { s with env := s.env.fork }
  obtain ⟨htrace, hprinted⟩ := branch_shows x.forget s
  refine ⟨events, groups, ⟨?_, ?_⟩, h.grouped, h.orderly, fun env henv => ?_⟩
  · exact (congrArg Array.toList htrace).trans h.shown.trace
  · exact (congrArg Array.toList hprinted).trans h.shown.printed
  · cases hr : (x { s with env := s.env.fork }).result with
    | ok u => exact h.ended u hr
    | error e => exact absurd henv (onFork_fails hr env)

end Telling

/-! Loops. -/

/-- The rounds of a loop that goes on: they are numbered from 1, and none is stable. -/
structure GoingOn (reported : List (Nat × LoopRound)) : Prop where
  numbers : reported.map (·.2.number) = List.range' 1 reported.length
  unstable : ∀ r ∈ reported, r.2.stable = false

namespace GoingOn
variable {reported : List (Nat × LoopRound)} {place : Nat} {r : LoopRound}

theorem numbers_concat (h : GoingOn reported) (hr : r.number = reported.length + 1) :
    (reported ++ [(place, r)]).map (·.2.number) =
      List.range' 1 (reported ++ [(place, r)]).length := by
  rw [List.map_append, h.numbers, List.length_append, List.length_singleton, List.range'_1_concat]
  simp [hr, Nat.add_comm]

/-- One more round that is not stable. -/
theorem concat (h : GoingOn reported) (hr : r.number = reported.length + 1)
    (hs : r.stable = false) : GoingOn (reported ++ [(place, r)]) := by
  refine ⟨h.numbers_concat hr, ?_⟩
  exact List.forall_mem_append.mpr ⟨h.unstable, List.forall_mem_singleton.mpr hs⟩

/-- An execution that was cut short. -/
theorem cut (h : GoingOn reported) (span : Span) (cond : Cond) :
    Execution.Orderly ⟨span, cond, reported, false⟩ := by
  refine ⟨h.numbers, fun r hr => h.unstable r (List.mem_of_mem_dropLast hr), ?_⟩
  refine ⟨nofun, fun ⟨r, hlast, hr⟩ => ?_⟩
  rw [h.unstable r (List.mem_of_getLast? hlast)] at hr
  exact hr

/-- An execution that ended with a stable round. -/
theorem finish (h : GoingOn reported) (hr : r.number = reported.length + 1)
    (hs : r.stable = true) (span : Span) (cond : Cond) :
    Execution.Orderly ⟨span, cond, reported ++ [(place, r)], true⟩ := by
  refine ⟨h.numbers_concat hr, ?_, fun _ => ⟨(place, r), List.getLast?_concat, hs⟩, fun _ => rfl⟩
  rw [List.dropLast_concat]
  exact h.unstable

end GoingOn

/-- The places of the loops among some sites. -/
def loopsOf (sites : List Site) : List Span :=
  sites.filterMap fun
    | .loop span _ => some span
    | _ => none

theorem loopsOf_append (sites sites' : List Site) :
    loopsOf (sites ++ sites') = loopsOf sites ++ loopsOf sites' := List.filterMap_append

theorem loopsOf_branch (span : Span) (c : Cond) (sites : List Site) :
    loopsOf (.branch span c :: sites) = loopsOf sites := rfl

theorem loopsOf_loop (span : Span) (c : Cond) (sites : List Site) :
    loopsOf (.loop span c :: sites) = span :: loopsOf sites := rfl

/-- Loops that start in different places are in different places. -/
theorem loopsOf_nodup {sites : List Site} (h : (sites.map Site.place).Nodup) :
    (loopsOf sites).Nodup := by
  induction sites with
  | nil => exact List.nodup_nil
  | cons site rest ih =>
    obtain ⟨hnew, hrest⟩ := List.nodup_cons.mp h
    cases site with
    | print | branch => exact ih hrest
    | loop span c =>
      refine List.nodup_cons.mpr ⟨fun hmem => hnew ?_, ih hrest⟩
      obtain ⟨site, hsite, heq⟩ := List.mem_filterMap.mp hmem
      cases site <;> cases heq
      exact List.mem_map.mpr ⟨_, hsite, rfl⟩

/-- A loop that was started in `s` and has come to `s'`: what it has shown is that of a loop that
still runs, with the executions noted so far. -/
structure Underway (spans : List Span) (span : Span) (cond : Cond)
    (reported : List (Nat × LoopRound)) (s s' : State) (history : List Happening) : Prop where
  shown : ∃ events before after, Shows s s' events ∧
    Ongoing spans ⟨span, cond, reported, false⟩ s.trace.size events (executionsOf history)
      before after
  orderly : ∀ x ∈ executionsOf history, x.Orderly

namespace Underway
variable {spans : List Span} {span : Span} {cond : Cond} {reported : List (Nat × LoopRound)}
  {s s' : State} {history : List Happening} {α : Type}

theorem start (s : State) : Underway spans span cond [] s s [] :=
  ⟨⟨[], [], [], .nothing rfl rfl, .fresh⟩, nofun⟩

/-- A step inside the loop. -/
theorem inside (h : Underway spans span cond reported s s' history)
    {out : Outcome Halt State Happening α} {events : List Event} {groups : List Execution}
    (h' : Tells spans s' out events groups) :
    Underway spans span cond reported s out.state (history ++ out.history) := by
  obtain ⟨earlier, before, after, hshown, hongoing⟩ := h.shown
  refine ⟨⟨earlier ++ events, before, after ++ groups, hshown.trans h'.shown, ?_⟩, ?_⟩
  · rw [executionsOf_append]
    exact hongoing.inside (hshown.size ▸ h'.grouped)
  · rw [executionsOf_append]
    exact List.forall_mem_append.mpr ⟨h.orderly, h'.orderly⟩

/-- The report of a round. -/
theorem round (h : Underway spans span cond reported s s' history) (hspan : span ∉ spans)
    {r : LoopRound} (hr : r.number = reported.length + 1) :
    Underway spans span cond (reported ++ [(s'.trace.size, r)]) s
      { s' with trace := s'.trace.push (.round span cond r.number r.verdict r.stable) }
      history := by
  obtain ⟨events, before, after, hshown, hongoing⟩ := h.shown
  obtain ⟨before', after', hround⟩ := hongoing.round hspan hr
  rw [← hshown.size] at hround
  exact ⟨⟨_, before', after', hshown.trans (.report rfl), hround⟩, h.orderly⟩

/-- The loop is over. -/
theorem close (h : Underway spans span cond reported s s' history) {ended : Bool}
    (hx : Execution.Orderly ⟨span, cond, reported, ended⟩) {result : Except Halt α}
    (hended : ∀ a, result = .ok a → ended = true ∧ ∀ x ∈ executionsOf history, x.ended = true) :
    ∃ events groups, Tells (span :: spans) s
      ⟨result, s', history ++ [.executed ⟨span, cond, reported, ended⟩]⟩ events groups := by
  obtain ⟨events, before, after, hshown, hongoing⟩ := h.shown
  have hnote : executionsOf (history ++ [.executed ⟨span, cond, reported, ended⟩]) =
      executionsOf history ++ [⟨span, cond, reported, ended⟩] := executionsOf_append _ _
  refine ⟨events, _, hshown, hnote ▸ hongoing.close ended, ?_, fun a ha => ?_⟩
  · rw [hnote]
    exact List.forall_mem_append.mpr ⟨h.orderly, List.forall_mem_singleton.mpr hx⟩
  · rw [hnote]
    obtain ⟨hnow, hbefore⟩ := hended a ha
    exact List.forall_mem_append.mpr ⟨hbefore, List.forall_mem_singleton.mpr hnow⟩

end Underway

section Statements
variable (config : Config)

theorem turn_tells {spans : List Span} (c : Cond) {body : Chronicled Unit}
    (h : Telling spans body) (number : Nat) (x : Execution) :
    Telling spans ((chronicling config).turn c body number x) :=
  .bind (.silent (cond_silent config c)) fun _ => .bind (.pure _) fun _ => .bind h.branch
    fun after => .bind (.silent (settle_silent after)) fun _ => .pure _

/-- A loop that is under way tells its story, whatever its rounds do. -/
theorem rounds_tell {spans : List Span} {span : Span} {c : Cond} {body : Chronicled Unit}
    (hbody : Telling spans body) (hspan : span ∉ spans) (left : Nat)
    {reported : List (Nat × LoopRound)} {s s' : State} {history : List Happening}
    (h : Underway spans span c reported s s' history) (hgoing : GoingOn reported)
    (hended : ∀ x ∈ executionsOf history, x.ended = true) :
    let out := (chronicling config).rounds span c body left (reported.length + 1)
      ⟨span, c, reported, false⟩ s'
    ∃ events groups, Tells (span :: spans) s ⟨out.result, out.state, history ++ out.history⟩
      events groups := by
  -- the history is what was noted before these rounds, so that the executions inside of all
  -- rounds so far can be counted in
  induction left generalizing reported s' history with
  | zero => exact h.close (hgoing.cut span c) nofun
  | succ left ih =>
    obtain ⟨events, groups, hturn⟩ :=
      turn_tells config c hbody (reported.length + 1) ⟨span, c, reported, false⟩ s'
    dsimp only
    rw [chronicling_rounds]
    generalize (chronicling config).turn c body (reported.length + 1)
      ⟨span, c, reported, false⟩ = turn at hturn
    cases hr : (turn s').result with
    | error e =>
      -- the loop was cut in the middle of this round, which it has not reported
      rw [Logged.bind_of_error (by rw [Logged.onStop_error hr]), Logged.onStop_error hr]
      dsimp only
      rw [← List.append_assoc]
      exact (h.inside hturn).close (hgoing.cut span c) nofun
    | ok verdict =>
      have hinside := h.inside hturn
      have hall : ∀ x ∈ executionsOf (history ++ (turn s').history), x.ended = true := by
        rw [executionsOf_append]
        exact List.forall_mem_append.mpr ⟨hended, hturn.ended _ hr⟩
      obtain ⟨verdict, stable⟩ := verdict
      have hround := hinside.round hspan (r := ⟨reported.length + 1, verdict, stable⟩) rfl
      rw [Logged.bind_of_ok (by rw [Logged.onStop_ok hr, hr]), Logged.onStop_ok hr,
        Logged.bind_of_ok rfl, Logged.bind_of_ok rfl]
      dsimp only [chronicleLoop]
      rw [← List.append_assoc, List.nil_append]
      cases stable with
      | true => exact hround.close (hgoing.finish rfl rfl span c) fun _ _ => ⟨rfl, hall⟩
      | false =>
        have hrest := ih hround (hgoing.concat rfl rfl) hall
        rw [List.length_append, List.length_singleton] at hrest
        exact hrest

/-- A loop tells its story when its body does. -/
theorem loop_tells {spans : List Span} {span : Span} {c : Cond} {body : Chronicled Unit}
    (hbody : Telling spans body) (hspan : span ∉ spans) (left : Nat) :
    Telling (span :: spans)
      ((chronicling config).rounds span c body left 1 ⟨span, c, [], false⟩) := by
  intro s
  exact rounds_tell config hbody hspan left (.start s) ⟨rfl, nofun⟩ nofun

mutual

/-- A statement whose loops are in different places tells its story. -/
theorem stmt_tells : (s : Stmt) → (loopsOf s.sites).Nodup →
    Telling (loopsOf s.sites) ((chronicling config).stmt s)
  | .assign name value s, _ => by
    simp only [Instrument.stmt]
    exact .bind (.silent (expr_silent config value)) fun v => .silent (bind_silent name v)
  | .print value s, _ => by
    simp only [Instrument.stmt]
    exact .bind (.silent (expr_silent config value)) fun v => .print s value v
  | .block body s, h => by
    simp only [Instrument.stmt]
    unfold Stmt.sites at h ⊢
    exact .within (items_tell body h)
  | .ite c yes none s, h => by
    simp only [Instrument.stmt]
    unfold Stmt.sites at h ⊢
    refine .bind (.silent (cond_silent config c)) fun verdict => .bind (.report rfl rfl) fun _ => ?_
    refine .bind (.branch (stmt_tells yes h)) fun inYes => ?_
    exact .bind (.silent (joinIn_silent inYes)) fun _ => .pure _
  | .ite c yes (some no) s, h => by
    simp only [Instrument.stmt]
    unfold Stmt.sites at h ⊢
    rw [loopsOf_branch, loopsOf_append] at h ⊢
    obtain ⟨hyes, hno, -⟩ := List.nodup_append.mp h
    refine .bind (.silent (cond_silent config c)) fun verdict => .bind (.report rfl rfl) fun _ => ?_
    refine .bind (.branch ((stmt_tells yes hyes).mono (List.subset_append_left _ _)))
      fun inYes => ?_
    refine .bind (.branch ((stmt_tells no hno).mono (List.subset_append_right _ _)))
      fun inNo => ?_
    exact .silent (adopt_silent inYes inNo)
  | .loop c body s, h => by
    simp only [Instrument.stmt]
    unfold Stmt.sites at h ⊢
    rw [loopsOf_loop] at h ⊢
    obtain ⟨hspan, hbody⟩ := List.nodup_cons.mp h
    refine .bind (.silent fun _ => ⟨rfl, rfl⟩) fun st => ?_
    exact loop_tells config (stmt_tells body hbody) hspan _

theorem item_tells : (u : Item) → (loopsOf u.sites).Nodup →
    Telling (loopsOf u.sites) ((chronicling config).item u)
  | .decl d, _ => by
    simp only [Instrument.item]
    refine .bind (.bind (.silent (introduce_silent d)) fun _ => .noteScope d) fun _ => ?_
    cases d.init with
    | none => exact .pure _
    | some e => exact .bind (.silent (expr_silent config e)) fun v => .silent (bind_silent d.name v)
  | .stmt s, h => by
    simp only [Instrument.item]
    unfold Item.sites at h ⊢
    exact stmt_tells s h

theorem items_tell : (us : List Item) → (loopsOf (sitesOf us)).Nodup →
    Telling (loopsOf (sitesOf us)) ((chronicling config).items us)
  | [], _ => by
    simp only [Instrument.items]
    exact .pure _
  | u :: rest, h => by
    simp only [Instrument.items]
    unfold sitesOf at h ⊢
    rw [loopsOf_append] at h ⊢
    obtain ⟨hu, hrest, -⟩ := List.nodup_append.mp h
    refine .bind ((item_tells u hu).mono (List.subset_append_left _ _)) fun _ => ?_
    exact (items_tell rest hrest).mono (List.subset_append_right _ _)

end

end Statements

end Analysis

/-! The recording of an analysis. -/

/-- The rounds of an entry are numbered 1, 2 and so on, and only the last may be stable. -/
structure LoopEntry.InOrder (l : LoopEntry) : Prop where
  nonempty : l.rounds ≠ []
  numbers : l.rounds.map (·.number) = List.range' 1 l.rounds.length
  unstable : ∀ r ∈ l.rounds.dropLast, r.stable = false

/-- The entry ends with a stable round. -/
def LoopEntry.Settled (l : LoopEntry) : Prop := ∃ r, l.rounds.getLast? = some r ∧ r.stable = true

namespace Analysis

namespace Execution

theorem Orderly.inOrder {x : Execution} (h : x.Orderly) (hx : x.reported = true) :
    x.entry.InOrder := by
  refine ⟨?_, ?_, fun r hr => ?_⟩
  · unfold reported at hx
    simpa [entry] using hx
  · rw [entry, List.map_map, List.length_map]
    exact h.numbers
  · obtain ⟨pr, hpr, rfl⟩ := List.mem_map.mp (List.map_dropLast ▸ hr)
    exact h.unstable pr hpr

theorem Orderly.settled_iff {x : Execution} (h : x.Orderly) :
    x.entry.Settled ↔ x.ended = true := by
  rw [h.ended]
  unfold LoopEntry.Settled entry
  rw [List.getLast?_map]
  cases x.rounds.getLast? with
  | none => simp
  | some r => simp

theorem reported_of_settled {x : Execution} (h : x.entry.Settled) : x.reported = true := by
  obtain ⟨r, hr, -⟩ := h
  unfold entry at hr
  unfold reported
  cases hx : x.rounds with
  | nil =>
    rw [hx] at hr
    cases hr
  | cons first rest => rfl

/-- An execution that reported nothing has no reports. -/
theorem flatMap_reports_filter (executions : List Execution) :
    (executions.filter reported).flatMap reports = executions.flatMap reports := by
  induction executions with
  | nil => rfl
  | cons x rest ih =>
    rw [List.filter_cons, List.flatMap_cons, ← ih]
    split
    · rw [List.flatMap_cons]
    · next h =>
      have hnone : x.reports = [] := by
        unfold reports
        simpa [reported] using h
      rw [hnone, List.nil_append]

end Execution

/-- The loops of a parsed program are in different places. -/
theorem loopsOf_parsed {source : Bytes} {p : Program} (h : Program.parse source = .ok p) :
    (loopsOf (sitesOf p.units)).Nodup := by
  obtain ⟨lexed, hlex, hderives, -⟩ := Program.parse_derives h
  exact loopsOf_nodup ((Lexer.starts_nodup hlex).sublist hderives.sites)

/-- An analysis of a program whose loops are in different places tells its story. -/
theorem run_tells {p : Program} (h : (loopsOf (sitesOf p.units)).Nodup) (config : Config) :
    ∃ groups, Tells (loopsOf (sitesOf p.units)) State.start
      ⟨(run config p).1, (run config p).2, chronicle config p⟩ (run config p).2.trace.toList
      groups := by
  obtain ⟨events, groups, htells⟩ := items_tell config p.units h State.start
  have hout : (chronicling config).items p.units State.start =
      ⟨(run config p).1, (run config p).2, chronicle config p⟩ := by
    rw [← chronicled_eq_run]
    rfl
  rw [hout] at htells
  have hevents : (run config p).2.trace.toList = events := htells.shown.trace
  exact ⟨groups, hevents ▸ htells⟩

/-- What is printed from the start on are the lines of the prints. -/
theorem Shows.output {s : State} {events : List Event} (h : Shows State.start s events) :
    s.output = (events.filterMap Event.printed?).flatMap fun q =>
      q.atom.name ++ [Bytes.newline] := by
  have hprinted : s.printed.toList = (events.filterMap Event.printed?).map (·.atom) := h.printed
  rw [State.output, hprinted, List.flatMap_map]

/-- A recording loses nothing of an analysis, however it ends, if the loops of the program are in
different places, as they are in a parsed one (`loopsOf_parsed`). Branches and prints are kept in
order, and what was printed are the lines of the prints. Each round is in the entry of one
execution of its loop, and an execution that reported a round has one entry, with its rounds in
order, of which the last is stable exactly when the execution ended. An analysis that succeeds
has ended every execution, and each has its entry. -/
theorem recording_loses_nothing {p : Program} (h : (loopsOf (sitesOf p.units)).Nodup)
    (config : Config) :
    let out := run config p
    let events := out.2.trace.toList
    let recording := Recording.ofEvents events
    let executions := executionsOf (chronicle config p)
    recording.branches = events.filterMap Event.branch? ∧
    recording.prints = events.filterMap Event.printed? ∧
    out.2.output = recording.prints.flatMap (fun q => q.atom.name ++ [Bytes.newline]) ∧
    ∃ groups : List Execution,
      recording.loops = groups.map Execution.entry ∧
      groups.Perm (executions.filter Execution.reported) ∧
      (groups.flatMap Execution.reports).Perm (roundsFrom 0 events) ∧
      (∀ l ∈ recording.loops, l.InOrder) ∧
      (∀ x ∈ executions, x.entry.Settled ↔ x.ended = true) ∧
      (out.1 = .ok () → groups.Perm executions ∧ ∀ l ∈ recording.loops, l.Settled) := by
  intro out events recording executions
  obtain ⟨groups, htells⟩ := run_tells h config
  have hkept : groups.Perm (executions.filter Execution.reported) := htells.grouped.kept
  have hrecording : recording = ⟨events.filterMap Event.branch?, groups.map Execution.entry,
      events.filterMap Event.printed?⟩ := by
    rw [← List.nil_append (groups.map _), ← htells.grouped.entries []]
    exact Recording.ofEvents_eq events
  rw [hrecording]
  refine ⟨rfl, rfl, htells.shown.output, groups, rfl, hkept, ?_, fun l hl => ?_,
    fun x hx => (htells.orderly x hx).settled_iff, fun hok => ?_⟩
  · refine List.Perm.trans (hkept.flatMap_right _) ?_
    rw [Execution.flatMap_reports_filter]
    exact htells.grouped.rounds
  · obtain ⟨x, hx, rfl⟩ := List.mem_map.mp hl
    obtain ⟨hmem, hreported⟩ := List.mem_filter.mp (hkept.mem_iff.mp hx)
    exact (htells.orderly x hmem).inOrder hreported
  · -- every execution has ended, so the last round of each is stable, and each has a round
    have hsettled : ∀ x ∈ executions, x.entry.Settled := fun x hx =>
      (htells.orderly x hx).settled_iff.mpr (htells.ended () hok x hx)
    have hall : executions.filter Execution.reported = executions :=
      List.filter_eq_self.mpr fun x hx => Execution.reported_of_settled (hsettled x hx)
    rw [hall] at hkept
    refine ⟨hkept, fun l hl => ?_⟩
    obtain ⟨x, hx, rfl⟩ := List.mem_map.mp hl
    exact hsettled x (hkept.mem_iff.mp hx)

/-- A source with a loop in a loop, whose quotient fails when the outer one goes round again. -/
def interruptedSource : Bytes :=
  "int x = 1;\nwhile (readint > 0) \x7b\n  int y = 1;\n  while (y > 0) y = y - 1;\n" ++
  "  print 1 / x;\n  x = 0;\n\x7d\n"

/-- The inner loop has an entry for each time it was analysed, with the entry of the outer loop
between them. The outer loop was still going on at the failure, and ends with a round that is not
stable. -/
theorem recording_interrupted : ∃ p, Program.parse interruptedSource = .ok p ∧
    (run ⟨0, true⟩ p).1.isOk = false ∧
    (Recording.ofEvents (run ⟨0, true⟩ p).2.trace.toList).loops.map (fun l =>
      (l.span.start.row, l.rounds.map fun r => (r.number, r.stable))) =
      [(3, [(1, false), (2, true)]), (1, [(1, false)]), (3, [(1, false), (2, true)])] ∧
    (executionsOf (chronicle ⟨0, true⟩ p)).map (·.ended) = [true, true, false] ∧
    ∀ x ∈ executionsOf (chronicle ⟨0, true⟩ p), x.entry.Settled ↔ x.ended = true := by
  have hloops : (Program.parse interruptedSource).toOption.map (fun p =>
      (Recording.ofEvents (run ⟨0, true⟩ p).2.trace.toList).loops.map fun l =>
        (l.span.start.row, l.rounds.map fun r => (r.number, r.stable))) =
      some [(3, [(1, false), (2, true)]), (1, [(1, false)]), (3, [(1, false), (2, true)])] := by
    decide +kernel
  have hended : (Program.parse interruptedSource).toOption.map (fun p =>
      ((run ⟨0, true⟩ p).1.isOk, (executionsOf (chronicle ⟨0, true⟩ p)).map (·.ended))) =
      some (false, [true, true, false]) := by
    decide +kernel
  cases hp : Program.parse interruptedSource with
  | error failure =>
    rw [hp] at hended
    cases hended
  | ok p =>
    rw [hp] at hloops hended
    obtain ⟨hok, hended⟩ := Prod.mk.inj (Option.some.inj hended)
    obtain ⟨-, -, -, groups, -, -, -, -, hsettled, -⟩ :=
      recording_loses_nothing (loopsOf_parsed hp) ⟨0, true⟩
    exact ⟨p, rfl, hok, Option.some.inj hloops, hended, hsettled⟩

end Analysis
end Signum
