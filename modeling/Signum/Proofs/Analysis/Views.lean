import Signum.Proofs.Analysis.Operations
import Signum.Report.Basic
/- Two views of what is bound.

   What a name is bound to can be looked up, from the innermost scope outward and past the
   variables that are not bound; or all scopes can be listed from the outermost one inward, each
   bound variable written over what is known of its name by then. The two views agree
   (`OneView`), whatever is shadowed and whatever is not bound, as long as no scope has a name
   twice. That holds of every environment that operations make. It also holds of every
   environment in an analysis, of any program and however it ends, since every step of an analysis
   keeps environments well formed (`Forms`); so what a report says of a variable at the end is what
   the analysis would find for it. -/
namespace Signum

namespace Environment

/-- A name that is written over stays where it is, and a new one comes last. -/
theorem names_overwrite (n : Bytes) (a : Atom) (l : List (Bytes × Atom)) :
    (overwrite n a l).map Prod.fst =
      if n ∈ l.map Prod.fst then l.map Prod.fst else l.map Prod.fst ++ [n] := by
  induction l with
  | nil => rfl
  | cons p rest ih =>
    obtain ⟨m, b⟩ := p
    unfold overwrite
    by_cases h : m = n
    · simp [h]
    · rw [if_neg h, List.map_cons, ih]
      by_cases hn : n ∈ rest.map Prod.fst
      · simp [hn]
      · simp [hn, Ne.symm h]

theorem nodup_overwrite {l : List (Bytes × Atom)} (h : (l.map Prod.fst).Nodup) (n : Bytes)
    (a : Atom) : ((overwrite n a l).map Prod.fst).Nodup := by
  rw [names_overwrite]
  split
  · exact h
  · next hn =>
    apply List.Nodup.append h (List.nodup_singleton n)
    exact List.disjoint_singleton.mpr hn

theorem nodup_overlay {known : List (Bytes × Atom)} (h : (known.map Prod.fst).Nodup) (s : Scope) :
    ((overlay s known).map Prod.fst).Nodup := by
  unfold overlay
  induction s generalizing known with
  | nil => exact h
  | cons p rest ih =>
    rw [List.foldl_cons]
    cases p.2.value with
    | some v => exact ih (nodup_overwrite h p.1 v)
    | none => exact ih h

/-- No name is listed twice, even if scopes have names twice. -/
theorem nodup_bound (e : Environment) : (e.bound.map Prod.fst).Nodup := by
  rw [bound_eq_overlay]
  induction e.scopes with
  | nil => exact List.nodup_nil
  | cons s rest ih => exact nodup_overlay ih s

/-- What is listed is what is looked up: each name at most once, with the value found for it, and
a name for which nothing is found not at all. -/
structure OneView (e : Environment) : Prop where
  once : (e.bound.map Prod.fst).Nodup
  listed : ∀ n v, (n, v) ∈ e.bound ↔ e.lookup? n = some v
  omitted : ∀ n, n ∉ e.bound.map Prod.fst ↔ e.lookup? n = none

theorem WellFormed.oneView {e : Environment} (h : e.WellFormed) : e.OneView := by
  have hlookup : ∀ n, e.bound.lookup n = e.lookup? n :=
    lookup_bound fun s hs => (h.opened.2 s hs).nodup
  refine ⟨nodup_bound e, fun n v => ?_, fun n => ?_⟩
  · rw [← hlookup]
    constructor
    · exact Analysis.lookup_of_nodup (nodup_bound e)
    · intro hv
      obtain ⟨l₁, l₂, heq, -⟩ := List.lookup_eq_some_iff.mp hv
      simp [heq]
  · rw [← hlookup, List.lookup_eq_none_iff]
    simp only [List.mem_map, not_exists, not_and, bne_iff_ne, ne_eq]
    exact forall₂_congr fun p _ => not_congr eq_comm

end Environment

namespace Analysis

/-- From a well-formed environment the step leaves a well-formed one, however it ends, and what it
gives is as said. -/
def Forms {α : Type} (m : M α) (P : α → Prop) : Prop :=
  ∀ s, s.env.WellFormed →
    (m.run.run s).2.env.WellFormed ∧ ∀ a, (m.run.run s).1 = .ok a → P a

namespace Forms
variable {α β : Type} {P : α → Prop} {Q : β → Prop}

theorem pure {a : α} (h : P a) : Forms (Pure.pure a) P :=
  fun _ hs => ⟨hs, fun _ heq => Except.ok.inj heq ▸ h⟩

theorem get : Forms MonadState.get fun s => s.env.WellFormed :=
  fun _ hs => ⟨hs, fun _ heq => Except.ok.inj heq ▸ hs⟩

theorem quiet {m : M α} (h : Quiet m) : Forms m fun _ => True := by
  intro s hs
  exact ⟨(h s).1 ▸ hs, fun _ _ => trivial⟩

theorem update {f : State → State} (h : ∀ s, s.env.WellFormed → (f s).env.WellFormed) :
    Forms (modify f : M PUnit) fun _ => True :=
  fun s hs => ⟨h s hs, fun _ _ => trivial⟩

theorem bind {x : M α} {f : α → M β} (hx : Forms x P) (hf : ∀ a, P a → Forms (f a) Q) :
    Forms (x >>= f) Q := by
  intro s hs
  have h := hx s hs
  rw [run_bind]
  generalize x.run.run s = out at h
  obtain ⟨e | a, t⟩ := out
  · exact ⟨h.1, nofun⟩
  · exact hf a (h.2 a rfl) t h.1

end Forms

theorem bind_forms (name : Bytes) (value : Atom) : Forms (bind name value) fun _ => True := by
  refine .bind .get fun s hs => ?_
  cases hb : s.env.bind name value with
  | error f => exact .quiet (.throw _)
  | ok env => exact .update fun _ _ => hs.bind hb

theorem joinIn_forms (other : Environment) : Forms (joinIn other) fun _ => True := by
  refine .bind .get fun s hs => ?_
  exact .bind (.update fun _ _ => hs.join other) fun _ _ => .quiet (.ofSign _)

theorem within_forms {m : M Unit} (h : Forms m fun _ => True) : Forms (within m) fun _ => True := by
  intro s hs
  rw [run_within]
  have hm := h { s with env := s.env.enter } hs.enter
  exact ⟨hm.1.exit, fun _ _ => trivial⟩

/-- The fork that a branch hands back is well formed too. -/
theorem branch_forms {m : M Unit} (h : Forms m fun _ => True) :
    Forms (branch m) Environment.WellFormed := by
  intro s hs
  rw [run_branch]
  have hm := (h { s with env := s.env.fork } hs.fork).1
  generalize m.run.run { s with env := s.env.fork } = out at hm
  have hrestored : ∀ {back copy}, out.2.env.restore = .ok (back, copy) →
      back.WellFormed ∧ copy.WellFormed := fun hr => hm.restore hr
  obtain ⟨(⟨kind, span⟩ | f) | u, t⟩ := out
  · cases hr : t.env.restore with
    | error f => simpa [hr] using hm
    | ok p => simpa [hr, Except.map] using (hrestored hr).1
  · simpa using hm
  · cases hr : t.env.restore with
    | error f => simpa [hr] using hm
    | ok p => simpa [hr, Except.map] using hrestored hr

theorem settle_forms (after : Environment) : Forms (settle after) fun _ => True := by
  refine .bind .get fun s _ => ?_
  split
  · exact .pure trivial
  · exact .bind (joinIn_forms after) fun _ _ => .pure trivial

theorem rounds_forms {config : Config} {span : Span} {c : Cond} {body : M Unit}
    (h : Forms body fun _ => True) (left number : Nat) :
    Forms (rounds config span c body left number) fun _ => True := by
  induction left generalizing number with
  | zero => exact .quiet (.throw _)
  | succ left ih =>
    rw [rounds_succ]
    refine .bind (.quiet (cond_quiet config c)) fun verdict _ => ?_
    refine .bind (branch_forms h) fun after _ => .bind (settle_forms after) fun stable _ => ?_
    refine .bind (.update fun _ hs => hs) fun _ _ => ?_
    split
    · exact .pure trivial
    · exact ih (number + 1)

theorem introduce_forms (d : Decl) : Forms (introduce d) fun _ => True := by
  refine .bind .get fun s hs => ?_
  have hd := hs.declare d.name (domainOf d.type)
  generalize s.env.declare d.name (domainOf d.type) = out at hd
  obtain ⟨isNew, env⟩ := out
  cases isNew with
  | false => exact .quiet (.throw _)
  | true => exact .update fun _ _ => hd

theorem decl_forms (config : Config) (d : Decl) : Forms (decl config d) fun _ => True := by
  rw [decl_eq]
  refine .bind (introduce_forms d) fun _ _ => ?_
  cases d.init with
  | none => exact .pure trivial
  | some e => exact .bind (.quiet (expr_quiet config e)) fun v _ => bind_forms d.name v

mutual

theorem stmt_forms (config : Config) : (s : Stmt) → Forms (stmt config s) fun _ => True
  | .assign name value _ => by
    unfold stmt
    exact .bind (.quiet (expr_quiet config value)) fun v _ => bind_forms name v
  | .print value s => by
    unfold stmt
    refine .bind (.quiet (expr_quiet config value)) fun v _ => ?_
    exact .bind (.update fun _ hs => hs) fun _ _ => .update fun _ hs => hs
  | .block body _ => by
    unfold stmt
    exact within_forms (items_forms config body)
  | .ite c yes none s => by
    unfold stmt
    refine .bind (.quiet (cond_quiet config c)) fun v _ => .bind (.update fun _ hs => hs) fun _ _ => ?_
    refine .bind (branch_forms (stmt_forms config yes)) fun inYes _ => ?_
    exact .bind (joinIn_forms inYes) fun _ _ => .pure trivial
  | .ite c yes (some no) s => by
    unfold stmt
    refine .bind (.quiet (cond_quiet config c)) fun v _ => .bind (.update fun _ hs => hs) fun _ _ => ?_
    refine .bind (branch_forms (stmt_forms config yes)) fun inYes hyes => ?_
    refine .bind (branch_forms (stmt_forms config no)) fun inNo _ => ?_
    -- the scopes of the joined branches are taken over, and what was set aside is kept
    have hjoined := hyes.join inNo
    refine .bind (.quiet (.ofSign _)) fun _ _ => .update fun s hs => ?_
    exact ⟨hjoined.opened, hs.stashed⟩
  | .loop c body s => by
    unfold stmt
    exact .bind .get fun _ _ => rounds_forms (stmt_forms config body) _ _

theorem item_forms (config : Config) : (u : Item) → Forms (item config u) fun _ => True
  | .decl d => by
    unfold item
    exact decl_forms config d
  | .stmt s => by
    unfold item
    exact stmt_forms config s

theorem items_forms (config : Config) : (us : List Item) → Forms (items config us) fun _ => True
  | [] => by
    unfold items
    exact .pure trivial
  | u :: rest => by
    unfold items
    exact .bind (item_forms config u) fun _ _ => items_forms config rest

end

/-- The environment of an analysis is well formed, of any program and however it ends. -/
theorem run_wellFormed (config : Config) (p : Program) : (run config p).2.env.WellFormed :=
  (items_forms config p.units State.start .fresh).1

end Analysis

/-- The variables of a report are those of the environment in which its analysis ended. -/
theorem Report.variables_of_build {config : Analysis.Config} {name : Bytes} {p : Program}
    {declared : List Variable} {report : Report} (h : build config name p declared = .ok report) :
    report.variables = finals declared (Analysis.run config p).2.env := by
  unfold build at h
  split at h
  · cases h
  · dsimp only at h
    split at h
    · cases h
      rfl
    · cases h
      rfl
    · cases h

/-- What is listed as bound and what is looked up are one view, whatever is shadowed and whatever
is not bound: in every environment that operations make, faults included, and in the one that an
analysis leaves, of any program and however it ends. So each global variable of a report has the
sign that is found for it in the environment its analysis left. -/
theorem bound_and_lookup_agree :
    (∀ ops : List Environment.Operation, ∀ e ∈ ops.foldl Environment.perform [], e.OneView) ∧
    (∀ config p, (Analysis.run config p).2.env.OneView) ∧
    ∀ config name p declared report, Report.build config name p declared = .ok report →
      report.variables = declared.map fun v => ⟨v, if v.depth = 0 then
        (Analysis.run config p).2.env.lookup? v.name else none⟩ := by
  refine ⟨fun ops e he => ?_, fun config p => ?_, fun config name p declared report hbuild => ?_⟩
  · exact (Environment.performAll_wellFormed (by simp) ops e he).oneView
  · exact (Analysis.run_wellFormed config p).oneView
  · have hform := Analysis.run_wellFormed config p
    rw [Report.variables_of_build hbuild]
    refine List.map_congr_left fun v _ => ?_
    rw [Environment.lookup_bound fun s hs => (hform.opened.2 s hs).nodup]

namespace Layers

/-- Three scopes. The outermost one binds `x`, the one in it has an `x` that is not bound and binds
`y`, and the innermost one has a `y` and a `z` that are not bound. -/
def operations : List Environment.Operation :=
  [.fresh, .on 0 (.declare [120] .int), .on 0 (.bind [120] (.int .pos)), .on 0 .enter,
    .on 0 (.declare [120] .float), .on 0 (.declare [121] .float), .on 0 (.bind [121] (.float .zero)),
    .on 0 .enter, .on 0 (.declare [121] .int), .on 0 (.declare [122] .bool)]

/-- The program `int x = 1;`, with an empty comment. -/
def program : Program :=
  let place : Span := ⟨⟨0, 0⟩, ⟨0, 10⟩⟩
  ⟨[.decl ⟨.int, [120], some (.int 1 place), place⟩], [], place⟩

/-- The only variable of the program. -/
def only : Variable := ⟨[120], .int, program.span, 0, 0⟩

/-- Variables that are not bound hide nothing, and what is not bound anywhere is not listed. A
report on a program has the sign of its variable. -/
theorem bound_and_lookup_agree_shadowed :
    (∃ e ∈ operations.foldl Environment.perform [], e.depth = 3 ∧
      e.lookup? [120] = some (.int .pos) ∧ ([120], .int .pos) ∈ e.bound ∧
      e.lookup? [121] = some (.float .zero) ∧ ([121], .float .zero) ∈ e.bound ∧
      e.lookup? [122] = none ∧ [122] ∉ e.bound.map Prod.fst) ∧
    ∃ report, Report.build ⟨0, true⟩ [] program [only] = .ok report ∧
      report.variables = [⟨only, some (.int .pos)⟩] := by
  obtain ⟨hoperations, -, hreport⟩ := bound_and_lookup_agree
  have hview := hoperations operations _ List.mem_cons_self
  refine ⟨⟨_, List.mem_cons_self, rfl, by decide, (hview.listed _ _).mpr (by decide), by decide,
    (hview.listed _ _).mpr (by decide), by decide, (hview.omitted _).mpr (by decide)⟩, ?_⟩
  obtain ⟨report, hbuild⟩ : ∃ report, Report.build ⟨0, true⟩ [] program [only] = .ok report :=
    ⟨_, rfl⟩
  exact ⟨report, hbuild, (hreport _ _ _ _ _ hbuild).trans (by rfl)⟩

end Layers
end Signum
