import Signum.Proofs.Analysis.Effects
import Signum.Proofs.Run.History
import Signum.Proofs.Syntax.Nodes
/- What a run shows at a statement, and what the analysis reported there.

   An analysis reports events at the sites of a program and a run observes values there. An
   observation is covered by a trace when it is described by the last event the trace has
   for its site; `coverage` is the promise that a run shows nothing else, up to its first
   inexact operation, and does not divide by zero. -/
namespace Signum

open Logged (Keeps)

namespace Analysis.Event

/-- Where an event was reported. -/
def site : Event → Site
  | .branch s c _ => .branch s c
  | .round s c _ _ _ => .loop s c
  | .print s e _ => .print s e

/-- What was reported. -/
def atom : Event → Atom
  | .branch _ _ a => a
  | .round _ _ _ a _ => a
  | .print _ _ a => a

theorem eq_print {ev : Event} {span : Span} {e : Expr} (h : ev.site = .print span e) :
    ∃ atom, ev = .print span e atom := by
  cases ev <;> cases h
  exact ⟨_, rfl⟩

theorem eq_branch {ev : Event} {span : Span} {c : Cond} (h : ev.site = .branch span c) :
    ∃ verdict, ev = .branch span c verdict := by
  cases ev <;> cases h
  exact ⟨_, rfl⟩

theorem eq_round {ev : Event} {span : Span} {c : Cond} (h : ev.site = .loop span c) :
    ∃ number verdict stable, ev = .round span c number verdict stable := by
  cases ev <;> cases h
  exact ⟨_, _, _, rfl⟩

end Analysis.Event

/-- The site of an observation, with the atom of what was observed there. -/
def Run.Observation.shown : Run.Observation → Option (Site × Atom)
  | .printed s e v => some (.print s e, v.abstract)
  | .branched s c holds => some (.branch s c, Atom.ofBool holds)
  | .looped s c holds => some (.loop s c, Atom.ofBool holds)
  | _ => none

/-- The last event of a trace at a site. -/
def lastAt (site : Site) (trace : List Analysis.Event) : Option Analysis.Event :=
  trace.reverse.find? (·.site = site)

theorem lastAt_append (site : Site) (trace trace' : List Analysis.Event) :
    lastAt site (trace ++ trace') = (lastAt site trace').or (lastAt site trace) := by
  rw [lastAt, List.reverse_append, List.find?_append]
  rfl

theorem lastAt_mem {site : Site} {trace : List Analysis.Event} {e : Analysis.Event}
    (h : lastAt site trace = some e) : e ∈ trace ∧ e.site = site :=
  ⟨List.mem_reverse.mp (List.mem_of_find?_eq_some h), by simpa using List.find?_some h⟩

theorem lastAt_eq_none {site : Site} {trace : List Analysis.Event}
    (h : ∀ e ∈ trace, e.site ≠ site) : lastAt site trace = none := by
  refine List.find?_eq_none.mpr fun e he => ?_
  simpa using h e (List.mem_reverse.mp he)

/-- Events at some sites and then events at others are events at all of them. -/
theorem sites_append {sites sites' : List Site} {trace trace' : List Analysis.Event}
    (h : ∀ e ∈ trace, e.site ∈ sites) (h' : ∀ e ∈ trace', e.site ∈ sites') :
    ∀ e ∈ trace ++ trace', e.site ∈ sites ++ sites' := by
  intro e he
  exact List.mem_append.mpr ((List.mem_append.mp he).imp (h e) (h' e))

/-- An event at the first site before events at the others. -/
theorem sites_cons {sites : List Site} {trace : List Analysis.Event} (e : Analysis.Event)
    (h : ∀ e ∈ trace, e.site ∈ sites) : ∀ e' ∈ e :: trace, e'.site ∈ e.site :: sites :=
  List.forall_mem_cons.mpr ⟨List.mem_cons_self, fun e he => List.mem_cons_of_mem _ (h e he)⟩

/-- An observation is described by the last event at its site. -/
def Covered (trace : List Analysis.Event) (o : Run.Observation) : Prop :=
  ∀ site a, o.shown = some (site, a) →
    ∃ e, lastAt site trace = some e ∧ a.leq e.atom = true

theorem Covered.append_right {trace trace' : List Analysis.Event} {o : Run.Observation}
    (h : Covered trace' o) : Covered (trace ++ trace') o := by
  intro site a ho
  obtain ⟨e, he, hle⟩ := h site a ho
  exact ⟨e, by rw [lastAt_append, he]; rfl, hle⟩

theorem Covered.append_left {trace trace' : List Analysis.Event} {o : Run.Observation}
    (h : Covered trace o) (hd : ∀ e ∈ trace, ∀ e' ∈ trace', e.site ≠ e'.site) :
    Covered (trace ++ trace') o := by
  intro site a ho
  obtain ⟨e, he, hle⟩ := h site a ho
  obtain ⟨hmem, rfl⟩ := lastAt_mem he
  refine ⟨e, ?_, hle⟩
  rw [lastAt_append, lastAt_eq_none fun e' he' => (hd e hmem e' he').symm, he]
  rfl

theorem Covered.single {e : Analysis.Event} {o : Run.Observation} {a : Atom}
    (ho : o.shown = some (e.site, a)) (hle : a.leq e.atom = true) : Covered [e] o := by
  intro site b hb
  obtain ⟨rfl, rfl⟩ : e.site = site ∧ a = b := by simpa [ho] using hb
  exact ⟨e, by simp [lastAt], hle⟩

/-- What is promised of a run next to a trace of the analysis of the same statements. -/
def coverage (sites : List Site) (trace : List Analysis.Event) :
    Promise Run.Halt Run.Observation where
  seen o := sites.Nodup → Covered trace o
  fair o := o.exact = true
  stop h := ∀ span, h ≠ .failed .divisionByZero span

section Coverage
variable {α : Type} {sites sites' : List Site} {trace trace' : List Analysis.Event}
  {x : Run.Observed α} {st : Run.State} {Q : α → Run.State → Prop}

theorem Coverage.weaken (h : Keeps (coverage sites trace) x st Q)
    (hs : sites'.Nodup → sites.Nodup ∧ ∀ o, Covered trace o → Covered trace' o) :
    Keeps (coverage sites' trace') x st Q :=
  Keeps.weaken h (fun o ho hn => (hs hn).2 o (ho (hs hn).1)) (fun _ hf => hf) fun _ ht => ht

/-- What comes before statements of other sites stays covered. -/
theorem Coverage.before (h : Keeps (coverage sites trace) x st Q)
    (ht : ∀ e ∈ trace, e.site ∈ sites) (ht' : ∀ e ∈ trace', e.site ∈ sites') :
    Keeps (coverage (sites ++ sites') (trace ++ trace')) x st Q := by
  refine Coverage.weaken h fun hn => ?_
  obtain ⟨hleft, -, hdisj⟩ := List.nodup_append.mp hn
  exact ⟨hleft, fun o ho => ho.append_left fun e he e' he' =>
    hdisj e.site (ht e he) e'.site (ht' e' he')⟩

theorem Coverage.after (sites : List Site) (trace : List Analysis.Event)
    (h : Keeps (coverage sites' trace') x st Q) :
    Keeps (coverage (sites ++ sites') (trace ++ trace')) x st Q :=
  Coverage.weaken h fun hn => ⟨(List.nodup_append.mp hn).2.1, fun _ ho => ho.append_right⟩

/-- An event at the first site covers what is observed there, whatever comes after it. -/
theorem Coverage.first {e : Analysis.Event} {o : Run.Observation} {a : Atom}
    (ho : o.shown = some (e.site, a)) (hle : a.leq e.atom = true)
    (ht : ∀ e' ∈ trace, e'.site ∈ sites) : (coverage (e.site :: sites) (e :: trace)).seen o := by
  intro hn
  change Covered ([e] ++ trace) o
  refine (Covered.single ho hle).append_left fun e₁ he₁ e' he' heq => ?_
  obtain rfl := List.mem_singleton.mp he₁
  exact (List.nodup_cons.mp hn).1 (heq ▸ ht e' he')

/-- An event at the end of a trace covers what is observed at its site. -/
theorem Coverage.last {e : Analysis.Event} {o : Run.Observation} {a : Atom}
    (ho : o.shown = some (e.site, a)) (hle : a.leq e.atom = true) :
    (coverage sites (trace ++ (trace' ++ [e]))).seen o :=
  fun _ => ((Covered.single ho hle).append_right).append_right

/-- What is between an earlier part of a trace and an event of another site stays covered. -/
theorem Coverage.within {site : Site} (earlier : List Analysis.Event) {e : Analysis.Event}
    (he : e.site = site) (h : Keeps (coverage sites trace) x st Q)
    (ht : ∀ e' ∈ trace, e'.site ∈ sites) :
    Keeps (coverage (site :: sites) (earlier ++ (trace ++ [e]))) x st Q := by
  refine Coverage.weaken h fun hn => ?_
  obtain ⟨hnot, hnodup⟩ := List.nodup_cons.mp hn
  refine ⟨hnodup, fun o ho => (ho.append_left fun e₁ he₁ e' he' heq => ?_).append_right⟩
  obtain rfl := List.mem_singleton.mp he'
  rw [he] at heq
  exact hnot (heq ▸ ht e₁ he₁)

end Coverage
end Signum
