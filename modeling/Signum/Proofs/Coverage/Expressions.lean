import Signum.Proofs.Coverage.Events
import Signum.Proofs.Coverage.Tracking
import Signum.Proofs.Sign.Soundness
/- Expressions and conditions: a run gets what the analysis describes.

   Where store and environment agree on the assigned variables, the value of an accepted
   expression is described by the atom the analysis computed for it, unless an operation on
   the way was inexact or the input could not be read; in particular no divisor is zero.
   A condition that skips its right part comes to what the tables say all the same. -/
namespace Signum

open Logged (Keeps)
open Check (Typed TypedCond Coherent)
open Analysis (ReadsTop Readable)

/-- Store and environment agree on the assigned variables in sight. -/
def Agrees (scopes : Scopes) (assigned : List Nat) (env : Environment) (store : Store) : Prop :=
  ∀ name v, scopes.search? name = some (.variable v) → v.number ∈ assigned →
    ∃ x a, store.lookup? name = some x ∧ env.lookup? name = some a ∧ x.type? = some v.type ∧
      x.abstract.leq a = true

theorem Agrees.readable {scopes : Scopes} {assigned : List Nat} {env : Environment} {store : Store}
    (h : Agrees scopes assigned env store) : Readable scopes assigned env := by
  intro name v hv ha
  obtain ⟨x, a, -, hlook, hx, hle⟩ := h name v hv ha
  refine ⟨a, hlook, ?_⟩
  rw [← Atom.domain_eq_of_leq hle, Value.abstract_eq hx, Analysis.domain_signed]

theorem Agrees.congr {scopes : Scopes} {assigned : List Nat} {env env' : Environment}
    {store : Store} (h : Agrees scopes assigned env store)
    (heq : ∀ name, env'.lookup? name = env.lookup? name) :
    Agrees scopes assigned env' store := by
  intro name v hv ha
  rw [heq]
  exact h name v hv ha

/-- A store that tracks an environment agrees with it. -/
theorem Tracks.agrees {x : Bytes} {t : Standing} {c : Context} {env : Environment} {store : Store}
    (h : Tracks x t c env.scopes store) (hc : Coherent c) (henv : EnvironmentFits c env)
    (hstore : StoreFits c store) : Agrees c.scopes c.assigned env store := by
  intro name v hv ha
  obtain ⟨i, slot, hcell, hi, hslot, hsf⟩ := henv.cells.nearest hv
  obtain ⟨j, w, hcell', hj, hw, hcf⟩ := Fits.nearest hstore hv
  obtain ⟨rfl, -⟩ := hc.same_cell hcell hcell' rfl
  obtain ⟨y, rfl⟩ := Option.isSome_iff_exists.mp (hcf.bound ha)
  obtain ⟨a, hheld, hle⟩ := h.assigned i name v hcell ha y hw
  obtain ⟨slot', hslot', hval⟩ := Environment.held_eq_some.mp hheld
  refine ⟨y, a, ?_, Environment.lookup?_nearest hi hslot' hval, hcf.value y rfl, hle⟩
  rw [Store.lookup?_eq_cell hj, hw]
  rfl

section Expressions
variable {config : Analysis.Config} {scopes : Scopes} {assigned : List Nat}
  {types : List (Expr × NumType)} {sites : List Site} {trace : List Analysis.Event}
  {a a' : Analysis.State} {st : Run.State}

theorem expr_reads {e : Expr} {t : NumType} {r : Atom} (ht : Typed scopes assigned types e t)
    (henv : Readable scopes assigned a.env) (hreads : ReadsTop a.reads)
    (h : Succeeds (Analysis.expr config e) a r a') :
    r.domain = Analysis.domainOf t ∧ a'.env = a.env ∧ ReadsTop a'.reads := by
  exact (Analysis.expr_safe ht henv hreads).of_succeeds (fun _ => trivial)
    ((Analysis.observing_faithful config).expr e) h

theorem cond_reads {b : Cond} {r : Atom} (hb : TypedCond scopes assigned types b)
    (henv : Readable scopes assigned a.env) (hreads : ReadsTop a.reads)
    (h : Succeeds (Analysis.cond config b) a r a') :
    (∃ q, r = .bool q) ∧ a'.env = a.env ∧ ReadsTop a'.reads := by
  exact (Analysis.cond_safe hb henv hreads).of_succeeds (fun _ => trivial)
    ((Analysis.observing_faithful config).cond b) h

/-- Noting the value of an expression is always as promised. -/
theorem computed_covered {e : Expr} {v : Value} {Q : Value → Run.State → Prop} (hq : Q v st) :
    Keeps (coverage sites trace) (Run.observing.computed e v) st Q :=
  Keeps.bind (Keeps.note (fun _ _ _ h => by cases h) fun _ => Keeps.pure hq)

/-- A read gives a number of its type, which the top of the type describes. -/
theorem take_covered {α : Type} {read : Input → Option α × Input} {s : Span} {wrap : α → Value}
    {t : NumType} {e : Expr} (hwrap : ∀ v, (wrap v).type? = some t)
    (he : Run.expr e = do pure (wrap (← Run.take read s))) :
    Keeps (coverage sites trace) (Logged.lift (Run.expr e) >>= Run.observing.computed e) st
      fun v st' => v.type? = some t ∧ v.abstract.leq (Analysis.topOf t) = true ∧
        st'.store = st.store := by
  refine Keeps.bind (Keeps.lift ?_)
  rw [he]
  simp only [Run.take, run_bind, run_get, run_modify]
  cases (read st.input).1 with
  | none => exact fun span h => by cases h
  | some v =>
    refine computed_covered ⟨hwrap v, ?_, rfl⟩
    rw [Value.abstract_eq (hwrap v)]
    cases t <;> exact Bool.or_true _

/-- A read of the analysis gives the top of its type. -/
theorem read_eq_top {t : NumType} {span : Span} {r : Atom} (hreads : ReadsTop a.reads)
    (h : Succeeds (Analysis.read config t span) a r a') : r = Analysis.topOf t := by
  obtain ⟨_, htop, -⟩ := Analysis.read_top config t span hreads
  exact (h.unique htop).1

theorem expr_covered {e : Expr} {t : NumType} {r : Atom} (ht : Typed scopes assigned types e t)
    (hagree : Agrees scopes assigned a.env st.store) (hreads : ReadsTop a.reads)
    (h : Succeeds (Analysis.expr config e) a r a') :
    Keeps (coverage sites trace) (Run.observing.expr e) st fun v st' =>
      v.type? = some t ∧ v.abstract.leq r = true ∧ st'.store = st.store := by
  induction ht generalizing a a' r st with
  | int _ =>
    obtain ⟨rfl, -⟩ := succeeds_pure.mp h
    refine Keeps.bind (Keeps.lift_ok (succeeds_pure.mpr ⟨rfl, rfl⟩) (computed_covered ?_))
    exact ⟨rfl, Atom.leq_refl _, rfl⟩
  | float _ =>
    obtain ⟨rfl, -⟩ := succeeds_pure.mp h
    refine Keeps.bind (Keeps.lift_ok (succeeds_pure.mpr ⟨rfl, rfl⟩) (computed_covered ?_))
    exact ⟨rfl, Atom.leq_refl _, rfl⟩
  | readInt _ =>
    obtain rfl := read_eq_top hreads h
    exact take_covered (fun _ => rfl) rfl
  | readFloat _ =>
    obtain rfl := read_eq_top hreads h
    exact take_covered (fun _ => rfl) rfl
  | @var name s v hv ha _ =>
    obtain ⟨x, r', hx, hlook, hxt, hle⟩ := hagree name v hv ha
    simp only [Analysis.expr, succeeds_get_bind, hlook] at h
    obtain ⟨rfl, -⟩ := succeeds_pure.mp h
    refine Keeps.bind (Keeps.lift_ok (a := x) (t := st) ?_ (computed_covered ⟨hxt, hle, rfl⟩))
    simp only [Run.expr, succeeds_get_bind, hx]
    exact succeeds_pure.mpr ⟨rfl, rfl⟩
  | neg _ _ ih =>
    simp only [Analysis.expr, succeeds_bind, Analysis.succeeds_ofSign] at h
    obtain ⟨q, a₁, he, hneg, -⟩ := h
    refine Keeps.bind ((ih hagree hreads he).mono ?_)
    rintro v st₁ ⟨hv, hle, hst⟩
    refine Keeps.bind (Keeps.note (fun _ _ _ h => by cases h) fun hexact => ?_)
    exact computed_covered ⟨(Run.negate_type v).trans hv, Run.negate_sound hv hle hexact hneg, hst⟩
  | @binary op l r' s t hl hr _ ihl ihr =>
    simp only [Analysis.expr, succeeds_bind, Analysis.succeeds_ofSign] at h
    obtain ⟨p, a₁, hel, q, a₂, her, w, _, ⟨hop, rfl⟩, h⟩ := h
    obtain ⟨-, henv, hreads₁⟩ := expr_reads hl hagree.readable hreads hel
    split at h
    · exact (succeeds_throw.mp h).elim
    · next hlegal =>
      obtain ⟨rfl, -⟩ := succeeds_pure.mp h
      refine Keeps.bind ((ihl hagree hreads hel).mono ?_)
      rintro v st₁ ⟨hv, hvp, hst₁⟩
      have hagree₁ : Agrees scopes assigned a₁.env st₁.store := by rw [henv, hst₁]; exact hagree
      refine Keeps.bind ((ihr hagree₁ hreads₁ her).mono ?_)
      rintro u st₂ ⟨hu, huq, hst₂⟩
      refine Keeps.bind (Keeps.note (fun _ _ _ h => by cases h) fun hexact => ?_)
      obtain ⟨z, hz, hzt, hzle⟩ := Run.arith_sound (s := s) hv hu hvp huq hexact hop hlegal
      rw [hz]
      refine Keeps.bind (Keeps.lift_ok (succeeds_pure.mpr ⟨rfl, rfl⟩) (computed_covered ?_))
      exact ⟨hzt, hzle, hst₂.trans hst₁⟩

/-- A logical operator goes on to its right part unless the left one comes to `d`, which
decides it. -/
theorem logical_covered {x y : Run.Observed Bool} {f : Bool → Run.Observed Bool} {d : Bool}
    {p q r : Truth} (hstop : f d = pure d) (hgo : f (!d) = y)
    (hl : Keeps (coverage sites trace) x st fun holds st₁ =>
      (Atom.ofBool holds).leq (.bool p) = true ∧ st₁.store = st.store)
    (hr : ∀ st₁ : Run.State, st₁.store = st.store →
      Keeps (coverage sites trace) y st₁ fun holds st₂ =>
        (Atom.ofBool holds).leq (.bool q) = true ∧ st₂.store = st.store)
    (hdecided : (Truth.ofBool d).leq p = true → (Truth.ofBool d).leq r = true)
    (hopen : ∀ {holds}, (Truth.ofBool !d).leq p = true → (Truth.ofBool holds).leq q = true →
      (Truth.ofBool holds).leq r = true) :
    Keeps (coverage sites trace) (x >>= f) st fun holds st₂ =>
      (Atom.ofBool holds).leq (.bool r) = true ∧ st₂.store = st.store := by
  refine Keeps.bind (hl.mono ?_)
  rintro holds st₁ ⟨hle, hst₁⟩
  rw [Analysis.leq_ofBool] at hle
  by_cases hd : holds = d
  · rw [hd] at hle ⊢
    rw [hstop]
    refine Keeps.pure ⟨?_, hst₁⟩
    rw [Analysis.leq_ofBool]
    exact hdecided hle
  · rw [Bool.eq_not_of_ne hd] at hle ⊢
    rw [hgo]
    refine (hr st₁ hst₁).mono fun holds' st₂ h => ⟨?_, h.2⟩
    have hle' := h.1
    rw [Analysis.leq_ofBool] at hle' ⊢
    exact hopen hle hle'

theorem cond_covered {b : Cond} {r : Atom} (hb : TypedCond scopes assigned types b)
    (hagree : Agrees scopes assigned a.env st.store) (hreads : ReadsTop a.reads)
    (h : Succeeds (Analysis.cond config b) a r a') :
    Keeps (coverage sites trace) (Run.observing.cond b) st fun holds st' =>
      (Atom.ofBool holds).leq r = true ∧ st'.store = st.store := by
  induction hb generalizing a a' r st with
  | @compare op l r' s t hl hr =>
    simp only [Analysis.cond, succeeds_bind, Analysis.succeeds_ofSign] at h
    obtain ⟨p, a₁, hel, q, a₂, her, hop, -⟩ := h
    obtain ⟨-, henv, hreads₁⟩ := expr_reads hl hagree.readable hreads hel
    refine Keeps.bind ((expr_covered hl hagree hreads hel).mono ?_)
    rintro v st₁ ⟨hv, hvp, hst₁⟩
    have hagree₁ : Agrees scopes assigned a₁.env st₁.store := by rw [henv, hst₁]; exact hagree
    refine Keeps.bind ((expr_covered hr hagree₁ hreads₁ her).mono ?_)
    rintro u st₂ ⟨hu, huq, hst₂⟩
    exact Keeps.pure ⟨Run.compare_sound hv hu hvp huq hop, hst₂.trans hst₁⟩
  | @logical op l r' s hl hr ihl ihr =>
    simp only [Analysis.cond, succeeds_bind, Analysis.succeeds_ofSign] at h
    obtain ⟨p, a₁, hel, q, a₂, her, hop, -⟩ := h
    obtain ⟨⟨p, rfl⟩, henv, hreads₁⟩ := cond_reads hl hagree.readable hreads hel
    have hread₁ : Readable scopes assigned a₁.env := by rw [henv]; exact hagree.readable
    obtain ⟨⟨q, rfl⟩, -, -⟩ := cond_reads hr hread₁ hreads₁ her
    have hleft := ihl hagree hreads hel
    have hright (st₁ : Run.State) (hst₁ : st₁.store = st.store) :
        Keeps (coverage sites trace) (Run.observing.cond r') st₁ fun holds st₂ =>
          (Atom.ofBool holds).leq (.bool q) = true ∧ st₂.store = st.store := by
      have hagree₁ : Agrees scopes assigned a₁.env st₁.store := by rw [henv, hst₁]; exact hagree
      exact (ihr hagree₁ hreads₁ her).mono fun _ _ h => ⟨h.1, h.2.trans hst₁⟩
    cases op with
    | and =>
      obtain rfl : Atom.bool (p.and q) = r := Except.ok.inj hop
      exact logical_covered (d := false) rfl rfl hleft hright Truth.and_of_no Truth.and_mono
    | or =>
      obtain rfl : Atom.bool (p.or q) = r := Except.ok.inj hop
      exact logical_covered (d := true) rfl rfl hleft hright Truth.or_of_yes Truth.or_mono
  | not hb ih =>
    simp only [Analysis.cond, succeeds_bind, Analysis.succeeds_ofSign] at h
    obtain ⟨p, a₁, he, hop, -⟩ := h
    obtain ⟨⟨p, rfl⟩, -, -⟩ := cond_reads hb hagree.readable hreads he
    obtain rfl : Atom.bool p.not = r := Except.ok.inj hop
    refine Keeps.bind ((ih hagree hreads he).mono ?_)
    rintro holds st₁ ⟨hle, hst₁⟩
    refine Keeps.pure ⟨?_, hst₁⟩
    rw [Analysis.leq_ofBool] at hle ⊢
    exact Truth.not_mono hle

end Expressions
end Signum
