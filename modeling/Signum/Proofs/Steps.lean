import Mathlib.Tactic.Basic
/- Steps that may stop and change a state, and steps that leave a history.

   The checker, the analysis and the run are all steps of one kind. `Succeeds m s
   a s'` says that the step `m` started in `s` ends well, with the value `a` and the
   state `s'`; the lemmas below take a success of a composed step apart.

   A `Logged` step is a step that also notes what happens while it is taken.
   Forgetting the notes is `forget`, which respects how steps are composed, so a
   logged copy of an interpreter can be proved to be the interpreter. `Keeps` is the
   one judgement used about logged steps: a promise says what holds of each note,
   which notes a fair step makes, and how a fair step may stop. Notes are promised
   up to the first unfair one and the outcome only of steps that stay fair, so a
   promise speaks of every part of a run that has been fair so far. -/
namespace Signum

section Succeeds
variable {ε σ α β : Type}

/-- The step, taken in `s`, ends well with `a` and leaves `s'`. -/
def Succeeds (m : ExceptT ε (StateM σ) α) (s : σ) (a : α) (s' : σ) : Prop :=
  m.run.run s = (.ok a, s')

/-- A step ends in one way. -/
theorem Succeeds.unique {m : ExceptT ε (StateM σ) α} {s s' s'' : σ} {a b : α}
    (h : Succeeds m s a s') (h' : Succeeds m s b s'') : a = b ∧ s' = s'' := by
  unfold Succeeds at h h'
  rw [h] at h'
  cases h'
  exact ⟨rfl, rfl⟩

theorem run_bind (x : ExceptT ε (StateM σ) α) (f : α → ExceptT ε (StateM σ) β) (s : σ) :
    (x >>= f).run.run s = match x.run.run s with
      | (.ok a, s') => (f a).run.run s'
      | (.error e, s') => (.error e, s') := by
  change (match x.run.run s with | (r, s') => (ExceptT.bindCont f r).run s') = _
  cases x.run.run s with
  | mk r s' => cases r <;> rfl

theorem run_get (s : σ) : (get : ExceptT ε (StateM σ) σ).run.run s = (.ok s, s) := rfl

theorem run_modify (f : σ → σ) (s : σ) :
    (modify f : ExceptT ε (StateM σ) PUnit).run.run s = (.ok ⟨⟩, f s) := rfl

theorem succeeds_pure {a b : α} {s s' : σ} :
    Succeeds (ε := ε) (pure a) s b s' ↔ a = b ∧ s = s' := by
  change ((Except.ok a : Except ε α), s) = (.ok b, s') ↔ _
  simp

theorem succeeds_bind {x : ExceptT ε (StateM σ) α} {f : α → ExceptT ε (StateM σ) β}
    {s s' : σ} {b : β} :
    Succeeds (x >>= f) s b s' ↔ ∃ a t, Succeeds x s a t ∧ Succeeds (f a) t b s' := by
  unfold Succeeds
  rw [run_bind]
  constructor
  · intro h
    split at h
    · next a t hx => exact ⟨a, t, hx, h⟩
    · cases h
  · rintro ⟨a, t, hx, hf⟩
    rw [hx]
    exact hf

theorem succeeds_get {s a s' : σ} :
    Succeeds (ε := ε) (get : ExceptT ε (StateM σ) σ) s a s' ↔ s = a ∧ s = s' := by
  change ((Except.ok s : Except ε σ), s) = (.ok a, s') ↔ _
  simp

theorem succeeds_get_bind {f : σ → ExceptT ε (StateM σ) β} {s s' : σ} {b : β} :
    Succeeds (get >>= f) s b s' ↔ Succeeds (f s) s b s' := Iff.rfl

theorem succeeds_modify {f : σ → σ} {s s' : σ} {u : PUnit} :
    Succeeds (ε := ε) (modify f : ExceptT ε (StateM σ) PUnit) s u s' ↔ f s = s' := by
  change ((Except.ok PUnit.unit : Except ε PUnit), f s) = (.ok u, s') ↔ _
  simp

theorem succeeds_throw {e : ε} {s s' : σ} {a : α} :
    Succeeds (throw e : ExceptT ε (StateM σ) α) s a s' ↔ False := by
  change ((Except.error e : Except ε α), s) = (.ok a, s') ↔ _
  simp

theorem ite_bind {c : Prop} [Decidable c] {x y : ExceptT ε (StateM σ) α}
    {f : α → ExceptT ε (StateM σ) β} :
    (if c then x else y) >>= f = if c then x >>= f else y >>= f := by
  split <;> rfl

theorem throw_bind {e : ε} {f : α → ExceptT ε (StateM σ) β} :
    (throw e : ExceptT ε (StateM σ) α) >>= f = throw e := rfl

end Succeeds

/-- How a logged step went: its result, the state it left and what it noted. -/
structure Outcome (ε σ ω α : Type) where
  result : Except ε α
  state : σ
  history : List ω

/-- A step that notes what happens. -/
def Logged (ε σ ω α : Type) : Type := σ → Outcome ε σ ω α

namespace Logged
variable {ε σ ω α β : Type}

instance : Monad (Logged ε σ ω) where
  pure a := fun s => ⟨.ok a, s, []⟩
  bind x f := fun s =>
    match (x s).result with
    | .ok a =>
      let next := f a (x s).state
      { next with history := (x s).history ++ next.history }
    | .error e => ⟨.error e, (x s).state, (x s).history⟩

/-- Notes one thing. -/
def note (o : ω) : Logged ε σ ω PUnit := fun s => ⟨.ok ⟨⟩, s, [o]⟩

/-- A step that notes nothing. -/
def lift (m : ExceptT ε (StateM σ) α) : Logged ε σ ω α :=
  fun s => ⟨(m.run.run s).1, (m.run.run s).2, []⟩

/-- Takes a step in a changed state and changes the state back after it, whatever
happens. -/
def around (before after : σ → σ) (x : Logged ε σ ω α) : Logged ε σ ω α :=
  fun s => { x (before s) with state := after (x (before s)).state }

/-- The step without its notes. -/
def forget (x : Logged ε σ ω α) : ExceptT ε (StateM σ) α :=
  ExceptT.mk fun s => ((x s).result, (x s).state)

theorem run_forget (x : Logged ε σ ω α) (s : σ) :
    x.forget.run.run s = ((x s).result, (x s).state) := rfl

@[simp] theorem forget_pure (a : α) : (pure a : Logged ε σ ω α).forget = pure a := rfl

@[simp] theorem forget_note (o : ω) : (note o : Logged ε σ ω PUnit).forget = pure ⟨⟩ := rfl

@[simp] theorem forget_lift (m : ExceptT ε (StateM σ) α) :
    (lift m : Logged ε σ ω α).forget = m := rfl

@[simp] theorem forget_bind (x : Logged ε σ ω α) (f : α → Logged ε σ ω β) :
    (x >>= f).forget = x.forget >>= fun a => (f a).forget := by
  apply ExceptT.ext
  funext s
  change ((x >>= f).forget).run.run s = (x.forget >>= fun a => (f a).forget).run.run s
  rw [run_bind, run_forget, run_forget]
  change ((bind x f : Logged ε σ ω β) s |>.result, _) = _
  simp only [bind]
  split
  · next a h =>
    simp only [h]
    rfl
  · next e h => simp only [h]

@[simp] theorem forget_ite (c : Prop) [Decidable c] (x y : Logged ε σ ω α) :
    (if c then x else y).forget = if c then x.forget else y.forget := by
  split <;> rfl

section Bind
variable {x : Logged ε σ ω α} {f : α → Logged ε σ ω β} {s : σ}

theorem bind_of_ok {a : α} (h : (x s).result = .ok a) : (x >>= f) s =
    { f a (x s).state with history := (x s).history ++ (f a (x s).state).history } := by
  simp only [Bind.bind, h]

theorem bind_of_error {e : ε} (h : (x s).result = .error e) :
    (x >>= f) s = ⟨.error e, (x s).state, (x s).history⟩ := by
  simp only [Bind.bind, h]

end Bind

instance : LawfulMonad (Logged ε σ ω) := by
  refine LawfulMonad.mk' _ (fun x => ?_) (fun _ _ => rfl) (fun x f g => ?_)
  · funext s
    cases hx : (x s).result with
    | error e =>
      have h : (id <$> x) s = ⟨.error e, (x s).state, (x s).history⟩ := bind_of_error hx
      rw [h, ← hx]
    | ok a =>
      have h : (id <$> x) s = ⟨.ok a, (x s).state, (x s).history ++ []⟩ := bind_of_ok hx
      rw [h, ← hx, List.append_nil]
  · funext s
    cases hx : (x s).result with
    | error e =>
      have h := bind_of_error (f := f) hx
      rw [bind_of_error (by rw [h]), h, bind_of_error hx]
    | ok a =>
      have h := bind_of_ok (f := f) hx
      rw [bind_of_ok hx]
      cases hf : (f a (x s).state).result with
      | error e => rw [bind_of_error (by rw [h, hf]), h, bind_of_error hf]
      | ok b => rw [bind_of_ok (by rw [h, hf]), h, bind_of_ok hf, List.append_assoc]

@[simp] theorem forget_map (f : α → β) (x : Logged ε σ ω α) :
    (f <$> x).forget = f <$> x.forget := by
  rw [map_eq_pure_bind, map_eq_pure_bind, forget_bind]
  rfl

/-- Seen through what `view` keeps of its states, and without its notes, the logged step is the
other one. -/
def Erases {τ : Type} (view : σ → τ) (x : Logged ε σ ω α) (m : ExceptT ε (StateM τ) α) : Prop :=
  ∀ s, ((x s).result, view (x s).state) = m.run.run (view s)

namespace Erases
variable {γ τ : Type} {view : σ → τ} {x y : Logged ε σ ω α} {m : ExceptT ε (StateM τ) α}
  {f : α → Logged ε σ ω β} {g : α → ExceptT ε (StateM τ) β}

protected theorem forget {m : ExceptT ε (StateM σ) α} (h : Erases id x m) : x.forget = m := by
  apply ExceptT.ext
  funext s
  exact h s

theorem congr (hx : Erases view x m) (h : y.forget = x.forget) : Erases view y m := by
  intro s
  rw [← hx s]
  have hs : y.forget.run.run s = x.forget.run.run s := by rw [h]
  rw [run_forget, run_forget] at hs
  obtain ⟨hr, ht⟩ := Prod.mk.inj hs
  rw [hr, ht]

theorem pure (a : α) : Erases view (Pure.pure a : Logged ε σ ω α) (Pure.pure a) := fun _ => rfl

/-- A step, of whose value only a part is known without notes, and what follows it. -/
theorem bind_map {shown : α → γ} {m : ExceptT ε (StateM τ) γ} {g : γ → ExceptT ε (StateM τ) β}
    (hx : Erases view (shown <$> x) m) (hf : ∀ a, Erases view (f a) (g (shown a))) :
    Erases view (x >>= f) (m >>= g) := by
  intro s
  have h := hx s
  rw [run_bind]
  cases hr : (x s).result with
  | error e =>
    have hs : (shown <$> x) s = ⟨.error e, (x s).state, (x s).history⟩ := bind_of_error hr
    rw [← h, hs, bind_of_error hr]
  | ok a =>
    have hs : (shown <$> x) s = ⟨.ok (shown a), (x s).state, (x s).history ++ []⟩ :=
      bind_of_ok hr
    rw [← h, hs, bind_of_ok hr]
    exact hf a (x s).state

theorem bind (hx : Erases view x m) (hf : ∀ a, Erases view (f a) (g a)) :
    Erases view (x >>= f) (m >>= g) := by
  intro s
  rw [run_bind, ← hx s]
  simp only [Bind.bind]
  cases (x s).result with
  | error e => rfl
  | ok a => exact hf a (x s).state

/-- What is only noted of a value is not seen. -/
theorem noted {f : α → Logged ε σ ω α} (hx : Erases view x m)
    (hf : ∀ a, Erases view (f a) (Pure.pure a)) : Erases view (x >>= f) m := by
  have h := hx.bind hf
  rwa [bind_pure] at h

/-- A step that only notes something is not seen. -/
theorem skip {y : Logged ε σ ω PUnit} (hy : Erases view y (Pure.pure ⟨⟩)) (hx : Erases view x m) :
    Erases view (y >>= fun _ => x) m := by
  have h := hy.bind fun _ => hx
  rwa [pure_bind] at h

/-- The same for a step with a value that is of use to notes only. -/
theorem skip_map {y : Logged ε σ ω γ} {x : γ → Logged ε σ ω α}
    (hy : Erases view ((fun _ => PUnit.unit) <$> y) (Pure.pure ⟨⟩))
    (hx : ∀ c, Erases view (x c) m) : Erases view (y >>= x) m := by
  have h := hy.bind_map (g := fun _ => m) hx
  rwa [pure_bind] at h

theorem ite {c : Prop} [Decidable c] {m' : ExceptT ε (StateM τ) α} (hx : Erases view x m)
    (hy : Erases view y m') : Erases view (if c then x else y) (if c then m else m') := by
  split
  · exact hx
  · exact hy

end Erases

end Logged

/-- What is promised of a logged step. -/
structure Promise (ε ω : Type) where
  /-- What holds of each note, up to the first unfair one. -/
  seen : ω → Prop
  /-- The notes of a step that the promise goes on about. -/
  fair : ω → Prop
  /-- How a fair step may stop. -/
  stop : ε → Prop

/-- Every note is as promised, up to and with the first unfair one. -/
def Promise.History {ε ω : Type} (p : Promise ε ω) : List ω → Prop
  | [] => True
  | o :: rest => p.seen o ∧ (p.fair o → p.History rest)

namespace Promise
variable {ε ω : Type} {p : Promise ε ω}

theorem history_append {l₁ l₂ : List ω} :
    p.History (l₁ ++ l₂) ↔ p.History l₁ ∧ ((∀ o ∈ l₁, p.fair o) → p.History l₂) := by
  induction l₁ with
  | nil => simp [History]
  | cons o rest ih =>
    simp only [List.cons_append, History, ih, List.mem_cons, forall_eq_or_imp]
    constructor
    · rintro ⟨ho, h⟩
      exact ⟨⟨ho, fun f => (h f).1⟩, fun f => (h f.1).2 f.2⟩
    · rintro ⟨⟨ho, h₁⟩, h₂⟩
      exact ⟨ho, fun f => ⟨h₁ f, fun fs => h₂ ⟨f, fs⟩⟩⟩

/-- A note that only fair ones precede is as promised. -/
theorem History.seen_of_fair {before after : List ω} {o : ω}
    (h : p.History (before ++ o :: after)) (fair : ∀ x ∈ before, p.fair x) : p.seen o :=
  ((history_append.mp h).2 fair).1

theorem History.seen_of_mem {l : List ω} {o : ω} (h : p.History l) (hp : ∀ x, p.fair x)
    (ho : o ∈ l) : p.seen o := by
  obtain ⟨before, after, rfl⟩ := List.append_of_mem ho
  exact h.seen_of_fair fun x _ => hp x

theorem History.mono {q : Promise ε ω} {l : List ω} (h : p.History l)
    (hs : ∀ o, p.seen o → q.seen o) (hf : ∀ o, q.fair o → p.fair o) : q.History l := by
  induction l with
  | nil => trivial
  | cons o rest ih => exact ⟨hs o h.1, fun f => ih (h.2 (hf o f))⟩

end Promise

namespace Logged
variable {ε σ ω α β : Type} {p : Promise ε ω} {x : Logged ε σ ω α} {s : σ} {Q : α → σ → Prop}

/-- The step taken in `s` keeps the promise, and when it stays fair and ends well,
its value and state are as `Q` says. -/
def Keeps (p : Promise ε ω) (x : Logged ε σ ω α) (s : σ) (Q : α → σ → Prop) : Prop :=
  p.History (x s).history ∧ ((∀ o ∈ (x s).history, p.fair o) →
    match (x s).result with
    | .ok a => Q a (x s).state
    | .error e => p.stop e)

theorem Keeps.pure {a : α} (h : Q a s) : Keeps p (Pure.pure a) s Q := ⟨trivial, fun _ => h⟩

theorem Keeps.note {o : ω} {Q : PUnit → σ → Prop} (ho : p.seen o) (h : p.fair o → Q ⟨⟩ s) :
    Keeps p (Logged.note o) s Q := by
  refine ⟨⟨ho, fun _ => trivial⟩, fun fair => h (fair o ?_)⟩
  exact List.mem_singleton.mpr rfl

theorem Keeps.bind {f : α → Logged ε σ ω β} {Q : β → σ → Prop}
    (h : Keeps p x s fun a s' => Keeps p (f a) s' Q) : Keeps p (x >>= f) s Q := by
  obtain ⟨hist, out⟩ := h
  change p.History (Bind.bind x f s).history ∧ (_ → match (Bind.bind x f s).result with
    | .ok a => Q a (Bind.bind x f s).state
    | .error e => p.stop e)
  simp only [Bind.bind]
  cases hr : (x s).result with
  | error e =>
    rw [hr] at out
    exact ⟨hist, out⟩
  | ok a =>
    rw [hr] at out
    refine ⟨Promise.history_append.mpr ⟨hist, fun fair => (out fair).1⟩, fun fair => ?_⟩
    simp only [List.mem_append] at fair
    exact (out fun o ho => fair o (.inl ho)).2 fun o ho => fair o (.inr ho)

theorem Keeps.lift {m : ExceptT ε (StateM σ) α}
    (h : match m.run.run s with
      | (.ok a, s') => Q a s'
      | (.error e, _) => p.stop e) : Keeps p (Logged.lift m) s Q := by
  refine ⟨trivial, fun _ => ?_⟩
  change match (m.run.run s).1 with
    | .ok a => Q a (m.run.run s).2
    | .error e => p.stop e
  cases hm : m.run.run s with
  | mk r s' =>
    rw [hm] at h
    cases r <;> exact h

/-- A step that is known to succeed. -/
theorem Keeps.lift_ok {m : ExceptT ε (StateM σ) α} {a : α} {t : σ} (hm : Succeeds m s a t)
    (h : Q a t) : Keeps p (Logged.lift m) s Q := by
  refine Keeps.lift ?_
  rw [hm]
  exact h

theorem Keeps.around {before after : σ → σ}
    (h : Keeps p x (before s) fun a s' => Q a (after s')) :
    Keeps p (Logged.around before after x) s Q := by
  refine ⟨h.1, fun fair => ?_⟩
  have out := h.2 fair
  change match (x (before s)).result with
    | .ok a => Q a (after (x (before s)).state)
    | .error e => p.stop e
  cases hr : (x (before s)).result <;> rw [hr] at out <;> exact out

theorem Keeps.mono {Q' : α → σ → Prop} (h : Keeps p x s Q) (hq : ∀ a s', Q a s' → Q' a s') :
    Keeps p x s Q' := by
  refine ⟨h.1, fun fair => ?_⟩
  have out := h.2 fair
  cases hr : (x s).result <;> rw [hr] at out
  · exact out
  · exact hq _ _ out

/-- What one promise says of the outcome may be added to another, when the first
calls every note fair. -/
theorem Keeps.and {q : Promise ε ω} {Q' : α → σ → Prop} (h : Keeps p x s Q)
    (h' : Keeps q x s Q') (hq : ∀ o, q.fair o) : Keeps p x s fun a s' => Q a s' ∧ Q' a s' := by
  refine ⟨h.1, fun fair => ?_⟩
  have out := h.2 fair
  have out' := h'.2 fun o _ => hq o
  cases hr : (x s).result <;> rw [hr] at out out'
  · exact out
  · exact ⟨out, out'⟩

/-- A step that keeps a promise keeps a weaker one. -/
theorem Keeps.weaken {q : Promise ε ω} (h : Keeps p x s Q) (hs : ∀ o, p.seen o → q.seen o)
    (hf : ∀ o, q.fair o → p.fair o) (ht : ∀ e, p.stop e → q.stop e) : Keeps q x s Q := by
  refine ⟨h.1.mono hs hf, fun fair => ?_⟩
  have out := h.2 fun o ho => hf o (fair o ho)
  cases hr : (x s).result <;> rw [hr] at out
  · exact ht _ out
  · exact out

/-- What a promise that calls every note fair says of a success of the step
without its notes. -/
theorem Keeps.of_succeeds {m : ExceptT ε (StateM σ) α} {a : α} {s' : σ} (h : Keeps p x s Q)
    (hp : ∀ o, p.fair o) (hx : Erases id x m) (hm : Succeeds m s a s') : Q a s' := by
  have out := h.2 fun o _ => hp o
  have hrun : ((x s).result, (x s).state) = (.ok a, s') := (hx s).trans hm
  obtain ⟨hr, hs⟩ := Prod.mk.inj hrun
  rw [hr, hs] at out
  exact out

end Logged
end Signum
