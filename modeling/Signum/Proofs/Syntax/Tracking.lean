import Signum.Proofs.Syntax.Cursor
/- A cursor beside the parser.

   A cursor at `p` has the tokens from `p` on before it, and these are what the parser is given.
   `Tracks` says that a reading from `p` ends as a step of the parser on them does: with the same
   value or failure, and with the cursor where the step has left the tokens. So such a reading
   ends, never looks outside the tape, and never leaves the part of it from `p` to the end of the
   file. There is a rule for each way in which readings are put together; an attempt alone lets the
   cursor go back, and then no further than to where the reading began. -/
namespace Signum
namespace Cursor

open Signum.Parser (Step)

/-! Steps on the tape. -/

@[simp] theorem Ending.after_nil {α : Type} (x : Ending α) : x.after [] = x := by
  cases x <;> rfl

theorem Ending.after_after {α : Type} (early late : List Nat) (x : Ending α) :
    (x.after late).after early = x.after (early ++ late) := by
  cases x <;> simp [Ending.after]

instance : LawfulMonad Reading := by
  refine .mk' Reading (fun x => ?_) (fun a f => ?_) fun x f g => ?_
  all_goals funext spots p
  · show (x >>= fun a => pure a) spots p = x spots p
    simp only [Bind.bind]
    cases x spots p with
    | done a q trail => simp [Pure.pure, Ending.after]
    | _ => rfl
  · exact Ending.after_nil (f a spots p)
  · simp only [Bind.bind]
    cases x spots p with
    | done a q trail =>
      cases hf : f a spots q with
      | done b q' trail' =>
        simp only [hf]
        exact (Ending.after_after trail trail' (g b spots q')).symm
      | _ => simp only [hf, Ending.after]
    | _ => rfl

section Binding
variable {α β : Type} {x : Reading α} {f : α → Reading β} {spots : List Spot} {p q : Nat}
  {trail : List Nat}

theorem bind_done {a : α} (h : x spots p = .done a q trail) :
    (x >>= f) spots p = (f a spots q).after trail := by
  simp only [Bind.bind, h]

theorem bind_failed {e : Failure} (h : x spots p = .failed e q trail) :
    (x >>= f) spots p = .failed e q trail := by
  simp only [Bind.bind, h]

theorem attempt_done {a : α} (h : x spots p = .done a q trail) :
    attempt x spots p = .done (.ok a) q trail := by
  simp only [attempt, h]

theorem attempt_failed {e : Failure} (h : x spots p = .failed e q trail) :
    attempt x spots p = .done (.error e) q trail := by
  simp only [attempt, h]

theorem place_bind (f : Nat → Reading β) : (place >>= f) spots p = f p spots p :=
  Ending.after_nil (f p spots p)

theorem putAt_bind (f : Unit → Reading β) : (putAt q >>= f) spots p = (f () spots q).after [q] :=
  rfl

end Binding

variable {finish : Point} {ts : List Token}

theorem tape_token {p : Nat} {t : Token} (h : ts[p]? = some t) :
    (tape finish ts)[p]? = some (.token t) := by
  obtain ⟨hp, rfl⟩ := List.getElem?_eq_some_iff.mp h
  simp [tape, List.getElem?_append_left, hp]

theorem tape_finish : (tape finish ts)[ts.length]? = some (.finish finish) := by
  simp [tape]

theorem look_token {p : Nat} {t : Token} (h : ts[p]? = some t) :
    look (tape finish ts) p = .done (.token t) p [] := by
  simp [look, tape_token h]

theorem look_at_finish : look (tape finish ts) ts.length = .done (.finish finish) ts.length [] := by
  simp [look, tape_finish]

theorem bump_token {p : Nat} {t : Token} (h : ts[p]? = some t) :
    bump (tape finish ts) p = .done (.token t) (p + 1) [p + 1] := by
  simp [bump, tape_token h]

/-- From the end of the file there is no moving on. -/
theorem bump_at_finish : bump (tape finish ts) ts.length = .done (.finish finish) ts.length [] := by
  simp [bump, tape_finish]

/-- Under a cursor on the tape there is a token, or it is at the end. -/
theorem token_or_finish {p : Nat} (hp : p ≤ ts.length) :
    (∃ t, ts[p]? = some t) ∨ p = ts.length := by
  rcases Nat.lt_or_eq_of_le hp with h | h
  · exact .inl ⟨_, List.getElem?_eq_getElem h⟩
  · exact .inr h

theorem lt_length {p : Nat} {t : Token} (h : ts[p]? = some t) : p < ts.length :=
  (List.getElem?_eq_some_iff.mp h).1

theorem drop_token {p : Nat} {t : Token} (h : ts[p]? = some t) :
    ts.drop p = t :: ts.drop (p + 1) := by
  obtain ⟨hp, rfl⟩ := List.getElem?_eq_some_iff.mp h
  exact List.drop_eq_getElem_cons hp

/-- Fewer tokens left means further on. -/
theorem further {p q : Nat} (h : (ts.drop q).length < (ts.drop p).length) : p < q := by
  simp only [List.length_drop] at h
  omega

/-! Readings that end as steps of the parser do. -/

/-- Between a place and the end of the file. -/
def InRange (ts : List Token) (p q : Nat) : Prop := p ≤ q ∧ q ≤ ts.length

/-- A reading that began at `p` has ended as the step has, with the cursor at what the step has
left, and without leaving the part of the tape from `p` on. -/
inductive Matches {α : Type} {n : Nat} (ts : List Token) (p : Nat) : Ending α → Step α n → Prop
  | done {a : α} {q : Nat} {trail : List Nat} (here : InRange ts p q)
    (moves : ∀ i ∈ trail, InRange ts p i) (shorter : (ts.drop q).length < n) :
    Matches ts p (.done a q trail) (.ok a (ts.drop q) shorter)
  | failed {e : Failure} {q : Nat} {trail : List Nat} (here : InRange ts p q)
    (moves : ∀ i ∈ trail, InRange ts p i) : Matches ts p (.failed e q trail) (.error e (ts.drop q))

theorem Matches.pure {α : Type} {n p q : Nat} {a : α} {spots : List Spot} (here : InRange ts p q)
    {h : (ts.drop q).length < n} :
    Matches ts p ((Pure.pure a : Reading α) spots q) (.ok a (ts.drop q) h) :=
  .done here (List.forall_mem_nil _) h

theorem Matches.fail {α : Type} {n p q : Nat} {e : Failure} {spots : List Spot}
    (here : InRange ts p q) :
    Matches ts p ((Cursor.fail e : Reading α) spots q) (.error e (ts.drop q) : Step α n) :=
  .failed here (List.forall_mem_nil _)

theorem Matches.of_ok {α : Type} {n p : Nat} {x : Ending α} {a : α} {rest : List Token}
    {shorter : rest.length < n} (h : Matches ts p x (.ok a rest shorter)) :
    ∃ q trail, x = .done a q trail ∧ InRange ts p q ∧ ts.drop q = rest := by
  generalize hs : Step.ok a rest shorter = s at h
  cases h with
  | done here _ _ =>
    obtain ⟨rfl, rfl⟩ := Step.ok.inj hs
    exact ⟨_, _, rfl, here, rfl⟩
  | failed => cases hs

theorem Matches.of_error {α : Type} {n p : Nat} {x : Ending α} {e : Failure} {reached : List Token}
    (h : Matches ts p x (.error e reached : Step α n)) : ∃ q trail, x = .failed e q trail := by
  generalize hs : (Step.error e reached : Step α n) = s at h
  cases h with
  | done => cases hs
  | failed =>
    obtain ⟨rfl, rfl⟩ := Step.error.inj hs
    exact ⟨_, _, rfl⟩

theorem Matches.after {α : Type} {n : Nat} {p q : Nat} {x : Ending α} {s : Step α n}
    {early : List Nat} (h : Matches ts q x s) (hpq : p ≤ q) (hearly : ∀ i ∈ early, InRange ts p i) :
    Matches ts p (x.after early) s := by
  have hmoves {trail : List Nat} (ht : ∀ i ∈ trail, InRange ts q i) :
      ∀ i ∈ early ++ trail, InRange ts p i := by
    intro i hi
    rcases List.mem_append.mp hi with hi | hi
    · exact hearly i hi
    · exact ⟨Nat.le_trans hpq (ht i hi).1, (ht i hi).2⟩
  cases h with
  | done here moves shorter => exact .done ⟨Nat.le_trans hpq here.1, here.2⟩ (hmoves moves) shorter
  | failed here moves => exact .failed ⟨Nat.le_trans hpq here.1, here.2⟩ (hmoves moves)

/-- The reading from `p` ends as the step does. -/
def Tracks {α : Type} {n : Nat} (finish : Point) (ts : List Token) (p : Nat) (x : Reading α)
    (s : Step α n) : Prop := Matches ts p (x (tape finish ts) p) s

namespace Tracks
variable {α β : Type} {m n p : Nat} {x : Reading α} {s : Step α m}

theorem pure {a : α} (hp : p ≤ ts.length) {h : (ts.drop p).length < n} :
    Tracks finish ts p (Pure.pure a) (.ok a (ts.drop p) h) :=
  Matches.pure ⟨Nat.le_refl p, hp⟩

theorem keep {a : α} {rest : List Token} {h : rest.length < n} (hp : p ≤ ts.length)
    (hrest : ts.drop p = rest) : Tracks finish ts p (Pure.pure a) (.ok a rest h) := by
  subst hrest
  exact .pure hp

theorem fail {e : Failure} {rest : List Token} (hp : p ≤ ts.length) (hrest : ts.drop p = rest) :
    Tracks finish ts p (Cursor.fail e) (.error e rest : Step α n) := by
  subst hrest
  exact Matches.fail ⟨Nat.le_refl p, hp⟩

theorem bind {f : α → Reading β} {g : (a : α) → (rest : List Token) → rest.length < m → Step β n}
    (hx : Tracks finish ts p x s)
    (hf : ∀ a q (h : (ts.drop q).length < m), q ≤ ts.length →
      Tracks finish ts q (f a) (g a (ts.drop q) h)) :
    Tracks finish ts p (x >>= f) (s.bind g) := by
  unfold Tracks at hx ⊢
  generalize hend : x (tape finish ts) p = ending at hx
  cases hx with
  | done here moves shorter =>
    rw [bind_done hend]
    exact (hf _ _ shorter here.2).after here.1 moves
  | failed here moves =>
    rw [bind_failed hend]
    exact .failed here moves

theorem weaken (h : m ≤ n) (hx : Tracks finish ts p x s) : Tracks finish ts p x (s.weaken h) := by
  unfold Tracks at hx ⊢
  generalize x (tape finish ts) p = ending at hx
  cases hx with
  | done here moves shorter => exact .done here moves _
  | failed here moves => exact .failed here moves

theorem of_weaken (h : m ≤ n) (hx : Tracks finish ts p x (s.weaken h)) :
    Tracks finish ts p x s := by
  unfold Tracks at hx ⊢
  generalize x (tape finish ts) p = ending at hx
  cases s with
  | ok a rest shorter =>
    cases hx with
    | done here moves _ => exact .done here moves shorter
  | error e reached =>
    cases hx with
    | failed here moves => exact .failed here moves

/-- What follows an attempt begins where the attempt has ended, and can go back. -/
theorem attempt {f : Except Failure α → Reading β} {s' : Step β n} (hx : Tracks finish ts p x s)
    (hok : ∀ a q h, s = .ok a (ts.drop q) h → InRange ts p q →
      Matches ts p (f (.ok a) (tape finish ts) q) s')
    (herror : ∀ e q, s = .error e (ts.drop q) → InRange ts p q →
      Matches ts p (f (.error e) (tape finish ts) q) s') :
    Tracks finish ts p (Cursor.attempt x >>= f) s' := by
  unfold Tracks at hx ⊢
  generalize hend : x (tape finish ts) p = ending at hx
  cases hx with
  | done here moves shorter =>
    rw [bind_done (attempt_done hend)]
    exact (hok _ _ shorter rfl here).after (Nat.le_refl p) moves
  | failed here moves =>
    rw [bind_done (attempt_failed hend)]
    exact (herror _ _ rfl here).after (Nat.le_refl p) moves

/-- The parser compares the tokens that were left, where the cursor compares places. -/
theorem orFurther {failure : Failure} {q : Nat} {s' : Step α m} (hx : Tracks finish ts p x s)
    (hq : q ≤ ts.length) (hok : ∀ a rest h, s = .ok a rest h → s' = .ok a rest h)
    (herror : ∀ failure' reached, s = .error failure' reached → s' =
      .error (if (ts.drop q).length < reached.length then failure else failure') reached) :
    Tracks finish ts p (Cursor.orFurther failure q x) s' := by
  unfold Tracks Cursor.orFurther at *
  generalize x (tape finish ts) p = ending at hx ⊢
  cases hx with
  | done here moves shorter =>
    rw [hok _ _ _ rfl]
    exact .done here moves shorter
  | @failed e q' trail here moves =>
    have hreached : (ts.drop q).length < (ts.drop q').length ↔ q' < q := by
      simp only [List.length_drop]
      omega
    rw [herror _ _ rfl]
    simp only [hreached]
    exact .failed here moves

section Primitives
variable {t : Token} {kind : TokenKind}

/-- Looking changes nothing. -/
theorem look {f : Spot → Reading α} (ht : ts[p]? = some t)
    (h : Tracks finish ts p (f (.token t)) s) : Tracks finish ts p (Cursor.look >>= f) s := by
  unfold Tracks
  rw [bind_done (look_token ht), Ending.after_nil]
  exact h

theorem look_finish {f : Spot → Reading α}
    (h : Tracks finish ts ts.length (f (.finish finish)) s) :
    Tracks finish ts ts.length (Cursor.look >>= f) s := by
  unfold Tracks
  rw [bind_done look_at_finish, Ending.after_nil]
  exact h

/-- One move, to the next place. -/
theorem bump {f : Spot → Reading α} (ht : ts[p]? = some t)
    (h : Tracks finish ts (p + 1) (f (.token t)) s) : Tracks finish ts p (Cursor.bump >>= f) s := by
  unfold Tracks
  rw [bind_done (bump_token ht)]
  refine h.after (Nat.le_succ p) fun i hi => ?_
  obtain rfl := List.mem_singleton.mp hi
  exact ⟨Nat.le_succ p, lt_length ht⟩

theorem bump_finish {f : Spot → Reading α}
    (h : Tracks finish ts ts.length (f (.finish finish)) s) :
    Tracks finish ts ts.length (Cursor.bump >>= f) s := by
  unfold Tracks
  rw [bind_done bump_at_finish, Ending.after_nil]
  exact h

theorem accept {f : Option Token → Reading α} (ht : ts[p]? = some t) (hk : t.kind = kind)
    (h : Tracks finish ts (p + 1) (f (some t)) s) :
    Tracks finish ts p (Cursor.accept kind >>= f) s := by
  unfold Cursor.accept
  rw [bind_assoc]
  refine look ht ?_
  simp only [hk, if_true]
  rw [bind_assoc]
  exact bump ht (pure_bind _ f ▸ h)

/-- A token of another kind is not taken. -/
theorem accept_other {f : Option Token → Reading α} (ht : ts[p]? = some t) (hk : t.kind ≠ kind)
    (h : Tracks finish ts p (f none) s) : Tracks finish ts p (Cursor.accept kind >>= f) s := by
  unfold Cursor.accept
  rw [bind_assoc]
  refine look ht ?_
  simp only [hk, if_false]
  exact pure_bind _ f ▸ h

theorem accept_finish {f : Option Token → Reading α} (h : Tracks finish ts ts.length (f none) s) :
    Tracks finish ts ts.length (Cursor.accept kind >>= f) s := by
  unfold Cursor.accept
  rw [bind_assoc]
  exact look_finish (pure_bind _ f ▸ h)

end Primitives
end Tracks

section Primitives
variable {α : Type} {n p : Nat}

/-- The end of the file in messages about what was found. -/
theorem found_finish (expected : Bytes) :
    expected ++ ", found " ++ (Spot.finish finish).describe =
      expected ++ ", found end of file" := by
  rw [List.append_assoc]
  rfl

theorem problem_token {t : Token} (ht : ts[p]? = some t) (message : Bytes) :
    Tracks finish ts p (problem message : Reading α)
      (Parser.problem finish (t :: ts.drop (p + 1)) message : Step α n) := by
  unfold problem Parser.problem
  exact .look ht (.fail (Nat.le_of_lt (lt_length ht)) (drop_token ht))

theorem problem_finish (message : Bytes) :
    Tracks finish ts ts.length (problem message : Reading α)
      (Parser.problem finish [] message : Step α n) := by
  unfold problem Parser.problem
  exact .look_finish (.fail (Nat.le_refl _) List.drop_length)

theorem expect_tracks (finish : Point) (hp : p ≤ ts.length) (kind : TokenKind) (what : Bytes) :
    Tracks finish ts p (expect kind what) (Parser.expect finish kind what (ts.drop p)) := by
  unfold expect
  rcases token_or_finish hp with ⟨t, ht⟩ | rfl
  · rw [drop_token ht, Parser.expect]
    by_cases hk : t.kind = kind
    · simp only [hk, if_true]
      exact .accept ht hk (.pure (lt_length ht))
    · simp only [hk, if_false]
      exact .accept_other ht hk (.look ht (problem_token ht _))
  · rw [List.drop_length, Parser.expect, ← found_finish]
    exact .accept_finish (.look_finish (problem_finish _))

end Primitives

end Cursor
end Signum
