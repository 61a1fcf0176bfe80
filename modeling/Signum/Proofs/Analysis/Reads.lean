import Signum.Proofs.Analysis.Parallel
/- Remembering what a read yielded changes nothing that can be seen.

   An analysis that remembers reads keeps them in a table. Nothing is ever taken out of it: it
   is shared by the branches of an `if` and by the rounds of a loop, and stays as it is when the
   environment goes back to an earlier state. But a read can only yield the top of its type, so
   whatever stands in the table is what a read would yield without it (`ReadsTop`).

   States that differ in their tables only are `Twins`. Two steps `Concur` when from twins they
   end in the same way and in twins again; the rules below carry this from a read to whole
   programs. -/
namespace Signum.Analysis

/-- States that differ at most in what they remember of reads, where the first remembers nothing
that a read would not yield. -/
structure Twins (st st' : State) : Prop where
  env : st.env = st'.env
  printed : st.printed = st'.printed
  trace : st.trace = st'.trace
  reads : ReadsTop st.reads

/-- From twins the two steps end in the same way, and in twins. -/
def Concur {α : Type} (m m' : M α) : Prop :=
  ∀ ⦃st st' : State⦄, Twins st st' →
    (m.run.run st).1 = (m'.run.run st').1 ∧ Twins (m.run.run st).2 (m'.run.run st').2

namespace Twins
variable {st st' : State}

theorem start : Twins State.start State.start := ⟨rfl, rfl, rfl, nofun⟩

theorem output (h : Twins st st') : st.output = st'.output := by
  unfold State.output
  rw [h.printed]

/-- The same change of the environment, of what is printed and of what is reported. -/
theorem update (h : Twins st st') (f : Environment → Environment)
    (g : Array Atom → Array Atom) (k : Array Event → Array Event) :
    Twins { st with env := f st.env, printed := g st.printed, trace := k st.trace }
      { st' with env := f st'.env, printed := g st'.printed, trace := k st'.trace } :=
  ⟨congrArg f h.env, congrArg g h.printed, congrArg k h.trace, h.reads⟩

theorem withEnv (h : Twins st st') (f : Environment → Environment) :
    Twins { st with env := f st.env } { st' with env := f st'.env } := h.update f id id

end Twins

namespace Concur
variable {α β : Type} {m m' : M α}

theorem pure (a : α) : Concur (Pure.pure a) (Pure.pure a) := fun _ _ h => ⟨rfl, h⟩

theorem throw (e : Halt) : Concur (MonadExcept.throw e : M α) (MonadExcept.throw e) :=
  fun _ _ h => ⟨rfl, h⟩

theorem bind {f f' : α → M β} (hm : Concur m m') (hf : ∀ a, Concur (f a) (f' a)) :
    Concur (m >>= f) (m' >>= f') := by
  intro st st' h
  rw [run_bind, run_bind]
  obtain ⟨hr, ht⟩ := hm h
  generalize m.run.run st = out at hr ht
  generalize m'.run.run st' = out' at hr ht
  obtain ⟨r, t⟩ := out
  obtain ⟨r', t'⟩ := out'
  obtain rfl : r = r' := hr
  cases r with
  | error e => exact ⟨rfl, ht⟩
  | ok a => exact hf a ht

theorem get {f f' : State → M α} (h : ∀ ⦃st st'⦄, Twins st st' → Concur (f st) (f' st')) :
    Concur (MonadState.get >>= f) (MonadState.get >>= f') :=
  fun _ _ hst => h hst hst

theorem update {f f' : State → State} (h : ∀ ⦃st st'⦄, Twins st st' → Twins (f st) (f' st')) :
    Concur (modify f : M PUnit) (modify f') := fun _ _ hst => ⟨rfl, h hst⟩

theorem setEnv (env : Environment) :
    Concur (modify fun s => { s with env } : M PUnit) (modify fun s => { s with env }) :=
  .update fun _ _ h => h.withEnv fun _ => env

theorem report (e : Event) : Concur (report e) (report e) :=
  .update fun _ _ h => h.update id id fun trace => trace.push e

theorem ofSign (r : Except SignFault α) : Concur (ofSign r) (ofSign r) := by
  cases r with
  | ok a => exact .pure a
  | error f => exact .throw _

theorem within {m m' : M Unit} (h : Concur m m') : Concur (within m) (within m') := by
  intro st st' hst
  rw [run_within, run_within]
  obtain ⟨hr, ht⟩ := h (hst.withEnv Environment.enter)
  exact ⟨hr, ht.withEnv fun env => env.exit.2⟩

theorem branch {m m' : M Unit} (h : Concur m m') : Concur (branch m) (branch m') := by
  intro st st' hst
  rw [run_branch, run_branch]
  obtain ⟨hr, ht⟩ := h (hst.withEnv Environment.fork)
  generalize m.run.run { st with env := st.env.fork } = out at hr ht
  generalize m'.run.run { st' with env := st'.env.fork } = out' at hr ht
  obtain ⟨r, t⟩ := out
  obtain ⟨r', t'⟩ := out'
  obtain rfl : r = r' := hr
  -- what is restored is the same on both sides, since it is part of the environment
  have hrestore : t.env.restore = t'.env.restore := congrArg Environment.restore ht.env
  obtain (⟨kind, span⟩ | f) | u := r
  · dsimp only
    rw [hrestore]
    cases t'.env.restore with
    | error f => exact ⟨rfl, ht⟩
    | ok saved => exact ⟨rfl, ht.withEnv fun _ => saved.1⟩
  · exact ⟨rfl, ht⟩
  · dsimp only
    rw [hrestore]
    cases t'.env.restore with
    | error f => exact ⟨rfl, ht⟩
    | ok saved => exact ⟨rfl, ht.withEnv fun _ => saved.1⟩

end Concur

section Steps
variable (cap : Int)

/-- A read changes nothing but what is remembered. -/
theorem read_changes {config : Config} {t : NumType} {span : Span} {st st' : State} {a : Atom}
    (h : Succeeds (read config t span) st a st') : st' = { st with reads := st'.reads } := by
  unfold read at h
  split at h
  · obtain ⟨-, rfl⟩ := succeeds_pure.mp h
    rfl
  · rw [succeeds_get_bind] at h
    split at h
    · obtain ⟨-, rfl⟩ := succeeds_pure.mp h
      rfl
    · obtain ⟨_, _, hmodify, hpure⟩ := succeeds_bind.mp h
      obtain rfl := succeeds_modify.mp hmodify
      obtain ⟨-, rfl⟩ := succeeds_pure.mp hpure
      rfl

/-- A read that is remembered and one that is not yield the same. -/
theorem read_concurs (t : NumType) (span : Span) :
    Concur (read ⟨cap, true⟩ t span) (read ⟨cap, false⟩ t span) := by
  intro st st' h
  -- whether it is found in the table or not, what is yielded is the top of the type
  obtain ⟨st₁, hrun, -, hreads⟩ := read_top ⟨cap, true⟩ t span h.reads
  have hplain : (read ⟨cap, false⟩ t span).run.run st' = (.ok (topOf t), st') := rfl
  have hchange := read_changes hrun
  unfold Succeeds at hrun
  rw [hrun, hplain]
  refine ⟨rfl, ?_⟩
  rw [hchange]
  exact ⟨h.env, h.printed, h.trace, hreads⟩

theorem expr_concurs (e : Expr) : Concur (expr ⟨cap, true⟩ e) (expr ⟨cap, false⟩ e) := by
  induction e with
  | int v s | float v text s => exact .pure _
  | readInt s | readFloat s => exact read_concurs cap _ s
  | var name s =>
    refine .get fun st st' h => ?_
    rw [h.env]
    cases st'.env.lookup? name with
    | some v => exact .pure v
    | none => exact .throw _
  | neg e s ih => exact .bind ih fun a => .ofSign _
  | binary op l r s ihl ihr =>
    refine .bind ihl fun a => .bind ihr fun b => .bind (.ofSign _) fun v => ?_
    split
    · exact .throw _
    · exact .pure v

theorem cond_concurs (c : Cond) : Concur (cond ⟨cap, true⟩ c) (cond ⟨cap, false⟩ c) := by
  induction c with
  | compare op l r s =>
    exact .bind (expr_concurs cap l) fun a => .bind (expr_concurs cap r) fun b => .ofSign _
  | logical op l r s ihl ihr => exact .bind ihl fun a => .bind ihr fun b => .ofSign _
  | not c s ih => exact .bind ih fun a => .ofSign _

theorem bind_concurs (name : Bytes) (value : Atom) : Concur (bind name value) (bind name value) := by
  refine .get fun st st' h => ?_
  rw [h.env]
  cases st'.env.bind name value with
  | ok env => exact .setEnv env
  | error f => exact .throw _

theorem joinIn_concurs (other : Environment) : Concur (joinIn other) (joinIn other) := by
  refine .get fun st st' h => ?_
  rw [h.env]
  exact .bind (.setEnv _) fun _ => .ofSign _

theorem adopt_concurs (inYes inNo : Environment) : Concur (adopt inYes inNo) (adopt inYes inNo) :=
  .bind (.ofSign _) fun _ => .update fun _ _ h => h.withEnv fun env => { env with scopes := _ }

theorem settle_concurs (after : Environment) : Concur (settle after) (settle after) := by
  refine .get fun st st' h => ?_
  rw [h.env]
  split
  · exact .pure _
  · exact .bind (joinIn_concurs after) fun _ => .pure _

theorem introduce_concurs (d : Decl) : Concur (introduce d) (introduce d) := by
  refine .get fun st st' h => ?_
  rw [h.env]
  generalize st'.env.declare d.name (domainOf d.type) = out
  obtain ⟨isNew, env⟩ := out
  cases isNew with
  | false => exact .throw _
  | true => exact .setEnv env

theorem decl_concurs (d : Decl) : Concur (decl ⟨cap, true⟩ d) (decl ⟨cap, false⟩ d) := by
  rw [decl_eq, decl_eq]
  refine .bind (introduce_concurs d) fun _ => ?_
  cases d.init with
  | some e => exact .bind (expr_concurs cap e) fun v => bind_concurs d.name v
  | none => exact .pure ()

/-- A loop whose bodies concur; the two share the number of rounds. -/
theorem rounds_concur {span : Span} {c : Cond} {body body' : M Unit} (h : Concur body body')
    (left number : Nat) : Concur (rounds ⟨cap, true⟩ span c body left number)
      (rounds ⟨cap, false⟩ span c body' left number) := by
  induction left generalizing number with
  | zero => exact .throw _
  | succ left ih =>
    rw [rounds_succ, rounds_succ]
    refine .bind (cond_concurs cap c) fun verdict => .bind (.branch h) fun after => ?_
    refine .bind (settle_concurs after) fun stable => .bind (.report _) fun _ => ?_
    cases stable with
    | true => exact .pure ()
    | false => exact ih (number + 1)

mutual

theorem stmt_concurs : (s : Stmt) → Concur (stmt ⟨cap, true⟩ s) (stmt ⟨cap, false⟩ s)
  | .assign name value s => by
    simp only [stmt]
    exact .bind (expr_concurs cap value) fun v => bind_concurs name v
  | .print value s => by
    simp only [stmt]
    refine .bind (expr_concurs cap value) fun v => .bind (.report _) fun _ => ?_
    exact .update fun _ _ h => h.update id (fun printed => printed.push v) id
  | .block body s => by
    simp only [stmt]
    exact .within (items_concur body)
  | .ite c yes none s => by
    simp only [stmt]
    refine .bind (cond_concurs cap c) fun verdict => .bind (.report _) fun _ => ?_
    refine .bind (.branch (stmt_concurs yes)) fun inYes => ?_
    exact .bind (joinIn_concurs inYes) fun _ => .pure ()
  | .ite c yes (some no) s => by
    simp only [stmt]
    refine .bind (cond_concurs cap c) fun verdict => .bind (.report _) fun _ => ?_
    refine .bind (.branch (stmt_concurs yes)) fun inYes => ?_
    exact .bind (.branch (stmt_concurs no)) fun inNo => adopt_concurs inYes inNo
  | .loop c body s => by
    simp only [stmt]
    refine .get fun st st' h => ?_
    rw [h.env]
    exact rounds_concur cap (stmt_concurs body) _ 1

theorem item_concurs : (u : Item) → Concur (item ⟨cap, true⟩ u) (item ⟨cap, false⟩ u)
  | .decl d => by
    simp only [item]
    exact decl_concurs cap d
  | .stmt s => by
    simp only [item]
    exact stmt_concurs s

theorem items_concur : (us : List Item) → Concur (items ⟨cap, true⟩ us) (items ⟨cap, false⟩ us)
  | [] => by
    simp only [items]
    exact .pure ()
  | u :: rest => by
    simp only [items]
    exact .bind (item_concurs u) fun _ => items_concur rest

end

/-- What can be seen of the run of a unit is the same. -/
structure UnitRun.SeenAlike (u u' : UnitRun) : Prop where
  result : u.result = u'.result
  output : u.output = u'.output
  state : Twins u.state u'.state

theorem runEach_concurs (us : List Item) {st st' : State} (h : Twins st st') :
    List.Forall₂ UnitRun.SeenAlike (runEach ⟨cap, true⟩ st us) (runEach ⟨cap, false⟩ st' us) := by
  induction us generalizing st st' with
  | nil => exact .nil
  | cons u rest ih =>
    obtain ⟨hr, ht⟩ := item_concurs cap u (h.update id (fun _ => #[]) id)
    unfold runEach runFrom
    simp only [id_eq] at hr ht
    generalize ((item ⟨cap, true⟩ u).run.run { st with printed := #[] }) = out at hr ht
    generalize ((item ⟨cap, false⟩ u).run.run { st' with printed := #[] }) = out' at hr ht
    obtain ⟨r, t⟩ := out
    obtain ⟨r', t'⟩ := out'
    obtain rfl : r = r' := hr
    cases r with
    | ok w => exact .cons ⟨rfl, ht.output, ht⟩ (ih ht)
    | error e => exact .cons ⟨rfl, ht.output, ht⟩ .nil

end Steps

/-- Whether reads are remembered cannot be seen. Whatever the program and the limit on rounds,
an analysis that remembers reads and one that does not end in the same way, print and report the
same and leave the same environment; they also agree after every unit of the program. -/
theorem remembered_reads_unseen (cap : Int) (p : Program) :
    let kept := run ⟨cap, true⟩ p
    let plain := run ⟨cap, false⟩ p
    kept.1 = plain.1 ∧ kept.2.output = plain.2.output ∧ kept.2.trace = plain.2.trace ∧
      kept.2.env = plain.2.env ∧ ReadsTop kept.2.reads ∧
      List.Forall₂ UnitRun.SeenAlike (runEach ⟨cap, true⟩ .start p.units)
        (runEach ⟨cap, false⟩ .start p.units) := by
  obtain ⟨hr, ht⟩ := items_concur cap p.units .start
  exact ⟨hr, ht.output, ht.trace, ht.env, ht.reads, runEach_concurs cap p.units .start⟩

end Signum.Analysis
