import Signum.Proofs.Analysis.History
import Signum.Proofs.Fits
import Signum.Proofs.Sign.Operators
/- Accepted programs are analysed safely.

   An environment fits the checker's context when it has the variables in sight, each
   with an atom of its type's domain and with one at all when the variable is assigned.
   Every step of the analysis of an accepted program keeps the environment fitting the
   context the checker had at that point. Branches then have stacks of one shape, so they
   are joined without a fault; and each round of a loop that goes on leaves fewer
   variables that can still rise, so the rounds do not run out unless a limit was set.
   What is left to stop an analysis is a quotient whose divisor may be zero. -/
namespace Signum.Analysis

open Logged (Keeps)
open Check (Typed TypedCond Coherent)

/-- An analysis may stop in this way although its program was accepted. -/
def Halt.Harmless (config : Config) : Halt → Prop
  | .failed .divisionByZero _ => True
  | .fault (.unsettled _ _) => 0 < config.maxIterations
  | _ => False

/-- What is promised of accepted programs: atoms are of their recorded types' domains. -/
def safety (config : Config) (types : List (Expr × NumType)) : Promise Halt (Expr × Atom) where
  seen o := ∃ t, (o.1, t) ∈ types ∧ o.2.domain = domainOf t
  fair _ := True
  stop := Halt.Harmless config

/-- The values kept for reads say nothing beyond their types. -/
def ReadsTop (reads : List ((NumType × Span) × Atom)) : Prop :=
  ∀ t span a, reads.lookup (t, span) = some a → a = topOf t

/-- The assigned variables in sight are found with an atom of their type. -/
def Readable (scopes : Scopes) (assigned : List Nat) (env : Environment) : Prop :=
  ∀ name v, scopes.search? name = some (.variable v) → v.number ∈ assigned →
    ∃ a, env.lookup? name = some a ∧ a.domain = domainOf v.type

theorem Readable.congr {scopes : Scopes} {assigned : List Nat} {env env' : Environment}
    (h : Readable scopes assigned env) (heq : ∀ name, env'.lookup? name = env.lookup? name) :
    Readable scopes assigned env' := by
  intro name v hv ha
  rw [heq]
  exact h name v hv ha

section Expressions
variable {config : Config} {scopes : Scopes} {assigned : List Nat}
  {types : List (Expr × NumType)} {st : State}

theorem readable_of_fits {env : Environment}
    (h : Fits (SlotFits assigned) scopes.items env.scopes) : Readable scopes assigned env := by
  intro name v hv ha
  obtain ⟨i, slot, -, hi, hslot, hfit⟩ := h.nearest hv
  obtain ⟨a, hval⟩ := Option.isSome_iff_exists.mp (hfit.bound ha)
  exact ⟨a, Environment.lookup?_nearest hi hslot hval, (hfit.value a hval).trans hfit.domain⟩

theorem computed_safe {e : Expr} {a : Atom} {t : NumType} {Q : Atom → State → Prop}
    (hrec : (e, t) ∈ types) (ha : a.domain = domainOf t) (hq : Q a st) :
    Keeps (safety config types) (computed e a) st Q :=
  Keeps.bind (Keeps.note ⟨t, hrec, ha⟩ fun _ => Keeps.pure hq)

/-- A read gives the top of its type, and goes on to do so. -/
theorem read_top (config : Config) (t : NumType) (span : Span) (h : ReadsTop st.reads) :
    ∃ st', Succeeds (read config t span) st (topOf t) st' ∧ st'.env = st.env ∧
      ReadsTop st'.reads := by
  unfold read
  by_cases hm : config.memoizeReads = true
  · simp only [hm, Bool.not_true, Bool.false_eq_true, if_false, succeeds_get_bind]
    cases hl : st.reads.lookup (t, span) with
    | some a =>
      obtain rfl := h t span a hl
      exact ⟨st, succeeds_pure.mpr ⟨rfl, rfl⟩, rfl, h⟩
    | none =>
      refine ⟨{ st with reads := ((t, span), topOf t) :: st.reads }, ?_, rfl, ?_⟩
      · exact succeeds_bind.mpr ⟨(), _, succeeds_modify.mpr rfl, succeeds_pure.mpr ⟨rfl, rfl⟩⟩
      · intro u span' a ha
        rw [List.lookup_cons] at ha
        split at ha
        · next heq =>
          obtain ⟨rfl, -⟩ := Prod.mk.inj (eq_of_beq heq)
          exact (Option.some.inj ha).symm
        · exact h u span' a ha
  · simp only [hm, Bool.not_false, if_true]
    exact ⟨st, succeeds_pure.mpr ⟨rfl, rfl⟩, rfl, h⟩

theorem ofSign_ok {α : Type} {r : Except SignFault α} {a : α} (h : r = .ok a) :
    Succeeds (ofSign r) st a st := succeeds_ofSign.mpr ⟨h, rfl⟩

theorem expr_safe {e : Expr} {t : NumType} (ht : Typed scopes assigned types e t)
    (henv : Readable scopes assigned st.env) (hreads : ReadsTop st.reads) :
    Keeps (safety config types) ((observing config).expr e) st fun a st' =>
      a.domain = domainOf t ∧ st'.env = st.env ∧ ReadsTop st'.reads := by
  induction ht generalizing st with
  | int hm =>
    exact Keeps.bind (Keeps.lift_ok (succeeds_pure.mpr ⟨rfl, rfl⟩)
      (computed_safe hm rfl ⟨rfl, rfl, hreads⟩))
  | @float v text s hm =>
    have hd : (Atom.ofFloat v).domain = domainOf .float := by cases v <;> rfl
    exact Keeps.bind (Keeps.lift_ok (succeeds_pure.mpr ⟨rfl, rfl⟩)
      (computed_safe hm hd ⟨hd, rfl, hreads⟩))
  | @readInt s hm =>
    obtain ⟨st', hread, hst, hr⟩ := read_top config .int s hreads
    exact Keeps.bind (Keeps.lift_ok hread (computed_safe hm rfl ⟨rfl, hst, hr⟩))
  | @readFloat s hm =>
    obtain ⟨st', hread, hst, hr⟩ := read_top config .float s hreads
    exact Keeps.bind (Keeps.lift_ok hread (computed_safe hm rfl ⟨rfl, hst, hr⟩))
  | @var name s v hv ha hm =>
    obtain ⟨a, hlook, hd⟩ := henv name v hv ha
    refine Keeps.bind (Keeps.lift_ok (a := a) (t := st) ?_ (computed_safe hm hd ⟨hd, rfl, hreads⟩))
    simp only [expr, succeeds_get_bind, hlook]
    exact succeeds_pure.mpr ⟨rfl, rfl⟩
  | neg _ hm ih =>
    refine Keeps.bind ((ih henv hreads).mono ?_)
    rintro a st₁ ⟨ha, hst, hr⟩
    obtain ⟨b, hneg, hb⟩ := neg_ok ha
    exact Keeps.bind (Keeps.lift_ok (ofSign_ok hneg) (computed_safe hm hb ⟨hb, hst, hr⟩))
  | @binary op l r s t _ _ hm ihl ihr =>
    refine Keeps.bind ((ihl henv hreads).mono ?_)
    rintro a st₁ ⟨ha, hst₁, hr₁⟩
    refine Keeps.bind ((ihr (by rw [hst₁]; exact henv) hr₁).mono ?_)
    rintro b st₂ ⟨hb, hst₂, hr₂⟩
    obtain ⟨v, hop, hv⟩ := binary_ok op ha hb
    refine Keeps.bind (Keeps.lift_ok (ofSign_ok hop) ?_)
    split
    · exact Keeps.lift trivial
    · next hne => exact computed_safe hm (hv hne) ⟨hv hne, hst₂.trans hst₁, hr₂⟩

theorem cond_safe {b : Cond} (hb : TypedCond scopes assigned types b)
    (henv : Readable scopes assigned st.env) (hreads : ReadsTop st.reads) :
    Keeps (safety config types) ((observing config).cond b) st fun a st' =>
      (∃ r, a = .bool r) ∧ st'.env = st.env ∧ ReadsTop st'.reads := by
  induction hb generalizing st with
  | @compare op l r s t hl hr =>
    refine Keeps.bind ((expr_safe hl henv hreads).mono ?_)
    rintro a st₁ ⟨ha, hst₁, hr₁⟩
    refine Keeps.bind ((expr_safe hr (by rw [hst₁]; exact henv) hr₁).mono ?_)
    rintro b st₂ ⟨hb, hst₂, hr₂⟩
    obtain ⟨v, hv⟩ := compare_ok op ha hb
    exact Keeps.lift_ok (ofSign_ok hv) ⟨⟨v, rfl⟩, hst₂.trans hst₁, hr₂⟩
  | @logical op l r s _ _ ihl ihr =>
    refine Keeps.bind ((ihl henv hreads).mono ?_)
    rintro _ st₁ ⟨⟨q, rfl⟩, hst₁, hr₁⟩
    refine Keeps.bind ((ihr (by rw [hst₁]; exact henv) hr₁).mono ?_)
    rintro _ st₂ ⟨⟨q', rfl⟩, hst₂, hr₂⟩
    obtain ⟨v, hv⟩ := logical_ok op q q'
    exact Keeps.lift_ok (ofSign_ok hv) ⟨⟨v, rfl⟩, hst₂.trans hst₁, hr₂⟩
  | not _ ih =>
    refine Keeps.bind ((ih henv hreads).mono ?_)
    rintro _ st₁ ⟨⟨q, rfl⟩, hst₁, hr₁⟩
    exact Keeps.lift_ok (ofSign_ok rfl) ⟨⟨q.not, rfl⟩, hst₁, hr₁⟩

end Expressions

/-! An environment goes on fitting: the steps that change it. -/

theorem bindIn_names {n : Bytes} {a : Atom} {scopes scopes' : List Scope}
    (h : Environment.bindIn n a scopes = .ok scopes') :
    scopes'.map (·.map Prod.fst) = scopes.map (·.map Prod.fst) := by
  induction scopes generalizing scopes' with
  | nil => cases h
  | cons s rest ih =>
    unfold Environment.bindIn at h
    split at h
    · split at h
      · cases h
        have hset : (Scope.set n a s).map Prod.fst = s.map Prod.fst :=
          names_map_if (f := fun slot : Slot => { slot with value := some a })
        simp [hset]
      · cases h
    · cases hb : Environment.bindIn n a rest with
      | error f => rw [hb] at h; cases h
      | ok rest' =>
        rw [hb] at h
        cases h
        simp [ih hb]

theorem nodup_of_names {scopes scopes' : List Scope}
    (h : scopes'.map (·.map Prod.fst) = scopes.map (·.map Prod.fst))
    (hn : ∀ s ∈ scopes, (s.map Prod.fst).Nodup) : ∀ s ∈ scopes', (s.map Prod.fst).Nodup := by
  intro s hs
  have hmem : s.map Prod.fst ∈ scopes.map (·.map Prod.fst) := h ▸ List.mem_map_of_mem hs
  obtain ⟨t, ht, heq⟩ := List.mem_map.mp hmem
  exact heq ▸ hn t ht

/-- Binding a variable in sight succeeds, and the variable counts as assigned. -/
theorem bind_fits {c : Context} {env : Environment} {name : Bytes} {v : Variable} {a : Atom}
    (hfit : EnvironmentFits c env) (hc : Coherent c)
    (hv : c.scopes.search? name = some (.variable v)) (ha : a.domain = domainOf v.type) :
    ∃ i slot scopes', env.bind name a = .ok { env with scopes := scopes' } ∧
      cell c.scopes.items i name = some (.variable v) ∧
      Sets env.scopes i name ⟨slot, some a⟩ scopes' ∧
      EnvironmentFits { c with assigned := c.assigned.insert v.number }
        { env with scopes := scopes' } := by
  obtain ⟨i, slot, hcell, hi, hslot, hf⟩ := hfit.cells.nearest hv
  obtain ⟨scopes', hb⟩ := Environment.bindIn_ok hi hslot (ha.trans hf.domain.symm)
  obtain ⟨j, slot', hj, hslot', hd, hset⟩ := Environment.bindIn_eq_ok hb
  obtain rfl := nearest_unique hi hj
  obtain rfl : slot = slot' := by simpa [hslot] using hslot'
  refine ⟨i, slot.domain, scopes', by simp [Environment.bind, hb, Except.map], hcell, hset, ?_, ?_⟩
  · refine hfit.cells.set hcell hset ⟨hf.domain, fun b hb => ?_, fun _ => rfl⟩ fun k m u y hkm hu hy => ?_
    · obtain rfl : a = b := by simpa using hb
      exact hd
    · exact hy.weaken (hc.mem_insert hcell hu hkm)
  · exact nodup_of_names (bindIn_names hb) hfit.names

/-- Declaring a variable succeeds, and what can be read stays the same. -/
theorem declare_fits {c : Context} {env : Environment} {d : Decl} (hfit : EnvironmentFits c env)
    (hc : Coherent c) (hd : c.scopes.declaredHere d.name = false) :
    ∃ scopes', env.declare d.name (domainOf d.type) = (true, { env with scopes := scopes' }) ∧
      Sets env.scopes 0 d.name ⟨domainOf d.type, none⟩ scopes' ∧
      EnvironmentFits { c with
        scopes := c.scopes.add d.name (.variable (Check.declared c d)),
        «variables» := c.variables.push (Check.declared c d) } { env with scopes := scopes' } ∧
      ∀ name, Environment.lookup? name { env with scopes := scopes' } = env.lookup? name := by
  have hn := hc.nested
  have hh := hfit.cells.height
  obtain ⟨hfree, hnames, -⟩ := Check.sets_declared (o := .variable (Check.declared c d)) hd
    hc.items_ne_nil
  obtain ⟨scopes, stashed⟩ := env
  cases scopes with
  | nil => simp only [List.length_nil] at hh; omega
  | cons here rest =>
    have hhere : here.lookup d.name = none := hfit.cells.free hfree
    refine ⟨(here ++ [(d.name, ⟨domainOf d.type, none⟩)]) :: rest,
      by simp [Environment.declare, hhere], sets_append hhere, ⟨?_, ?_⟩, fun name => ?_⟩
    · refine hfit.cells.declare hnames (sets_append hhere)
        ⟨rfl, fun _ h => (by cases h), fun hm => ?_⟩ fun _ _ _ _ _ hy => hy
      exact absurd (hc.assigned_lt _ hm) (Nat.lt_irrefl _)
    · intro s hs
      rcases List.mem_cons.mp hs with rfl | hs
      · exact nodup_declared (hfit.names here List.mem_cons_self) hhere _
      · exact hfit.names s (List.mem_cons_of_mem _ hs)
    · simp only [Environment.lookup?, List.findSome?_cons, List.lookup_append]
      by_cases hne : name = d.name
      · simp [hne, hhere]
      · have hb : (name == d.name) = false := by simp [hne]
        simp [hb, List.lookup_cons]

theorem exit_fits {c : Context} {env : Environment} (hfit : EnvironmentFits c env)
    (hn : 3 ≤ c.scopes.items.length) :
    EnvironmentFits { c with scopes := c.scopes.pop } env.exit.2 := by
  have hh := hfit.cells.height
  have hexit := hfit.exit_scopes hn
  refine ⟨?_, fun s hs => ?_⟩
  · rw [hexit]
    exact hfit.cells.pop (List.ne_nil_of_length_pos (by omega))
  · rw [hexit] at hs
    exact hfit.names s (List.mem_of_mem_tail hs)

theorem lookup_of_nodup {γ : Type} {s : List (Bytes × γ)} {n : Bytes} {x : γ}
    (hs : (s.map Prod.fst).Nodup) (hmem : (n, x) ∈ s) : s.lookup n = some x := by
  obtain ⟨l₁, l₂, rfl⟩ := List.append_of_mem hmem
  rw [List.map_append, List.map_cons] at hs
  have hnot := (List.nodup_append.mp hs).2.2
  refine List.lookup_eq_some_iff.mpr ⟨l₁, l₂, rfl, fun p hp => ?_⟩
  have hne := hnot p.1 (List.mem_map_of_mem hp) n (by simp)
  simpa using fun heq => hne heq.symm

/-- What a join gives fits as well. -/
theorem joined_fits {c : Context} {e e' : Environment} {theirs : List Scope} {changed : Bool}
    (he : EnvironmentFits c e) (hj : Environment.JoinedStack theirs e.scopes e'.scopes changed) :
    EnvironmentFits c e' := by
  refine ⟨⟨?_, fun i n slot' hs => ?_, fun i n v hv => ?_⟩, nodup_of_names hj.names he.names⟩
  · have hlen := congrArg List.length hj.names
    simp only [List.length_map] at hlen
    rw [hlen]
    exact he.cells.height
  · cases hc : cell e.scopes i n with
    | none => rw [hj.absent i n hc] at hs; cases hs
    | some slot => exact he.cells.owned i n slot hc
  · obtain ⟨slot, hslot, hf⟩ := he.cells.known i n v hv
    obtain ⟨slot', hslot', hjoined⟩ := hj.present i n slot hslot
    refine ⟨slot', hslot', hjoined.domain.trans hf.domain, fun b hb => ?_, fun hm => ?_⟩
    · obtain ⟨a, ha⟩ := Option.isSome_iff_exists.mp (hjoined.bound ▸ (by simp [hb]) :
        slot.value.isSome)
      obtain ⟨b', hb', hab⟩ := hjoined.above a ha
      obtain rfl : b = b' := by simpa [hb] using hb'
      rw [← Atom.domain_eq_of_leq hab, hjoined.domain]
      exact hf.value a ha
    · rw [hjoined.bound]
      exact hf.bound hm

/-- Environments that fit the same names are joined without a fault, and what comes out
fits as the first does. -/
theorem join_fits {c c' : Context} {e o : Environment} (he : EnvironmentFits c e)
    (ho : EnvironmentFits c' o) (hs : c'.scopes = c.scopes) :
    ∃ changed e', e.join o = (.ok changed, e') ∧ EnvironmentFits c e' ∧
      Environment.JoinedStack o.scopes e.scopes e'.scopes changed := by
  have hcells := hs ▸ ho.cells
  have hlen : e.scopes.length = o.scopes.length := by
    have h₁ := he.cells.height
    have h₂ := hcells.height
    omega
  have hscope (i : Nat) (s t : Scope) (hs : e.scopes[i]? = some s) (ht : o.scopes[i]? = some t) :
      ∃ out changed, Environment.joinScope t s = (out, .ok changed) := by
    refine Environment.joinScope_ok fun n slot slot' a b hmem hlook ha hb => ?_
    have hcell : cell e.scopes i n = some slot := by
      simp [cell, hs, lookup_of_nodup (he.names s (List.mem_of_getElem? hs)) hmem]
    have hcell' : cell o.scopes i n = some slot' := by simp [cell, ht, hlook]
    obtain ⟨v, hv⟩ := he.cells.owned i n slot hcell
    obtain ⟨x, hx, hf⟩ := he.cells.known i n v hv
    obtain ⟨y, hy, hf'⟩ := hcells.known i n v hv
    obtain rfl : slot = x := by simpa [hcell] using hx
    obtain rfl : slot' = y := by simpa [hcell'] using hy
    have hda := (hf.value a ha).trans hf.domain
    have hdb := (hf'.value b hb).trans hf'.domain
    exact ⟨hda.trans hdb.symm, hda ▸ domainOf_ne_invalid v.type⟩
  obtain ⟨out, changed, hj⟩ := Environment.joinScopes_ok hscope
  have hjoin : e.join o = (.ok changed, { e with scopes := out }) := by
    rw [Environment.join_eq hlen, hj]
  obtain ⟨hjoined, -⟩ := Environment.join_joined hlen hjoin
  exact ⟨changed, _, hjoin, joined_fits he hjoined, hjoined⟩

/-- A state in which the analysis can go on from a context. -/
structure Ready (c : Context) (st : State) : Prop where
  env : EnvironmentFits c st.env
  reads : ReadsTop st.reads

theorem Ready.weaken {c c' : Context} {st : State} (h : Ready c st) (hs : c'.scopes = c.scopes)
    (ha : c'.assigned ⊆ c.assigned) : Ready c' st :=
  ⟨h.env.weaken hs ha rfl, h.reads⟩

theorem Ready.readable {c : Context} {st : State} (h : Ready c st) :
    Readable c.scopes c.assigned st.env :=
  readable_of_fits h.env.cells

theorem Ready.push {c : Context} {st : State} (h : Ready c st) :
    Ready { c with scopes := c.scopes.push } { st with env := st.env.enter } := by
  refine ⟨⟨h.env.cells.push, fun s hs => ?_⟩, h.reads⟩
  rcases List.mem_cons.mp hs with rfl | hs
  · exact List.nodup_nil
  · exact h.env.names s hs

/-- At the end of a round the loop is settled, or fewer variables can still rise. -/
theorem settle_safe {c c' : Context} (st : State) {after : Environment}
    (hst : EnvironmentFits c st.env) (hafter : EnvironmentFits c' after)
    (hs : c'.scopes = c.scopes) :
    ∃ stable env', Succeeds (settle after) st stable { st with env := env' } ∧
      EnvironmentFits c env' ∧ (stable = false → env'.slack < st.env.slack) := by
  by_cases hid : st.env.identical after = true
  · exact ⟨true, st.env, succeeds_settle.mpr (.inl ⟨hid, rfl, rfl⟩), hst, fun h => (by cases h)⟩
  · obtain ⟨changed, env', hjoin, hfit, hjoined⟩ := join_fits hst hafter hs
    refine ⟨!changed, env', succeeds_settle.mpr (.inr ⟨by simpa using hid, env', ?_, rfl⟩), hfit,
      fun hstable => ?_⟩
    · rw [Bool.not_not]
      exact hjoin
    · have hslack := hjoined.slack
      obtain rfl : changed = true := by simpa using hstable
      unfold Environment.slack
      simp only [Bool.toNat_true] at hslack
      omega

/-- What a round leaves at the head of its loop: what the body made is taken in, and
nothing changes when the loop is settled. -/
theorem settle_absorbs {c c' : Context} {st st' : State} {after : Environment} {stable : Bool}
    (hst : EnvironmentFits c st.env) (hafter : EnvironmentFits c' after)
    (hs : c'.scopes = c.scopes) (h : Succeeds (settle after) st stable st') :
    ∃ env', st' = { st with env := env' } ∧ EnvironmentFits c env' ∧
      Environment.Absorbs after.scopes st.env.scopes env'.scopes ∧
      (stable = true → env' = st.env) := by
  have hlen : st.env.scopes.length = after.scopes.length := by
    have h₁ := hst.cells.height
    have h₂ := hafter.cells.height
    rw [hs] at h₂
    omega
  rcases succeeds_settle.mp h with ⟨hid, rfl, rfl⟩ | ⟨-, env', hjoin, rfl⟩
  · exact ⟨st'.env, rfl, hst, Environment.identical_absorbs hlen hid, fun _ => rfl⟩
  · obtain ⟨hjoined, hstashed⟩ := Environment.join_joined hlen hjoin
    refine ⟨env', rfl, joined_fits hst hjoined, hjoined.absorbs, fun hstable => ?_⟩
    have hscopes := hjoined.same (by rw [hstable]; rfl)
    obtain ⟨scopes, stashed⟩ := env'
    dsimp only at hscopes hstashed
    rw [hscopes, hstashed]

section Statements
variable {config : Config} {types : List (Expr × NumType)}

/-- A loop goes on as long as its rounds are safe, and settles unless a limit is set. -/
theorem rounds_safe {span : Span} {b : Cond} {body : Observed Unit} {c c' : Context}
    (hb : TypedCond c.scopes c.assigned types b) (hbal : Balanced body.forget)
    (hscopes : c'.scopes = c.scopes)
    (hbody : ∀ st, Ready c st → Keeps (safety config types) body st fun _ st' => Ready c' st')
    (left number : Nat) {st : State} (hst : Ready c st)
    (hleft : config.maxIterations ≤ 0 → st.env.slack < left) :
    Keeps (safety config types) ((observing config).rounds span b body left number ()) st
      fun _ st' => Ready c st' := by
  induction left generalizing number st with
  | zero =>
    -- to run out of rounds takes a limit
    refine Keeps.lift (show 0 < config.maxIterations from ?_)
    exact Int.not_le.mp fun hlimit => absurd (hleft hlimit) (Nat.not_lt_zero _)
  | succ left ih =>
    rw [Instrument.rounds_untold _ (fun _ _ => rfl) fun _ _ => rfl]
    refine Keeps.bind ((cond_safe hb hst.readable hst.reads).mono ?_)
    rintro verdict st₁ ⟨-, henv₁, hr₁⟩
    have hst₁ : EnvironmentFits c st₁.env := henv₁ ▸ hst.env
    refine Keeps.bind (onFork_keeps hbal ?_)
    refine (hbody { st₁ with env := st₁.env.fork } ⟨hst₁.weaken rfl (fun _ h => h) rfl, hr₁⟩).mono ?_
    intro _ st₂ hst₂
    have hfork : EnvironmentFits c' ⟨st₂.env.scopes, []⟩ := hst₂.env.alone
    obtain ⟨stable, env₃, hsettle, hfit₃, hslack⟩ :=
      settle_safe { st₂ with env := st₁.env } hst₁ hfork hscopes
    refine Keeps.bind (Keeps.lift_ok hsettle ?_)
    refine Keeps.bind (Keeps.lift_ok (a := ()) (succeeds_modify.mpr rfl) ?_)
    cases stable with
    | true => exact Keeps.pure ⟨hfit₃, hst₂.reads⟩
    | false =>
      refine ih (number + 1) ⟨hfit₃, hst₂.reads⟩ fun hlimit => ?_
      have h₁ := hslack rfl
      have h₂ := hleft hlimit
      dsimp only at h₁ ⊢
      rw [henv₁] at h₁
      omega

theorem slack_lt_roundLimit {env : Environment} (h : config.maxIterations ≤ 0) :
    env.slack < roundLimit config env := by
  unfold roundLimit
  rw [if_neg (by omega)]
  omega

theorem decl_safe {d : Decl} {c c' : Context} {u : Unit} {st : State}
    (h : Succeeds (Check.decl d) c u c') (hc : Coherent c) (ht : c'.types.toList ⊆ types)
    (hst : Ready c st) :
    Keeps (safety config types) ((observing config).item (.decl d)) st fun _ st' =>
      Ready c' st' := by
  obtain ⟨c₁, hd, -, hinit, rfl⟩ := Check.decl_accepted h
  obtain ⟨scopes', hdeclare, -, hfit, hlook⟩ := declare_fits hst.env hc hd
  unfold Instrument.item
  refine Keeps.bind (Keeps.lift_ok (a := ()) (succeeds_introduce.mpr ⟨_, hdeclare, rfl⟩) ?_)
  cases he : d.init with
  | none => exact Keeps.pure ⟨hfit.weaken rfl (fun _ h => h) rfl, hst.reads⟩
  | some e =>
    refine Keeps.bind (Keeps.mono (expr_safe ((hinit e he).mono ht) (hst.readable.congr hlook)
      hst.reads) ?_)
    rintro a st₁ ⟨ha, henv, hr⟩
    have henv : st₁.env = ⟨scopes', st.env.stashed⟩ := henv
    obtain ⟨-, -, scopes₂, hbind, -, -, hfit₂⟩ := bind_fits hfit (Check.decl_coherent hd hc)
      (Check.search?_add hc.items_ne_nil) ha
    rw [← henv] at hbind
    exact Keeps.lift_ok (a := ()) (succeeds_bindName.mpr ⟨_, hbind, rfl⟩)
      ⟨hfit₂.weaken rfl (fun _ h => h) rfl, hr⟩

/-- In the checker's contexts before and after it, a statement keeps the analysis ready. -/
def KeepsReady (config : Config) (types : List (Expr × NumType)) (s : Stmt) : Prop :=
  ∀ {c c' : Context} {u : Unit} {st : State}, Succeeds (Check.stmt s) c u c' → Coherent c →
    c'.types.toList ⊆ types → Ready c st →
    Keeps (safety config types) ((observing config).stmt s) st fun _ st' => Ready c' st'

theorem assign_ready (name : Bytes) (value : Expr) (s : Span) :
    KeepsReady config types (.assign name value s) := by
  intro c c' u st h hc ht hst
  obtain ⟨v, c₁, hv, ⟨more, rfl⟩, hvalue, rfl⟩ := Check.assign_accepted h
  unfold Instrument.stmt
  refine Keeps.bind ((expr_safe (hvalue.mono ht) hst.readable hst.reads).mono ?_)
  rintro a st₁ ⟨ha, henv, hr⟩
  obtain ⟨-, -, scopes', hbind, -, -, hfit⟩ := bind_fits hst.env hc hv ha
  rw [← henv] at hbind
  exact Keeps.lift_ok (a := ()) (succeeds_bindName.mpr ⟨_, hbind, rfl⟩)
    ⟨hfit.weaken rfl (fun _ h => h) rfl, hr⟩

theorem print_ready (value : Expr) (s : Span) : KeepsReady config types (.print value s) := by
  intro c c' u st h hc ht hst
  obtain ⟨⟨more, rfl⟩, t, hvalue⟩ := Check.print_accepted h
  unfold Instrument.stmt
  refine Keeps.bind ((expr_safe (hvalue.mono ht) hst.readable hst.reads).mono ?_)
  rintro a st₁ ⟨ha, henv, hr⟩
  refine Keeps.bind (Keeps.lift_ok (a := ()) (succeeds_report.mpr rfl) ?_)
  exact Keeps.lift_ok (a := ()) (succeeds_modify.mpr rfl)
    ⟨hst.env.weaken rfl (fun _ h => h) (by rw [henv]), hr⟩

theorem block_ready {body : List Item} {s : Span}
    (ih : ∀ {c c' : Context} {u : Unit} {st : State}, Succeeds (Check.items body) c u c' →
      Coherent c → c'.types.toList ⊆ types → Ready c st →
      Keeps (safety config types) ((observing config).items body) st fun _ st' => Ready c' st') :
    KeepsReady config types (.block body s) := by
  intro c c' u st h hc ht hst
  obtain ⟨c₁, hbody, rfl⟩ := Check.within_accepted (by simpa only [Check.stmt] using h)
  have ext := Check.items_extends body (by simp [Scopes.push]) hbody
  unfold Instrument.stmt
  refine Keeps.around ?_
  refine (ih hbody (Check.push_coherent hc) ht hst.push).mono fun _ st' hst' => ?_
  refine ⟨exit_fits hst'.env ?_, hst'.reads⟩
  rw [ext.height]
  exact Nat.succ_le_succ hc.nested

theorem ite_ready {b : Cond} {yes : Stmt} {s : Span} (ih : KeepsReady config types yes) :
    KeepsReady config types (.ite b yes none s) := by
  intro c c' u st h hc ht hst
  obtain ⟨c₁, c₂, hr, hb, hyes, rfl⟩ := Check.ite_accepted h
  obtain ⟨ext, hscopes⟩ := Check.stmt_extends yes hyes
  have hc₁ := (Check.Extends.of_records hr).coherent hc
  obtain ⟨more, rfl⟩ := hr
  unfold Instrument.stmt
  refine Keeps.bind ((cond_safe (hb.mono fun _ hx => ht (ext.types hx)) hst.readable
    hst.reads).mono ?_)
  rintro verdict st₁ ⟨-, henv, hr⟩
  have hst₁ : EnvironmentFits c st₁.env := henv ▸ hst.env
  refine Keeps.bind (Keeps.lift_ok (a := ()) (succeeds_report.mpr rfl) ?_)
  refine Keeps.bind (onFork_keeps (observed_balanced config yes) ?_)
  refine Keeps.mono (ih hyes hc₁ ht ⟨hst₁.weaken rfl (fun _ h => h) rfl, hr⟩) fun _ st₂ hst₂ => ?_
  -- the branch has left the names in sight alone, so its stack can be joined in
  obtain ⟨changed, env', hjoin, hfit, -⟩ := join_fits hst₁ hst₂.env.alone hscopes
  refine Keeps.bind (Keeps.lift_ok (succeeds_joinIn.mpr ⟨env', hjoin, rfl⟩) ?_)
  exact Keeps.pure ⟨hfit.weaken hscopes (fun _ hx => hx) rfl, hst₂.reads⟩

theorem iteElse_ready {b : Cond} {yes no : Stmt} {s : Span} (ihy : KeepsReady config types yes)
    (ihn : KeepsReady config types no) : KeepsReady config types (.ite b yes (some no) s) := by
  intro c c' u st h hc ht hst
  obtain ⟨c₁, c₂, c₃, hr, hb, hyes, hno, rfl⟩ := Check.iteElse_accepted h
  obtain ⟨ext, hscopes⟩ := Check.stmt_extends yes hyes
  obtain ⟨ext', hscopes'⟩ := Check.stmt_extends no hno
  have hc₁ := (Check.Extends.of_records hr).coherent hc
  obtain ⟨more, rfl⟩ := hr
  unfold Instrument.stmt
  refine Keeps.bind ((cond_safe (hb.mono fun _ hx => ht (ext'.types (ext.types hx))) hst.readable
    hst.reads).mono ?_)
  rintro verdict st₁ ⟨-, henv, hr⟩
  have hst₁ : EnvironmentFits c st₁.env := henv ▸ hst.env
  refine Keeps.bind (Keeps.lift_ok (a := ()) (succeeds_report.mpr rfl) ?_)
  refine Keeps.bind (onFork_keeps (observed_balanced config yes) ?_)
  refine Keeps.mono (ihy hyes hc₁ (fun _ hx => ht (ext'.types hx))
    ⟨hst₁.weaken rfl (fun _ h => h) rfl, hr⟩) fun _ st₂ hst₂ => ?_
  refine Keeps.bind (onFork_keeps (observed_balanced config no) ?_)
  -- the second branch starts in the environment from before the first
  have hready : Ready { c₂ with assigned := c.assigned } { st₂ with env := st₁.env.fork } :=
    ⟨hst₁.weaken hscopes (fun _ hx => hx) rfl, hst₂.reads⟩
  refine (ihn hno (ext.restored.coherent hc₁) ht hready).mono fun _ st₃ hst₃ => ?_
  obtain ⟨changed, joined, hjoin, hfit, -⟩ := join_fits hst₂.env.alone hst₃.env.alone hscopes'
  refine Keeps.lift_ok (a := ()) (succeeds_adopt.mpr ⟨changed, joined, hjoin, rfl⟩) ⟨?_, hst₃.reads⟩
  exact hfit.weaken hscopes' (fun _ hk => (Check.assigned_both ext.assigned ext'.assigned hk).1) rfl

theorem loop_ready {b : Cond} {body : Stmt} {s : Span} (ih : KeepsReady config types body) :
    KeepsReady config types (.loop b body s) := by
  intro c c' u st h hc ht hst
  obtain ⟨c₁, c₂, hr, hb, hbody, rfl⟩ := Check.loop_accepted h
  obtain ⟨ext, hscopes⟩ := Check.stmt_extends body hbody
  have hc₁ := (Check.Extends.of_records hr).coherent hc
  obtain ⟨more, rfl⟩ := hr
  unfold Instrument.stmt
  refine Keeps.bind (Keeps.lift_ok (succeeds_get.mpr ⟨rfl, rfl⟩) ?_)
  refine (rounds_safe (c := { c with types := c.types ++ more })
    (hb.mono fun _ hx => ht (ext.types hx)) (observed_balanced config body) hscopes
    (fun st hst => ih hbody hc₁ ht hst) _ 1 (hst.weaken rfl fun _ h => h)
    slack_lt_roundLimit).mono ?_
  intro _ st' hst'
  exact hst'.weaken hscopes fun _ hx => hx

mutual

/-- A statement keeps the analysis ready. -/
theorem stmt_safe : (s : Stmt) → KeepsReady config types s
  | .assign name value s => assign_ready name value s
  | .print value s => print_ready value s
  | .block body _ => block_ready (items_safe body)
  | .ite _ yes none _ => ite_ready (stmt_safe yes)
  | .ite _ yes (some no) _ => iteElse_ready (stmt_safe yes) (stmt_safe no)
  | .loop _ body _ => loop_ready (stmt_safe body)

theorem item_safe : (i : Item) → ∀ {c c' : Context} {u : Unit} {st : State},
    Succeeds (Check.item i) c u c' → Coherent c → c'.types.toList ⊆ types → Ready c st →
    Keeps (safety config types) ((observing config).item i) st fun _ st' => Ready c' st'
  | .decl d, c, c', u, st, h, hc, ht, hst =>
    decl_safe (by simpa only [Check.item] using h) hc ht hst
  | .stmt s, c, c', u, st, h, hc, ht, hst => by
    unfold Instrument.item
    exact stmt_safe s (by simpa only [Check.item] using h) hc ht hst

theorem items_safe : (us : List Item) → ∀ {c c' : Context} {u : Unit} {st : State},
    Succeeds (Check.items us) c u c' → Coherent c → c'.types.toList ⊆ types → Ready c st →
    Keeps (safety config types) ((observing config).items us) st fun _ st' => Ready c' st'
  | [], c, c', u, st, h, hc, ht, hst => by
    obtain ⟨-, rfl⟩ := succeeds_pure.mp (by simpa only [Check.items] using h)
    unfold Instrument.items
    exact Keeps.pure hst
  | i :: rest, c, c', u, st, h, hc, ht, hst => by
    simp only [Check.items, succeeds_bind] at h
    obtain ⟨_, c₁, hi, hrest⟩ := h
    have ext := Check.item_extends i hc.items_ne_nil hi
    have hc₁ := ext.coherent hc
    have ext' := Check.items_extends rest hc₁.items_ne_nil hrest
    unfold Instrument.items
    refine Keeps.bind ((item_safe i hi hc (fun _ hx => ht (ext'.types hx)) hst).mono ?_)
    intro _ st₁ hst₁
    exact items_safe rest hrest hc₁ ht hst₁

end

end Statements
end Signum.Analysis
