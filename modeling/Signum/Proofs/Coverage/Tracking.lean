import Signum.Proofs.Analysis.Safety
import Signum.Proofs.Coverage.Standing
import Signum.Proofs.Run.Safety
/- Stores that follow environments.

   A cell of the store `Follows` the same cell of the environment when what it holds is
   described there. `Tracks` asks this of the assigned variables and, unless it is lost, of
   one global variable whose standing is followed; `Stands` says that the standing is as
   the environment has it. Both are kept by the changes the two sides make together:
   opening and closing a scope, assigning and declaring a variable, and the joins that only
   the analysis makes. -/
namespace Signum

open Check (Coherent)

open Environment (held)

/-- What the store holds in a cell is described by what the environment holds there. -/
def Follows (scopes : List Scope) (store : Store) (i : Nat) (n : Bytes) : Prop :=
  ∀ v, cell store.scopes i n = some (some v) →
    ∃ a, held scopes i n = some a ∧ v.abstract.leq a = true

namespace Follows
variable {scopes scopes' theirs : List Scope} {store store' : Store} {i : Nat} {n : Bytes}

theorem raise (h : Follows scopes store i n) (hr : Environment.Raises scopes scopes') :
    Follows scopes' store i n := by
  intro v hv
  obtain ⟨a, ha, hle⟩ := h v hv
  obtain ⟨b, hb, hab⟩ := hr.bound i n a ha
  exact ⟨b, hb, Atom.leq_trans hle hab⟩

/-- What is described by one side of a join is described by the join, where the first side
has something to say. -/
theorem absorbed (h : Follows theirs store i n) (ha : Environment.Absorbs theirs scopes scopes')
    (hm : (held theirs i n).isSome → (held scopes i n).isSome) : Follows scopes' store i n := by
  intro v hv
  obtain ⟨a, hheld, hle⟩ := h v hv
  obtain ⟨b, hb, hab⟩ := ha.covers i n a hheld (hm (by simp [hheld]))
  exact ⟨b, hb, Atom.leq_trans hle hab⟩

theorem of_unbound (h : ∀ v, cell store.scopes i n ≠ some (some v)) : Follows scopes store i n :=
  fun v hv => absurd hv (h v)

/-- Both sides set the cell. -/
theorem set_here {slot : Slot} {w : Option Value} (hs : Sets scopes i n slot scopes')
    (hw : Sets store.scopes i n w store'.scopes)
    (h : ∀ v, w = some v → ∃ a, slot.value = some a ∧ v.abstract.leq a = true) :
    Follows scopes' store' i n := by
  intro v hv
  rw [hw.here, Option.some.injEq] at hv
  obtain ⟨a, ha, hle⟩ := h v hv
  exact ⟨a, Environment.held_eq_some.mpr ⟨slot, hs.here, ha⟩, hle⟩

/-- Both sides set another cell. -/
theorem set_other {slot : Slot} {w : Option Value} {j : Nat} {m : Bytes}
    (h : Follows scopes store i n) (hs : Sets scopes j m slot scopes')
    (hw : Sets store.scopes j m w store'.scopes) (hne : ¬(i = j ∧ n = m)) :
    Follows scopes' store' i n := by
  intro v hv
  rw [hw.other hne] at hv
  obtain ⟨a, ha, hle⟩ := h v hv
  exact ⟨a, by rw [held, hs.other hne]; exact ha, hle⟩

end Follows

theorem EnvironmentFits.held_isSome {c : Context} {env : Environment} {i : Nat} {n : Bytes}
    {v : Variable} (h : EnvironmentFits c env) (hv : cell c.scopes.items i n = some (.variable v))
    (hm : v.number ∈ c.assigned) : (held env.scopes i n).isSome := by
  obtain ⟨slot, hslot, hfit⟩ := h.cells.known i n v hv
  obtain ⟨a, ha⟩ := Option.isSome_iff_exists.mp (hfit.bound hm)
  rw [Environment.held_eq_some.mpr ⟨slot, hslot, ha⟩]
  rfl

/-- The scope of the global variables, counted from the innermost one. -/
def Context.outermost (c : Context) : Nat := c.scopes.items.length - 2

/-- The standing of `x` is as the names in sight and the environment have it. -/
structure Stands (x : Bytes) (t : Standing) (c : Context) (scopes : List Scope) : Prop where
  bound : t.bound = (held scopes c.outermost x).isSome
  hidden : t.hidden = true ↔ ∃ i < c.outermost, (cell c.scopes.items i x).isSome

/-- The store follows the environment on the assigned variables, and on the global
variable `x` unless it is lost. -/
structure Tracks (x : Bytes) (t : Standing) (c : Context) (scopes : List Scope)
    (store : Store) : Prop where
  assigned : ∀ i n v, cell c.scopes.items i n = some (.variable v) → v.number ∈ c.assigned →
    Follows scopes store i n
  global : t.lost = false → Follows scopes store c.outermost x

namespace Tracks
variable {x : Bytes} {t t' : Standing} {c c' : Context} {scopes scopes' : List Scope}
  {store : Store}

theorem weaken (h : Tracks x t c scopes store) (hs : c'.scopes = c.scopes)
    (ha : c'.assigned ⊆ c.assigned) (ht : t'.lost = false → t.lost = false) :
    Tracks x t' c' scopes store := by
  refine ⟨fun i n v hv hm => h.assigned i n v (hs ▸ hv) (ha hm), fun hl => ?_⟩
  have := h.global (ht hl)
  rw [Context.outermost, ← hs] at this
  exact this

theorem raise (h : Tracks x t c scopes store) (hr : Environment.Raises scopes scopes') :
    Tracks x t c scopes' store :=
  ⟨fun i n v hv hm => (h.assigned i n v hv hm).raise hr, fun hl => (h.global hl).raise hr⟩

/-- What tracks the other side of a join tracks the join, which is bound where the
variables assigned on both sides are. -/
theorem absorbed {theirs : List Scope} {mine other : Standing}
    (h : Tracks x other c theirs store) (ha : Environment.Absorbs theirs scopes scopes')
    (hs : c'.scopes = c.scopes) (hsub : c'.assigned ⊆ c.assigned)
    (hbound : ∀ i n v, cell c'.scopes.items i n = some (.variable v) → v.number ∈ c'.assigned →
      (held scopes i n).isSome)
    (hmine : Stands x mine c' scopes) (hother : Stands x other c theirs) :
    Tracks x (mine.join other) c' scopes' store := by
  refine ⟨fun i n v hv hm => ?_, fun hl => ?_⟩
  · exact (h.assigned i n v (hs ▸ hv) (hsub hm)).absorbed ha fun _ => hbound i n v hv hm
  · obtain ⟨-, hlost, hb⟩ := Standing.join_not_lost hl
    have hglobal := h.global hlost
    have houter : c'.outermost = c.outermost := by rw [Context.outermost, hs]; rfl
    rw [houter]
    refine hglobal.absorbed ha fun hheld => ?_
    rw [← houter, ← hmine.bound]
    exact hb (by rw [hother.bound, hheld])

end Tracks

namespace Stands
variable {x : Bytes} {t : Standing} {c c' : Context} {scopes scopes' : List Scope}

theorem weaken (h : Stands x t c scopes) (hs : c'.scopes = c.scopes) : Stands x t c' scopes := by
  have houter : c'.outermost = c.outermost := by rw [Context.outermost, hs]; rfl
  exact ⟨by rw [houter]; exact h.bound, by rw [houter, hs]; exact h.hidden⟩

theorem raise (h : Stands x t c scopes) (hr : Environment.Raises scopes scopes') :
    Stands x t c scopes' := by
  refine ⟨?_, h.hidden⟩
  rw [h.bound]
  cases hheld : held scopes c.outermost x with
  | none => rw [hr.unbound _ _ hheld]
  | some a =>
    obtain ⟨b, hb, -⟩ := hr.bound _ _ a hheld
    rw [hb]
    rfl

theorem join (h : Stands x t c scopes) (other : Standing) : Stands x (t.join other) c scopes :=
  ⟨h.bound, h.hidden⟩

end Stands

/-! Opening and closing a scope. -/

section Scopes
variable {x : Bytes} {t t' : Standing} {c c' : Context} {scopes : List Scope} {store : Store}

theorem outermost_push (hc : Coherent c) :
    Context.outermost { c with scopes := c.scopes.push } = c.outermost + 1 := by
  have := hc.nested
  simp only [Context.outermost, Scopes.push, List.length_cons]
  omega

theorem Stands.push (h : Stands x t c scopes) (hc : Coherent c) :
    Stands x t { c with scopes := c.scopes.push } ([] :: scopes) := by
  refine ⟨by rw [outermost_push hc]; exact h.bound, ?_⟩
  rw [h.hidden, outermost_push hc]
  constructor
  · rintro ⟨i, hi, hcell⟩
    exact ⟨i + 1, Nat.succ_lt_succ hi, hcell⟩
  · rintro ⟨i, hi, hcell⟩
    cases i with
    | zero => cases hcell
    | succ i => exact ⟨i, Nat.lt_of_succ_lt_succ hi, hcell⟩

theorem Tracks.push (h : Tracks x t c scopes store) (hc : Coherent c) :
    Tracks x t { c with scopes := c.scopes.push } ([] :: scopes) store.enter := by
  refine ⟨fun i n v hv hm => ?_, fun hl => by rw [outermost_push hc]; exact h.global hl⟩
  cases i with
  | zero => cases hv
  | succ i => exact h.assigned i n v hv hm

theorem held_tail (scopes : List Scope) (i : Nat) (n : Bytes) :
    held scopes.tail i n = held scopes (i + 1) n := by
  rw [held, held, cell_tail]

theorem outermost_pop (hs : c'.scopes.pop = c.scopes) :
    Context.outermost { c' with scopes := c'.scopes.pop } = c.outermost := by
  rw [Context.outermost, hs]
  rfl

/-- Closing a scope brings back what it hid. -/
theorem Stands.pop {scopes₀ : List Scope} (h : Stands x t' c' scopes) (h₀ : Stands x t c scopes₀)
    (hs : c'.scopes.pop = c.scopes) (ho : c'.outermost = c.outermost + 1) :
    Stands x { t' with hidden := t.hidden } { c' with scopes := c'.scopes.pop } scopes.tail := by
  refine ⟨?_, ?_⟩
  · rw [outermost_pop hs, held_tail, ← ho]
    exact h.bound
  · rw [outermost_pop hs, hs]
    exact h₀.hidden

theorem Tracks.pop {store' : Store} (h : Tracks x t' c' scopes store)
    (hs : c'.scopes.pop = c.scopes) (ho : c'.outermost = c.outermost + 1)
    (hstore : store'.scopes = store.scopes.tail) :
    Tracks x { t' with hidden := t.hidden } { c' with scopes := c'.scopes.pop } scopes.tail
      store' := by
  have hfollows (i : Nat) (n : Bytes) (hf : Follows scopes store (i + 1) n) :
      Follows scopes.tail store' i n := by
    intro v hv
    rw [hstore, cell_tail] at hv
    rw [held_tail]
    exact hf v hv
  refine ⟨fun i n v hv hm => hfollows i n (h.assigned (i + 1) n v ?_ hm), fun hl => ?_⟩
  · rw [← cell_tail]
    exact hv
  · rw [outermost_pop hs]
    refine hfollows c.outermost x ?_
    rw [← ho]
    exact h.global hl

end Scopes

/-! Setting a variable on both sides. -/

section Setting
variable {x : Bytes} {t : Standing} {c : Context} {scopes scopes' : List Scope}
  {store store' : Store}

/-- An assignment reaches the global variable `x` when it names it and nothing hides it. -/
theorem Stands.reaches (h : Stands x t c scopes) (hc : Coherent c) {name : Bytes} {i : Nat}
    {v : Variable} (hv : c.scopes.search? name = some (.variable v))
    (hi : cell c.scopes.items i name = some (.variable v)) :
    (name = x ∧ t.hidden = false) ↔ (c.outermost = i ∧ x = name) := by
  obtain ⟨j, hj, hcell⟩ := findSome?_lookup.mp hv
  obtain ⟨rfl, -⟩ := hc.same_cell hi hcell rfl
  have hlt := (hc.own i name v hi).1
  constructor
  · rintro ⟨rfl, hhid⟩
    refine ⟨?_, rfl⟩
    have hnot : ¬ i < c.outermost := fun hlt => by
      rw [h.hidden.mpr ⟨i, hlt, by simp [hi]⟩] at hhid
      cases hhid
    unfold Context.outermost at hnot ⊢
    omega
  · rintro ⟨rfl, rfl⟩
    refine ⟨rfl, ?_⟩
    rw [← Bool.not_eq_true, h.hidden]
    rintro ⟨j, hj', hsome⟩
    rw [hj.2 j hj'] at hsome
    cases hsome

theorem Stands.assign (h : Stands x t c scopes) (hc : Coherent c) {name : Bytes} {i : Nat}
    {v : Variable} {d : Domain} {a : Atom} (hv : c.scopes.search? name = some (.variable v))
    (hi : cell c.scopes.items i name = some (.variable v))
    (hset : Sets scopes i name ⟨d, some a⟩ scopes') :
    Stands x (t.assign x name) { c with assigned := c.assigned.insert v.number } scopes' := by
  refine ⟨?_, by rw [Standing.hidden_assign]; exact h.hidden⟩
  have hreach := h.reaches hc hv hi
  change _ = (held scopes' c.outermost x).isSome
  by_cases hhere : c.outermost = i ∧ x = name
  · obtain ⟨hname, hhid⟩ := hreach.mpr hhere
    rw [hhere.1, hhere.2, held, hset.here]
    simp [Standing.assign, hhid]
  · have hnot : t.assign x name = t := by
      refine if_neg fun hcond => hhere (hreach.mp ?_)
      simpa using hcond
    rw [hnot, held, hset.other hhere]
    exact h.bound

theorem Tracks.assign (h : Tracks x t c scopes store) (hstands : Stands x t c scopes)
    (hc : Coherent c) {name : Bytes} {i : Nat} {v : Variable} {d : Domain} {a : Atom} {y : Value}
    (hv : c.scopes.search? name = some (.variable v))
    (hi : cell c.scopes.items i name = some (.variable v))
    (hset : Sets scopes i name ⟨d, some a⟩ scopes')
    (hstore : Sets store.scopes i name (some y) store'.scopes) (hle : y.abstract.leq a = true) :
    Tracks x (t.assign x name) { c with assigned := c.assigned.insert v.number } scopes' store' := by
  have hhere : Follows scopes' store' i name :=
    Follows.set_here hset hstore fun u hu => ⟨a, rfl, by cases hu; exact hle⟩
  refine ⟨fun j m w hw hm => ?_, fun hl => ?_⟩
  · by_cases hjm : j = i ∧ m = name
    · rw [hjm.1, hjm.2]
      exact hhere
    · exact (h.assigned j m w hw (hc.mem_insert hi hw hjm hm)).set_other hset hstore hjm
  · change Follows scopes' store' c.outermost x
    by_cases hglobal : c.outermost = i ∧ x = name
    · rw [hglobal.1, hglobal.2]
      exact hhere
    · have hnot : t.assign x name = t := by
        refine if_neg fun hcond => hglobal ((hstands.reaches hc hv hi).mp ?_)
        simpa using hcond
      rw [hnot] at hl
      exact (h.global hl).set_other hset hstore hglobal

/-- What a declaration changes: the innermost scope has one more name, on all sides. -/
structure Declares (c : Context) (d : Decl) (c' : Context) : Prop where
  names : Sets c.scopes.items 0 d.name (.variable (Check.declared c d)) c'.scopes.items
  assigned : c'.assigned = if d.init.isSome then c.assigned.insert c.variables.size else c.assigned

theorem Declares.outermost {c' : Context} {d : Decl} (h : Declares c d c') :
    c'.outermost = c.outermost := by
  rw [Context.outermost, h.names.length]
  rfl

theorem Stands.declare {c' : Context} {d : Decl} {top : Bool} {slot : Slot}
    (h : Stands x t c scopes) (hd : Declares c d c') (htop : top = true ↔ c.outermost = 0)
    (hset : Sets scopes 0 d.name slot scopes') (hslot : slot.value.isSome = d.init.isSome) :
    Stands x (t.declare x top d) c' scopes' := by
  rw [Standing.declare]
  by_cases hx : d.name = x
  · subst hx
    rw [if_neg (by simp)]
    cases top with
    | true =>
      have h0 := htop.mp rfl
      rw [if_pos rfl]
      refine ⟨?_, ?_⟩
      · rw [hd.outermost, h0, held, hset.here]
        exact hslot.symm
      · simp [hd.outermost, h0]
    | false =>
      have h0 : c.outermost ≠ 0 := fun h0 => by cases htop.mpr h0
      rw [if_neg (by simp)]
      refine ⟨?_, ?_⟩
      · rw [hd.outermost, held, hset.other (by omega)]
        exact h.bound
      · rw [hd.outermost]
        exact ⟨fun _ => ⟨0, Nat.pos_of_ne_zero h0, by simp [hd.names.here]⟩, fun _ => rfl⟩
  · rw [if_pos hx]
    have hne (i : Nat) : ¬(i = 0 ∧ x = d.name) := fun hi => hx hi.2.symm
    refine ⟨?_, ?_⟩
    · rw [hd.outermost, held, hset.other (hne _)]
      exact h.bound
    · rw [hd.outermost, h.hidden]
      simp only [hd.names.other (hne _)]

theorem Tracks.declare {c' : Context} {d : Decl} {top : Bool} {slot : Slot} {w : Option Value}
    (h : Tracks x t c scopes store) (hc : Coherent c) (hd : Declares c d c')
    (htop : top = true ↔ c.outermost = 0) (hset : Sets scopes 0 d.name slot scopes')
    (hstore : Sets store.scopes 0 d.name w store'.scopes)
    (hle : ∀ v, w = some v → ∃ a, slot.value = some a ∧ v.abstract.leq a = true) :
    Tracks x (t.declare x top d) c' scopes' store' := by
  have hhere : Follows scopes' store' 0 d.name := Follows.set_here hset hstore hle
  refine ⟨fun j m u hu hm => ?_, fun hl => ?_⟩
  · by_cases hjm : j = 0 ∧ m = d.name
    · rw [hjm.1, hjm.2]
      exact hhere
    · -- every other cell is where it was, and assigned when it was before
      rw [hd.names.other hjm] at hu
      refine (h.assigned j m u hu ?_).set_other hset hstore hjm
      rw [hd.assigned] at hm
      split at hm
      · rcases List.mem_insert_iff.mp hm with heq | hm
        · exact absurd heq (Nat.ne_of_lt (hc.number_lt hu))
        · exact hm
      · exact hm
  · rw [hd.outermost]
    by_cases hglobal : c.outermost = 0 ∧ x = d.name
    · rw [hglobal.1, hglobal.2]
      exact hhere
    · refine (h.global ?_).set_other hset hstore hglobal
      rw [Standing.declare] at hl
      by_cases hx : d.name = x
      · have htop' : top = false := by
          rw [← Bool.not_eq_true, htop]
          exact fun h0 => hglobal ⟨h0, hx.symm⟩
        rw [if_neg (by simp [hx]), htop'] at hl
        exact hl
      · rw [if_pos hx] at hl
        exact hl

end Setting
end Signum
