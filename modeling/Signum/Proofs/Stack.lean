import Signum.Analysis.Environment
import Signum.Check.Checker
import Signum.Run.Store
import Mathlib.Data.List.Forall2
import Mathlib.Tactic.Basic
/- Stacks of scopes, seen cell by cell.

   The names of the checker, the environment of an analysis and the store of a run
   are stacks of scopes, innermost first, and each scope is a list of names with
   something for each. What such a stack holds is `cell stack i n`: what scope `i`,
   counted from the innermost, has for the name `n`. Declaring and binding change
   one cell (`Sets`), opening and closing a scope shift the cells, and looking a
   name up finds its first cell (`Nearest`). The modules that follow use these
   facts and never look at the lists. -/
namespace Signum

/-- Closing a scope that is not the only one leaves the scopes around it. -/
theorem Environment.exit_scopes {env : Environment} (h : 2 ≤ env.scopes.length) :
    env.exit.2.scopes = env.scopes.tail := by
  obtain ⟨scopes, stashed⟩ := env
  match scopes, h with
  | _ :: _ :: _, _ => rfl

theorem Store.exit_scopes {store : Store} (h : 2 ≤ store.scopes.length) :
    store.exit.2.scopes = store.scopes.tail := by
  obtain ⟨scopes⟩ := store
  match scopes, h with
  | _ :: _ :: _, _ => rfl

section Cells
variable {γ : Type}

/-- What scope `i` of a stack, counted from the innermost, holds for a name. -/
def cell (stack : List (List (Bytes × γ))) (i : Nat) (n : Bytes) : Option γ :=
  stack[i]?.bind (·.lookup n)

@[simp] theorem cell_zero (s : List (Bytes × γ)) (rest : List (List (Bytes × γ))) (n : Bytes) :
    cell (s :: rest) 0 n = s.lookup n := rfl

@[simp] theorem cell_succ (s : List (Bytes × γ)) (rest : List (List (Bytes × γ))) (i : Nat)
    (n : Bytes) : cell (s :: rest) (i + 1) n = cell rest i n := rfl

@[simp] theorem cell_nil (i : Nat) (n : Bytes) : cell ([] : List (List (Bytes × γ))) i n = none :=
  rfl

theorem cell_tail (stack : List (List (Bytes × γ))) (i : Nat) (n : Bytes) :
    cell stack.tail i n = cell stack (i + 1) n := by
  cases stack <;> rfl

/-- Scope `i` is the first to have the name. -/
def Nearest (stack : List (List (Bytes × γ))) (n : Bytes) (i : Nat) : Prop :=
  (cell stack i n).isSome ∧ ∀ j < i, cell stack j n = none

theorem nearest_succ {s : List (Bytes × γ)} {rest : List (List (Bytes × γ))} {n : Bytes} {i : Nat} :
    Nearest (s :: rest) n (i + 1) ↔ s.lookup n = none ∧ Nearest rest n i := by
  unfold Nearest
  constructor
  · rintro ⟨h, hj⟩
    exact ⟨hj 0 (by omega), h, fun j hji => hj (j + 1) (by omega)⟩
  · rintro ⟨hs, h, hj⟩
    refine ⟨h, fun j hji => ?_⟩
    cases j with
    | zero => exact hs
    | succ j => exact hj j (by omega)

theorem nearest_unique {stack : List (List (Bytes × γ))} {n : Bytes} {i j : Nat}
    (hi : Nearest stack n i) (hj : Nearest stack n j) : i = j := by
  rcases Nat.lt_trichotomy i j with h | h | h
  · have := hi.1; rw [hj.2 i h] at this; cases this
  · exact h
  · have := hj.1; rw [hi.2 j h] at this; cases this

/-- Looking through the scopes finds the nearest cell of the name. -/
theorem findSome?_lookup {stack : List (List (Bytes × γ))} {n : Bytes} {x : γ} :
    stack.findSome? (·.lookup n) = some x ↔ ∃ i, Nearest stack n i ∧ cell stack i n = some x := by
  induction stack with
  | nil => simp
  | cons s rest ih =>
    cases hs : s.lookup n with
    | some y =>
      simp only [List.findSome?_cons, hs, Option.some.injEq]
      constructor
      · rintro rfl
        exact ⟨0, ⟨by simp [hs], by simp⟩, hs⟩
      · rintro ⟨i, hi, hx⟩
        cases i with
        | zero => simpa [hs] using hx
        | succ i => rw [(nearest_succ.mp hi).1] at hs; cases hs
    | none =>
      simp only [List.findSome?_cons, hs, ih]
      constructor
      · rintro ⟨i, hi, hx⟩
        exact ⟨i + 1, nearest_succ.mpr ⟨hs, hi⟩, hx⟩
      · rintro ⟨i, hi, hx⟩
        cases i with
        | zero => rw [cell_zero, hs] at hx; cases hx
        | succ i => exact ⟨i, (nearest_succ.mp hi).2, hx⟩

/-- One cell of a stack is set and nothing else changes. -/
structure Sets (stack : List (List (Bytes × γ))) (i : Nat) (n : Bytes) (x : γ)
    (stack' : List (List (Bytes × γ))) : Prop where
  length : stack'.length = stack.length
  cell : ∀ j m, cell stack' j m = if j = i ∧ m = n then some x else cell stack j m

namespace Sets
variable {stack stack' : List (List (Bytes × γ))} {i : Nat} {n : Bytes} {x : γ}

theorem here (h : Sets stack i n x stack') : Signum.cell stack' i n = some x := by
  simp [h.cell i n]

theorem other (h : Sets stack i n x stack') {j : Nat} {m : Bytes} (hjm : ¬(j = i ∧ m = n)) :
    Signum.cell stack' j m = Signum.cell stack j m := by
  rw [h.cell j m, if_neg hjm]

/-- Setting a cell to what it holds changes nothing. -/
theorem self (h : Signum.cell stack i n = some x) : Sets stack i n x stack := by
  refine ⟨rfl, fun j m => ?_⟩
  split
  · next hjm => rw [hjm.1, hjm.2, h]
  · rfl

/-- Changing one name of the innermost scope sets its cell. -/
theorem top {s s' : List (Bytes × γ)} {rest : List (List (Bytes × γ))}
    (h : ∀ m, s'.lookup m = if m = n then some x else s.lookup m) :
    Sets (s :: rest) 0 n x (s' :: rest) := by
  refine ⟨rfl, fun j m => ?_⟩
  cases j with
  | zero => simpa using h m
  | succ j => simp

/-- The later of two values set in one cell stays. -/
theorem again {stack'' : List (List (Bytes × γ))} {y : γ} (h : Sets stack i n x stack')
    (h' : Sets stack' i n y stack'') : Sets stack i n y stack'' := by
  refine ⟨h'.length.trans h.length, fun j m => ?_⟩
  rw [h'.cell j m, h.cell j m]
  split <;> rfl

theorem below (h : Sets stack i n x stack') (s : List (Bytes × γ)) :
    Sets (s :: stack) (i + 1) n x (s :: stack') := by
  refine ⟨by simp [h.length], fun j m => ?_⟩
  cases j with
  | zero => simp
  | succ j => simp [h.cell j m]

end Sets

theorem lookup_map_if {s : List (Bytes × γ)} {n m : Bytes} {f : γ → γ} :
    (s.map fun (k, x) => if k = n then (k, f x) else (k, x)).lookup m =
      if m = n then (s.lookup m).map f else s.lookup m := by
  induction s with
  | nil => simp
  | cons e rest ih =>
    obtain ⟨k, x⟩ := e
    by_cases hk : m = k
    · subst hk
      by_cases hn : m = n <;> simp [hn]
    · have hb : (m == k) = false := by simp [hk]
      by_cases hn : k = n
      · simp only [List.map_cons, if_pos hn, List.lookup_cons, hb, ih]
      · simp only [List.map_cons, if_neg hn, List.lookup_cons, hb, ih]

/-- Changing what a name stands for changes no name. -/
theorem names_map_if {s : List (Bytes × γ)} {n : Bytes} {f : γ → γ} :
    (s.map fun (k, x) => if k = n then (k, f x) else (k, x)).map Prod.fst = s.map Prod.fst := by
  rw [List.map_map]
  refine List.map_congr_left fun e _ => ?_
  simp only [Function.comp_apply]
  split <;> rfl

section Corresponding
variable {δ : Type} {R : Bytes × γ → Bytes × δ → Prop}

/-- Entries that correspond one by one, each to one of its name, have the same names. -/
theorem names_forall₂ (hR : ∀ {p q}, R p q → p.1 = q.1) {s : List (Bytes × γ)}
    {s' : List (Bytes × δ)} (h : List.Forall₂ R s s') : s'.map Prod.fst = s.map Prod.fst := by
  induction h with
  | nil => rfl
  | cons hp _ ih => rw [List.map_cons, List.map_cons, hR hp, ih]

theorem stackNames_forall₂ (hR : ∀ {p q}, R p q → p.1 = q.1) {stack : List (List (Bytes × γ))}
    {stack' : List (List (Bytes × δ))} (h : List.Forall₂ (List.Forall₂ R) stack stack') :
    stack'.map (·.map Prod.fst) = stack.map (·.map Prod.fst) := by
  induction h with
  | nil => rfl
  | cons hs _ ih => rw [List.map_cons, List.map_cons, names_forall₂ hR hs, ih]

end Corresponding

/-- A name that is not there yet keeps the names of a scope apart. -/
theorem nodup_declared {s : List (Bytes × γ)} {n : Bytes} (hs : (s.map Prod.fst).Nodup)
    (hn : s.lookup n = none) (x : γ) : ((s ++ [(n, x)]).map Prod.fst).Nodup := by
  have hnew : n ∉ s.map Prod.fst := by
    intro hm
    obtain ⟨e, he, rfl⟩ := List.mem_map.mp hm
    simpa using List.lookup_eq_none_iff.mp hn e he
  rw [List.map_append]
  refine List.nodup_append.mpr ⟨hs, by simp, fun a ha b hb hab => ?_⟩
  obtain rfl := List.mem_singleton.mp hb
  exact hnew (hab ▸ ha)

theorem sets_map {s : List (Bytes × γ)} {rest : List (List (Bytes × γ))} {n : Bytes} {x : γ}
    {f : γ → γ} (hs : s.lookup n = some x) :
    Sets (s :: rest) 0 n (f x)
      ((s.map fun (k, y) => if k = n then (k, f y) else (k, y)) :: rest) := by
  refine .top fun m => ?_
  rw [lookup_map_if]
  by_cases hm : m = n
  · subst hm; simp [hs]
  · simp [hm]

theorem sets_cons (s : List (Bytes × γ)) (rest : List (List (Bytes × γ))) (n : Bytes) (x : γ) :
    Sets (s :: rest) 0 n x (((n, x) :: s) :: rest) := by
  refine .top fun m => ?_
  by_cases hm : m = n
  · simp [hm]
  · have : (m == n) = false := by simp [hm]
    simp [hm, List.lookup_cons, this]

theorem sets_append {s : List (Bytes × γ)} {rest : List (List (Bytes × γ))} {n : Bytes} {x : γ}
    (hs : s.lookup n = none) : Sets (s :: rest) 0 n x ((s ++ [(n, x)]) :: rest) := by
  refine .top fun m => ?_
  rw [List.lookup_append]
  by_cases hm : m = n
  · subst hm; simp [hs]
  · have : (m == n) = false := by simp [hm]
    simp [hm, List.lookup_cons, this]

end Cells

namespace Environment

/-- Binding a name sets its nearest cell, which keeps its domain. -/
theorem bindIn_eq_ok {n : Bytes} {a : Atom} {scopes scopes' : List Scope} :
    bindIn n a scopes = .ok scopes' → ∃ i slot, Nearest scopes n i ∧ cell scopes i n = some slot ∧
      a.domain = slot.domain ∧ Sets scopes i n { slot with value := some a } scopes' := by
  induction scopes generalizing scopes' with
  | nil => simp [bindIn]
  | cons s rest ih =>
    intro h
    unfold bindIn at h
    split at h
    · next slot hs =>
      split at h
      · next hd =>
        cases h
        refine ⟨0, slot, ⟨by simp [hs], by simp⟩, hs, hd, ?_⟩
        exact sets_map (f := fun slot => { slot with value := some a }) hs
      · cases h
    · next hs =>
      cases hb : bindIn n a rest with
      | error f => rw [hb] at h; cases h
      | ok rest' =>
        rw [hb] at h
        cases h
        obtain ⟨i, slot, hi, hslot, hd, hset⟩ := ih hb
        exact ⟨i + 1, slot, nearest_succ.mpr ⟨hs, hi⟩, hslot, hd, hset.below s⟩

theorem bindIn_ok {n : Bytes} {a : Atom} {scopes : List Scope} {i : Nat} {slot : Slot}
    (hi : Nearest scopes n i) (hslot : cell scopes i n = some slot) (hd : a.domain = slot.domain) :
    ∃ scopes', bindIn n a scopes = .ok scopes' := by
  induction scopes generalizing i with
  | nil => cases hslot
  | cons s rest ih =>
    unfold bindIn
    cases i with
    | zero =>
      rw [cell_zero] at hslot
      simp only [hslot, if_pos hd]
      exact ⟨_, rfl⟩
    | succ i =>
      obtain ⟨hs, hi⟩ := nearest_succ.mp hi
      obtain ⟨rest', hr⟩ := ih hi hslot
      simp only [hs, hr]
      exact ⟨_, rfl⟩

/-- The innermost bound variable is the nearest one, when that is bound. -/
theorem lookup?_nearest {n : Bytes} {scopes stashed} {i : Nat} {slot : Slot} {a : Atom}
    (hi : Nearest scopes n i) (hslot : cell scopes i n = some slot) (ha : slot.value = some a) :
    lookup? n ⟨scopes, stashed⟩ = some a := by
  unfold lookup?
  induction scopes generalizing i with
  | nil => cases hslot
  | cons s rest ih =>
    cases i with
    | zero =>
      rw [cell_zero] at hslot
      simp [hslot, ha]
    | succ i =>
      obtain ⟨hs, hi⟩ := nearest_succ.mp hi
      simp only [List.findSome?_cons, hs, Option.bind_none]
      exact ih hi hslot

theorem lookup_overwrite (name n : Bytes) (a : Atom) (l : List (Bytes × Atom)) :
    (overwrite name a l).lookup n = if n = name then some a else l.lookup n := by
  induction l with
  | nil =>
    by_cases h : n = name
    · simp [overwrite, h]
    · simp [overwrite, h, List.lookup_cons, beq_eq_false_iff_ne.mpr h]
  | cons p rest ih =>
    obtain ⟨m, b⟩ := p
    unfold overwrite
    by_cases h : n = m
    · subst h
      by_cases hm : n = name <;> simp [hm]
    · rw [List.lookup_cons, beq_eq_false_iff_ne.mpr h, ← ih]
      by_cases hm : m = name
      · subst hm
        simp [ih, h, List.lookup_cons, beq_eq_false_iff_ne.mpr h]
      · simp [hm, List.lookup_cons, beq_eq_false_iff_ne.mpr h]

/-- Writes the bound variables of a scope over what is known of outer ones. -/
def overlay (s : Scope) (known : List (Bytes × Atom)) : List (Bytes × Atom) :=
  s.foldl (fun acc p => match p.2.value with
    | some v => overwrite p.1 v acc
    | none => acc) known

theorem bound_eq_overlay (e : Environment) : e.bound = e.scopes.foldr overlay [] := by
  have hscopes : e.scopes.reverse.foldl (fun acc s => overlay s acc) [] =
      e.scopes.reverse.zipIdx.foldl (fun acc p => overlay p.1 acc) [] := by
    conv =>
      lhs
      rw [← List.zipIdx_map_fst 0 e.scopes.reverse, List.foldl_map]
  rw [← List.foldl_reverse, hscopes, bound, snapshot, List.foldl_flatMap]
  simp only [List.foldl_map]
  rfl

theorem lookup_overlay {s : Scope} (hs : (s.map Prod.fst).Nodup) (known : List (Bytes × Atom))
    (n : Bytes) : (overlay s known).lookup n = ((s.lookup n).bind (·.value)).or (known.lookup n) := by
  induction s generalizing known with
  | nil => rfl
  | cons p rest ih =>
    obtain ⟨m, slot⟩ := p
    obtain ⟨hm, hrest⟩ := List.nodup_cons.mp hs
    rw [overlay, List.foldl_cons]
    change (overlay rest _).lookup n = _
    rw [ih hrest]
    by_cases h : n = m
    · subst h
      have habsent : rest.lookup n = none := by
        refine List.lookup_eq_none_iff.mpr fun q hq => ?_
        have hmem : q.1 ∈ rest.map Prod.fst := List.mem_map_of_mem hq
        have hne : n ≠ q.1 := fun heq => hm (heq ▸ hmem)
        simpa using hne
      cases hv : slot.value <;> simp [habsent, hv, lookup_overwrite]
    · cases slot.value <;>
        simp [List.lookup_cons, beq_eq_false_iff_ne.mpr h, h, lookup_overwrite]

/-- The bound value of a name is the one found for it. -/
theorem lookup_bound {e : Environment} (he : ∀ s ∈ e.scopes, (s.map Prod.fst).Nodup) (n : Bytes) :
    e.bound.lookup n = e.lookup? n := by
  rw [bound_eq_overlay, lookup?]
  generalize e.scopes = scopes at he
  induction scopes with
  | nil => rfl
  | cons s rest ih =>
    rw [List.foldr_cons, lookup_overlay (he s (by simp)), ih fun s' hs' => he s' (by simp [hs']),
      List.findSome?_cons]
    cases (s.lookup n).bind (·.value) <;> rfl

end Environment

namespace Store

theorem bindIn_eq_some {n : Bytes} {v : Value} {scopes scopes' : List (List (Bytes × Option Value))} :
    bindIn n v scopes = some scopes' →
      ∃ i, Nearest scopes n i ∧ Sets scopes i n (some v) scopes' := by
  induction scopes generalizing scopes' with
  | nil => simp [bindIn]
  | cons s rest ih =>
    intro h
    unfold bindIn at h
    split at h
    · next hs =>
      cases h
      obtain ⟨w, hw⟩ := Option.isSome_iff_exists.mp hs
      exact ⟨0, ⟨by simp [hw], by simp⟩, sets_map (f := fun _ => some v) hw⟩
    · next hs =>
      obtain ⟨rest', hr, rfl⟩ := Option.map_eq_some_iff.mp h
      obtain ⟨i, hi, hset⟩ := ih hr
      exact ⟨i + 1, nearest_succ.mpr ⟨Option.not_isSome_iff_eq_none.mp hs, hi⟩, hset.below s⟩

theorem bindIn_isSome {n : Bytes} {v : Value} {scopes : List (List (Bytes × Option Value))} {i : Nat}
    (hi : Nearest scopes n i) : ∃ scopes', bindIn n v scopes = some scopes' := by
  induction scopes generalizing i with
  | nil => cases hi.1
  | cons s rest ih =>
    unfold bindIn
    by_cases hs : (s.lookup n).isSome
    · rw [if_pos hs]
      exact ⟨_, rfl⟩
    · rw [if_neg hs]
      cases i with
      | zero => exact absurd hi.1 hs
      | succ i =>
        obtain ⟨rest', hr⟩ := ih (nearest_succ.mp hi).2
        exact ⟨s :: rest', by rw [hr]; rfl⟩

theorem lookup?_eq_cell {n : Bytes} {s : Store} {i : Nat} (hi : Nearest s.scopes n i) :
    s.lookup? n = (cell s.scopes i n).join := by
  obtain ⟨x, hx⟩ := Option.isSome_iff_exists.mp hi.1
  have hs : s.search? n = some x := findSome?_lookup.mpr ⟨i, hi, hx⟩
  rw [lookup?, hs, hx]

end Store
end Signum
