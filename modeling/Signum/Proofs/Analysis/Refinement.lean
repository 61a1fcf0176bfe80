import Signum.Proofs.Analysis.Tables
/- Tables are environments.

   `Models` says when tables and an environment stand for the same: a table holds the names of its
   scope in their order and finds for each name what the scope finds for it (`Table.Holds`), and the
   scopes are the same, one after another. Every use of both ends alike, with the same answer or at
   the same fault, and leaves both as models of one another (`keeping_simulates`). So no operation
   finds a name without a slot or a stack without a scope, and what is known of the form of
   environments holds of tables: in particular, the names of a table are those that have a slot, and
   none is there twice. -/
namespace Signum

/-! Two ways of keeping environments. -/

namespace Environment
section Simulation
variable {F F' A B : Type} {R : A → B → Prop} {refused : F' → F}

/-- The same use of two environments, with others that correspond to each other. -/
inductive Use.Same (R : A → B → Prop) : Use A → Use B → Prop
  | enter : Same R .enter .enter
  | exit : Same R .exit .exit
  | declare (name : Bytes) (domain : Domain) : Same R (.declare name domain) (.declare name domain)
  | bind (name : Bytes) (value : Atom) : Same R (.bind name value) (.bind name value)
  | lookup (name : Bytes) : Same R (.lookup name) (.lookup name)
  | fork : Same R .fork .fork
  | restore : Same R .restore .restore
  | join {a : A} {b : B} (h : R a b) : Same R (.join a) (.join b)
  | identical {a : A} {b : B} (h : R a b) : Same R (.identical a) (.identical b)

/-- The same answer, with copies that correspond to each other, or the same fault. -/
inductive Answer.Same (R : A → B → Prop) (refused : F' → F) :
    Except F (Answer A) → Except F' (Answer B) → Prop
  | done : Same R refused (.ok .done) (.ok .done)
  | told (yes : Bool) : Same R refused (.ok (.told yes)) (.ok (.told yes))
  | found (value : Option Atom) : Same R refused (.ok (.found value)) (.ok (.found value))
  | left {a : A} {b : B} (h : R a b) : Same R refused (.ok (.left a)) (.ok (.left b))
  | refused (fault : F') : Same R refused (.error (refused fault)) (.error fault)

/-- Uses of corresponding environments end alike, and leave corresponding environments. -/
structure Keeping.Simulates (k : Keeping F A) (k' : Keeping F' B) (R : A → B → Prop)
    (refused : F' → F) : Prop where
  fresh : R k.fresh k'.fresh
  act : ∀ {a b use use'}, R a b → Use.Same R use use' →
    Answer.Same R refused (k.act use a).1 (k'.act use' b).1 ∧ R (k.act use a).2 (k'.act use' b).2

theorem Answer.Same.copies {answer : Except F (Answer A)} {answer' : Except F' (Answer B)}
    (h : Answer.Same R refused answer answer') :
    List.Forall₂ R (Answer.copies answer) (Answer.copies answer') := by
  cases h with
  | left h => exact .cons h .nil
  | done | told | found | refused => exact .nil

theorem forall₂_getElem? {as : List A} {bs : List B} (h : List.Forall₂ R as bs) (i : Nat) :
    Option.Rel R as[i]? bs[i]? := by
  induction h generalizing i with
  | nil => exact .none
  | cons hab _ ih =>
    cases i with
    | zero => exact .some hab
    | succ i => exact ih i

theorem forall₂_set {as : List A} {bs : List B} (h : List.Forall₂ R as bs) (i : Nat) {a : A} {b : B}
    (hab : R a b) : List.Forall₂ R (as.set i a) (bs.set i b) := by
  induction h generalizing i with
  | nil => exact .nil
  | cons hhead htail ih =>
    cases i with
    | zero => exact .cons hab htail
    | succ i => exact .cons hhead (ih i)

/-- Numbers stand for corresponding environments. -/
theorem Use.resolve_same {as : List A} {bs : List B} (h : List.Forall₂ R as bs) (use : Use Nat) :
    Option.Rel (Use.Same R) (use.resolve as) (use.resolve bs) := by
  cases use with
  | enter => exact .some .enter
  | exit => exact .some .exit
  | declare name domain => exact .some (.declare name domain)
  | bind name value => exact .some (.bind name value)
  | lookup name => exact .some (.lookup name)
  | fork => exact .some .fork
  | restore => exact .some .restore
  | join other =>
    have hother := forall₂_getElem? h other
    unfold Use.resolve
    dsimp only
    generalize as[other]? = a?, bs[other]? = b? at hother ⊢
    cases hother with
    | none => exact .none
    | some hab => exact .some (.join hab)
  | identical other =>
    have hother := forall₂_getElem? h other
    unfold Use.resolve
    dsimp only
    generalize as[other]? = a?, bs[other]? = b? at hother ⊢
    cases hother with
    | none => exact .none
    | some hab => exact .some (.identical hab)

theorem Keeping.Simulates.perform {k : Keeping F A} {k' : Keeping F' B}
    (h : k.Simulates k' R refused) {as : List A} {bs : List B} (hs : List.Forall₂ R as bs)
    (op : Operation) :
    Option.Rel (Answer.Same R refused) (k.perform as op).1 (k'.perform bs op).1 ∧
      List.Forall₂ R (k.perform as op).2 (k'.perform bs op).2 := by
  cases op with
  | fresh => exact ⟨.none, List.rel_append hs (.cons h.fresh .nil)⟩
  | on i use =>
    have hfound := forall₂_getElem? hs i
    have hused := use.resolve_same hs
    unfold Keeping.perform
    dsimp only
    generalize as[i]? = a?, bs[i]? = b?, use.resolve as = use?, use.resolve bs = use'? at *
    cases hfound with
    | none => exact ⟨.none, hs⟩
    | some hab =>
      cases hused with
      | none => exact ⟨.none, hs⟩
      | some hsame =>
        obtain ⟨hanswer, hleft⟩ := h.act hab hsame
        exact ⟨.some hanswer, List.rel_append (forall₂_set hs i hleft) hanswer.copies⟩

theorem Keeping.Simulates.performAll {k : Keeping F A} {k' : Keeping F' B}
    (h : k.Simulates k' R refused) (ops : List Operation) {as : List A} {bs : List B}
    (hs : List.Forall₂ R as bs) :
    List.Forall₂ (Option.Rel (Answer.Same R refused)) (k.performAll as ops).1
        (k'.performAll bs ops).1 ∧
      List.Forall₂ R (k.performAll as ops).2 (k'.performAll bs ops).2 := by
  induction ops generalizing as bs with
  | nil => exact ⟨.nil, hs⟩
  | cons op ops ih =>
    obtain ⟨hanswer, hnext⟩ := h.perform hs op
    obtain ⟨hanswers, hlast⟩ := ih hnext
    exact ⟨.cons hanswer hanswers, hlast⟩

end Simulation
end Environment

/-! Tables and scopes. -/

/-- No name is in a table twice, its names are those that have a slot, and what a variable is bound
to is of its domain. -/
structure Table.WellFormed (t : Table) : Prop where
  nodup : t.names.Nodup
  keys : ∀ n, n ∈ t.names ↔ n ∈ t.slots
  domain : ∀ n slot a, t.slots.lookup n = some slot → slot.value = some a → a.domain = slot.domain

/-- The table holds the names of the scope in their order, and for each its slot. -/
structure Table.Holds (t : Table) (s : Scope) : Prop where
  names : t.names = s.names
  slots : ∀ n, t.slots.lookup n = s.lookup n

namespace Table.Holds
variable {t : Table} {s : Scope}

theorem empty : Table.empty.Holds [] := ⟨rfl, fun _ => rfl⟩

/-- The names are those that have a slot. -/
theorem mem_iff (h : t.Holds s) (n : Bytes) : n ∈ t.names ↔ n ∈ t.slots := by
  rw [h.names, Scope.mem_names, ← h.slots, AList.lookup_isSome]

/-- Tables of a well-formed scope are well formed. -/
theorem wellFormed (h : t.Holds s) (hs : s.WellFormed) : t.WellFormed where
  nodup := h.names ▸ hs.nodup
  keys := h.mem_iff
  domain := by
    intro n slot a hslot ha
    rw [h.slots] at hslot
    obtain ⟨before, after, rfl, -⟩ := List.lookup_eq_some_iff.mp hslot
    exact hs.domain n slot a (by simp) ha

/-- Declaring a name in both parts of a table. -/
theorem declare (h : t.Holds s) {n : Bytes} (hn : s.lookup n = none) (slot : Slot) :
    Table.Holds ⟨t.names ++ [n], t.slots.insert n slot⟩ (s ++ [(n, slot)]) := by
  constructor
  · rw [h.names, Scope.names, Scope.names, List.map_append]
    rfl
  · intro m
    rw [List.lookup_append, ← h.slots]
    by_cases hm : m = n
    · subst hm
      rw [AList.lookup_insert, h.slots, hn, Option.none_or]
      exact List.lookup_cons_self.symm
    · have hother : List.lookup m [(n, slot)] = none := by simp [hm]
      rw [AList.lookup_insert_ne hm, hother, Option.or_none]

/-- Binding a name puts a slot in the place of the one it has. -/
theorem set (h : t.Holds s) {n : Bytes} {slot : Slot} (hslot : s.lookup n = some slot)
    (a : Atom) :
    (t.put n { slot with value := some a }).Holds (Scope.set n a s) := by
  constructor
  · show t.names = _
    rw [h.names, Scope.names_set]
  · intro m
    rw [Table.put, Scope.set, lookup_map_if (f := fun slot : Slot => { slot with value := some a })]
    split
    · next hm => rw [hm, AList.lookup_insert, hslot]; rfl
    · next hm => rw [AList.lookup_insert_ne hm, h.slots]

theorem lookup_middle {before : Scope} {n : Bytes} {slot : Slot} {after : Scope}
    (h : (before ++ (n, slot) :: after).names.Nodup) (slot' : Slot) (m : Bytes) :
    (before ++ (n, slot') :: after).lookup m =
      if m = n then some slot' else (before ++ (n, slot) :: after).lookup m := by
  rw [List.lookup_append, List.lookup_append]
  split
  · next hm =>
    subst hm
    have hnone : before.lookup m = none := by
      rw [Scope.names, List.map_append, List.nodup_append] at h
      refine List.lookup_eq_none_iff.mpr fun p hp => ?_
      have hne := h.2.2 p.1 (List.mem_map_of_mem hp) m (by simp)
      simpa using hne.symm
    rw [hnone, Option.none_or, List.lookup_cons_self]
  · next hm =>
    have hother (x : Slot) : List.lookup m ((n, x) :: after) = after.lookup m := by
      rw [List.lookup_cons, beq_false_of_ne hm]
    rw [hother, hother]

/-- A slot in the place of the one that a name has. -/
theorem replace {before : Scope} {n : Bytes} {slot : Slot} {after : Scope}
    (h : t.Holds (before ++ (n, slot) :: after))
    (hnodup : (before ++ (n, slot) :: after).names.Nodup) (slot' : Slot) :
    (t.put n slot').Holds (before ++ (n, slot') :: after) := by
  constructor
  · show t.names = _
    rw [h.names]
    simp [Scope.names]
  · intro m
    rw [lookup_middle hnodup, ← h.slots, Table.put]
    split
    · next hm => rw [hm, AList.lookup_insert]
    · next hm => rw [AList.lookup_insert_ne hm]

/-- Copying every slot copies the table. -/
theorem lookup_copied (entries : List (Sigma fun _ : Bytes => Slot)) (h : entries.NodupKeys)
    (slots : AList fun _ : Bytes => Slot) (n : Bytes) :
    (entries.foldl (fun slots p => slots.insert p.1 p.2) slots).lookup n =
      (entries.dlookup n).or (slots.lookup n) := by
  induction entries generalizing slots with
  | nil => rfl
  | cons p entries ih =>
    obtain ⟨m, slot⟩ := p
    rw [List.nodupKeys_cons] at h
    rw [List.foldl_cons, ih h.2]
    by_cases hn : n = m
    · subst hn
      rw [List.dlookup_eq_none.mpr h.1, List.dlookup_cons_eq, AList.lookup_insert]
      rfl
    · rw [List.dlookup_cons_ne _ _ hn, AList.lookup_insert_ne hn]

theorem clone (h : t.Holds s) : t.clone.Holds s := by
  refine ⟨h.names, fun n => ?_⟩
  rw [← h.slots, Table.clone, lookup_copied _ t.slots.nodupKeys, AList.lookup_empty]
  exact Option.or_none

end Table.Holds

/-- The tables, outermost first, hold the scopes of a stack, innermost first. -/
inductive Stacked : List Table → List Scope → Prop
  | nil : Stacked [] []
  | inside {ts : List Table} {ss : List Scope} {t : Table} {s : Scope} (houter : Stacked ts ss)
      (ht : t.Holds s) : Stacked (ts ++ [t]) (s :: ss)

namespace Stacked
variable {ts : List Table} {ss : List Scope}

theorem length (h : Stacked ts ss) : ts.length = ss.length := by
  induction h with
  | nil => rfl
  | inside _ _ ih => rw [List.length_append, ih]; rfl

/-- What is found for a name at a depth. -/
theorem slotAt (h : Stacked ts ss) (depth : Nat) (n : Bytes) :
    ts[depth]?.bind (·.slots.lookup n) = (ss.reverse[depth]?.getD []).lookup n := by
  induction h with
  | nil => rfl
  | @inside ts ss t s houter ht ih =>
    rw [List.reverse_cons]
    rcases Nat.lt_trichotomy depth ts.length with hlt | rfl | hgt
    · rw [List.getElem?_append_left hlt, List.getElem?_append_left (by
        rwa [List.length_reverse, ← houter.length])]
      exact ih
    · rw [List.getElem?_concat_length, houter.length, ← List.length_reverse,
        List.getElem?_concat_length]
      exact ht.slots n
    · rw [List.getElem?_eq_none (by simp; omega), List.getElem?_eq_none (by
        have := houter.length
        simp
        omega)]
      rfl

theorem exists_of_mem (h : Stacked ts ss) {t : Table} (ht : t ∈ ts) : ∃ s ∈ ss, t.Holds s := by
  induction h with
  | nil => cases ht
  | @inside ts ss u s _ hu ih =>
    rcases List.mem_append.mp ht with ht | ht
    · obtain ⟨s', hs', hholds⟩ := ih ht
      exact ⟨s', List.mem_cons_of_mem _ hs', hholds⟩
    · obtain rfl := List.mem_singleton.mp ht
      exact ⟨s, List.mem_cons_self, hu⟩

theorem map_clone (h : Stacked ts ss) : Stacked (ts.map .clone) ss := by
  induction h with
  | nil => exact .nil
  | inside _ ht ih =>
    rw [List.map_append]
    exact .inside ih ht.clone

end Stacked

/-- Tables and an environment that stand for the same. -/
structure Models (t : Tables) (e : Environment) : Prop where
  scopes : Stacked t.scopes e.scopes
  stashed : List.Forall₂ Stacked t.stashed.reverse e.stashed
  form : e.WellFormed

namespace Tables

open Environment (Answer)

/-! Work on one variable. -/

theorem run_slot (depth : Nat) (name : Bytes) (t : Tables) :
    (slot depth name).run.run t = match t.slotAt depth name with
      | some slot => (.ok slot, t)
      | none => (.error (.noSlot name), t) := by
  unfold slot
  rw [run_bind, run_get]
  dsimp only
  cases t.slotAt depth name <;> rfl

theorem run_put (depth : Nat) (name : Bytes) (slot : Slot) (t : Tables) :
    (put depth name slot).run.run t =
      (.ok ⟨⟩, { t with scopes := t.scopes.modify depth (.put name slot) }) := rfl

theorem run_exit (t : Tables) : exit.run.run t =
    if t.scopes.length ≤ 1 then (.ok false, t)
    else (.ok true, { t with scopes := t.scopes.dropLast }) := by
  unfold exit
  rw [run_bind, run_get]
  dsimp only
  split <;> rfl

theorem modify_at (ts : List Table) (t : Table) (inner : List Table) (f : Table → Table) :
    (ts ++ t :: inner).modify ts.length f = ts ++ f t :: inner := by
  induction ts with
  | nil => rfl
  | cons u ts ih => exact congrArg (u :: ·) ih

theorem slotAt_at (ts : List Table) (t : Table) (inner : List Table)
    (stashed : List (List Table)) (name : Bytes) :
    slotAt ⟨ts ++ t :: inner, stashed⟩ ts.length name = t.slots.lookup name := by
  rw [slotAt, List.getElem?_append_right (Nat.le_refl _), Nat.sub_self]
  rfl

/-- Adding a variable to the innermost table. -/
theorem run_declare (name : Bytes) (domain : Domain) (ts : List Table) (u : Table)
    (stashed : List (List Table)) :
    (declare name domain).run.run ⟨ts ++ [u], stashed⟩ =
      if (u.slots.lookup name).isSome then (.ok false, ⟨ts ++ [u], stashed⟩)
      else (.ok true,
        ⟨ts ++ [⟨u.names ++ [name], u.slots.insert name ⟨domain, none⟩⟩], stashed⟩) := by
  have hcurrent : current.run.run ⟨ts ++ [u], stashed⟩ = (.ok ts.length, ⟨ts ++ [u], stashed⟩) := by
    unfold current
    rw [run_bind, run_get]
    have hopen : (ts ++ [u]).isEmpty = false := by simp
    have hdepth : (ts ++ [u]).length - 1 = ts.length := by simp
    dsimp only
    rw [hopen, hdepth]
    rfl
  unfold declare
  rw [run_bind, hcurrent]
  dsimp only
  rw [run_bind, run_get]
  dsimp only
  rw [slotAt_at]
  split
  · rfl
  · rw [run_bind]
    unfold change
    rw [run_modify]
    dsimp only
    rw [modify_at, run_bind, run_put]
    dsimp only
    rw [modify_at]
    rfl

theorem modify_before {ts : List Table} {depth : Nat} (h : depth < ts.length) (u : Table)
    (f : Table → Table) : (ts ++ [u]).modify depth f = ts.modify depth f ++ [u] := by
  induction ts generalizing depth with
  | nil => cases h
  | cons t ts ih =>
    cases depth with
    | zero => rfl
    | succ depth => exact congrArg (t :: ·) (ih (Nat.lt_of_succ_lt_succ h))

theorem find?_concat (name : Bytes) (ts : List Table) (u : Table) :
    find? name (ts ++ [u]) = ((u.slots.lookup name).map fun slot => (ts.length, slot)).or
      (find? name ts) := by
  unfold find?
  rw [List.zipIdx_append, List.reverse_append, List.findSome?_append]
  simp

/-- Binding the nearest variable in tables and in scopes. -/
theorem bind_stacked {ts : List Table} {ss : List Scope} (h : Stacked ts ss) (name : Bytes)
    (value : Atom) :
    match find? name ts with
    | none => Environment.bindIn name value ss = .error (.undeclared name)
    | some (depth, slot) => depth < ts.length ∧
      if value.domain = slot.domain then ∃ ss', Environment.bindIn name value ss = .ok ss' ∧
        Stacked (ts.modify depth (.put name { slot with value := some value })) ss'
      else Environment.bindIn name value ss = .error (.wrongDomain value slot.domain name) := by
  induction h with
  | nil => rfl
  | @inside ts ss u s houter hu ih =>
    rw [find?_concat, hu.slots]
    unfold Environment.bindIn
    cases hs : s.lookup name with
    | some slot =>
      simp only [Option.map_some, Option.some_or]
      refine ⟨by simp, ?_⟩
      split
      · refine ⟨_, rfl, ?_⟩
        rw [modify_at]
        exact .inside houter (hu.set hs value)
      · rfl
    | none =>
      simp only [Option.map_none, Option.none_or]
      cases hfound : find? name ts with
      | none =>
        rw [hfound] at ih
        simp only at ih ⊢
        rw [ih]
        rfl
      | some found =>
        obtain ⟨depth, slot⟩ := found
        rw [hfound] at ih
        obtain ⟨hlt, hbound⟩ := ih
        refine ⟨by simp; omega, ?_⟩
        split
        · next hd =>
          rw [if_pos hd] at hbound
          obtain ⟨ss', hss, hstacked⟩ := hbound
          refine ⟨s :: ss', by rw [hss]; rfl, ?_⟩
          rw [modify_before hlt]
          exact .inside hstacked hu
        · next hd =>
          rw [if_neg hd] at hbound
          rw [hbound]
          rfl

theorem run_bindName (name : Bytes) (value : Atom) (t : Tables) :
    (bind name value).run.run t = match find? name t.scopes with
      | none => (.error (.refused (.undeclared name)), t)
      | some (depth, slot) =>
        if value.domain = slot.domain then
          (put depth name { slot with value := some value }).run.run t
        else (.error (.refused (.wrongDomain value slot.domain name)), t) := by
  unfold bind
  rw [run_bind, run_get]
  dsimp only
  cases find? name t.scopes with
  | none => rfl
  | some found =>
    obtain ⟨depth, slot⟩ := found
    dsimp only
    by_cases hd : value.domain = slot.domain
    · rw [if_pos hd, if_neg (not_not.mpr hd)]
    · rw [if_neg hd, if_pos hd]
      rfl

theorem lookup_stacked {ts : List Table} {ss : List Scope} (h : Stacked ts ss) (name : Bytes) :
    ts.reverse.findSome? (fun t => (t.slots.lookup name).bind (·.value)) =
      ss.findSome? fun s => (s.lookup name).bind (·.value) := by
  induction h with
  | nil => rfl
  | inside _ ht ih =>
    rw [List.reverse_append, List.findSome?_append, ih, List.findSome?_cons, ← ht.slots]
    simp only [List.reverse_singleton, List.findSome?_cons, List.findSome?_nil]
    split <;> simp_all

/-! Going through all names. -/

/-- What another environment has for a name is in both the same. -/
theorem slotAt_models {t : Tables} {e : Environment} (h : Stacked t.scopes e.scopes) (depth : Nat)
    (name : Bytes) : t.slotAt depth name = e.slotAt depth name := h.slotAt depth name

/-- The names of the tables are those of the variables. -/
theorem places_stacked {ts : List Table} {ss : List Scope} (h : Stacked ts ss)
    (stashed : List (List Table)) :
    places ⟨ts, stashed⟩ = (Environment.bindings ss).map fun b => (b.depth, b.name) := by
  induction h with
  | nil => rfl
  | @inside ts ss t s houter ht ih =>
    unfold places at ih ⊢
    rw [List.zipIdx_append, List.flatMap_append, ih, Environment.bindings, List.map_append,
      List.map_map]
    simp [ht.names, Scope.names, houter.length, Environment.Binding.of]

/-- Merging what another environment has for one name. -/
theorem run_mergeAt (other : Tables) (changed : Bool) {depth : Nat} {name : Bytes} {t : Tables}
    {slot : Slot} (h : t.slotAt depth name = some slot) :
    (mergeAt other changed (depth, name)).run.run t =
      match slot.join (other.slotAt depth name) with
      | .error fault => (.error (.refused (.sign fault)), t)
      | .ok slot' =>
        if slot' = slot then (.ok changed, t)
        else (.ok true, { t with scopes := t.scopes.modify depth (.put name slot') }) := by
  obtain ⟨domain, value⟩ := slot
  unfold mergeAt Slot.join
  rw [run_bind, run_slot, h]
  dsimp only
  cases value with
  | none =>
    simp only [↓reduceIte]
    rfl
  | some before =>
    cases (other.slotAt depth name).bind (·.value) with
    | none =>
      simp only [↓reduceIte]
      rfl
    | some theirs =>
      dsimp only
      cases before.merge theirs with
      | error fault => rfl
      | ok after =>
        dsimp only [Except.map]
        by_cases hsame : after = before
        · rw [if_pos hsame, if_pos (by rw [hsame])]
          rfl
        · rw [if_neg hsame, if_neg (by simpa using hsame)]
          rfl

/-- What is answered after some merges and some more. -/
def merged (changed : Bool) : Except SignFault Bool → Except Panic Bool
  | .ok more => .ok (changed || more)
  | .error fault => .error (.refused (.sign fault))

/-- One name is gone through, whether its slot is another one now or not. -/
theorem merge_name {name : Bytes} {slot : Slot} (slot' : Slot) {before rest : Scope} {t : Table}
    (ht : t.Holds (before ++ (name, slot) :: rest))
    (hnodup : (before ++ (name, slot) :: rest).names.Nodup) (outer inner : List Table)
    (stashed : List (List Table)) (changed : Bool) :
    ∃ t' : Table, t'.Holds (before ++ (name, slot') :: rest) ∧
      (if slot' = slot then (Except.ok changed, ⟨outer ++ t :: inner, stashed⟩)
      else (.ok true, ⟨(outer ++ t :: inner).modify outer.length (.put name slot'), stashed⟩)) =
        ((Except.ok (changed || decide (slot' ≠ slot)) : Except Panic Bool),
          (⟨outer ++ t' :: inner, stashed⟩ : Tables)) := by
  by_cases hsame : slot' = slot
  · refine ⟨t, hsame ▸ ht, ?_⟩
    simp [hsame]
  · refine ⟨t.put name slot', ht.replace hnodup slot', ?_⟩
    rw [if_neg hsame, modify_at]
    simp [hsame]

/-- Merging what another environment has for the names of a table, one after the other. The names
in `before` have been gone through. -/
theorem merge_scope {other : Tables} {o : Environment} (ho : Stacked other.scopes o.scopes)
    (outer inner : List Table) (stashed : List (List Table)) (rest before : Scope) {t : Table}
    (ht : t.Holds (before ++ rest)) (hnodup : (before ++ rest).names.Nodup) (changed : Bool) :
    ∃ t' : Table, t'.Holds (before ++ (Environment.joinScope (o.scopeAt outer.length) rest).1) ∧
      ((rest.map fun p => (outer.length, p.1)).foldlM (mergeAt other) changed).run.run
          ⟨outer ++ t :: inner, stashed⟩ =
        (merged changed (Environment.joinScope (o.scopeAt outer.length) rest).2,
          ⟨outer ++ t' :: inner, stashed⟩) := by
  induction rest generalizing before t changed with
  | nil =>
    refine ⟨t, ht, ?_⟩
    simp [merged, Environment.joinScope]
    rfl
  | cons p rest ih =>
    obtain ⟨name, slot⟩ := p
    have hslot : slotAt ⟨outer ++ t :: inner, stashed⟩ outer.length name = some slot := by
      rw [slotAt_at, ht.slots]
      exact Analysis.lookup_of_nodup hnodup (by simp)
    rw [List.map_cons, List.foldlM_cons, run_bind, run_mergeAt other changed hslot,
      slotAt_models ho, Environment.slotAt]
    unfold Environment.joinScope
    cases slot.join ((o.scopeAt outer.length).lookup name) with
    | error fault => exact ⟨t, ht, rfl⟩
    | ok slot' =>
      dsimp only
      obtain ⟨t', ht', hstep⟩ := merge_name slot' ht hnodup outer inner stashed changed
      rw [List.append_cons] at ht'
      have hnames : (before ++ [(name, slot')] ++ rest).names =
          (before ++ (name, slot) :: rest).names := by simp [Scope.names]
      obtain ⟨t'', ht'', hrest⟩ := ih _ ht' (hnames ▸ hnodup) (changed || decide (slot' ≠ slot))
      refine ⟨t'', by simpa using ht'', ?_⟩
      rw [hstep]
      dsimp only
      rw [hrest]
      congr 1
      cases (Environment.joinScope (o.scopeAt outer.length) rest).2 with
      | error fault => rfl
      | ok more => simp [merged, Except.map, Bool.or_assoc]

theorem joinAt_length (o : Environment) (ss : List Scope) :
    (Environment.joinAt o ss).1.length = ss.length := by
  induction ss with
  | nil => rfl
  | cons s rest ih =>
    unfold Environment.joinAt
    generalize Environment.joinAt o rest = joined at ih ⊢
    obtain ⟨rest', fault | outer⟩ := joined <;> exact congrArg (· + 1) ih

/-- Merging another environment into tables and into scopes. -/
theorem merge_stacked {other : Tables} {o : Environment} (ho : Stacked other.scopes o.scopes)
    {ts : List Table} {ss : List Scope} (h : Stacked ts ss) (hnodup : ∀ s ∈ ss, s.names.Nodup)
    (inner : List Table) (stashed : List (List Table)) :
    ∃ ts', Stacked ts' (Environment.joinAt o ss).1 ∧
      (((Environment.bindings ss).map fun b => (b.depth, b.name)).foldlM (mergeAt other)
          false).run.run ⟨ts ++ inner, stashed⟩ =
        (merged false (Environment.joinAt o ss).2, ⟨ts' ++ inner, stashed⟩) := by
  induction h generalizing inner with
  | nil => exact ⟨[], .nil, rfl⟩
  | @inside ts ss t s houter ht ih =>
    obtain ⟨ts', hts', hrun⟩ := ih (fun s hs => hnodup s (List.mem_cons_of_mem _ hs)) (t :: inner)
    have hheight : ts'.length = ss.length := hts'.length.trans (joinAt_length o ss)
    rw [Environment.bindings, List.map_append, List.foldlM_append, run_bind, List.append_assoc,
      List.singleton_append, hrun, Environment.joinAt]
    generalize Environment.joinAt o ss = joined at hts' ⊢
    obtain ⟨ss', result⟩ := joined
    cases result with
    | error fault =>
      refine ⟨ts' ++ [t], .inside hts' ht, ?_⟩
      rw [List.append_assoc]
      rfl
    | ok outer =>
      obtain ⟨t', ht', hscope⟩ := merge_scope ho ts' inner stashed s [] ht
        (hnodup s List.mem_cons_self) (false || outer)
      have hnames : (s.map (Environment.Binding.of ss.length)).map (fun b => (b.depth, b.name)) =
          s.map fun p => (ss.length, p.1) := by
        rw [List.map_map]
        rfl
      rw [hheight] at ht' hscope
      dsimp only
      generalize Environment.joinScope (o.scopeAt ss.length) s = joined at ht' hscope ⊢
      obtain ⟨s', result⟩ := joined
      refine ⟨ts' ++ [t'], .inside hts' ht', ?_⟩
      rw [hnames, List.append_assoc, List.singleton_append]
      refine hscope.trans ?_
      cases result <;> rfl

theorem join_simulates {t other : Tables} {e o : Environment} (h : Models t e)
    (ho : Models other o) :
    ∃ t', Models t' (e.join o).2 ∧
      (join other).run.run t = (merged false (e.join o).1, t') := by
  obtain ⟨ts', hts', hrun⟩ := merge_stacked ho.scopes h.scopes
    (fun s hs => (h.form.opened.2 s hs).nodup) [] t.stashed
  rw [List.append_nil, List.append_nil] at hrun
  have hform := h.form.join o
  rw [Environment.join_eq_joinAt] at hform ⊢
  refine ⟨⟨ts', t.stashed⟩, ⟨hts', h.stashed, hform⟩, ?_⟩
  unfold join
  rw [run_bind, run_get]
  dsimp only
  rw [places_stacked h.scopes]
  exact hrun

/-- A variable is found where it is. -/
theorem slotAt_binding {ss : List Scope} (hnodup : ∀ s ∈ ss, s.names.Nodup)
    {b : Environment.Binding} (hb : b ∈ Environment.bindings ss) :
    (ss.reverse[b.depth]?.getD []).lookup b.name = some b.slot := by
  induction ss with
  | nil => cases hb
  | cons s rest ih =>
    rw [List.reverse_cons]
    rcases List.mem_append.mp hb with hb | hb
    · rw [List.getElem?_append_left (by simpa using Environment.depth_lt hb)]
      exact ih (fun s hs => hnodup s (List.mem_cons_of_mem _ hs)) hb
    · obtain ⟨⟨n, slot⟩, hp, rfl⟩ := List.mem_map.mp hb
      have hlast : (rest.reverse ++ [s])[rest.length]? = some s := by
        rw [← List.length_reverse, List.getElem?_concat_length]
      show ((rest.reverse ++ [s])[rest.length]?.getD []).lookup n = some slot
      rw [hlast]
      exact Analysis.lookup_of_nodup (hnodup s List.mem_cons_self) hp

theorem run_sameAt (other : Tables) (same : Bool) {depth : Nat} {name : Bytes} {t : Tables}
    {slot : Slot} (h : t.slotAt depth name = some slot) :
    (sameAt other same (depth, name)).run.run t =
      (.ok (same && slot.agrees (other.slotAt depth name)), t) := by
  obtain ⟨domain, value⟩ := slot
  unfold sameAt Slot.agrees
  rw [run_bind, run_slot, h]
  dsimp only
  cases value with
  | none =>
    rw [decide_eq_true rfl, Bool.true_or, Bool.and_true]
    rfl
  | some value =>
    dsimp only
    by_cases hsame : (other.slotAt depth name).bind (·.value) = some value
    · rw [if_pos hsame, decide_eq_true hsame, Bool.or_true, Bool.and_true]
      rfl
    · rw [if_neg hsame, decide_eq_false hsame, decide_eq_false (by simp), Bool.or_false,
        Bool.and_false]
      rfl

/-- In tables that model an environment, its variables have their slots. -/
theorem slotAt_of_models {t : Tables} {e : Environment} (h : Models t e) :
    ∀ b ∈ Environment.bindings e.scopes, t.slotAt b.depth b.name = some b.slot := by
  intro b hb
  rw [slotAt_models h.scopes]
  exact slotAt_binding (fun s hs => (h.form.opened.2 s hs).nodup) hb

theorem identical_simulates {t other : Tables} {e o : Environment} (h : Models t e)
    (ho : Models other o) : (identical other).run.run t = (.ok (e.identical o), t) := by
  have hall (bs : List Environment.Binding)
      (hbs : ∀ b ∈ bs, t.slotAt b.depth b.name = some b.slot) (same : Bool) :
      ((bs.map fun b => (b.depth, b.name)).foldlM (sameAt other) same).run.run t =
        (.ok (same && bs.all o.agreesWith), t) := by
    induction bs generalizing same with
    | nil =>
      rw [List.all_nil, Bool.and_true]
      rfl
    | cons b bs ih =>
      obtain ⟨hb, hrest⟩ := List.forall_mem_cons.mp hbs
      rw [List.map_cons, List.foldlM_cons, run_bind, run_sameAt other same hb,
        slotAt_models ho.scopes]
      dsimp only
      rw [ih hrest, List.all_cons, Bool.and_assoc]
      rfl
  unfold identical
  rw [run_bind, run_get]
  dsimp only
  rw [places_stacked h.scopes, Environment.identical_eq_all, hall _ (slotAt_of_models h),
    Bool.true_and]

/-- Listing the variables of tables lists those of the environment. -/
theorem snapshot_simulates {t : Tables} {e : Environment} (h : Models t e) :
    snapshot.run.run t = (.ok e.snapshot, t) := by
  have hall (bs : List Environment.Binding)
      (hbs : ∀ b ∈ bs, t.slotAt b.depth b.name = some b.slot) :
      ((bs.map fun b => (b.depth, b.name)).mapM binding).run.run t = (.ok bs, t) := by
    induction bs with
    | nil => rfl
    | cons b bs ih =>
      obtain ⟨hb, hrest⟩ := List.forall_mem_cons.mp hbs
      have hbinding : (binding (b.depth, b.name)).run.run t = (.ok b, t) := by
        unfold binding
        rw [run_bind, run_slot, hb]
        rfl
      rw [List.map_cons, List.mapM_cons, run_bind, hbinding]
      dsimp only
      rw [run_bind, ih hrest]
      rfl
  unfold snapshot
  rw [run_bind, run_get]
  dsimp only
  rw [places_stacked h.scopes, Environment.snapshot_eq, hall _ (slotAt_of_models h)]

/-! What each use comes to. -/

section Uses
variable {t : Tables} {e : Environment}

/-- A use that ends alike in tables and in an environment, and leaves them alike. -/
def EndAlike (t : Tables) (e : Environment) (use : Environment.Use Tables)
    (use' : Environment.Use Environment) : Prop :=
  Answer.Same Models Panic.refused ((work use).run.run t).1 (e.act use').1 ∧
    Models ((work use).run.run t).2 (e.act use').2

theorem enter_alike (h : Models t e) : EndAlike t e .enter .enter :=
  ⟨.done, .inside h.scopes .empty, h.stashed, h.form.enter⟩

theorem exit_alike (h : Models t e) : EndAlike t e .exit .exit := by
  have hform := h.form.exit
  obtain ⟨ts, stashed⟩ := t
  obtain ⟨ss, stashed'⟩ := e
  obtain ⟨hscopes, hstashed, -⟩ := h
  unfold EndAlike work
  rw [run_bind, run_exit]
  dsimp only at hscopes hstashed ⊢
  cases hscopes with
  | nil => exact ⟨.told _, .nil, hstashed, hform⟩
  | @inside ts ss t s houter ht =>
    cases houter with
    | nil => exact ⟨.told _, .inside .nil ht, hstashed, hform⟩
    | @inside ts ss u s' houter hu =>
      rw [if_neg (by simp), List.dropLast_concat]
      exact ⟨.told _, .inside houter hu, hstashed, hform⟩

theorem declare_alike (h : Models t e) (name : Bytes) (domain : Domain) :
    EndAlike t e (.declare name domain) (.declare name domain) := by
  have hform := h.form.declare name domain
  have hopen := h.form.opened.1
  obtain ⟨ts, stashed⟩ := t
  obtain ⟨ss, stashed'⟩ := e
  obtain ⟨hscopes, hstashed, hwell⟩ := h
  unfold EndAlike work
  rw [run_bind]
  dsimp only at hscopes hstashed hopen ⊢
  cases hscopes with
  | nil => exact absurd rfl hopen
  | @inside ts ss t s houter ht =>
    rw [run_declare]
    unfold Environment.act Environment.declare at *
    dsimp only at hform ⊢
    rw [← ht.slots] at hform ⊢
    by_cases hn : (t.slots.lookup name).isSome
    · rw [if_pos hn] at hform ⊢
      rw [if_pos hn]
      exact ⟨.told _, .inside houter ht, hstashed, hform⟩
    · rw [if_neg hn] at hform ⊢
      rw [if_neg hn]
      have hnone : s.lookup name = none := by
        rw [← ht.slots]
        exact Option.not_isSome_iff_eq_none.mp hn
      exact ⟨.told _, .inside houter (ht.declare hnone _), hstashed, hform⟩

theorem bind_alike (h : Models t e) (name : Bytes) (value : Atom) :
    EndAlike t e (.bind name value) (.bind name value) := by
  have hbind := bind_stacked h.scopes name value
  unfold EndAlike work Environment.act Environment.bind
  rw [run_bind, run_bindName]
  cases hfound : find? name t.scopes with
  | none =>
    rw [hfound] at hbind
    dsimp only at hbind ⊢
    rw [hbind]
    exact ⟨.refused _, h⟩
  | some found =>
    obtain ⟨depth, slot⟩ := found
    rw [hfound] at hbind
    dsimp only at hbind ⊢
    by_cases hd : value.domain = slot.domain
    · rw [if_pos hd] at hbind ⊢
      obtain ⟨-, ss', hss, hstacked⟩ := hbind
      have hform : Environment.WellFormed { e with scopes := ss' } := by
        refine h.form.bind (n := name) (a := value) ?_
        unfold Environment.bind
        rw [hss]
        rfl
      rw [hss]
      exact ⟨.done, hstacked, h.stashed, hform⟩
    · rw [if_neg hd] at hbind ⊢
      rw [hbind.2]
      exact ⟨.refused _, h⟩

theorem lookup_alike (h : Models t e) (name : Bytes) :
    EndAlike t e (.lookup name) (.lookup name) := by
  have hrun : (lookup name).run.run t = (.ok (e.lookup? name), t) := by
    unfold lookup Environment.lookup?
    rw [run_bind, run_get, ← lookup_stacked h.scopes]
    rfl
  unfold EndAlike work
  rw [run_bind, hrun]
  exact ⟨.found _, h⟩

theorem fork_alike (h : Models t e) : EndAlike t e .fork .fork := by
  refine ⟨.done, h.scopes.map_clone, ?_, h.form.fork⟩
  show List.Forall₂ Stacked (t.stashed ++ [t.scopes]).reverse (e.scopes :: e.stashed)
  rw [List.reverse_append]
  exact .cons h.scopes h.stashed

theorem restore_alike (h : Models t e) : EndAlike t e .restore .restore := by
  have hform := h.form
  obtain ⟨ts, stashed⟩ := t
  obtain ⟨ss, stashed'⟩ := e
  obtain ⟨hscopes, hstashed, -⟩ := h
  unfold EndAlike work restore
  rw [run_bind, run_bind, run_get]
  dsimp only at hscopes hstashed ⊢
  generalize hlatest : stashed.reverse = latest at hstashed
  cases hstashed with
  | nil =>
    obtain rfl := List.reverse_eq_nil_iff.mp hlatest
    exact ⟨.refused _, hscopes, .nil, hform⟩
  | @cons saved saved' rest rest' hsaved hrest =>
    obtain rfl := List.reverse_eq_cons_iff.mp hlatest
    rw [List.getLast?_concat, List.dropLast_concat]
    obtain ⟨hback, hcopy⟩ := hform.restore rfl
    refine ⟨.left ⟨hscopes, .nil, hcopy⟩, hsaved, ?_, hback⟩
    show List.Forall₂ Stacked rest.reverse.reverse rest'
    rwa [List.reverse_reverse]

theorem join_alike {other : Tables} {o : Environment} (h : Models t e) (ho : Models other o) :
    EndAlike t e (.join other) (.join o) := by
  obtain ⟨t', ht', hrun⟩ := join_simulates h ho
  unfold EndAlike work
  rw [run_bind, hrun]
  unfold Environment.act
  dsimp only
  generalize e.join o = joined at ht' ⊢
  obtain ⟨fault | changed, e'⟩ := joined
  · exact ⟨.refused _, ht'⟩
  · rw [merged, Bool.false_or]
    exact ⟨.told _, ht'⟩

theorem identical_alike {other : Tables} {o : Environment} (h : Models t e) (ho : Models other o) :
    EndAlike t e (.identical other) (.identical o) := by
  unfold EndAlike work
  rw [run_bind, identical_simulates h ho]
  exact ⟨.told _, h⟩

end Uses

/-- Tables are kept as environments are: each use ends alike. -/
theorem keeping_simulates :
    keeping.Simulates Environment.keeping Models Panic.refused := by
  constructor
  · exact ⟨.inside .nil .empty, .nil, .fresh⟩
  · intro t e use use' h hsame
    cases hsame with
    | enter => exact enter_alike h
    | exit => exact exit_alike h
    | declare name domain => exact declare_alike h name domain
    | bind name value => exact bind_alike h name value
    | lookup name => exact lookup_alike h name
    | fork => exact fork_alike h
    | restore => exact restore_alike h
    | join ho => exact join_alike h ho
    | identical ho => exact identical_alike h ho

/-! What is made of tables. -/

/-- A stack with at least one table, all of them well formed. -/
def StackFormed (ts : List Table) : Prop := ts ≠ [] ∧ ∀ t ∈ ts, t.WellFormed

theorem stackFormed {ts : List Table} {ss : List Scope} (h : Stacked ts ss)
    (hform : Environment.StackFormed ss) : StackFormed ts := by
  constructor
  · rintro rfl
    exact hform.1 (List.length_eq_zero_iff.mp h.length.symm)
  · intro t ht
    obtain ⟨s, hs, hholds⟩ := h.exists_of_mem ht
    exact hholds.wellFormed (hform.2 s hs)

theorem stackFormed_of_models {t : Tables} {e : Environment} (h : Models t e) :
    ∀ stack ∈ t.scopes :: t.stashed, StackFormed stack := by
  intro stack hstack
  rcases List.mem_cons.mp hstack with rfl | hstack
  · exact stackFormed h.scopes h.form.opened
  · obtain ⟨saved, hsaved, hstacked⟩ :=
      exists_of_mem_right h.stashed.flip (List.mem_reverse.mpr hstack)
    exact stackFormed hstacked (h.form.stashed saved hsaved)

/-- Whatever is done with environments kept as tables, faults included, each of them keeps its form:
scopes are open, now and in every state set aside, and in each scope the names are different, are
exactly those that have a slot, and a variable that is bound has a value of its domain. No operation
stops for want of a slot or of a scope, and the variables can all be listed. The answers, and what
is left, are those of the environments of an analysis. -/
theorem operations_keep_form (ops : List Environment.Operation) :
    let kept := keeping.performAll [] ops
    let analysed := Environment.keeping.performAll [] ops
    (∀ t ∈ kept.2, ∀ stack ∈ t.scopes :: t.stashed, StackFormed stack) ∧
    (∀ panic, some (.error panic) ∈ kept.1 → ∃ fault, panic = .refused fault) ∧
    (∀ t ∈ kept.2, ∃ listed, snapshot.run.run t = (.ok listed, t)) ∧
    List.Forall₂ (Option.Rel (Answer.Same Models Panic.refused)) kept.1 analysed.1 ∧
    List.Forall₂ Models kept.2 analysed.2 := by
  obtain ⟨hanswers, hleft⟩ := keeping_simulates.performAll ops .nil
  have hmodel {t : Tables} (ht : t ∈ (keeping.performAll [] ops).2) : ∃ e, Models t e := by
    obtain ⟨e, -, he⟩ := exists_of_mem_right hleft.flip ht
    exact ⟨e, he⟩
  refine ⟨fun t ht => ?_, fun panic hpanic => ?_, fun t ht => ?_, hanswers, hleft⟩
  · obtain ⟨e, he⟩ := hmodel ht
    exact stackFormed_of_models he
  · obtain ⟨answer, -, hsame⟩ := exists_of_mem_right hanswers.flip hpanic
    cases hsame with
    | some hsame =>
      cases hsame with
      | refused fault => exact ⟨fault, rfl⟩
  · obtain ⟨e, he⟩ := hmodel ht
    exact ⟨e.snapshot, snapshot_simulates he⟩

/-- What a stack of tables has for each of its names. -/
def contents (ts : List Table) : List (List (Bytes × Option Slot)) :=
  ts.map fun t => t.names.map fun n => (n, t.slots.lookup n)

/-- Two variables in two environments, which agree on the domain of the first only. The first
environment is forked, looked up in and compared, and then takes in the second as far as it can. -/
def halfway : List Environment.Operation :=
  [.fresh, .on 0 (.declare [120] .int), .on 0 (.bind [120] (.int .pos)),
    .on 0 (.declare [121] .float), .on 0 (.bind [121] (.float .zero)), .fresh,
    .on 1 (.declare [120] .int), .on 1 (.bind [120] (.int .neg)), .on 1 (.declare [121] .int),
    .on 1 (.bind [121] (.int .pos)), .on 0 .fork, .on 0 (.lookup [120]), .on 0 (.identical 1),
    .on 0 (.join 1)]

/-- The join has raised the first variable when the second stops it. What it leaves, and the tables
set aside, are well formed. -/
theorem halfway_keeps_form : ∃ t o : Tables,
    (keeping.performAll [] halfway).2 = [t, o] ∧
    (keeping.performAll [] halfway).1.drop 11 = [some (.ok (.found (some (.int .pos)))),
      some (.ok (.told false)),
      some (.error (.refused (.sign (.mismatch "merge" (.float .zero) (.int .pos)))))] ∧
    contents t.scopes = [[([120], some ⟨.int, some (.int .any)⟩),
      ([121], some ⟨.float, some (.float .zero)⟩)]] ∧
    t.stashed.map contents = [[[([120], some ⟨.int, some (.int .pos)⟩),
      ([121], some ⟨.float, some (.float .zero)⟩)]]] ∧
    ∀ stack ∈ t.scopes :: t.stashed, StackFormed stack := by
  refine ⟨_, _, rfl, by decide, by decide, by decide, ?_⟩
  exact (operations_keep_form halfway).1 _ List.mem_cons_self

/-- A name without a slot would stop what goes through all names. -/
example : (snapshot.run.run ⟨[⟨[[120]], ∅⟩], []⟩).1 = .error (.noSlot [120]) := rfl

end Tables

end Signum
