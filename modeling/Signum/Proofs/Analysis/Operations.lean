import Signum.Proofs.Analysis.Failing
import Signum.Proofs.Analysis.LeastFixpoint
/- Environments stay well formed, whatever is done with them.

   Some environments are used side by side, each named by its number, and an `Operation` is one
   `Use` of them. A use may end in a fault, and then leaves what it had done by then, as a join
   leaves the variables merged before the one that stopped it. A `Keeping` says what a use answers
   and what it makes of an environment, and `Keeping.perform` what an operation then makes of all
   of them. One operation keeps every environment `WellFormed`: at least one scope is open, also in
   the states set aside, no scope has a name twice, and what a variable is bound to is of its
   domain. So does any sequence of operations. -/
namespace Signum

namespace Scope

/-- The names of a scope, in the order they were declared. -/
def names (s : Scope) : List Bytes := s.map Prod.fst

/-- No name is there twice, and what a variable is bound to is of its domain. -/
structure WellFormed (s : Scope) : Prop where
  nodup : s.names.Nodup
  domain : ∀ n slot a, (n, slot) ∈ s → slot.value = some a → a.domain = slot.domain

theorem wellFormed_nil : WellFormed [] := ⟨List.nodup_nil, by simp⟩

theorem mem_names {s : Scope} {n : Bytes} : n ∈ s.names ↔ (s.lookup n).isSome := by
  simp [names]

theorem names_set (n : Bytes) (a : Atom) (s : Scope) : (set n a s).names = s.names :=
  names_map_if (f := fun slot : Slot => { slot with value := some a })

namespace WellFormed
variable {s : Scope} {n : Bytes}

/-- A new variable is not bound to anything. -/
theorem declare (h : s.WellFormed) (hn : s.lookup n = none) (d : Domain) :
    WellFormed (s ++ [(n, ⟨d, none⟩)]) := by
  refine ⟨nodup_declared h.nodup hn _, fun m slot a hmem ha => ?_⟩
  rcases List.mem_append.mp hmem with hmem | hmem
  · exact h.domain m slot a hmem ha
  · obtain ⟨rfl, rfl⟩ := Prod.mk.inj (List.mem_singleton.mp hmem)
    cases ha

/-- Binding the variable of that name, of which there is one, to an atom of its domain. -/
theorem set (h : s.WellFormed) {slot : Slot} {a : Atom} (hs : s.lookup n = some slot)
    (hd : a.domain = slot.domain) : WellFormed (Scope.set n a s) := by
  constructor
  · rw [names_set]
    exact h.nodup
  · intro m slot' b hmem hb
    obtain ⟨⟨k, old⟩, hold, heq⟩ := List.mem_map.mp hmem
    dsimp only at heq
    split at heq
    · next hk =>
      subst hk
      obtain ⟨rfl, rfl⟩ := Prod.mk.inj heq
      obtain rfl : a = b := Option.some.inj hb
      have hsame := Analysis.lookup_of_nodup h.nodup hold
      rw [hs] at hsame
      obtain rfl := Option.some.inj hsame
      exact hd
    · obtain ⟨rfl, rfl⟩ := Prod.mk.inj heq
      exact h.domain k old b hold hb

end WellFormed
end Scope

namespace Environment

/-- A stack with at least one scope, all of them well formed. -/
def StackFormed (scopes : List Scope) : Prop := scopes ≠ [] ∧ ∀ s ∈ scopes, s.WellFormed

/-- The open scopes and all states set aside are well formed. -/
structure WellFormed (e : Environment) : Prop where
  opened : StackFormed e.scopes
  stashed : ∀ saved ∈ e.stashed, StackFormed saved

/-- Raising what is bound changes neither names nor domains. -/
theorem StackFormed.raised {scopes scopes' : List Scope} (h : StackFormed scopes)
    (hr : Raised scopes scopes') : StackFormed scopes' := by
  constructor
  · intro hnil
    have hlen : scopes.length = scopes'.length := List.Forall₂.length_eq hr
    rw [hnil] at hlen
    exact h.1 (List.length_eq_zero_iff.mp hlen)
  · intro s' hs'
    have hnodup := Analysis.nodup_of_names hr.names (fun s hs => (h.2 s hs).nodup)
    refine ⟨hnodup s' hs', fun n slot' b hmem hb => ?_⟩
    -- what the variable was bound to before it was raised to `b`
    obtain ⟨s, hs, hscope⟩ := exists_of_mem_right hr hs'
    obtain ⟨⟨m, slot⟩, hslot, -, hd, hv⟩ := exists_of_mem_right hscope hmem
    dsimp only at hd hv
    rw [hb] at hv
    generalize hold : slot.value = old at hv
    cases hv with
    | @some a _ hab =>
      rw [← Atom.domain_eq_of_leq hab, ← hd]
      exact (h.2 s hs).domain m slot a hslot hold

theorem StackFormed.bindIn {n : Bytes} {a : Atom} {scopes scopes' : List Scope}
    (h : ∀ s ∈ scopes, s.WellFormed) (hb : bindIn n a scopes = .ok scopes') :
    StackFormed scopes' := by
  induction scopes generalizing scopes' with
  | nil => cases hb
  | cons s rest ih =>
    have hrest : ∀ s' ∈ rest, s'.WellFormed := fun s' hs' => h s' (List.mem_cons_of_mem _ hs')
    unfold Environment.bindIn at hb
    split at hb
    · next slot hs =>
      split at hb
      · next hd =>
        cases hb
        refine ⟨by simp, fun s' hs' => ?_⟩
        rcases List.mem_cons.mp hs' with rfl | hs'
        · exact (h s (by simp)).set hs hd
        · exact hrest s' hs'
      · cases hb
    · cases hr : Environment.bindIn n a rest with
      | error f => rw [hr] at hb; cases hb
      | ok rest' =>
        rw [hr] at hb
        cases hb
        refine ⟨by simp, fun s' hs' => ?_⟩
        rcases List.mem_cons.mp hs' with rfl | hs'
        · exact h s' (by simp)
        · exact (ih hrest hr).2 s' hs'

/-! What each operation keeps. -/

namespace WellFormed
variable {e : Environment}

theorem fresh : Environment.fresh.WellFormed := by
  refine ⟨⟨by simp [Environment.fresh], fun s hs => ?_⟩, by simp [Environment.fresh]⟩
  obtain rfl := List.mem_singleton.mp hs
  exact Scope.wellFormed_nil

theorem enter (h : e.WellFormed) : e.enter.WellFormed := by
  refine ⟨⟨by simp [Environment.enter], fun s hs => ?_⟩, h.stashed⟩
  rcases List.mem_cons.mp hs with rfl | hs
  · exact Scope.wellFormed_nil
  · exact h.opened.2 s hs

theorem exit (h : e.WellFormed) : e.exit.2.WellFormed := by
  unfold Environment.exit
  split
  · next s s' rest hscopes =>
    refine ⟨⟨by simp, fun t ht => h.opened.2 t ?_⟩, h.stashed⟩
    rw [hscopes]
    exact List.mem_cons_of_mem _ ht
  · exact h

theorem declare (h : e.WellFormed) (n : Bytes) (d : Domain) : (e.declare n d).2.WellFormed := by
  unfold Environment.declare
  split
  · next s rest hscopes =>
    split
    · exact h
    · next hn =>
      refine ⟨⟨by simp, fun t ht => ?_⟩, h.stashed⟩
      rcases List.mem_cons.mp ht with rfl | ht
      · exact (h.opened.2 s (by simp [hscopes])).declare (Option.not_isSome_iff_eq_none.mp hn) d
      · exact h.opened.2 t (by simp [hscopes, ht])
  · exact h

theorem bind (h : e.WellFormed) {n : Bytes} {a : Atom} {e' : Environment}
    (hb : e.bind n a = .ok e') : e'.WellFormed := by
  unfold Environment.bind at hb
  cases hr : bindIn n a e.scopes with
  | error f => rw [hr] at hb; cases hb
  | ok scopes =>
    rw [hr] at hb
    cases hb
    exact ⟨.bindIn h.opened.2 hr, h.stashed⟩

theorem fork (h : e.WellFormed) : e.fork.WellFormed := by
  refine ⟨h.opened, fun saved hsaved => ?_⟩
  rcases List.mem_cons.mp hsaved with rfl | hsaved
  · exact h.opened
  · exact h.stashed saved hsaved

/-- Both the state gone back to and the copy handed back. -/
theorem restore (h : e.WellFormed) {back copy : Environment}
    (hr : e.restore = .ok (back, copy)) : back.WellFormed ∧ copy.WellFormed := by
  unfold Environment.restore at hr
  split at hr
  · cases hr
  · next saved rest hstash =>
    cases hr
    refine ⟨⟨h.stashed saved (by simp [hstash]), fun other hother => ?_⟩, h.opened, by simp⟩
    exact h.stashed other (by simp [hstash, hother])

/-- A join, also one that stops at a fault. -/
theorem join (h : e.WellFormed) (o : Environment) : (e.join o).2.WellFormed :=
  ⟨h.opened.raised (join_raised e o), h.stashed⟩

end WellFormed

/-- A use of one environment, in which another may take part. -/
inductive Use (E : Type) where
  | enter
  | exit
  | declare (name : Bytes) (domain : Domain)
  | bind (name : Bytes) (value : Atom)
  | lookup (name : Bytes)
  | fork
  | restore
  | join (other : E)
  | identical (other : E)
  deriving DecidableEq, Repr

/-- What a use hands back: nothing, whether something is so, what a name is bound to, or the copy
that was left. -/
inductive Answer (E : Type) where
  | done
  | told (yes : Bool)
  | found (value : Option Atom)
  | left (copy : E)
  deriving DecidableEq, Repr

/-- The environment that comes with an answer. -/
def Answer.copies {F E : Type} : Except F (Answer E) → List E
  | .ok (.left copy) => [copy]
  | _ => []

/-- A way of keeping environments: a new one, and what a use answers and makes of one. A use may
stop at a fault, and then leaves what it had done by then. -/
structure Keeping (F E : Type) where
  fresh : E
  act : Use E → E → Except F (Answer E) × E

/-- One use of some environments, each named by its number. -/
inductive Operation where
  | fresh
  | on (e : Nat) (use : Use Nat)
  deriving DecidableEq, Repr

/-- A use with the environment of that number in the place of the number, if there is one. -/
def Use.resolve {E : Type} (envs : List E) : Use Nat → Option (Use E)
  | .enter => some .enter
  | .exit => some .exit
  | .declare name domain => some (.declare name domain)
  | .bind name value => some (.bind name value)
  | .lookup name => some (.lookup name)
  | .fork => some .fork
  | .restore => some .restore
  | .join other => envs[other]?.map .join
  | .identical other => envs[other]?.map .identical

namespace Keeping
variable {F E : Type}

/-- What an operation answers, and what it makes of the environments, however it ends. A new
environment, and the copy that going back hands over, are put at the end. Nothing is made where an
environment is not there. -/
def perform (k : Keeping F E) (envs : List E) :
    Operation → Option (Except F (Answer E)) × List E
  | .fresh => (none, envs ++ [k.fresh])
  | .on i use =>
    match envs[i]?, use.resolve envs with
    | some e, some use =>
      let (answer, e') := k.act use e
      (some answer, envs.set i e' ++ Answer.copies answer)
    | _, _ => (none, envs)

/-- The answers of some operations one after another, and what they make of the environments. -/
def performAll (k : Keeping F E) :
    List E → List Operation → List (Option (Except F (Answer E))) × List E
  | envs, [] => ([], envs)
  | envs, op :: ops =>
    let (answer, envs') := k.perform envs op
    let (answers, last) := k.performAll envs' ops
    (answer :: answers, last)

end Keeping

/-- What a use of an environment answers, and what it makes of it. -/
def act (e : Environment) :
    Use Environment → Except EnvironmentFault (Answer Environment) × Environment
  | .enter => (.ok .done, e.enter)
  | .exit => (.ok (.told e.exit.1), e.exit.2)
  | .declare name domain => (.ok (.told (e.declare name domain).1), (e.declare name domain).2)
  | .bind name value =>
    match e.bind name value with
    | .ok e' => (.ok .done, e')
    | .error fault => (.error fault, e)
  | .lookup name => (.ok (.found (e.lookup? name)), e)
  | .fork => (.ok .done, e.fork)
  | .restore =>
    match e.restore with
    | .ok (back, copy) => (.ok (.left copy), back)
    | .error fault => (.error fault, e)
  | .join other =>
    match e.join other with
    | (.ok changed, e') => (.ok (.told changed), e')
    | (.error fault, e') => (.error (.sign fault), e')
  | .identical other => (.ok (.told (e.identical other)), e)

/-- Environments as they are kept by an analysis. -/
def keeping : Keeping EnvironmentFault Environment := ⟨Environment.fresh, fun use e => e.act use⟩

/-- What an operation makes of the environments, however it ends. -/
def perform (envs : List Environment) (op : Operation) : List Environment :=
  (keeping.perform envs op).2

/-- What is made of a well-formed environment is well formed, and so is the copy that is left. -/
theorem act_wellFormed {e : Environment} (h : e.WellFormed) (use : Use Environment) :
    (e.act use).2.WellFormed ∧ ∀ copy ∈ Answer.copies (e.act use).1, copy.WellFormed := by
  have hnone {e' : Environment} (he' : e'.WellFormed) : e'.WellFormed ∧
      ∀ copy ∈ ([] : List Environment), copy.WellFormed := ⟨he', List.forall_mem_nil _⟩
  cases use with
  | enter => exact hnone h.enter
  | exit => exact hnone h.exit
  | declare name domain => exact hnone (h.declare name domain)
  | bind name value =>
    unfold act
    dsimp only
    cases hb : e.bind name value with
    | ok e' => exact hnone (h.bind hb)
    | error fault => exact hnone h
  | lookup name => exact hnone h
  | fork => exact hnone h.fork
  | restore =>
    unfold act
    cases hr : e.restore with
    | ok r =>
      obtain ⟨hback, hcopy⟩ := h.restore hr
      exact ⟨hback, List.forall_mem_singleton.mpr hcopy⟩
    | error fault => exact hnone h
  | join other =>
    have hjoin := h.join other
    unfold act
    dsimp only
    generalize e.join other = joined at hjoin ⊢
    obtain ⟨changed | fault, e'⟩ := joined <;> exact hnone hjoin
  | identical other => exact hnone h

/-- One operation keeps all environments well formed. -/
theorem perform_wellFormed {envs : List Environment} (h : ∀ e ∈ envs, e.WellFormed)
    (op : Operation) : ∀ e ∈ perform envs op, e.WellFormed := by
  unfold perform Keeping.perform
  cases op with
  | fresh => exact List.forall_mem_append.mpr ⟨h, List.forall_mem_singleton.mpr .fresh⟩
  | on i use =>
    dsimp only
    split
    · next e use hi _ =>
      obtain ⟨hact, hcopies⟩ := act_wellFormed (h e (List.mem_of_getElem? hi)) use
      refine List.forall_mem_append.mpr ⟨fun e' he' => ?_, hcopies⟩
      rcases List.mem_or_eq_of_mem_set he' with he' | rfl
      · exact h e' he'
      · exact hact
    · exact h

theorem performAll_wellFormed {envs : List Environment} (h : ∀ e ∈ envs, e.WellFormed)
    (ops : List Operation) : ∀ e ∈ ops.foldl perform envs, e.WellFormed := by
  induction ops generalizing envs with
  | nil => exact h
  | cons op ops ih => exact ih (perform_wellFormed h op)

end Environment
end Signum
