import Signum.Proofs.Fits
/- Slots, the declarations they come from, and the names that reach them.

   A slot of an environment or of a store is found by its scope and its name and does
   not tell which declaration made it. A `Traced` step therefore carries, beside the
   state, a stack of the same shape that has the declaration of every slot (`Origins`):
   it is added to where a variable is declared, opened and closed with the scopes, set
   aside and taken back with forks. Whenever a name is read or assigned the step notes
   a `Visit`: the occurrence of the name, and the origin of the slot it reaches.

   A traced step reads and binds the slot it notes, at a place it has computed
   (`nearest?`, `boundAt?`). That reading and binding there are the lookups and bindings of
   the environment and the store is `lookup?_eq_valueAt` and `bindIn_eq_bindAt`; with
   them a traced step, less what it carries and notes, is the step it traces
   (`Erases`). -/
namespace Signum

/-- A place in a program that stands for a variable. -/
inductive Occurrence where
  | read (name : Bytes) (span : Span)
  | assign (name : Bytes) (value : Expr) (span : Span)
  deriving DecidableEq, Repr

/-- The declarations of the slots of a stack, and of the stacks set aside by forks, the
latest first. -/
structure Origins where
  scopes : List (List (Bytes × Decl))
  stashed : List (List (List (Bytes × Decl)))
  deriving DecidableEq, Repr

namespace Origins

/-- One scope without slots. -/
def fresh : Origins := ⟨[[]], []⟩

/-- A scope is opened. -/
def enter (o : Origins) : Origins := { o with scopes := [] :: o.scopes }

/-- The innermost scope is closed, unless it is the only one. -/
def exit (o : Origins) : Origins :=
  match o.scopes with
  | _ :: s :: rest => { o with scopes := s :: rest }
  | _ => o

/-- A declaration adds a slot to the innermost scope. -/
def declare (d : Decl) (o : Origins) : Origins :=
  match o.scopes with
  | here :: rest => { o with scopes := ((d.name, d) :: here) :: rest }
  | [] => o

/-- The present stack is set aside, and a copy of it is gone on with. -/
def fork (o : Origins) : Origins := { o with stashed := o.scopes :: o.stashed }

/-- The stack set aside last is taken back. -/
def restore (o : Origins) : Origins :=
  match o.stashed with
  | saved :: rest => ⟨saved, rest⟩
  | [] => o

/-- Closing a scope opened around some units leaves the scopes from before. -/
theorem exit_enter {o o' : Origins} (hne : o.scopes ≠ [])
    (houter : o'.scopes.tail = o.scopes) (hstashed : o'.stashed = o.stashed) : o'.exit = o := by
  obtain ⟨scopes, stashed⟩ := o
  obtain ⟨scopes', stashed'⟩ := o'
  dsimp only at hne houter hstashed
  subst houter hstashed
  match scopes', hne with
  | _ :: _ :: _, _ => rfl

end Origins

/-- An occurrence of a name is evaluated or assigned, and reaches a slot that comes from
this declaration. -/
structure Visit where
  occurrence : Occurrence
  origin : Option Decl
  deriving DecidableEq, Repr

/-! Places: the scope a name is found in. -/

section Places
variable {γ : Type}

/-- The innermost scope that has a name. -/
def nearest? (name : Bytes) (stack : List (List (Bytes × γ))) : Option Nat :=
  stack.findIdx? fun s => (s.lookup name).isSome

theorem nearest?_cons (name : Bytes) (s : List (Bytes × γ)) (rest : List (List (Bytes × γ))) :
    nearest? name (s :: rest) =
      if (s.lookup name).isSome then some 0 else (nearest? name rest).map (· + 1) :=
  List.findIdx?_cons

theorem nearest?_eq_some {name : Bytes} {stack : List (List (Bytes × γ))} {i : Nat}
    (h : Nearest stack name i) : nearest? name stack = some i := by
  induction stack generalizing i with
  | nil => cases h.1
  | cons s rest ih =>
    rw [nearest?_cons]
    cases i with
    | zero => exact if_pos h.1
    | succ i =>
      obtain ⟨hs, hrest⟩ := nearest_succ.mp h
      simp [hs, ih hrest]

end Places

namespace Environment

/-- The innermost scope in which a name is bound. -/
def boundAt? (name : Bytes) (scopes : List Scope) : Option Nat :=
  scopes.findIdx? fun s => ((s.lookup name).bind (·.value)).isSome

/-- What the slot of a name in one scope is bound to. -/
def valueAt (name : Bytes) (scopes : List Scope) (i : Nat) : Option Atom :=
  (cell scopes i name).bind (·.value)

/-- Binds the slot of a name in one scope. -/
def bindAt (name : Bytes) (value : Atom) (scopes : List Scope) (i : Nat) :
    Except EnvironmentFault (List Scope) :=
  match cell scopes i name with
  | some slot =>
    if value.domain = slot.domain then .ok (scopes.modify i (Scope.set name value))
    else .error (.wrongDomain value slot.domain name)
  | none => .error (.undeclared name)

theorem boundAt?_cons (name : Bytes) (s : Scope) (rest : List Scope) :
    boundAt? name (s :: rest) =
      if ((s.lookup name).bind (·.value)).isSome then some 0
      else (boundAt? name rest).map (· + 1) :=
  List.findIdx?_cons

/-- The nearest slot of a name is the innermost bound one, when it is bound. -/
theorem boundAt?_eq_some {name : Bytes} {scopes : List Scope} {i : Nat} {slot : Slot}
    (hi : Nearest scopes name i) (hslot : cell scopes i name = some slot)
    (hbound : slot.value.isSome) : boundAt? name scopes = some i := by
  induction scopes generalizing i with
  | nil => cases hslot
  | cons s rest ih =>
    rw [boundAt?_cons]
    cases i with
    | zero =>
      rw [cell_zero] at hslot
      simp [hslot, hbound]
    | succ i =>
      obtain ⟨hs, hrest⟩ := nearest_succ.mp hi
      simp [hs, ih hrest hslot]

theorem boundAt?_bound {name : Bytes} {scopes : List Scope} {i : Nat}
    (h : boundAt? name scopes = some i) : (valueAt name scopes i).isSome := by
  obtain ⟨hlt, hbound, -⟩ := List.findIdx?_eq_some_iff_getElem.mp h
  simpa [valueAt, cell, List.getElem?_eq_getElem hlt] using hbound

/-- Only what the slots of a name are bound to counts. -/
theorem boundAt?_congr {name : Bytes} {scopes scopes' : List Scope}
    (hlen : scopes'.length = scopes.length)
    (h : ∀ i, valueAt name scopes' i = valueAt name scopes i) :
    boundAt? name scopes' = boundAt? name scopes := by
  induction scopes generalizing scopes' with
  | nil => rw [List.eq_nil_of_length_eq_zero hlen]
  | cons s rest ih =>
    cases scopes' with
    | nil => cases hlen
    | cons s' rest' =>
      have hhere : (s'.lookup name).bind (·.value) = (s.lookup name).bind (·.value) := h 0
      rw [boundAt?_cons, boundAt?_cons, hhere,
        ih (Nat.succ.inj hlen) fun i => h (i + 1)]

/-- Looking a name up reads the innermost bound slot. -/
theorem lookup?_eq_valueAt (name : Bytes) (e : Environment) :
    e.lookup? name = (boundAt? name e.scopes).bind (valueAt name e.scopes) := by
  rw [lookup?]
  generalize e.scopes = scopes
  induction scopes with
  | nil => rfl
  | cons s rest ih =>
    rw [List.findSome?_cons, boundAt?_cons, ih]
    cases hs : (s.lookup name).bind (·.value) with
    | some a => simp [valueAt, hs]
    | none => cases boundAt? name rest <;> rfl

/-- Binding a name binds its nearest slot. -/
theorem bindIn_eq_bindAt (name : Bytes) (value : Atom) (scopes : List Scope) :
    bindIn name value scopes =
      (nearest? name scopes).elim (.error (.undeclared name)) (bindAt name value scopes) := by
  induction scopes with
  | nil => rfl
  | cons s rest ih =>
    rw [bindIn, nearest?_cons, ih]
    cases hs : s.lookup name with
    | some slot => simp [bindAt, hs]
    | none =>
      cases nearest? name rest with
      | none => rfl
      | some i =>
        -- the slot is in an outer scope, and the innermost one stays as it is
        simp only [Option.isSome_none, Bool.false_eq_true, if_false, Option.map_some,
          Option.elim_some, bindAt, cell_succ, List.modify_succ_cons]
        cases cell rest i name with
        | none => rfl
        | some slot => dsimp only; split <;> rfl

end Environment

namespace Store

/-- What the slot of a name in one scope holds. -/
def valueAt (name : Bytes) (scopes : List (List (Bytes × Option Value))) (i : Nat) :
    Option Value :=
  (cell scopes i name).join

/-- Binds the slot of a name in one scope. -/
def bindAt (name : Bytes) (v : Value) (scopes : List (List (Bytes × Option Value))) (i : Nat) :
    List (List (Bytes × Option Value)) :=
  scopes.modify i fun here => here.map fun (n, w) => if n = name then (n, some v) else (n, w)

/-- Looking a name up reads its nearest slot. -/
theorem lookup?_eq_valueAt (name : Bytes) (s : Store) :
    s.lookup? name = (nearest? name s.scopes).bind (valueAt name s.scopes) := by
  rw [lookup?, search?]
  generalize s.scopes = scopes
  induction scopes with
  | nil => rfl
  | cons here rest ih =>
    rw [List.findSome?_cons, nearest?_cons]
    cases hs : here.lookup name with
    | some w => simp [valueAt, hs]
    | none =>
      dsimp only
      rw [ih]
      cases nearest? name rest <;> rfl

/-- Binding a name binds its nearest slot. -/
theorem bindIn_eq_bindAt (name : Bytes) (v : Value)
    (scopes : List (List (Bytes × Option Value))) :
    bindIn name v scopes = (nearest? name scopes).map (bindAt name v scopes) := by
  induction scopes with
  | nil => rfl
  | cons here rest ih =>
    rw [bindIn, nearest?_cons, ih]
    split
    · rfl
    · cases nearest? name rest <;> rfl

end Store

/-! Steps that carry the origins of the slots. -/

/-- A step that carries the origins of the slots and notes its visits to them. -/
abbrev Traced (ε σ : Type) := Logged ε (σ × Origins) Visit

namespace Traced
variable {ε σ α β : Type}

/-- A step that declares nothing and visits no slot. -/
def plain (m : ExceptT ε (StateM σ) α) : Traced ε σ α := fun s =>
  ⟨(m.run.run s.1).1, ((m.run.run s.1).2, s.2), []⟩

/-- Changes the origins. -/
def mark (f : Origins → Origins) : Traced ε σ PUnit := fun s => ⟨.ok ⟨⟩, (s.1, f s.2), []⟩

/-- Notes that an occurrence of a name reaches the slot in one scope. -/
def visit (o : Occurrence) (name : Bytes) (place : Option Nat) : Traced ε σ PUnit := fun s =>
  ⟨.ok ⟨⟩, s, [⟨o, place.bind (cell s.2.scopes · name)⟩]⟩

section Erases
open Logged (Erases)

theorem plain_erases (m : ExceptT ε (StateM σ) α) : Erases Prod.fst (plain m) m := fun _ => rfl

theorem mark_erases (f : Origins → Origins) :
    Erases Prod.fst (mark f : Traced ε σ PUnit) (pure ⟨⟩) := fun _ => rfl

theorem visit_erases (o : Occurrence) (name : Bytes) (place : Option Nat) :
    Erases Prod.fst (visit o name place : Traced ε σ PUnit) (pure ⟨⟩) := fun _ => rfl

end Erases

/-- Whatever a traced step visits is as `P` says; nothing is said of how it stops. -/
def visiting (P : Visit → Prop) : Promise ε Visit where
  seen := P
  fair _ := True
  stop _ := True

section Keeps
open Logged (Keeps)
variable {P : Visit → Prop} {x : Traced ε σ α} {m : ExceptT ε (StateM σ) α} {s : σ × Origins}

theorem plain_keeps {Q : α → σ × Origins → Prop}
    (h : ∀ a t, Succeeds m s.1 a t → Q a (t, s.2)) : Keeps (visiting P) (plain m) s Q := by
  refine ⟨trivial, fun _ => ?_⟩
  cases hr : (plain m s).result with
  | error e => trivial
  | ok a => exact h a _ (Prod.ext hr rfl)

theorem visit_keeps {o : Occurrence} {name : Bytes} {place : Option Nat}
    {Q : PUnit → σ × Origins → Prop} (hv : P ⟨o, place.bind (cell s.2.scopes · name)⟩)
    (h : Q ⟨⟩ s) : Keeps (visiting P) (visit o name place : Traced ε σ PUnit) s Q :=
  ⟨⟨hv, fun _ => trivial⟩, fun _ => h⟩

theorem mark_keeps {f : Origins → Origins} {Q : PUnit → σ × Origins → Prop}
    (h : Q ⟨⟩ (s.1, f s.2)) : Keeps (visiting P) (mark f : Traced ε σ PUnit) s Q :=
  ⟨trivial, fun _ => h⟩

/-- What is known of the step that is traced may be added. -/
theorem also_keeps {Q : α → σ × Origins → Prop} {R : α → σ → Prop}
    (h : Keeps (visiting P) x s Q) (hx : Logged.Erases Prod.fst x m)
    (hm : ∀ a t, Succeeds m s.1 a t → R a t) :
    Keeps (visiting P) x s fun a s' => Q a s' ∧ R a s'.1 := by
  refine ⟨h.1, fun fair => ?_⟩
  have out := h.2 fair
  have hrun := hx s
  cases hr : (x s).result with
  | error e => trivial
  | ok a =>
    rw [hr] at out hrun
    exact ⟨out, hm a _ hrun.symm⟩

end Keeps

end Traced
end Signum
