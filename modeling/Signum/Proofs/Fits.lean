import Signum.Proofs.Check.Context
import Signum.Analysis.Interpreter
/- Stacks that fit the names of the checker.

   `Fits R names stack` says that a stack of scopes has a cell for every variable the
   checker has in sight, none besides, and that variable and cell are related by `R`.
   The environment of an analysis and the store of a run fit in this way, each with
   its own relation, and keep fitting when a variable is declared or bound and when
   scopes are opened and closed. -/
namespace Signum

/-- A stack has the cells of the variables in sight, related to them by `R`. -/
structure Fits {γ : Type} (R : Variable → γ → Prop) (names : List (List (Bytes × Object)))
    (stack : List (List (Bytes × γ))) : Prop where
  height : names.length = stack.length + 1
  owned : ∀ i n x, cell stack i n = some x → ∃ v, cell names i n = some (.variable v)
  known : ∀ i n v, cell names i n = some (.variable v) → ∃ x, cell stack i n = some x ∧ R v x

namespace Fits
variable {γ : Type} {R R' : Variable → γ → Prop} {names names' : List (List (Bytes × Object))}
  {stack stack' : List (List (Bytes × γ))}

theorem mono (h : Fits R names stack)
    (hR : ∀ i n v x, cell names i n = some (.variable v) → R v x → R' v x) :
    Fits R' names stack := by
  refine ⟨h.height, h.owned, fun i n v hv => ?_⟩
  obtain ⟨x, hx, hr⟩ := h.known i n v hv
  exact ⟨x, hx, hR i n v x hv hr⟩

theorem free (h : Fits R names stack) {i : Nat} {n : Bytes} (hn : cell names i n = none) :
    cell stack i n = none := by
  cases hx : cell stack i n with
  | none => rfl
  | some x =>
    obtain ⟨v, hv⟩ := h.owned i n x hx
    rw [hn] at hv
    cases hv

/-- A variable in sight is the nearest one of its name in the stack too. -/
theorem nearest (h : Fits R names stack) {name : Bytes} {v : Variable}
    (hv : names.findSome? (·.lookup name) = some (.variable v)) :
    ∃ i x, cell names i name = some (.variable v) ∧ Nearest stack name i ∧
      cell stack i name = some x ∧ R v x := by
  obtain ⟨i, hi, hcell⟩ := findSome?_lookup.mp hv
  obtain ⟨x, hx, hr⟩ := h.known i name v hcell
  refine ⟨i, x, hcell, ⟨by simp [hx], fun j hj => ?_⟩, hx, hr⟩
  exact h.free (hi.2 j hj)

/-- A cell is changed where the names have a variable, or get one. -/
theorem update (h : Fits R names stack) {i : Nat} {n : Bytes} {v : Variable} {x : γ}
    (hnames : Sets names i n (.variable v) names') (hset : Sets stack i n x stack') (hx : R' v x)
    (hR : ∀ j m w y, ¬(j = i ∧ m = n) → cell names j m = some (.variable w) → R w y → R' w y) :
    Fits R' names' stack' := by
  refine ⟨by rw [hset.length, hnames.length]; exact h.height, fun j m y hy => ?_,
    fun j m w hw => ?_⟩
  · by_cases hjm : j = i ∧ m = n
    · exact ⟨v, by rw [hjm.1, hjm.2, hnames.here]⟩
    · rw [hnames.other hjm]
      exact h.owned j m y (by rw [← hset.other hjm]; exact hy)
  · by_cases hjm : j = i ∧ m = n
    · obtain ⟨rfl, rfl⟩ := hjm
      obtain rfl : v = w := by simpa [hnames.here] using hw
      exact ⟨x, hset.here, hx⟩
    · rw [hnames.other hjm] at hw
      obtain ⟨y, hy, hr⟩ := h.known j m w hw
      exact ⟨y, by rw [hset.other hjm]; exact hy, hR j m w y hjm hw hr⟩

/-- Setting the cell of a variable. -/
theorem set (h : Fits R names stack) {i : Nat} {n : Bytes} {v : Variable} {x : γ}
    (hv : cell names i n = some (.variable v)) (hset : Sets stack i n x stack') (hx : R' v x)
    (hR : ∀ j m w y, ¬(j = i ∧ m = n) → cell names j m = some (.variable w) → R w y → R' w y) :
    Fits R' names stack' := h.update (.self hv) hset hx hR

/-- Declaring a variable in the innermost scope. -/
theorem declare (h : Fits R names stack) {n : Bytes} {v : Variable} {x : γ}
    (hnames : Sets names 0 n (.variable v) names') (hset : Sets stack 0 n x stack') (hx : R' v x)
    (hR : ∀ j m w y, cell names j m = some (.variable w) → R w y → R' w y) :
    Fits R' names' stack' := h.update hnames hset hx fun j m w y _ => hR j m w y

theorem push (h : Fits R names stack) : Fits R ([] :: names) ([] :: stack) := by
  refine ⟨by simp [h.height], fun i n x hx => ?_, fun i n v hv => ?_⟩
  · cases i with
    | zero => cases hx
    | succ i => exact h.owned i n x hx
  · cases i with
    | zero => cases hv
    | succ i => exact h.known i n v hv

theorem pop (h : Fits R names stack) (hne : stack ≠ []) : Fits R names.tail stack.tail := by
  have hpos := List.length_pos_iff.mpr hne
  have hh := h.height
  refine ⟨by simp only [List.length_tail]; omega, fun i n x hx => ?_, fun i n v hv => ?_⟩
  · rw [cell_tail] at hx ⊢
    exact h.owned (i + 1) n x hx
  · rw [cell_tail] at hv ⊢
    exact h.known (i + 1) n v hv

end Fits

/-- A slot of an environment belongs to a variable: it has the variable's domain, what
it holds is of that domain, and it holds something when the variable is assigned. -/
structure SlotFits (assigned : List Nat) (v : Variable) (slot : Slot) : Prop where
  domain : slot.domain = Analysis.domainOf v.type
  value : ∀ a, slot.value = some a → a.domain = slot.domain
  bound : v.number ∈ assigned → slot.value.isSome

/-- The type a value has, when it is a number. -/
def Value.type? : Value → Option NumType
  | .int _ => some .int
  | .float _ => some .float
  | .bool _ => none

/-- A cell of a store belongs to a variable: what it holds is of the variable's type,
and it holds something when the variable is assigned. -/
structure CellFits (assigned : List Nat) (v : Variable) (w : Option Value) : Prop where
  value : ∀ x, w = some x → x.type? = some v.type
  bound : v.number ∈ assigned → w.isSome

theorem SlotFits.weaken {assigned assigned' : List Nat} {v : Variable} {slot : Slot}
    (h : SlotFits assigned v slot) (hsub : v.number ∈ assigned' → v.number ∈ assigned) :
    SlotFits assigned' v slot :=
  ⟨h.domain, h.value, fun hm => h.bound (hsub hm)⟩

theorem CellFits.weaken {assigned assigned' : List Nat} {v : Variable} {w : Option Value}
    (h : CellFits assigned v w) (hsub : v.number ∈ assigned' → v.number ∈ assigned) :
    CellFits assigned' v w :=
  ⟨h.value, fun hm => h.bound (hsub hm)⟩

/-- The environment of an analysis fits the checker's context, and no scope of it has
a name twice. -/
structure EnvironmentFits (c : Context) (env : Environment) : Prop where
  cells : Fits (SlotFits c.assigned) c.scopes.items env.scopes
  names : ∀ s ∈ env.scopes, (s.map Prod.fst).Nodup

/-- The store of a run fits the checker's context. -/
def StoreFits (c : Context) (store : Store) : Prop :=
  Fits (CellFits c.assigned) c.scopes.items store.scopes

theorem StoreFits.weaken {c c' : Context} {store : Store} (h : StoreFits c store)
    (hs : c'.scopes = c.scopes) (ha : c'.assigned ⊆ c.assigned) : StoreFits c' store := by
  unfold StoreFits
  rw [hs]
  exact Fits.mono h fun _ _ _ _ _ hw => hw.weaken fun hm => ha hm

/-- Only the names, what is assigned and the stack count. -/
theorem EnvironmentFits.weaken {c c' : Context} {env env' : Environment} (h : EnvironmentFits c env)
    (hs : c'.scopes = c.scopes) (ha : c'.assigned ⊆ c.assigned) (he : env'.scopes = env.scopes) :
    EnvironmentFits c' env' := by
  refine ⟨?_, ?_⟩
  · rw [hs, he]
    exact h.cells.mono fun _ _ _ _ _ hw => hw.weaken fun hm => ha hm
  · rw [he]
    exact h.names

/-- A stack fits without what is stashed next to it: what a branch leaves can be joined in. -/
theorem EnvironmentFits.alone {c : Context} {env : Environment} (h : EnvironmentFits c env) :
    EnvironmentFits c ⟨env.scopes, []⟩ :=
  h.weaken rfl (fun _ hx => hx) rfl

/-- Closing a scope that is not the outermost one leaves the scopes around it. -/
theorem EnvironmentFits.exit_scopes {c : Context} {env : Environment} (h : EnvironmentFits c env)
    (hn : 3 ≤ c.scopes.items.length) : env.exit.2.scopes = env.scopes.tail := by
  have hheight := h.cells.height
  exact Environment.exit_scopes (by omega)

theorem StoreFits.exit_scopes {c : Context} {store : Store} (h : StoreFits c store)
    (hn : 3 ≤ c.scopes.items.length) : store.exit.2.scopes = store.scopes.tail := by
  have hheight := Fits.height h
  exact Store.exit_scopes (by omega)

/-- Assigning a variable leaves every other one as assigned as it was. -/
theorem Check.Coherent.mem_insert {c : Context} (h : Coherent c) {i j : Nat} {n m : Bytes}
    {v w : Variable} (hv : cell c.scopes.items i n = some (.variable v))
    (hw : cell c.scopes.items j m = some (.variable w)) (hjm : ¬(j = i ∧ m = n))
    (hin : w.number ∈ c.assigned.insert v.number) : w.number ∈ c.assigned := by
  rcases List.mem_insert_iff.mp hin with heq | hin
  · exact absurd (h.same_cell hw hv heq) hjm
  · exact hin

/-- A variable just declared is not assigned yet, and no other is new. -/
theorem Check.Coherent.number_lt {c : Context} (h : Coherent c) {j : Nat} {m : Bytes}
    {w : Variable} (hw : cell c.scopes.items j m = some (.variable w)) :
    w.number < c.variables.size :=
  (Array.getElem?_eq_some_iff.mp (h.own j m w hw).2.2.2).1

end Signum
