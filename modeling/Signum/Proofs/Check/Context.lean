import Signum.Proofs.Check.Accepted
/- What stays true of the checker's context.

   A context is `Coherent` when every variable in sight is the recorded one of its
   number, stands under its own name at its own depth, and every recorded variable of
   depth zero is in sight in the outermost scope. Numbers then tell variables apart:
   two cells that hold variables of one number are one cell. Checking keeps contexts
   coherent and only adds to them (`Extends`), and a statement leaves the scopes as
   they were. -/
namespace Signum.Check

/-- The names in sight and the recorded variables belong together. -/
structure Coherent (c : Context) : Prop where
  nested : 2 ≤ c.scopes.items.length
  own : ∀ i n v, cell c.scopes.items i n = some (.variable v) →
    i + 1 < c.scopes.items.length ∧ v.name = n ∧
      v.depth = (c.scopes.items.length : Int) - 2 - i ∧ c.variables[v.number]? = some v
  globals : ∀ v ∈ c.variables, v.depth = 0 →
    cell c.scopes.items (c.scopes.items.length - 2) v.name = some (.variable v)
  assigned_lt : ∀ k ∈ c.assigned, k < c.variables.size

/-- Variables of one number stand in one cell. -/
theorem Coherent.same_cell {c : Context} (h : Coherent c) {i j : Nat} {n m : Bytes}
    {v w : Variable} (hv : cell c.scopes.items i n = some (.variable v))
    (hw : cell c.scopes.items j m = some (.variable w)) (hvw : v.number = w.number) :
    i = j ∧ n = m := by
  obtain ⟨hi, hn, hdi, hrv⟩ := h.own i n v hv
  obtain ⟨hj, hm, hdj, hrw⟩ := h.own j m w hw
  rw [hvw] at hrv
  obtain rfl : v = w := by simpa [hrv] using hrw
  refine ⟨by omega, ?_⟩
  rw [← hn, ← hm]

/-- A context has only been added to, in the innermost scope at most. -/
structure Extends (c c' : Context) : Prop where
  outer : c'.scopes.items.tail = c.scopes.items.tail
  height : c'.scopes.items.length = c.scopes.items.length
  assigned : c.assigned ⊆ c'.assigned
  recorded : ∃ more, c'.variables = c.variables ++ more
  types : c.types.toList ⊆ c'.types.toList
  coherent : Coherent c → Coherent c'

namespace Extends
variable {c c' c'' : Context}

theorem refl (c : Context) : Extends c c :=
  ⟨rfl, rfl, fun _ h => h, ⟨#[], by simp⟩, fun _ h => h, fun h => h⟩

theorem trans (h : Extends c c') (h' : Extends c' c'') : Extends c c'' := by
  obtain ⟨more, hm⟩ := h.recorded
  obtain ⟨more', hm'⟩ := h'.recorded
  refine ⟨h'.outer.trans h.outer, h'.height.trans h.height, fun _ hx => h'.assigned (h.assigned hx),
    ⟨more ++ more', ?_⟩, fun _ hx => h'.types (h.types hx), fun hc => h'.coherent (h.coherent hc)⟩
  rw [hm', hm, Array.append_assoc]

theorem of_records (h : Records c c') : Extends c c' := by
  obtain ⟨more, rfl⟩ := h
  exact ⟨rfl, rfl, fun _ hx => hx, ⟨#[], by simp⟩, by simp, fun hc => ⟨hc.1, hc.2, hc.3, hc.4⟩⟩

theorem size_le (h : Extends c c') : c.variables.size ≤ c'.variables.size := by
  obtain ⟨more, hm⟩ := h.recorded
  rw [hm, Array.size_append]
  omega

/-- What is assigned may be replaced by other variables known by now. -/
theorem reassign (h : Extends c c') {assigned : List Nat} (hsub : c.assigned ⊆ assigned)
    (hknown : ∀ k ∈ assigned, k ∈ c.assigned ∨ k ∈ c'.assigned) :
    Extends c { c' with assigned := assigned } := by
  refine ⟨h.outer, h.height, hsub, h.recorded, h.types, fun hc => ?_⟩
  have hc' := h.coherent hc
  refine ⟨hc'.nested, hc'.own, hc'.globals, fun k hk => ?_⟩
  rcases hknown k hk with hk | hk
  · exact Nat.lt_of_lt_of_le (hc.assigned_lt k hk) h.size_le
  · exact hc'.assigned_lt k hk

/-- A branch leaves what was assigned before it. -/
theorem restored (h : Extends c c') : Extends c { c' with assigned := c.assigned } :=
  h.reassign (fun _ hx => hx) fun _ hk => .inl hk

end Extends

theorem mem_foldr_insert {k : Nat} {l base : List Nat} :
    k ∈ l.foldr List.insert base ↔ k ∈ l ∨ k ∈ base := by
  induction l with
  | nil => simp
  | cons x rest ih => simp [List.foldr_cons, ih, or_assoc]

/-- What is assigned after both branches of an `if`. -/
theorem mem_assigned_both {k : Nat} {yes no base : List Nat} :
    k ∈ (yes.filter no.contains).foldr List.insert base ↔ (k ∈ yes ∧ k ∈ no) ∨ k ∈ base := by
  simp [mem_foldr_insert]

/-- A variable assigned after an `if` is assigned at the end of both branches. -/
theorem assigned_both {k : Nat} {yes no base : List Nat} (hyes : base ⊆ yes) (hno : base ⊆ no)
    (hk : k ∈ (yes.filter no.contains).foldr List.insert base) : k ∈ yes ∧ k ∈ no := by
  rcases mem_assigned_both.mp hk with hk | hk
  · exact hk
  · exact ⟨hyes hk, hno hk⟩

/-- Assigning a variable in sight. -/
theorem Extends.assign {c : Context} {name : Bytes} {v : Variable}
    (hv : c.scopes.search? name = some (.variable v)) :
    Extends c { c with assigned := c.assigned.insert v.number } := by
  refine ⟨rfl, rfl, fun _ hx => List.mem_insert_of_mem hx, ⟨#[], by simp⟩, fun _ hx => hx,
    fun hc => ⟨hc.nested, hc.own, hc.globals, fun k hk => ?_⟩⟩
  obtain ⟨i, _, hcell⟩ := findSome?_lookup.mp hv
  rcases List.mem_insert_iff.mp hk with rfl | hk
  · exact (Array.getElem?_eq_some_iff.mp (hc.own i name v hcell).2.2.2).1
  · exact hc.assigned_lt k hk

/-- Declaring a variable sets a free cell of the innermost scope. -/
theorem sets_declared {scopes : Scopes} {name : Bytes} {o : Object}
    (hd : scopes.declaredHere name = false) (hne : scopes.items ≠ []) :
    cell scopes.items 0 name = none ∧ Sets scopes.items 0 name o (scopes.add name o).items ∧
      (scopes.add name o).items.tail = scopes.items.tail := by
  obtain ⟨items⟩ := scopes
  cases items with
  | nil => exact absurd rfl hne
  | cons here rest =>
    simp only [Scopes.declaredHere, Option.isSome_eq_false_iff, Option.isNone_iff_eq_none] at hd
    exact ⟨hd, sets_cons here rest name o, rfl⟩

theorem search?_add {scopes : Scopes} {name : Bytes} {o : Object} (hne : scopes.items ≠ []) :
    (scopes.add name o).search? name = some o := by
  obtain ⟨items⟩ := scopes
  cases items with
  | nil => exact absurd rfl hne
  | cons here rest => simp [Scopes.add, Scopes.search?]

theorem cell_add {scopes : Scopes} {name : Bytes} {o : Object} (hne : scopes.items ≠ []) :
    cell (scopes.add name o).items 0 name = some o := by
  obtain ⟨items⟩ := scopes
  cases items with
  | nil => exact absurd rfl hne
  | cons here rest => simp [Scopes.add]

theorem Coherent.items_ne_nil {c : Context} (h : Coherent c) : c.scopes.items ≠ [] := by
  intro hnil
  have := h.nested
  rw [hnil] at this
  simp at this

theorem decl_coherent {d : Decl} {c : Context} (hd : c.scopes.declaredHere d.name = false)
    (hc : Coherent c) : Coherent { c with
      scopes := c.scopes.add d.name (.variable (declared c d)),
      «variables» := c.variables.push (declared c d) } := by
  obtain ⟨hfree, hset, -⟩ := sets_declared (o := .variable (declared c d)) hd hc.items_ne_nil
  refine ⟨by rw [hset.length]; exact hc.nested, fun i n v hv => ?_, fun v hv h0 => ?_, fun k hk => ?_⟩
  · rw [hset.length]
    rw [hset.cell i n] at hv
    split at hv
    · next hin =>
      obtain ⟨rfl, rfl⟩ := hin
      cases hv
      refine ⟨by have := hc.nested; omega, rfl, ?_, by simp [declared]⟩
      simp [declared, Scopes.depth]
    · obtain ⟨hi, hn, hdepth, hrec⟩ := hc.own i n v hv
      refine ⟨hi, hn, hdepth, ?_⟩
      obtain ⟨hlt, heq⟩ := Array.getElem?_eq_some_iff.mp hrec
      rw [Array.getElem?_push_lt hlt, heq]
  · rw [hset.length, hset.cell]
    rcases Array.mem_push.mp hv with hv | rfl
    · have hcell := hc.globals v hv h0
      split
      · next hin =>
        rw [hin.1, hin.2, hfree] at hcell
        cases hcell
      · exact hcell
    · have hdepth : (c.scopes.items.length : Int) - 2 = 0 := h0
      rw [if_pos ⟨by omega, rfl⟩]
  · exact Nat.lt_of_lt_of_le (hc.assigned_lt k hk) (by simp)

theorem decl_extends {d : Decl} {c c' : Context} {u : Unit} (hne : c.scopes.items ≠ [])
    (h : Succeeds (decl d) c u c') : Extends c c' := by
  obtain ⟨c₁, hd, ⟨more, rfl⟩, -, rfl⟩ := decl_accepted h
  obtain ⟨-, hset, htail⟩ := sets_declared (o := .variable (declared c d)) hd hne
  refine ⟨htail, hset.length, ?_, ⟨#[declared c d], by simp⟩, by simp, fun hc => ?_⟩
  · split
    · exact fun _ hx => List.mem_insert_of_mem hx
    · exact fun _ hx => hx
  · have hc' := decl_coherent hd hc
    refine ⟨hc'.nested, hc'.own, hc'.globals, fun k hk => ?_⟩
    have hsize : (c.variables.push (declared c d)).size = c.variables.size + 1 := by simp
    split at hk
    · rcases List.mem_insert_iff.mp hk with rfl | hk
      · exact hsize ▸ Nat.lt_succ_self _
      · exact hc'.assigned_lt k hk
    · exact hc'.assigned_lt k hk

theorem push_coherent {c : Context} (hc : Coherent c) :
    Coherent { c with scopes := c.scopes.push } := by
  have hn := hc.nested
  refine ⟨Nat.le_succ_of_le hn, fun i n v hv => ?_, fun v hv h0 => ?_, hc.assigned_lt⟩
  · cases i with
    | zero => simp [Scopes.push] at hv
    | succ i =>
      obtain ⟨hi, hname, hdepth, hrec⟩ := hc.own i n v hv
      refine ⟨by simpa [Scopes.push] using hi, hname, ?_, hrec⟩
      simp only [Scopes.push, List.length_cons]
      omega
  · have hcell := hc.globals v hv h0
    have hlen : c.scopes.push.items.length - 2 = c.scopes.items.length - 2 + 1 := by
      simp only [Scopes.push, List.length_cons]
      omega
    rw [hlen]
    exact hcell

theorem pop_coherent {c : Context} (hc : Coherent c) (hn : 3 ≤ c.scopes.items.length) :
    Coherent { c with scopes := c.scopes.pop } := by
  have hlen : c.scopes.pop.items.length = c.scopes.items.length - 1 := by simp [Scopes.pop]
  refine ⟨by rw [hlen]; omega, fun i n v hv => ?_, fun v hv h0 => ?_, hc.assigned_lt⟩
  · obtain ⟨hi, hname, hdepth, hrec⟩ := hc.own (i + 1) n v (by rw [← cell_tail]; exact hv)
    refine ⟨by rw [hlen]; omega, hname, ?_, hrec⟩
    rw [hlen]
    omega
  · have hcell := hc.globals v hv h0
    rw [hlen, Scopes.pop, cell_tail]
    rw [show c.scopes.items.length - 1 - 2 + 1 = c.scopes.items.length - 2 by omega]
    exact hcell

mutual

/-- A statement only adds to the context and leaves the scopes as they were. -/
theorem stmt_extends : (s : Stmt) → ∀ {c c' : Context} {u : Unit}, Succeeds (stmt s) c u c' →
    Extends c c' ∧ c'.scopes = c.scopes
  | .assign name value s, c, c', u, h => by
    obtain ⟨v, c₁, hv, ⟨more, rfl⟩, -, rfl⟩ := assign_accepted h
    exact ⟨(Extends.of_records ⟨more, rfl⟩).trans (Extends.assign hv), rfl⟩
  | .print value s, c, c', u, h => by
    obtain ⟨⟨more, rfl⟩, -⟩ := print_accepted h
    exact ⟨.of_records ⟨more, rfl⟩, rfl⟩
  | .block body s, c, c', u, h => by
    obtain ⟨c₁, hbody, rfl⟩ := within_accepted (by simpa only [stmt] using h)
    have ext := items_extends body (by simp [Scopes.push]) hbody
    have hscopes : c₁.scopes.pop = c.scopes := by
      rw [Scopes.pop, ext.outer]
      rfl
    refine ⟨⟨by rw [hscopes], by rw [hscopes], ext.assigned, ext.recorded, ext.types, fun hc => ?_⟩,
      hscopes⟩
    refine pop_coherent (ext.coherent (push_coherent hc)) ?_
    rw [ext.height]
    exact Nat.succ_le_succ hc.nested
  | .ite b yes none s, c, c', u, h => by
    obtain ⟨c₁, c₂, hr, -, hyes, rfl⟩ := ite_accepted h
    obtain ⟨ext, hs⟩ := stmt_extends yes hyes
    refine ⟨(Extends.of_records hr).trans ext.restored, ?_⟩
    obtain ⟨more, rfl⟩ := hr
    exact hs
  | .ite b yes (some no) s, c, c', u, h => by
    obtain ⟨c₁, c₂, c₃, hr, -, hyes, hno, rfl⟩ := iteElse_accepted h
    obtain ⟨ext, hs⟩ := stmt_extends yes hyes
    obtain ⟨ext', hs'⟩ := stmt_extends no hno
    have both := ext.restored.trans ext'
    refine ⟨(Extends.of_records hr).trans (both.reassign ?_ fun k hk => ?_), ?_⟩
    · exact fun _ hx => mem_assigned_both.mpr (.inr hx)
    · rcases mem_assigned_both.mp hk with hk | hk
      · exact .inr hk.2
      · exact .inl hk
    · obtain ⟨more, rfl⟩ := hr
      exact hs'.trans hs
  | .loop b body s, c, c', u, h => by
    obtain ⟨c₁, c₂, hr, -, hbody, rfl⟩ := loop_accepted h
    obtain ⟨ext, hs⟩ := stmt_extends body hbody
    refine ⟨(Extends.of_records hr).trans ext.restored, ?_⟩
    obtain ⟨more, rfl⟩ := hr
    exact hs

theorem item_extends : (i : Item) → ∀ {c c' : Context} {u : Unit}, c.scopes.items ≠ [] →
    Succeeds (item i) c u c' → Extends c c'
  | .decl d, c, c', u, hne, h => decl_extends hne (by simpa only [item] using h)
  | .stmt s, c, c', u, _, h => (stmt_extends s (by simpa only [item] using h)).1

theorem items_extends : (us : List Item) → ∀ {c c' : Context} {u : Unit}, c.scopes.items ≠ [] →
    Succeeds (items us) c u c' → Extends c c'
  | [], c, c', u, _, h => by
    obtain ⟨-, rfl⟩ := succeeds_pure.mp (by simpa only [items] using h)
    exact .refl c
  | i :: rest, c, c', u, hne, h => by
    simp only [items, succeeds_bind] at h
    obtain ⟨_, c₁, hi, hrest⟩ := h
    have ext := item_extends i hne hi
    refine ext.trans (items_extends rest ?_ hrest)
    intro hnil
    have := ext.height
    rw [hnil] at this
    exact hne (List.eq_nil_of_length_eq_zero this.symm)

end

end Signum.Check
