import Signum.Proofs.Check.Names
import Signum.Proofs.Safety
/- The checker accepts exactly the programs that keep the rules.

   What the checker knows of assignment is compared with the marks of a path from both
   sides. `Certain c` holds of marks that mark every variable of `c.assigned`; an accepted
   piece leads from marks certain before it to marks certain after it, on every path and
   without a read too early. `Lacking k c` holds of marks that do not mark variable `k`;
   where the checker does not count `k` as assigned after a piece, one path through the
   piece leaves it unmarked. So when a read is rejected for a variable that is not counted,
   a path leads there on which the variable is not marked. -/
namespace Signum.Check

/-- The marks have every variable that the checker counts as assigned. -/
def Certain (c : Context) (m : Marks) : Prop :=
  Fits (fun v b => v.number ∈ c.assigned → b = true) c.scopes.items m

/-- The marks do not have variable `k`. -/
def Lacking (k : Nat) (c : Context) (m : Marks) : Prop :=
  Fits (fun v b => v.number = k → b = false) c.scopes.items m

/-! What the marks say of names. -/

section Marked
variable {c c' : Context} {k : Nat} {m : Marks}

theorem Certain.not_early (h : Certain c m) {name : Bytes} (ha : Assigned c name) :
    inSight name m ≠ some false := by
  obtain ⟨v, hv, hk⟩ := ha
  obtain ⟨b, hb, htrue⟩ := inSight_of_search h hv
  rw [hb, htrue hk]
  simp

theorem Lacking.early (h : Lacking k c m) {name : Bytes} {v : Variable}
    (hv : c.scopes.search? name = some (.variable v)) (hk : v.number = k) :
    inSight name m = some false := by
  obtain ⟨b, hb, hfalse⟩ := inSight_of_search h hv
  rw [hb, hfalse hk]

theorem Certain.weaken (h : Certain c m) (hs : c'.scopes = c.scopes)
    (ha : c'.assigned ⊆ c.assigned) : Certain c' m := by
  unfold Certain
  rw [hs]
  exact Fits.mono h fun _ _ _ _ _ hb hk => hb (ha hk)

theorem Lacking.of_scopes (h : Lacking k c m) (hs : c'.scopes = c.scopes) : Lacking k c' m := by
  unfold Lacking
  rw [hs]
  exact h

theorem Certain.assign (hc : Coherent c) (h : Certain c m) {name : Bytes} {v : Variable}
    (hv : c.scopes.search? name = some (.variable v)) :
    Certain { c with assigned := c.assigned.insert v.number } (tellNearest name true m) := by
  refine fits_told (c := c) hc h hv (fun _ => rfl) fun w b hne hb hk => ?_
  exact hb ((List.mem_insert_iff.mp hk).resolve_left hne)

theorem Lacking.assign (hc : Coherent c) (h : Lacking k c m) {name : Bytes} {v : Variable}
    (hv : c.scopes.search? name = some (.variable v)) (hk : v.number ≠ k) :
    Lacking k c (tellNearest name true m) :=
  fits_told hc h hv (fun heq => absurd heq hk) fun _ _ _ hb => hb

theorem Certain.declare (hc : Coherent c) (h : Certain c m) {d : Decl}
    (hd : c.scopes.declaredHere d.name = false) : Certain { c with
      scopes := c.scopes.add d.name (.variable (declared c d)),
      «variables» := c.variables.push (declared c d) } (tellHere d.name false m) := by
  refine fits_declared hc h hd (fun hk => ?_) fun _ _ _ hb => hb
  exact absurd (hc.assigned_lt _ hk) (Nat.lt_irrefl _)

theorem Lacking.declare (hc : Coherent c) (h : Lacking k c m) {d : Decl}
    (hd : c.scopes.declaredHere d.name = false) : Lacking k { c with
      scopes := c.scopes.add d.name (.variable (declared c d)),
      «variables» := c.variables.push (declared c d) } (tellHere d.name false m) :=
  fits_declared hc h hd (fun _ => rfl) fun _ _ _ hb => hb

end Marked

/-! No path through an accepted program reads too early. -/

section Certainly
variable {c c' : Context} {w : Unit} {types : List (Expr × NumType)}

theorem Typed.safe {e : Expr} {t : NumType} (h : Typed c.scopes c.assigned types e t) :
    Safe e.paths (Certain c) (Certain c) :=
  Safe.expr fun _ hm n hn => hm.not_early (h.assigned n hn)

theorem TypedCond.safe {b : Cond} (h : TypedCond c.scopes c.assigned types b) (out : Bool) :
    Safe (b.paths out) (Certain c) (Certain c) :=
  Safe.cond fun _ hm n hn => hm.not_early (h.assigned n hn)

theorem decl_certain {d : Decl} (h : Succeeds (decl d) c w c') (hc : Coherent c) :
    Safe d.paths (Certain c) (Certain c') := by
  obtain ⟨c₁, hd, ⟨more, rfl⟩, hinit, rfl⟩ := decl_accepted h
  unfold Decl.paths
  split
  · next e he =>
    refine (hinit e he).safe.mul
      ((Safe.access fun m hm => ⟨id, hm.declare hc hd⟩).mul (Safe.access fun m hm => ⟨id, ?_⟩))
    have hnew := Certain.assign (decl_coherent hd hc) hm (search?_add hc.items_ne_nil)
    simp only [he, Option.isSome_some, if_true]
    exact hnew
  · next he =>
    refine Safe.access fun m hm => ⟨id, ?_⟩
    simp only [he, Option.isSome_none, Bool.false_eq_true, if_false]
    exact hm.declare hc hd

end Certainly

mutual

/-- An accepted statement leads from certain marks to certain marks. -/
theorem stmt_certain : (s : Stmt) → ∀ {c c' : Context} {w : Unit}, Succeeds (stmt s) c w c' →
    Coherent c → Safe s.paths (Certain c) (Certain c')
  | .assign name value s, c, c', w, h, hc => by
    obtain ⟨v, c₁, hv, ⟨more, rfl⟩, ht, rfl⟩ := assign_accepted h
    exact ht.safe.mul (Safe.access fun m hm => ⟨id, hm.assign hc hv⟩)
  | .print value s, c, c', w, h, hc => by
    obtain ⟨⟨more, rfl⟩, t, ht⟩ := print_accepted h
    exact ht.safe
  | .block body s, c, c', w, h, hc => by
    obtain ⟨c₁, hbody, rfl⟩ := within_accepted (by simpa only [stmt] using h)
    have hc₁ := (items_extends body (by simp [Scopes.push]) hbody).coherent (push_coherent hc)
    refine (Safe.access fun m hm => ⟨id, ?_⟩).mul
      ((items_certain body hbody (push_coherent hc)).mul (Safe.access fun m hm => ⟨id, ?_⟩))
    · exact Fits.push hm
    · exact Fits.pop hm (hc₁.stack_ne_nil hm)
  | .ite b yes none s, c, c', w, h, hc => by
    obtain ⟨c₁, c₂, ⟨more, rfl⟩, hb, hyes, rfl⟩ := ite_accepted h
    obtain ⟨ext, hsame⟩ := stmt_extends yes hyes
    have hbody := stmt_certain yes hyes ((Extends.of_records ⟨more, rfl⟩).coherent hc)
    refine ((hb.safe true).mul (hbody.mono fun m hm => ?_)).add ((hb.safe false).mono fun m hm => ?_)
    · exact hm.weaken rfl ext.assigned
    · exact hm.weaken hsame fun _ hk => hk
  | .ite b yes (some no) s, c, c', w, h, hc => by
    obtain ⟨c₁, c₂, c₃, ⟨more, rfl⟩, hb, hyes, hno, rfl⟩ := iteElse_accepted h
    have hc₁ := (Extends.of_records ⟨more, rfl⟩).coherent hc
    obtain ⟨ext, hsame⟩ := stmt_extends yes hyes
    obtain ⟨ext', hsame'⟩ := stmt_extends no hno
    have inYes := stmt_certain yes hyes hc₁
    have inNo := stmt_certain no hno (ext.restored.coherent hc₁)
    have toNo : Safe (b.paths false) (Certain c) (Certain { c₂ with assigned := c.assigned }) :=
      (hb.safe false).mono fun m hm => hm.weaken hsame fun _ hk => hk
    refine ((hb.safe true).mul (inYes.mono fun m hm => ?_)).add
      (toNo.mul (inNo.mono fun m hm => ?_))
    · exact hm.weaken hsame' fun k hk => (assigned_both ext.assigned ext'.assigned hk).1
    · exact hm.weaken rfl fun k hk => (assigned_both ext.assigned ext'.assigned hk).2
  | .loop b body s, c, c', w, h, hc => by
    obtain ⟨c₁, c₂, ⟨more, rfl⟩, hb, hbody, rfl⟩ := loop_accepted h
    obtain ⟨ext, hsame⟩ := stmt_extends body hbody
    -- A round starts with what was assigned before the loop, and keeps it.
    have round := stmt_certain body hbody ((Extends.of_records ⟨more, rfl⟩).coherent hc)
    refine Safe.mul (Safe.kstar ((hb.safe true).mul (round.mono fun m hm => ?_)))
      ((hb.safe false).mono fun m hm => ?_)
    · exact hm.weaken hsame.symm ext.assigned
    · exact hm.weaken hsame fun _ hk => hk

theorem item_certain : (u : Item) → ∀ {c c' : Context} {w : Unit}, Succeeds (item u) c w c' →
    Coherent c → Safe u.paths (Certain c) (Certain c')
  | .decl d, c, c', w, h, hc => decl_certain (by simpa only [item] using h) hc
  | .stmt s, c, c', w, h, hc => stmt_certain s (by simpa only [item] using h) hc

theorem items_certain : (us : List Item) → ∀ {c c' : Context} {w : Unit},
    Succeeds (items us) c w c' → Coherent c → Safe (pathsOf us) (Certain c) (Certain c')
  | [], c, c', w, h, hc => by
    obtain ⟨-, rfl⟩ := succeeds_pure.mp (by simpa only [items] using h)
    exact Safe.one
  | u :: rest, c, c', w, h, hc => by
    simp only [items, succeeds_bind] at h
    obtain ⟨_, c₁, hu, hrest⟩ := h
    have hc₁ := (item_extends u hc.items_ne_nil hu).coherent hc
    exact (item_certain u hu hc).mul (items_certain rest hrest hc₁)

end

/-! A variable that is not counted as assigned is left unmarked by some path. -/

theorem decl_reaches {k : Nat} {d : Decl} {c c' : Context} {w : Unit}
    (h : Succeeds (decl d) c w c') (hc : Coherent c) (hk : k ∉ c'.assigned) :
    Reaches d.paths (Lacking k c) (Lacking k c') := by
  obtain ⟨c₁, hd, ⟨more, rfl⟩, -, rfl⟩ := decl_accepted h
  unfold Decl.paths
  split
  · next e he =>
    refine Reaches.expr.mul
      ((Reaches.access fun m hm => hm.declare hc hd).mul (Reaches.access fun m hm => ?_))
    refine Lacking.assign (decl_coherent hd hc) hm (search?_add hc.items_ne_nil) ?_
    rintro rfl
    exact hk (by simp [he, declared])
  · exact Reaches.access fun m hm => hm.declare hc hd

mutual

/-- Some path through an accepted statement does not assign a variable that the checker
does not count as assigned after it. -/
theorem stmt_reaches {k : Nat} : (s : Stmt) → ∀ {c c' : Context} {w : Unit},
    Succeeds (stmt s) c w c' → Coherent c → k ∉ c'.assigned →
    Reaches s.paths (Lacking k c) (Lacking k c')
  | .assign name value s, c, c', w, h, hc, hk => by
    obtain ⟨v, c₁, hv, ⟨more, rfl⟩, -, rfl⟩ := assign_accepted h
    refine Reaches.expr.mul (Reaches.access fun m hm => hm.assign hc hv ?_)
    rintro rfl
    exact hk (List.mem_insert_iff.mpr (.inl rfl))
  | .print value s, c, c', w, h, hc, hk => by
    obtain ⟨⟨more, rfl⟩, -⟩ := print_accepted h
    exact Reaches.expr
  | .block body s, c, c', w, h, hc, hk => by
    obtain ⟨c₁, hbody, rfl⟩ := within_accepted (by simpa only [stmt] using h)
    have hc₁ := (items_extends body (by simp [Scopes.push]) hbody).coherent (push_coherent hc)
    refine (Reaches.access fun m hm => ?_).mul
      ((items_reaches body hbody (push_coherent hc) hk).mul (Reaches.access fun m hm => ?_))
    · exact Fits.push hm
    · exact Fits.pop hm (hc₁.stack_ne_nil hm)
  | .ite b yes none s, c, c', w, h, hc, hk => by
    obtain ⟨c₁, c₂, ⟨more, rfl⟩, -, hyes, rfl⟩ := ite_accepted h
    -- The path around the branch assigns nothing.
    refine Reaches.right (Reaches.cond.mono fun m hm => ?_)
    exact hm.of_scopes (stmt_extends yes hyes).2
  | .ite b yes (some no) s, c, c', w, h, hc, hk => by
    obtain ⟨c₁, c₂, c₃, ⟨more, rfl⟩, -, hyes, hno, rfl⟩ := iteElse_accepted h
    have hc₁ := (Extends.of_records ⟨more, rfl⟩).coherent hc
    obtain ⟨ext, hsame⟩ := stmt_extends yes hyes
    obtain ⟨-, hsame'⟩ := stmt_extends no hno
    -- One of the branches does not assign it: that one is taken.
    by_cases hin : k ∈ c₂.assigned
    · have hno' : k ∉ c₃.assigned := fun hk' => hk (mem_assigned_both.mpr (.inl ⟨hin, hk'⟩))
      have inNo := stmt_reaches no hno (ext.restored.coherent hc₁) hno'
      exact Reaches.right ((Reaches.cond.mono fun m hm => hm.of_scopes hsame).mul inNo)
    · have inYes := stmt_reaches yes hyes hc₁ hin
      exact Reaches.left (Reaches.cond.mul (inYes.mono fun m hm => hm.of_scopes hsame'))
  | .loop b body s, c, c', w, h, hc, hk => by
    obtain ⟨c₁, c₂, ⟨more, rfl⟩, -, hbody, rfl⟩ := loop_accepted h
    -- Nor does the path of no round.
    refine Reaches.kstar.mul (Reaches.cond.mono fun m hm => ?_)
    exact hm.of_scopes (stmt_extends body hbody).2

theorem item_reaches {k : Nat} : (u : Item) → ∀ {c c' : Context} {w : Unit},
    Succeeds (item u) c w c' → Coherent c → k ∉ c'.assigned →
    Reaches u.paths (Lacking k c) (Lacking k c')
  | .decl d, c, c', w, h, hc, hk => decl_reaches (by simpa only [item] using h) hc hk
  | .stmt s, c, c', w, h, hc, hk => stmt_reaches s (by simpa only [item] using h) hc hk

theorem items_reaches {k : Nat} : (us : List Item) → ∀ {c c' : Context} {w : Unit},
    Succeeds (items us) c w c' → Coherent c → k ∉ c'.assigned →
    Reaches (pathsOf us) (Lacking k c) (Lacking k c')
  | [], c, c', w, h, hc, hk => by
    obtain ⟨-, rfl⟩ := succeeds_pure.mp (by simpa only [items] using h)
    exact Reaches.one
  | u :: rest, c, c', w, h, hc, hk => by
    simp only [items, succeeds_bind] at h
    obtain ⟨_, c₁, hu, hrest⟩ := h
    have hc₁ := (item_extends u hc.items_ne_nil hu).coherent hc
    have hk₁ : k ∉ c₁.assigned :=
      fun hmem => hk ((items_extends rest hc₁.items_ne_nil hrest).assigned hmem)
    exact (item_reaches u hu hc hk₁).mul (items_reaches rest hrest hc₁ hk)

end

/-! What keeps the rules is accepted, or a path through it reads too early. -/

/-- Some path, taken with a variable unmarked that the checker does not count as assigned,
reads too early. -/
def Exposed (c : Context) (paths : Language Access) : Prop :=
  ∃ k, k ∉ c.assigned ∧ Fails paths (Lacking k c)

section Exposing
variable {c : Context} {Γ : Names}

theorem expr_accepted_or {e : Expr} (hs : Shows c Γ) (hn : ∀ n ∈ e.names, (inSight n Γ).isSome)
    (ha : e.Agrees Γ) :
    (∃ t c', Succeeds (expr e) c t c' ∧ e.type? Γ = some t) ∨ Exposed c e.paths := by
  rcases assigned_or hs hn with hall | ⟨n, hmem, v, hv, hk⟩
  · exact .inl (expr_accepts hs hall ha)
  · exact .inr ⟨v.number, hk, Fails.expr hmem fun _ hm => hm.early hv rfl⟩

theorem cond_accepted_or {b : Cond} (hs : Shows c Γ) (hn : ∀ n ∈ b.names, (inSight n Γ).isSome)
    (ha : b.Agrees Γ) : (∃ c', Succeeds (cond b) c () c') ∨ ∀ out, Exposed c (b.paths out) := by
  rcases assigned_or hs hn with hall | ⟨n, hmem, v, hv, hk⟩
  · exact .inl (cond_accepts hs hall ha)
  · exact .inr fun out => ⟨v.number, hk, Fails.cond hmem fun _ hm => hm.early hv rfl⟩

theorem Exposed.mul_left {K L : Language Access} (h : Exposed c K) (hl : ∃ t, t ∈ L) :
    Exposed c (K * L) := by
  obtain ⟨k, hk, hfails⟩ := h
  exact ⟨k, hk, hfails.mul_left hl⟩

theorem Exposed.after_cond {b : Cond} {out : Bool} {L : Language Access} (h : Exposed c L) :
    Exposed c (b.paths out * L) := by
  obtain ⟨k, hk, hfails⟩ := h
  exact ⟨k, hk, Fails.mul_right Reaches.cond hfails⟩

theorem Exposed.left {K L : Language Access} (h : Exposed c K) : Exposed c (K + L) := by
  obtain ⟨k, hk, hfails⟩ := h
  exact ⟨k, hk, hfails.left⟩

theorem Exposed.right {K L : Language Access} (h : Exposed c L) : Exposed c (K + L) := by
  obtain ⟨k, hk, hfails⟩ := h
  exact ⟨k, hk, hfails.right⟩

theorem Exposed.kstar {L : Language Access} (h : Exposed c L) : Exposed c (KStar.kstar L) := by
  obtain ⟨k, hk, hfails⟩ := h
  exact ⟨k, hk, hfails.kstar⟩

/-- Only the scopes and what is assigned count. -/
theorem Exposed.of_same {c' : Context} {L : Language Access} (h : Exposed c' L)
    (hs : c'.scopes = c.scopes) (ha : c'.assigned = c.assigned) : Exposed c L := by
  obtain ⟨k, hk, hfails⟩ := h
  exact ⟨k, ha ▸ hk, fun m hm => hfails m (hm.of_scopes hs)⟩

theorem decl_accepted_or {d : Decl} (hs : Shows c Γ) (ho : Obeyed [(Γ, .declare d)])
    (hd : c.scopes.declaredHere d.name = false) :
    (∃ c', Succeeds (decl d) c () c') ∨ Exposed c d.paths := by
  obtain ⟨⟨hn, ha⟩, -⟩ := obeyed_cons.mp ho
  cases he : d.init with
  | none => exact .inl (decl_succeeds hd (by simp [he]))
  | some e =>
    obtain ⟨hagrees, htype⟩ := ha e he
    have hnames : ∀ n ∈ e.names, (inSight n Γ).isSome :=
      fun n hmem => hn n (by simpa [Use.names, he] using hmem)
    rcases expr_accepted_or hs hnames hagrees with ⟨t, c₁, hexpr, ht⟩ | hexp
    · rw [ht, agree_some] at htype
      subst htype
      refine .inl (decl_succeeds hd fun e' he' => ⟨c₁, ?_⟩)
      obtain rfl : e = e' := by simpa [he] using he'
      exact hexpr
    · refine .inr ?_
      unfold Decl.paths
      rw [he]
      exact hexp.mul_left ⟨_, Language.append_mem_mul rfl rfl⟩

end Exposing

mutual

theorem stmt_accepts : (s : Stmt) → ∀ {c : Context} {Γ : Names}, Coherent c → Shows c Γ →
    Obeyed (s.uses Γ) → (∀ names ∈ s.scopes, names.Nodup) →
    (∃ c', Succeeds (stmt s) c () c') ∨ Exposed c s.paths
  | .assign name value s, c, Γ, hc, hs, ho, hd => by
    obtain ⟨⟨hn, ha, htype⟩, -⟩ := obeyed_cons.mp ho
    obtain ⟨hname, hvalue⟩ := List.forall_mem_cons.mp hn
    obtain ⟨v, hv⟩ := hs.search?_eq hname
    rcases expr_accepted_or hs hvalue ha with ⟨t, c₁, hexpr, ht⟩ | hexp
    · rw [hs.inSight_eq hv, ht, agree_some] at htype
      subst htype
      exact .inl ⟨_, assign_succeeds s hv hexpr⟩
    · exact .inr (hexp.mul_left ⟨_, rfl⟩)
  | .print value s, c, Γ, hc, hs, ho, hd => by
    obtain ⟨⟨hn, ha⟩, -⟩ := obeyed_cons.mp ho
    rcases expr_accepted_or hs hn ha with ⟨t, c₁, hexpr, -⟩ | hexp
    · exact .inl ⟨c₁, succeeds_bind.mpr ⟨t, c₁, hexpr, succeeds_pure.mpr ⟨rfl, rfl⟩⟩⟩
    · exact .inr hexp
  | .block body s, c, Γ, hc, hs, ho, hd => by
    obtain ⟨hown, hinner⟩ := List.forall_mem_cons.mp hd
    rcases items_accepts body (push_coherent hc) hs.push ho hinner hown (fun _ _ => rfl) with
      ⟨c₁, hbody⟩ | ⟨k, hk, hfails⟩
    · exact .inl ⟨_, within_succeeds hbody⟩
    · refine .inr ⟨k, hk, Fails.mul_right (Reaches.access fun m hm => ?_)
        (hfails.mul_left ⟨_, rfl⟩)⟩
      exact Fits.push hm
  | .ite b yes none s, c, Γ, hc, hs, ho, hd => by
    obtain ⟨⟨hn, ha⟩, huses⟩ := obeyed_cons.mp ho
    rcases cond_accepted_or hs hn ha with ⟨c₁, hb⟩ | hexp
    · obtain ⟨⟨more, rfl⟩, -⟩ := cond_accepted hb
      have hc₁ := (Extends.of_records ⟨more, rfl⟩).coherent hc
      rcases stmt_accepts yes hc₁ (hs.of_scopes rfl) huses hd with ⟨c₂, hyes⟩ | hexp
      · exact .inl ⟨_, succeeds_bind.mpr ⟨(), _, hb, succeeds_bind.mpr
          ⟨_, _, branch_succeeds hyes, succeeds_pure.mpr ⟨rfl, rfl⟩⟩⟩⟩
      · exact .inr (Exposed.left (Exposed.after_cond (hexp.of_same rfl rfl)))
    · exact .inr (hexp false).right
  | .ite b yes (some no) s, c, Γ, hc, hs, ho, hd => by
    obtain ⟨⟨hn, ha⟩, huses⟩ := obeyed_cons.mp ho
    obtain ⟨hyesUses, hnoUses⟩ := obeyed_append.mp huses
    obtain ⟨hyesOnce, hnoOnce⟩ := List.forall_mem_append.mp hd
    rcases cond_accepted_or hs hn ha with ⟨c₁, hb⟩ | hexp
    · obtain ⟨⟨more, rfl⟩, -⟩ := cond_accepted hb
      have hc₁ := (Extends.of_records ⟨more, rfl⟩).coherent hc
      rcases stmt_accepts yes hc₁ (hs.of_scopes rfl) hyesUses hyesOnce with ⟨c₂, hyes⟩ | hexp
      · obtain ⟨ext, hsame⟩ := stmt_extends yes hyes
        rcases stmt_accepts no (ext.restored.coherent hc₁) (hs.of_scopes hsame) hnoUses hnoOnce with
          ⟨c₃, hno⟩ | hexp
        · exact .inl ⟨_, succeeds_bind.mpr ⟨(), _, hb, succeeds_bind.mpr ⟨_, _, branch_succeeds hyes,
            succeeds_bind.mpr ⟨_, _, branch_succeeds hno, succeeds_modify.mpr rfl⟩⟩⟩⟩
        · exact .inr (Exposed.right (Exposed.after_cond (hexp.of_same hsame rfl)))
      · exact .inr (Exposed.left (Exposed.after_cond (hexp.of_same rfl rfl)))
    · exact .inr ((hexp true).mul_left yes.paths_nonempty).left
  | .loop b body s, c, Γ, hc, hs, ho, hd => by
    obtain ⟨⟨hn, ha⟩, huses⟩ := obeyed_cons.mp ho
    have hexit : ∃ t, t ∈ b.paths false := ⟨_, b.reads_mem_paths false⟩
    rcases cond_accepted_or hs hn ha with ⟨c₁, hb⟩ | hexp
    · obtain ⟨⟨more, rfl⟩, -⟩ := cond_accepted hb
      have hc₁ := (Extends.of_records ⟨more, rfl⟩).coherent hc
      rcases stmt_accepts body hc₁ (hs.of_scopes rfl) huses hd with ⟨c₂, hbody⟩ | hexp
      · exact .inl ⟨_, succeeds_bind.mpr ⟨(), _, hb, succeeds_bind.mpr
          ⟨_, _, branch_succeeds hbody, succeeds_pure.mpr ⟨rfl, rfl⟩⟩⟩⟩
      · have round : Exposed c (b.paths true * body.paths) :=
          Exposed.after_cond (hexp.of_same rfl rfl)
        exact .inr (round.kstar.mul_left hexit)
    · exact .inr (((hexp true).mul_left body.paths_nonempty).kstar.mul_left hexit)

theorem item_accepts : (u : Item) → ∀ {c : Context} {Γ : Names}, Coherent c → Shows c Γ →
    Obeyed (u.uses Γ) → (∀ names ∈ u.scopes, names.Nodup) →
    (∀ n ∈ u.declares?, c.scopes.declaredHere n = false) →
    (∃ c', Succeeds (item u) c () c') ∨ Exposed c u.paths
  | .decl d, c, Γ, hc, hs, ho, hd, hfree => by
    simpa only [item, Item.paths] using decl_accepted_or hs ho (hfree d.name rfl)
  | .stmt s, c, Γ, hc, hs, ho, hd, _ => by
    simpa only [item, Item.paths] using stmt_accepts s hc hs ho hd

theorem items_accepts : (us : List Item) → ∀ {c : Context} {Γ : Names}, Coherent c → Shows c Γ →
    Obeyed (usesOf Γ us) → (∀ names ∈ scopesOf us, names.Nodup) →
    (us.filterMap Item.declares?).Nodup →
    (∀ n ∈ us.filterMap Item.declares?, c.scopes.declaredHere n = false) →
    (∃ c', Succeeds (items us) c () c') ∨ Exposed c (pathsOf us)
  | [], c, Γ, _, _, _, _, _, _ => .inl ⟨c, succeeds_pure.mpr ⟨rfl, rfl⟩⟩
  | u :: rest, c, Γ, hc, hs, ho, hd, hown, hfree => by
    obtain ⟨huses, huses'⟩ := obeyed_append.mp ho
    obtain ⟨honce, honce'⟩ := List.forall_mem_append.mp hd
    have hnew : ∀ n ∈ u.declares?, c.scopes.declaredHere n = false := by
      intro n hn
      exact hfree n (by rw [List.filterMap_cons_some hn]; simp)
    rcases item_accepts u hc hs huses honce hnew with ⟨c₁, hu⟩ | hexp
    · have ext := item_extends u hc.items_ne_nil hu
      obtain ⟨-, hafter⟩ := item_declaredHere hc hu
      have hrest : (rest.filterMap Item.declares?).Nodup ∧
          ∀ n ∈ rest.filterMap Item.declares?, c₁.scopes.declaredHere n = false := by
        cases hdecl : u.declares? with
        | none =>
          rw [List.filterMap_cons_none hdecl] at hown hfree
          exact ⟨hown, fun n hn => (hafter n).mpr ⟨by simp [hdecl], hfree n hn⟩⟩
        | some name =>
          rw [List.filterMap_cons_some hdecl] at hown hfree
          obtain ⟨hnot, hown⟩ := List.nodup_cons.mp hown
          refine ⟨hown, fun n hn => (hafter n).mpr ⟨?_, hfree n (List.mem_cons_of_mem _ hn)⟩⟩
          rw [hdecl]
          rintro ⟨⟩
          exact hnot hn
      rcases items_accepts rest (ext.coherent hc) (hs.item hc hu) huses' honce' hrest.1 hrest.2 with
        ⟨c₂, hrest⟩ | ⟨k, hk, hfails⟩
      · exact .inl ⟨c₂, succeeds_bind.mpr ⟨(), c₁, hu, hrest⟩⟩
      · -- The variable was not assigned before the unit either, and a path through the unit
        -- leaves it so.
        exact .inr ⟨k, fun hmem => hk (ext.assigned hmem),
          Fails.mul_right (item_reaches u hu hc hk) hfails⟩
    · exact .inr (hexp.mul_left (pathsOf_nonempty rest))

end

/-! Whole programs. -/

/-- No variable is in sight at the start of a program. -/
theorem inside_fits {γ : Type} {R : Variable → γ → Prop} : Fits R inside.scopes.items [[]] := by
  refine ⟨rfl, fun i n x hx => ?_, fun i n v hv => ?_⟩
  · cases i <;> cases hx
  · have := (inside_coherent.own i n v hv).2.2.2
    simp [inside, Context.start] at this

theorem inside_shows : Shows inside [[]] := by
  refine ⟨inside_fits, fun i n t hx => ?_⟩
  match i with
  | 0 => cases hx
  | 1 => rfl
  | i + 2 => cases hx

end Signum.Check

namespace Signum

/-- The checker finds no problem exactly when no scope declares a name twice, every name
read or assigned is declared before in an open scope, types agree, and on no path is a
variable read before it is assigned. -/
theorem Program.check_eq_ok_iff (p : Program) :
    p.check.1 = .ok () ↔ p.DeclaresOnce ∧ p.Resolves ∧ p.Agrees ∧ p.AssignsFirst := by
  constructor
  · intro h
    have hcheck : p.check = (.ok (), p.check.2) := Prod.ext h rfl
    obtain ⟨c, hc, -⟩ := Check.check_accepted hcheck
    obtain ⟨huses, hscopes, hown, -⟩ :=
      Check.items_obeyed p.units hc Check.inside_coherent Check.inside_shows
    refine ⟨List.forall_mem_cons.mpr ⟨hown, hscopes⟩, fun q hq => (huses q hq).1,
      fun q hq => (huses q hq).2, fun path hpath => ?_⟩
    have hsafe := Check.items_certain p.units hc Check.inside_coherent
    exact (hsafe [[]] Check.inside_fits path hpath).1
  · rintro ⟨honce, hresolves, hagrees, hassigns⟩
    obtain ⟨hown, hscopes⟩ := List.forall_mem_cons.mp honce
    have huses : Check.Obeyed (usesOf [[]] p.units) :=
      fun q hq => ⟨hresolves q hq, hagrees q hq⟩
    rcases Check.items_accepts p.units Check.inside_coherent Check.inside_shows huses hscopes hown
      (fun _ _ => rfl) with ⟨c, hc⟩ | ⟨k, -, hfails⟩
    · have hcheck : p.check = _ := Check.within_succeeds hc
      rw [hcheck]
    · obtain ⟨path, hpath, hearly⟩ := hfails [[]] Check.inside_fits
      exact absurd hearly (hassigns path hpath)

end Signum
