import Signum.Proofs.Analysis.Rounds
import Signum.Proofs.Coverage.Simulation
import Signum.Proofs.Safety
/- Loops settle.

   While an accepted program is analysed, the variables that can still rise at the head of
   a loop grow fewer with every round that goes on, so a loop has no more rounds than it had
   such variables when it was entered, and one more; and there are never more of them than
   declarations. So the rounds an analysis grants its loops are as good as any number above:
   giving more changes nothing, and a cap makes a difference only where a loop needs more
   rounds than the cap. -/
namespace Signum

/-! An environment holds no more variables than were declared. -/

section Numbers
variable {γ : Type}

/-- The numbers of the cells of a stack. -/
def numbersOf (num : Nat → Bytes → Nat) : List (List (Bytes × γ)) → List Nat
  | [] => []
  | s :: rest => s.map (fun e => num 0 e.1) ++ numbersOf (fun i => num (i + 1)) rest

theorem length_numbersOf (num : Nat → Bytes → Nat) (stack : List (List (Bytes × γ))) :
    (numbersOf num stack).length = stack.flatten.length := by
  induction stack generalizing num with
  | nil => rfl
  | cons s rest ih =>
    rw [numbersOf, List.length_append, List.length_map, ih, List.flatten_cons, List.length_append]

theorem mem_numbersOf {num : Nat → Bytes → Nat} {stack : List (List (Bytes × γ))} {k : Nat}
    (h : k ∈ numbersOf num stack) : ∃ i n, (cell stack i n).isSome ∧ k = num i n := by
  induction stack generalizing num with
  | nil => cases h
  | cons s rest ih =>
    rcases List.mem_append.mp h with h | h
    · obtain ⟨e, he, rfl⟩ := List.mem_map.mp h
      refine ⟨0, e.1, ?_, rfl⟩
      rw [cell_zero, List.lookup_isSome_iff]
      exact ⟨e, he, by simp⟩
    · obtain ⟨i, n, hcell, rfl⟩ := ih h
      exact ⟨i + 1, n, hcell, rfl⟩

theorem nodup_numbersOf {num : Nat → Bytes → Nat} {stack : List (List (Bytes × γ))}
    (hnames : ∀ s ∈ stack, (s.map Prod.fst).Nodup)
    (hinj : ∀ i j n m, (cell stack i n).isSome → (cell stack j m).isSome → num i n = num j m →
      i = j ∧ n = m) : (numbersOf num stack).Nodup := by
  induction stack generalizing num with
  | nil => exact List.nodup_nil
  | cons s rest ih =>
    have hhere {e : Bytes × γ} (he : e ∈ s) : (cell (s :: rest) 0 e.1).isSome := by
      rw [cell_zero, List.lookup_isSome_iff]
      exact ⟨e, he, by simp⟩
    refine List.nodup_append.mpr ⟨?_, ih (fun t ht => hnames t (by simp [ht])) ?_, ?_⟩
    · have hmap : s.map (fun e => num 0 e.1) = (s.map Prod.fst).map (num 0) := by simp
      rw [hmap]
      refine List.Nodup.map_on (fun n hn m hm heq => ?_) (hnames s (by simp))
      obtain ⟨e, he, rfl⟩ := List.mem_map.mp hn
      obtain ⟨e', he', rfl⟩ := List.mem_map.mp hm
      exact (hinj 0 0 e.1 e'.1 (hhere he) (hhere he') heq).2
    · intro i j n m hi hj heq
      obtain ⟨hij, hnm⟩ := hinj (i + 1) (j + 1) n m hi hj heq
      exact ⟨by omega, hnm⟩
    · intro k hk k' hk' heq
      obtain ⟨e, he, rfl⟩ := List.mem_map.mp hk
      obtain ⟨i, n, hi, rfl⟩ := mem_numbersOf hk'
      obtain ⟨hzero, -⟩ := hinj 0 (i + 1) e.1 n (hhere he) hi heq
      cases hzero

end Numbers

theorem Environment.slackOf_le (scopes : List Scope) :
    slackOf scopes ≤ scopes.flatten.length := by
  induction scopes with
  | nil => exact Nat.le_refl 0
  | cons s rest ih =>
    rw [slackOf, List.flatten_cons, List.length_append]
    exact Nat.add_le_add List.countP_le_length ih

/-- The number of the variable that the checker has in a cell. -/
def Context.numberAt (c : Context) (i : Nat) (n : Bytes) : Nat :=
  match cell c.scopes.items i n with
  | some (.variable v) => v.number
  | _ => 0

/-- No more variables can still rise than were declared. -/
theorem EnvironmentFits.slack_le {c : Context} {env : Environment} (h : EnvironmentFits c env)
    (hc : Check.Coherent c) : env.slack ≤ c.variables.size := by
  -- Each cell is that of a variable, and its number tells the cell.
  have hnum {i : Nat} {n : Bytes} (hs : (cell env.scopes i n).isSome) :
      ∃ v, cell c.scopes.items i n = some (.variable v) ∧ c.numberAt i n = v.number := by
    obtain ⟨slot, hslot⟩ := Option.isSome_iff_exists.mp hs
    obtain ⟨v, hv⟩ := h.cells.owned i n slot hslot
    refine ⟨v, hv, ?_⟩
    unfold Context.numberAt
    rw [hv]
  have hnodup : (numbersOf c.numberAt env.scopes).Nodup := by
    refine nodup_numbersOf h.names fun i j n m hi hj heq => ?_
    obtain ⟨v, hv, hvn⟩ := hnum hi
    obtain ⟨w, hw, hwn⟩ := hnum hj
    exact hc.same_cell hv hw (by rw [← hvn, ← hwn, heq])
  have hsub : numbersOf c.numberAt env.scopes ⊆ List.range c.variables.size := by
    intro k hk
    obtain ⟨i, n, hi, rfl⟩ := mem_numbersOf hk
    obtain ⟨v, hv, hvn⟩ := hnum hi
    rw [List.mem_range, hvn]
    exact hc.number_lt hv
  calc env.slack ≤ env.scopes.flatten.length := Environment.slackOf_le env.scopes
    _ = (numbersOf c.numberAt env.scopes).length := (length_numbersOf c.numberAt env.scopes).symm
    _ ≤ (List.range c.variables.size).length := (hnodup.subperm hsub).length_le
    _ = c.variables.size := List.length_range

namespace Analysis

open Check (Coherent TypedCond)

/-! The settings of an analysis other than the cap. -/

section Settings
variable {config config' : Config}

theorem expr_congr (h : config'.memoizeReads = config.memoizeReads) (e : Expr) :
    expr config' e = expr config e := by
  have hread (t : NumType) (s : Span) : read config' t s = read config t s := by
    unfold read
    rw [h]
  induction e with
  | int v s | float v t s | var name s => rfl
  | readInt s => exact hread .int s
  | readFloat s => exact hread .float s
  | neg e s ih => simp only [expr, ih]
  | binary op l r s ihl ihr => simp only [expr, ihl, ihr]

theorem cond_congr (h : config'.memoizeReads = config.memoizeReads) (c : Cond) :
    cond config' c = cond config c := by
  induction c with
  | compare op l r s => simp only [cond, expr_congr h]
  | logical op l r s ihl ihr => simp only [cond, ihl, ihr]
  | not c s ih => simp only [cond, ih]

end Settings

/-- A round that other limits grant as well. -/
theorem Curtails.granted {allows : Nat → Prop} {cap : Int} {s : State} {o : Round}
    {x y : Counted Unit} (h : allows o.number) (hround : Curtails allows cap y x s) :
    Curtails allows cap (do Logged.note o; y) (do Logged.note o; x) s := by
  have hnote : Curtails allows cap (Logged.note o) (Logged.note o) s := by
    refine ⟨fun _ => rfl, fun ⟨r, hr, hnot⟩ => ?_⟩
    obtain rfl := List.mem_singleton.mp hr
    exact absurd h hnot
  refine hnote.bind fun _ t ht => ?_
  obtain ⟨-, rfl⟩ := succeeds_pure.mp ht
  exact hround

/-- A round that other limits do not grant: under them the loop ends where it would begin. -/
theorem Curtails.denied {allows : Nat → Prop} {config : Config} {s : State} {span : Span} {b : Cond}
    {slack number : Nat} {x y : Counted Unit} {limit : Environment → Nat} (h : ¬allows number) :
    Curtails allows config.maxIterations
      ((counting ⟨config, limit⟩).rounds span b y 0 number (span, slack))
      (do Logged.note ⟨span, slack, number⟩; x) s := by
  refine ⟨fun hall => absurd (hall ⟨span, slack, number⟩ List.mem_cons_self) h, fun _ => ?_⟩
  exact ⟨⟨span, slack, number⟩, List.mem_cons_self, h, rfl⟩

theorem Measured.pure {α : Type} {config : Config} {n : Nat} {s : State} (a : α) :
    Measured config n (fun _ => (Pure.pure a : Counted α)) s := by
  refine ⟨fun r hr => ?_, fun _ => Curtails.of_eq rfl rfl⟩
  cases hr

section Statements
variable {config : Config} {n : Nat}

theorem Measured.expr {st : State} (e : Expr) :
    Measured config n (fun l => Logged.lift (expr l.config e)) st :=
  Measured.lift (m := fun config => Analysis.expr config e) fun _ h => expr_congr h e

/-- A step that starts with a test: the test leaves the environment as it was. -/
theorem Measured.test {α : Type} {b : Cond} {c : Context} {types : List (Expr × NumType)}
    {st : State} {g : Limits → Atom → Counted α} (hb : TypedCond c.scopes c.assigned types b)
    (hst : Ready c st) (hg : ∀ verdict st₁, Ready c st₁ → st₁.env = st.env →
      Measured config n (fun l => g l verdict) st₁) :
    Measured config n (fun l => Logged.lift (cond l.config b) >>= g l) st := by
  refine Measured.bind (Measured.lift (m := fun config => cond config b)
    fun config' h => cond_congr h b) fun verdict st₁ hcond => ?_
  obtain ⟨-, henv, hreads⟩ := cond_reads hb hst.readable hst.reads hcond
  exact hg verdict st₁ ⟨henv ▸ hst.env, hreads⟩ henv

/-- A round settles the loop, or goes on with fewer variables that can still rise. -/
theorem round_measured {span : Span} {b : Cond} {slack number : Nat} {body : Limits → Counted Unit}
    {again : Limits → Span × Nat → Counted Unit} {c c' : Context} {types : List (Expr × NumType)}
    {st : State}
    (hb : TypedCond c.scopes c.assigned types b) (hscopes : c'.scopes = c.scopes)
    (hbal : Balanced (body config.limits).forget)
    (hbody : ∀ st, Ready c st → Measured config n body st)
    (hready : ∀ st st', Ready c st → Succeeds (body config.limits).forget st () st' → Ready c' st')
    (hst : Ready c st)
    (hagain : ∀ st', Ready c st' → st'.env.slack < st.env.slack →
      Measured config n (fun l => again l (span, slack)) st') :
    Measured config n (fun l => (counting l).round span b (body l) number (again l) (span, slack))
      st := by
  simp only [counting_round]
  refine Measured.test hb hst fun verdict st₁ hst₁ henv => ?_
  have hfork : Ready c { st₁ with env := st₁.env.fork } :=
    ⟨hst₁.env.weaken rfl (fun _ h => h) rfl, hst₁.reads⟩
  refine Measured.bind (Measured.branch (hbody _ hfork)) fun after st₂ hbranch => ?_
  obtain ⟨t, ht, rfl, rfl⟩ := branch_succeeds hbal hbranch
  have hafter := hready _ t hfork ht
  have hhanded : EnvironmentFits c' ⟨t.env.scopes, []⟩ := hafter.env.alone
  refine Measured.bind (Measured.step _) fun stable st₃ hsettle => ?_
  obtain ⟨stable', env', hsettle', hfit, hfewer⟩ :=
    settle_safe { t with env := st₁.env } hst₁.env hhanded hscopes
  obtain ⟨rfl, rfl⟩ := hsettle'.unique hsettle
  refine Measured.bind (Measured.step _) fun _ st₄ hreport => ?_
  obtain rfl := succeeds_report.mp hreport
  cases stable' with
  | true => exact Measured.pure ()
  | false =>
    refine hagain _ ⟨hfit, hafter.reads⟩ ?_
    rw [← henv]
    exact hfewer rfl

/-- A loop settles within the rounds it is granted, and limits curtail it. -/
theorem rounds_measured {span : Span} {b : Cond} {body : Limits → Counted Unit} {c c' : Context}
    {types : List (Expr × NumType)} {slack : Nat}
    (hb : TypedCond c.scopes c.assigned types b) (hscopes : c'.scopes = c.scopes)
    (hbal : Balanced (body config.limits).forget)
    (hbody : ∀ st, Ready c st → Measured config n body st)
    (hready : ∀ st st', Ready c st → Succeeds (body config.limits).forget st () st' → Ready c' st')
    (hn : slack ≤ n) (left : Limits → Nat) (number : Nat) {st : State} (hst : Ready c st)
    (hslack : st.env.slack < left config.limits)
    (hnumber : number + left config.limits ≤ slack + 2)
    (hleft : ∀ {l : Limits} {allows : Nat → Prop}, Grants l config allows →
      ∀ j < left config.limits, (j < left l ↔ allows (number + j))) :
    Measured config n
      (fun l => (counting l).rounds span b (body l) (left l) number (span, slack)) st := by
  -- By induction on the rounds the analysis itself grants, which do not run out.
  induction hm : left config.limits generalizing left number st with
  | zero => omega
  | succ m ih =>
    rw [hm] at hslack hnumber hleft
    have round : Measured config n (fun l => (counting l).round span b (body l) number
        ((counting l).rounds span b (body l) (left l - 1) (number + 1)) (span, slack)) st := by
      refine round_measured hb hscopes hbal hbody hready hst fun st' hst' hfewer => ?_
      refine ih (fun l => left l - 1) (number + 1) hst' (by omega) (by omega) ?_ (by omega)
      intro l allows hl j hj
      have := hleft hl (j + 1) (by omega)
      rw [show number + 1 + j = number + (j + 1) by omega, ← this]
      omega
    refine ⟨fun r hr => ?_, fun {l allows} hl => ?_⟩
    · rw [hm, counting_rounds] at hr
      rcases List.mem_cons.mp hr with rfl | hr
      · exact ⟨by dsimp only; omega, hn⟩
      · refine round.bounded r ?_
        rwa [hm]
    · have hfirst := hleft hl 0 (by omega)
      have hcurtails := round.curtails hl
      rw [hm] at hcurtails
      rw [hm, counting_rounds]
      cases hl' : left l with
      | zero =>
        rw [hl'] at hfirst
        exact Curtails.denied (by simpa using hfirst)
      | succ k =>
        rw [hl'] at hfirst hcurtails
        rw [counting_rounds]
        exact Curtails.granted (by simpa using hfirst) hcurtails

/-- Between the checker's contexts before and after it, a statement is measured. -/
def MeasuresStmt (config : Config) (n : Nat) (s : Stmt) : Prop :=
  ∀ {c c' : Context} {u : Unit} {st : State}, Succeeds (Check.stmt s) c u c' → Coherent c →
    c'.variables.size ≤ n → Ready c st → Measured config n (fun l => (counting l).stmt s) st

theorem counted_balanced (s : Stmt) : Balanced ((counting config.limits).stmt s).forget := by
  rw [((counting_faithful config).stmt s).forget]
  exact stmt_balanced config s

theorem assign_measured (name : Bytes) (value : Expr) (s : Span) :
    MeasuresStmt config n (.assign name value s) := by
  intro c c' u st _ _ _ _
  simp only [Instrument.stmt]
  exact Measured.bind (Measured.expr value) fun _ _ _ => Measured.step _

theorem print_measured (value : Expr) (s : Span) : MeasuresStmt config n (.print value s) := by
  intro c c' u st _ _ _ _
  simp only [Instrument.stmt]
  refine Measured.bind (Measured.expr value) fun _ _ _ => ?_
  exact Measured.bind (Measured.step _) fun _ _ _ => Measured.step _

theorem block_measured {body : List Item} {s : Span}
    (ih : ∀ {c c' : Context} {w : Unit} {st : State}, Succeeds (Check.items body) c w c' →
      Coherent c → c'.variables.size ≤ n → Ready c st →
      Measured config n (fun l => (counting l).items body) st) :
    MeasuresStmt config n (.block body s) := by
  intro c c' u st h hc hn hst
  obtain ⟨c₁, hbody, rfl⟩ := Check.within_accepted (by simpa only [Check.stmt] using h)
  simp only [Instrument.stmt]
  exact Measured.within (ih hbody (Check.push_coherent hc) hn hst.push)

theorem ite_measured {b : Cond} {yes : Stmt} {s : Span} (ih : MeasuresStmt config n yes) :
    MeasuresStmt config n (.ite b yes none s) := by
  intro c c' u st h hc hn hst
  obtain ⟨c₁, c₂, ⟨more, rfl⟩, hb, hyes, rfl⟩ := Check.ite_accepted h
  have hc₁ := (Check.Extends.of_records ⟨more, rfl⟩).coherent hc
  simp only [Instrument.stmt]
  refine Measured.test hb hst fun verdict st₁ hst₁ _ => ?_
  refine Measured.bind (Measured.step _) fun _ st₂ hreport => ?_
  obtain rfl := succeeds_report.mp hreport
  refine Measured.bind (Measured.branch (ih hyes hc₁ hn ⟨?_, hst₁.reads⟩)) fun inYes _ _ => ?_
  · exact hst₁.env.weaken rfl (fun _ h => h) rfl
  · exact Measured.bind (Measured.step (joinIn inYes)) fun _ _ _ => Measured.pure ()

theorem iteElse_measured {b : Cond} {yes no : Stmt} {s : Span} (ihy : MeasuresStmt config n yes)
    (ihn : MeasuresStmt config n no) : MeasuresStmt config n (.ite b yes (some no) s) := by
  intro c c' u st h hc hn hst
  obtain ⟨c₁, c₂, c₃, ⟨more, rfl⟩, hb, hyes, hno, rfl⟩ := Check.iteElse_accepted h
  have hc₁ := (Check.Extends.of_records ⟨more, rfl⟩).coherent hc
  obtain ⟨ext, hscopes⟩ := Check.stmt_extends yes hyes
  obtain ⟨ext', -⟩ := Check.stmt_extends no hno
  have hn₂ : c₂.variables.size ≤ n := Nat.le_trans ext'.size_le hn
  simp only [Instrument.stmt]
  refine Measured.test hb hst fun verdict st₁ hst₁ _ => ?_
  refine Measured.bind (Measured.step _) fun _ st₂ hreport => ?_
  obtain rfl := succeeds_report.mp hreport
  have hfork : Ready { c with types := c.types ++ more }
      { st₁ with env := st₁.env.fork, trace := st₁.trace.push (.branch s b verdict) } :=
    ⟨hst₁.env.weaken rfl (fun _ h => h) rfl, hst₁.reads⟩
  refine Measured.bind (Measured.branch (ihy hyes hc₁ hn₂ hfork)) fun inYes st₃ hbranch => ?_
  obtain ⟨t, ht, -, rfl⟩ := branch_succeeds (counted_balanced yes) hbranch
  rw [((counting_faithful config).stmt yes).forget] at ht
  have hafter := stmt_ready hyes hc₁ hfork ht
  -- The second branch starts in the environment from before the first.
  refine Measured.bind (Measured.branch (ihn hno (ext.restored.coherent hc₁) hn
    ⟨?_, hafter.reads⟩)) fun _ _ _ => Measured.step _
  exact hst₁.env.weaken hscopes (fun _ h => h) rfl

theorem loop_measured (hcap : config.maxIterations ≤ 0) {b : Cond} {body : Stmt} {s : Span}
    (ih : MeasuresStmt config n body) : MeasuresStmt config n (.loop b body s) := by
  intro c c' u st h hc hn hst
  obtain ⟨c₁, c₂, ⟨more, rfl⟩, hb, hbody, rfl⟩ := Check.loop_accepted h
  have hc₁ := (Check.Extends.of_records ⟨more, rfl⟩).coherent hc
  obtain ⟨ext, hscopes⟩ := Check.stmt_extends body hbody
  simp only [Instrument.stmt]
  refine Measured.bind (Measured.step _) fun a t hget => ?_
  obtain ⟨rfl, rfl⟩ := succeeds_get.mp hget
  have hlimit : config.limits.limit st.env = st.env.slack + 1 := by
    change roundLimit config st.env = _
    unfold roundLimit
    rw [if_neg (by omega)]
  have hsize : st.env.slack ≤ n :=
    Nat.le_trans (hst.env.slack_le hc) (Nat.le_trans ext.size_le hn)
  refine rounds_measured (c := { c with types := c.types ++ more }) hb hscopes
    (counted_balanced body) (fun st hst => ih hbody hc₁ hn hst) (fun st st' hst hrun => ?_) hsize
    (fun l => l.limit st.env) 1 (hst.weaken rfl fun _ h => h) ?_ ?_ ?_
  · rw [((counting_faithful config).stmt body).forget] at hrun
    exact stmt_ready hbody hc₁ hst hrun
  · rw [hlimit]
    omega
  · rw [hlimit]
    omega
  · intro l allows hl j hj
    rw [Nat.add_comm 1 j]
    exact hl.rounds st.env j (by omega)

mutual

/-- A statement of an accepted program is measured. -/
theorem stmt_measured (hcap : config.maxIterations ≤ 0) : (s : Stmt) → MeasuresStmt config n s
  | .assign name value s => assign_measured name value s
  | .print value s => print_measured value s
  | .block body _ => block_measured (items_measured hcap body)
  | .ite _ yes none _ => ite_measured (stmt_measured hcap yes)
  | .ite _ yes (some no) _ => iteElse_measured (stmt_measured hcap yes) (stmt_measured hcap no)
  | .loop _ body _ => loop_measured hcap (stmt_measured hcap body)

theorem item_measured (hcap : config.maxIterations ≤ 0) : (u : Item) →
    ∀ {c c' : Context} {w : Unit} {st : State}, Succeeds (Check.item u) c w c' → Coherent c →
    c'.variables.size ≤ n → Ready c st → Measured config n (fun l => (counting l).item u) st
  | .decl d, c, c', w, st, _, _, _, _ => by
    simp only [Instrument.item]
    refine Measured.bind (Measured.step _) fun _ _ _ => ?_
    cases d.init with
    | none => exact Measured.pure ()
    | some e => exact Measured.bind (Measured.expr e) fun _ _ _ => Measured.step _
  | .stmt s, c, c', w, st, h, hc, hn, hst => by
    simp only [Instrument.item]
    exact stmt_measured hcap s (by simpa only [Check.item] using h) hc hn hst

theorem items_measured (hcap : config.maxIterations ≤ 0) : (us : List Item) →
    ∀ {c c' : Context} {w : Unit} {st : State}, Succeeds (Check.items us) c w c' → Coherent c →
    c'.variables.size ≤ n → Ready c st → Measured config n (fun l => (counting l).items us) st
  | [], c, c', w, st, _, _, _, _ => by
    simp only [Instrument.items]
    exact Measured.pure ()
  | u :: rest, c, c', w, st, h, hc, hn, hst => by
    simp only [Check.items, succeeds_bind] at h
    obtain ⟨_, c₁, hu, hrest⟩ := h
    have hc₁ := (Check.item_extends u hc.items_ne_nil hu).coherent hc
    have hsize := (Check.items_extends rest hc₁.items_ne_nil hrest).size_le
    simp only [Instrument.items]
    have hitem := item_measured hcap u hu hc (Nat.le_trans hsize hn) hst
    refine Measured.bind hitem fun _ st₁ hrun => ?_
    rw [((counting_faithful config).item u).forget] at hrun
    have hst₁ := (item_safe u hu hc (fun _ hx => hx) hst).of_succeeds (fun _ => trivial)
      ((observing_faithful config).item u) hrun
    exact items_measured hcap rest hrest hc₁ hn hst₁

end

end Statements

/-! Whole programs. -/

/-- An accepted program is measured by its declarations. -/
theorem program_measured {p : Program} {ctx : Context} (h : p.check = (.ok (), ctx))
    (config : Config) (hcap : config.maxIterations ≤ 0) :
    Measured config p.declarations.length (fun l => (counting l).items p.units) State.start := by
  obtain ⟨c, hc, -⟩ := Check.check_accepted h
  have hsize := Check.items_variables p.units hc
  refine items_measured hcap p.units hc Check.inside_coherent ?_ ⟨Check.inside_environment, ?_⟩
  · rw [hsize]
    exact Nat.le_of_eq (Nat.zero_add _)
  · intro t span a ha
    cases ha

/-- A cap grants the rounds up to its number. -/
theorem grants_cap {N : Int} (memo : Bool) (hN : 0 < N) :
    Grants (Config.limits ⟨N, memo⟩) ⟨0, memo⟩ fun number => (number : Int) ≤ N := by
  refine ⟨rfl, fun env j hj => ?_⟩
  change j < roundLimit ⟨N, memo⟩ env ↔ _
  unfold roundLimit
  rw [if_pos hN]
  dsimp only
  omega

/-- The loops of an accepted program settle. Without a cap its analysis ends well or finds a
division by zero, and it does so whatever more rounds its loops are granted. An execution of a
loop begins no more rounds than there were variables that could still rise when it was
entered, and one more, and those are no more than the program declares. A cap changes nothing
when no execution of a loop goes beyond it, and stops the analysis at one that does. -/
theorem loops_settle {p : Program} {ctx : Context} (h : p.check = (.ok (), ctx)) (memo : Bool) :
    ((run ⟨0, memo⟩ p).1 = .ok () ∨
      ∃ span, (run ⟨0, memo⟩ p).1 = .error (.failed .divisionByZero span)) ∧
    (∀ limit : Environment → Nat, (∀ env, env.slack < limit env) →
      ((runWithin ⟨⟨0, memo⟩, limit⟩ p).result, (runWithin ⟨⟨0, memo⟩, limit⟩ p).state) =
        run ⟨0, memo⟩ p ∧ (runWithin ⟨⟨0, memo⟩, limit⟩ p).history = roundsOf ⟨0, memo⟩ p) ∧
    (∀ r ∈ roundsOf ⟨0, memo⟩ p, r.number ≤ r.slack + 1 ∧ r.slack ≤ p.declarations.length) ∧
    ∀ N : Int, 0 < N →
      ((∀ r ∈ roundsOf ⟨0, memo⟩ p, r.number ≤ N) → run ⟨N, memo⟩ p = run ⟨0, memo⟩ p) ∧
      ((∃ r ∈ roundsOf ⟨0, memo⟩ p, N < r.number) →
        ∃ r ∈ roundsOf ⟨0, memo⟩ p, N < r.number ∧
          (run ⟨N, memo⟩ p).1 = .error (.fault (.unsettled r.span N))) := by
  have measured := program_measured h ⟨0, memo⟩ (Int.le_refl 0)
  refine ⟨analysis_ends h (Int.le_refl 0), fun limit hlimit => ?_, measured.bounded,
    fun N hN => ⟨fun hall => ?_, ?_⟩⟩
  · have hgrants : Grants ⟨⟨0, memo⟩, limit⟩ ⟨0, memo⟩ fun _ => True := by
      refine ⟨rfl, fun env j hj => iff_of_true ?_ trivial⟩
      exact Nat.lt_of_le_of_lt hj (hlimit env)
    have hsame : runWithin ⟨⟨0, memo⟩, limit⟩ p = runWithin (Config.limits ⟨0, memo⟩) p :=
      (measured.curtails hgrants).same fun _ _ => trivial
    rw [hsame]
    exact ⟨runWithin_eq_run ⟨0, memo⟩ p, rfl⟩
  · have hsame : runWithin (Config.limits ⟨N, memo⟩) p = runWithin (Config.limits ⟨0, memo⟩) p :=
      (measured.curtails (grants_cap memo hN)).same hall
    rw [← runWithin_eq_run ⟨N, memo⟩, hsame, runWithin_eq_run]
  · rintro ⟨r, hr, hlt⟩
    obtain ⟨r', hr', hnot, hres⟩ :=
      (measured.curtails (grants_cap memo hN)).stopped ⟨r, hr, Int.not_le.mpr hlt⟩
    refine ⟨r', hr', Int.not_le.mp hnot, ?_⟩
    rw [← runWithin_eq_run ⟨N, memo⟩]
    exact hres

/-- The loop of the countdown needs two rounds: a cap of two changes nothing, and a cap of
one stops the analysis. -/
theorem countdown_settles :
    Countdown.program.check = (.ok (), Countdown.context) ∧
    run ⟨2, true⟩ Countdown.program = run ⟨0, true⟩ Countdown.program ∧
    ∃ r ∈ roundsOf ⟨0, true⟩ Countdown.program, 1 < (r.number : Int) ∧
      (run ⟨1, true⟩ Countdown.program).1 = .error (.fault (.unsettled r.span 1)) := by
  obtain ⟨-, -, -, hcap⟩ := loops_settle Countdown.accepted true
  refine ⟨Countdown.accepted, (hcap 2 (by decide)).1 ?_, (hcap 1 (by decide)).2 ?_⟩
  · decide +kernel
  · decide +kernel

end Analysis
end Signum
