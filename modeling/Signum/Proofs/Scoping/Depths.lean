import Signum.Proofs.Analysis.Chronicle
import Signum.Proofs.Analysis.LeastFixpoint
import Signum.Proofs.Check.Declared
/- The checker's records, the tree and the scopes of an analysis agree.

   An analysis opens a scope for each block and runs the branches of an `if` and the body of a
   loop on forks with as many scopes. So wherever it adds a variable, as many scopes are open
   above the outermost one as there are blocks around the declaration (`Scoped`), in every round
   of every loop and also when it stops later. The checker reads the depths it records off its own
   scopes, and they are the same numbers (`checker_records_match_tree`). -/
namespace Signum

namespace Analysis

open Logged (note lift onStop)

/-- Taken with `depth` scopes above the outermost one, the step declares only what is in `may`,
each in the scope it is listed with, and when it succeeds it has declared all of `must`. -/
def Scoped {α : Type} (depth : Nat) (must may : List (Decl × Nat)) (x : Chronicled α) : Prop :=
  ∀ s : State, s.env.depth = depth + 1 → declaredIn (x s).history ⊆ may ∧
    ∀ a, (x s).result = .ok a → must ⊆ declaredIn (x s).history

theorem tell_persistent (x : Execution) (moment : Moment) :
    Persistent (chronicleLoop x moment).forget := by
  intro s s' y _ hm
  cases moment <;> obtain ⟨-, rfl⟩ := Prod.mk.inj hm <;> exact .refl _

namespace Scoped
variable {α β : Type} {depth : Nat} {must must' may may' : List (Decl × Nat)} {x : Chronicled α}

theorem mono (h : Scoped depth must may x) (hmust : must' ⊆ must) (hmay : may ⊆ may') :
    Scoped depth must' may' x := fun s hs =>
  ⟨List.Subset.trans (h s hs).1 hmay, fun a ha => List.Subset.trans hmust ((h s hs).2 a ha)⟩

/-- A step that declares nothing. -/
theorem nothing (h : ∀ s, declaredIn (x s).history = []) : Scoped depth [] may x := fun s _ =>
  ⟨h s ▸ List.nil_subset _, fun _ _ => List.nil_subset _⟩

theorem lift (m : M α) : Scoped depth [] may (lift m) := nothing fun _ => rfl

theorem pure (a : α) : Scoped depth [] may (Pure.pure a : Chronicled α) :=
  lift (Pure.pure a : M α)

/-- A step that leaves the scopes open, and another after it. -/
theorem bind {f : α → Chronicled β} (hx : Scoped depth must may x)
    (hp : Persistent x.forget) (hf : ∀ a, Scoped depth must' may (f a)) :
    Scoped depth (must ++ must') may (x >>= f) := by
  intro s hs
  obtain ⟨hmay, hmust⟩ := hx s hs
  cases hr : (x s).result with
  | error e =>
    rw [Logged.bind_of_error hr]
    exact ⟨hmay, nofun⟩
  | ok a =>
    have hopen : s.env.scopes ≠ [] := List.ne_nil_of_length_eq_add_one hs
    have hrun : Succeeds x.forget s a (x s).state := Prod.ext hr rfl
    -- the second step starts with the scopes of the first, whatever the first has opened inside
    have hdepth : (x s).state.env.depth = depth + 1 := (hp hopen hrun).height.trans hs
    obtain ⟨hmay', hmust'⟩ := hf a (x s).state hdepth
    rw [Logged.bind_of_ok hr]
    refine ⟨?_, fun b hb => ?_⟩
    · rw [declaredIn_append]
      exact List.append_subset.mpr ⟨hmay, hmay'⟩
    · rw [declaredIn_append]
      exact List.append_subset.mpr ⟨List.subset_append_of_subset_left _ (hmust a hr),
        List.subset_append_of_subset_right _ (hmust' b hb)⟩

theorem lift_bind {m : M α} {f : α → Chronicled β} (hp : Persistent m)
    (hf : ∀ a, Scoped depth must may (f a)) : Scoped depth must may (Logged.lift m >>= f) :=
  (lift m).bind hp hf

/-- A step after which nothing is declared. -/
theorem bind_nothing {f : α → Chronicled β} (hx : Scoped depth must may x)
    (hp : Persistent x.forget) (hf : ∀ a, Scoped depth [] may (f a)) :
    Scoped depth must may (x >>= f) := by
  rw [← List.append_nil must]
  exact hx.bind hp hf

theorem noteScope (d : Decl) (h : (d, depth) ∈ may) :
    Scoped depth [(d, depth)] may (noteScope d) := by
  intro s hs
  have hnote : declaredIn ((Analysis.noteScope d s).history) = [(d, depth)] := by
    change [(d, s.env.depth - 1)] = _
    rw [hs]
    rfl
  rw [hnote]
  exact ⟨List.cons_subset.mpr ⟨h, List.nil_subset _⟩, fun _ _ => List.Subset.refl _⟩

/-- What is noted of a loop is no declaration. -/
theorem tell_bind {e : Execution} {moment : Moment} {f : Execution → Chronicled β}
    (hf : ∀ e, Scoped depth must may (f e)) :
    Scoped depth must may (chronicleLoop e moment >>= f) := by
  have htell : Scoped depth [] may (chronicleLoop e moment) :=
    nothing fun _ => by cases moment <;> rfl
  exact htell.bind (tell_persistent e moment) hf

theorem within {x : Chronicled Unit} (h : Scoped (depth + 1) must may x) :
    Scoped depth must may (inScope x) := by
  intro s hs
  exact h { s with env := s.env.enter } (congrArg (· + 1) hs)

theorem branch {x : Chronicled Unit} (h : Scoped depth must may x) :
    Scoped depth must may (onFork x) := by
  intro s hs
  obtain ⟨hmay, hmust⟩ := h { s with env := s.env.fork } hs
  refine ⟨hmay, fun env henv => ?_⟩
  cases hr : (x { s with env := s.env.fork }).result with
  | ok u => exact hmust u hr
  | error e => exact absurd henv (onFork_fails hr env)

theorem onStop (h : Scoped depth must may x) (e : Execution) :
    Scoped depth must may (onStop (.executed e) x) := by
  intro s hs
  obtain ⟨hmay, hmust⟩ := h s hs
  cases hr : (x s).result with
  | ok a =>
    rw [Logged.onStop_ok hr]
    exact ⟨hmay, hmust⟩
  | error f =>
    rw [Logged.onStop_error hr]
    refine ⟨?_, nofun⟩
    rw [declaredIn_append]
    exact List.append_subset.mpr ⟨hmay, List.nil_subset _⟩

end Scoped

/-! Steps that leave the scopes open. -/

theorem report_persistent (e : Event) : Persistent (report e) := .update fun _ => rfl

theorem branch_stmt_persistent (config : Config) (s : Stmt) :
    Persistent (branch (stmt config s)) := by
  intro st st' fork hst hm
  rw [(branch_persistent (stmt_balanced config s) (stmt_persistent config s) hst hm).1]
  exact .refl _

section Statements
variable (config : Config)

theorem onFork_persistent (s : Stmt) :
    Persistent (onFork ((chronicling config).stmt s)).forget := by
  rw [forget_onFork, ((chronicling_faithful config).stmt s).forget]
  exact branch_stmt_persistent config s

theorem turn_scoped {depth : Nat} {placed : List (Decl × Nat)} (c : Cond) {body : Stmt}
    (h : Scoped depth placed placed ((chronicling config).stmt body)) (number : Nat)
    (x : Execution) : Scoped depth placed placed
      ((chronicling config).turn c ((chronicling config).stmt body) number x) := by
  refine .lift_bind (cond_quiet config c).persistent fun verdict => ?_
  change Scoped depth placed placed (chronicleLoop x (.tested number verdict) >>= _)
  refine .tell_bind fun _ => ?_
  refine .bind_nothing (.branch h) (onFork_persistent config body) fun after => ?_
  exact .bind_nothing (.lift _) (settle_persistent after) fun stable => .pure _

theorem turn_persistent (c : Cond) (body : Stmt) (number : Nat) (x : Execution) :
    Persistent ((chronicling config).turn c ((chronicling config).stmt body) number x).forget := by
  have hbody := (chronicling_faithful config).stmt body
  rw [((chronicling_faithful config).turn hbody c number x).forget]
  refine .bind (cond_quiet config c).persistent fun verdict => ?_
  refine .bind (branch_stmt_persistent config body) fun after => ?_
  exact .bind (settle_persistent after) fun stable => (Quiet.pure _).persistent

/-- Every round of a loop declares what its body does, and the first is never left out. -/
theorem rounds_scoped {depth : Nat} {placed : List (Decl × Nat)} (span : Span) (c : Cond)
    {body : Stmt} (h : Scoped depth placed placed ((chronicling config).stmt body))
    (left number : Nat) (x : Execution) : Scoped depth placed placed
      ((chronicling config).rounds span c ((chronicling config).stmt body) left number x) := by
  induction left generalizing number x with
  | zero => exact fun s _ => ⟨List.nil_subset _, nofun⟩
  | succ left ih =>
    rw [chronicling_rounds]
    -- this round declares all there is, so whatever follows it owes nothing
    refine .bind_nothing (.onStop (turn_scoped config c h number x) _) ?_ fun turn => ?_
    · rw [Logged.forget_onStop]
      exact turn_persistent config c body number x
    · refine .tell_bind fun x => ?_
      refine .lift_bind (report_persistent _) fun _ => ?_
      split
      · exact .tell_bind fun _ => .pure _
      · exact (ih (number + 1) x).mono (List.nil_subset _) (List.Subset.refl _)

mutual

/-- A statement declares its declarations where they are placed. -/
theorem stmt_scoped (depth : Nat) : (s : Stmt) →
    Scoped depth (s.placedAt depth) (s.placedAt depth) ((chronicling config).stmt s)
  | .assign name value s => by
    simp only [Instrument.stmt, Stmt.placedAt]
    exact .lift_bind (expr_quiet config value).persistent fun v => .lift _
  | .print value s => by
    simp only [Instrument.stmt, Stmt.placedAt]
    refine .lift_bind (expr_quiet config value).persistent fun v => ?_
    exact .lift_bind (report_persistent _) fun _ => .lift _
  | .block body s => by
    simp only [Instrument.stmt, Stmt.placedAt]
    exact .within (items_scoped (depth + 1) body)
  | .ite c yes none s => by
    simp only [Instrument.stmt, Stmt.placedAt]
    refine .lift_bind (cond_quiet config c).persistent fun verdict => ?_
    refine .lift_bind (report_persistent _) fun _ => ?_
    refine .bind_nothing (.branch (stmt_scoped depth yes))
      (onFork_persistent config yes) fun inYes => ?_
    exact .bind_nothing (.lift _) (joinIn_persistent inYes) fun _ => .pure _
  | .ite c yes (some no) s => by
    simp only [Instrument.stmt, Stmt.placedAt]
    have hyes := (stmt_scoped depth yes).mono (List.Subset.refl _)
      (List.subset_append_left (yes.placedAt depth) (no.placedAt depth))
    have hno := (stmt_scoped depth no).mono (List.Subset.refl _)
      (List.subset_append_right (yes.placedAt depth) (no.placedAt depth))
    refine .lift_bind (cond_quiet config c).persistent fun verdict => ?_
    refine .lift_bind (report_persistent _) fun _ => ?_
    refine .bind hyes.branch (onFork_persistent config yes) fun inYes => ?_
    exact .bind_nothing hno.branch (onFork_persistent config no) fun inNo => .lift _
  | .loop c body s => by
    simp only [Instrument.stmt, Stmt.placedAt]
    refine .lift_bind Quiet.get.persistent fun st => ?_
    exact rounds_scoped config s c (stmt_scoped depth body) _ 1 _

theorem item_scoped (depth : Nat) : (u : Item) →
    Scoped depth (u.placedAt depth) (u.placedAt depth) ((chronicling config).item u)
  | .decl d => by
    simp only [Instrument.item, Item.placedAt]
    refine .bind_nothing (.lift_bind (introduce_persistent d) fun _ =>
      .noteScope d (List.mem_singleton.mpr rfl)) ?_ fun _ => ?_
    · rw [((chronicling_faithful config).introduce d).forget]
      exact introduce_persistent d
    · cases d.init with
      | none => exact .pure _
      | some e => exact .lift_bind (expr_quiet config e).persistent fun v => .lift _
  | .stmt s => by
    simp only [Instrument.item, Item.placedAt]
    exact stmt_scoped depth s

theorem items_scoped (depth : Nat) : (us : List Item) →
    Scoped depth (placedIn depth us) (placedIn depth us) ((chronicling config).items us)
  | [] => by
    simp only [Instrument.items, placedIn]
    exact .pure _
  | u :: rest => by
    simp only [Instrument.items, placedIn]
    have hu := (item_scoped depth u).mono (List.Subset.refl _)
      (List.subset_append_left (u.placedAt depth) (placedIn depth rest))
    have hrest := (items_scoped depth rest).mono (List.Subset.refl _)
      (List.subset_append_right (u.placedAt depth) (placedIn depth rest))
    refine .bind hu ?_ fun _ => hrest
    rw [((chronicling_faithful config).item u).forget]
    exact item_persistent config u

end

end Statements

/-- What an analysis declares, and where: only what is in the program, in the scope it is placed
in, and all of it when the analysis succeeds. -/
theorem chronicle_scoped (config : Config) (p : Program) :
    declaredIn (chronicle config p) ⊆ p.placed ∧
      ((run config p).1 = .ok () → p.placed ⊆ declaredIn (chronicle config p)) := by
  obtain ⟨hmay, hmust⟩ := items_scoped config 0 p.units State.start rfl
  refine ⟨hmay, fun hok => hmust () ?_⟩
  rw [← chronicled_eq_run] at hok
  exact hok

end Analysis

open Analysis (declaredIn chronicle)

/-- The checker's records match the tree of a parsed program. The variables it records are the
declarations in order, or the first few of them when it fails, each with the number of blocks
around it; they start one after another. When it succeeds these are all declarations, the
expressions that have a type are those of the tree, and every variable has as its depth the index
of the scope in which any analysis declares it. -/
theorem checker_records_match_tree {source : Bytes} {p : Program}
    (h : Program.parse source = .ok p) :
    let ctx := p.check.2
    p.placed.map Prod.fst = p.declarations ∧
    (∀ d depth, (d, depth) ∈ p.placed → depth = blocksAround d p.nodes) ∧
    (∃ seen, seen <+: p.placed ∧ ctx.variables.toList = numbered 0 seen) ∧
    (ctx.variables.toList.map (·.span.start)).Pairwise Point.Before ∧
    (p.check.1 = .ok () →
      ctx.variables.toList = numbered 0 p.placed ∧
      (ctx.types.toList.map Prod.fst).Perm p.expressions ∧ p.expressions.Nodup ∧
      (∀ e, (ctx.typeOf? e).isSome ↔ e ∈ p.expressions) ∧
      ∀ config : Analysis.Config,
        (∀ d scope, (d, scope) ∈ declaredIn (chronicle config p) →
          ∃ v ∈ ctx.variables.toList, v.span = d.span ∧ v.name = d.name ∧ v.depth = scope ∧
            ∀ w ∈ ctx.variables.toList, w.span = d.span → w = v) ∧
        ((Analysis.run config p).1 = .ok () → ∀ v ∈ ctx.variables.toList,
          ∃ d scope, (d, scope) ∈ declaredIn (chronicle config p) ∧ v.span = d.span)) := by
  intro ctx
  obtain ⟨seen, hseen, hvars, hall⟩ := p.check_lists
  have hplaced : (p.placed.map (·.1.span.start)).Pairwise Point.Before := by
    have hdecls := Program.declarations_ordered h
    rw [← p.placed_decls, List.map_map] at hdecls
    exact hdecls
  have hordered : (ctx.variables.toList.map (·.span.start)).Pairwise Point.Before := by
    rw [hvars, numbered_starts]
    exact hplaced.sublist (hseen.sublist.map _)
  -- variables that start in different places have different spans
  have hunique : ∀ v ∈ ctx.variables.toList, ∀ w ∈ ctx.variables.toList,
      w.span = v.span → w = v := fun v hv w hw heq =>
    List.inj_on_of_nodup_map (hordered.imp Point.Before.ne) hw hv (congrArg Span.start heq)
  refine ⟨p.placed_decls, fun d depth hd => Program.placed_blocks (Program.declarations_nodup h) hd,
    ⟨seen, hseen, hvars⟩, hordered, fun hok => ?_⟩
  obtain rfl := hall hok
  have hrecords := Program.check_records hok
  refine ⟨hvars, hrecords, (Program.parse_distinct h).expressions, fun e => ?_, fun config => ?_⟩
  · rw [Context.typeOf?_isSome]
    exact hrecords.mem_iff
  · obtain ⟨hmay, hmust⟩ := Analysis.chronicle_scoped config p
    refine ⟨fun d scope hd => ?_, fun hrun v hv => ?_⟩
    · obtain ⟨number, hmem⟩ := mem_numbered 0 (hmay hd)
      rw [← hvars] at hmem
      exact ⟨_, hmem, rfl, rfl, rfl, fun w hw heq => hunique _ hmem w hw heq⟩
    · rw [show ctx.variables.toList = _ from hvars] at hv
      obtain ⟨d, scope, number, hd, rfl⟩ := exists_of_mem_numbered hv
      exact ⟨d, scope, hmust hrun hd, rfl⟩

/-- A source with a block in a block and a declaration after both. -/
def nestedSource : Bytes :=
  "int x = 1;\n\x7b\n  float y = 2.0;\n  while (x > 0) \x7b int z = x; x = z - 1; \x7d\n\x7d\nint w;\n"

/-- The variables have depths 0, 1, 2 and 0, and so have the scopes that analyses declare them
in. -/
theorem checker_records_nested : ∃ p, Program.parse nestedSource = .ok p ∧
    p.check.1 = .ok () ∧ p.check.2.variables.toList.map (·.depth) = [0, 1, 2, 0] ∧
    (∀ e, (p.check.2.typeOf? e).isSome ↔ e ∈ p.expressions) ∧
    ∀ config d scope, (d, scope) ∈ declaredIn (chronicle config p) →
      ∃ v ∈ p.check.2.variables.toList, v.span = d.span ∧ v.name = d.name ∧ v.depth = scope ∧
        ∀ w ∈ p.check.2.variables.toList, w.span = d.span → w = v := by
  have hparsed : (Program.parse nestedSource).toOption.map (fun p =>
      (p.check.1, p.check.2.variables.toList.map (·.depth))) = some (.ok (), [0, 1, 2, 0]) := by
    decide +kernel
  cases hp : Program.parse nestedSource with
  | error failure =>
    rw [hp] at hparsed
    cases hparsed
  | ok p =>
    rw [hp] at hparsed
    obtain ⟨hok, hdepths⟩ := Prod.mk.inj (Option.some.inj hparsed)
    obtain ⟨-, -, -, -, haccepted⟩ := checker_records_match_tree hp
    obtain ⟨-, -, -, htypes, hscopes⟩ := haccepted hok
    exact ⟨p, rfl, hok, hdepths, htypes, fun config => (hscopes config).1⟩

end Signum
