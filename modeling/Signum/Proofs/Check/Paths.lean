import Signum.Proofs.Stack
import Mathlib.Computability.Language
/- The paths through a program, and reading too early on one of them.

   A path is told by what it does to variables: the scopes it opens and closes, and the
   variables it declares, assigns and reads. The paths through a piece of a program are
   a regular language of such accesses: every comparison may come out either way, an
   `if` takes one of its branches, and a loop goes round any number of times.

   Along a path, `Marks` keeps for every variable of the open scopes whether it has been
   assigned since its declaration was last executed. A path reads too early when it
   reads a variable that is not marked.

   Three judgements speak of the paths of a language from marks that satisfy `P`.
   `Safe L P Q` is about all of them: none reads too early and each ends in `Q`.
   `Reaches L P Q` and `Fails L P` are about one: it ends in `Q`, or it reads too early.
   Each has a rule for every way to put languages together. -/
namespace Signum

open scoped Computability

/-- What a path does to a variable, or to the stack of open scopes. -/
inductive Access where
  | enter
  | leave
  | declare (name : Bytes)
  | assign (name : Bytes)
  | read (name : Bytes)

/-- The path of one access. -/
def Access.path (a : Access) : Language Access := {[a]}

/-- The variables an expression reads, in order. -/
def Expr.names : Expr → List Bytes
  | .var name _ => [name]
  | .neg e _ => e.names
  | .binary _ l r _ => l.names ++ r.names
  | .int _ _ | .float _ _ _ | .readInt _ | .readFloat _ => []

/-- The variables a condition can read. -/
def Cond.names : Cond → List Bytes
  | .compare _ l r _ => l.names ++ r.names
  | .logical _ l r _ => l.names ++ r.names
  | .not c _ => c.names

/-- The one path through an expression. -/
def Expr.paths (e : Expr) : Language Access := {e.names.map .read}

/-- The paths on which a condition comes out as told. The right side of `&&` and `||` is
looked at when the left one does not decide. -/
def Cond.paths : Cond → Bool → Language Access
  | .compare _ l r _, _ => l.paths * r.paths
  | .logical .and l r _, true => l.paths true * r.paths true
  | .logical .and l r _, false => l.paths false + l.paths true * r.paths false
  | .logical .or l r _, true => l.paths true + l.paths false * r.paths true
  | .logical .or l r _, false => l.paths false * r.paths false
  | .not c _, b => c.paths !b

/-- The path through a declaration; the initializer comes before the variable. -/
def Decl.paths (d : Decl) : Language Access :=
  match d.init with
  | some e => e.paths * ((Access.declare d.name).path * (Access.assign d.name).path)
  | none => (Access.declare d.name).path

mutual

/-- The paths through a statement. -/
def Stmt.paths : Stmt → Language Access
  | .assign name value _ => value.paths * (Access.assign name).path
  | .print value _ => value.paths
  | .block body _ => Access.enter.path * (pathsOf body * Access.leave.path)
  | .ite c yes none _ => c.paths true * yes.paths + c.paths false
  | .ite c yes (some no) _ => c.paths true * yes.paths + c.paths false * no.paths
  | .loop c body _ => (c.paths true * body.paths)∗ * c.paths false

/-- The paths through a unit. -/
def Item.paths : Item → Language Access
  | .decl d => d.paths
  | .stmt s => s.paths

/-- The paths through units in order. -/
def pathsOf : List Item → Language Access
  | [] => 1
  | u :: rest => u.paths * pathsOf rest

end

/-- For every variable of the open scopes, innermost first, whether it has been assigned
since its declaration was executed. What is told last of a name counts. -/
abbrev Marks := List (List (Bytes × Bool))

section Scoped
variable {γ : Type}

/-- What the nearest scope that knows a name has for it. -/
def inSight (name : Bytes) (stack : List (List (Bytes × γ))) : Option γ :=
  stack.findSome? (·.lookup name)

/-- Tells something of a name in the innermost scope. -/
def tellHere (name : Bytes) (x : γ) : List (List (Bytes × γ)) → List (List (Bytes × γ))
  | [] => []
  | here :: outer => ((name, x) :: here) :: outer

/-- Tells something of a name in the nearest scope that knows it. -/
def tellNearest (name : Bytes) (x : γ) : List (List (Bytes × γ)) → List (List (Bytes × γ))
  | [] => []
  | here :: outer =>
    if (here.lookup name).isSome then ((name, x) :: here) :: outer
    else here :: tellNearest name x outer

theorem tellHere_sets {name : Bytes} {x : γ} {stack : List (List (Bytes × γ))} (h : stack ≠ []) :
    Sets stack 0 name x (tellHere name x stack) := by
  cases stack with
  | nil => exact absurd rfl h
  | cons here outer => exact sets_cons here outer name x

theorem tellNearest_sets {name : Bytes} {x : γ} {stack : List (List (Bytes × γ))} {i : Nat}
    (h : Nearest stack name i) : Sets stack i name x (tellNearest name x stack) := by
  induction stack generalizing i with
  | nil => cases h.1
  | cons here outer ih =>
    unfold tellNearest
    cases i with
    | zero =>
      have hhere : (here.lookup name).isSome := h.1
      rw [if_pos hhere]
      exact sets_cons here outer name x
    | succ i =>
      obtain ⟨hhere, houter⟩ := nearest_succ.mp h
      rw [hhere, if_neg (by simp)]
      exact (ih houter).below here

end Scoped

namespace Access

/-- What an access does to the marks. -/
def apply : Access → Marks → Marks
  | .enter, m => [] :: m
  | .leave, m => m.tail
  | .declare name, m => tellHere name false m
  | .assign name, m => tellNearest name true m
  | .read _, m => m

/-- The access reads a variable that has not been assigned. -/
def Early (m : Marks) : Access → Prop
  | .read name => inSight name m = some false
  | .enter | .leave | .declare _ | .assign _ => False

end Access

namespace Marks

/-- The marks at the end of a path. -/
def after (m : Marks) (path : List Access) : Marks := path.foldl (fun m a => a.apply m) m

/-- Somewhere on the path a variable is read that has not been assigned since its
declaration was executed. -/
def ReadsEarly (m : Marks) : List Access → Prop
  | [] => False
  | a :: rest => a.Early m ∨ ReadsEarly (a.apply m) rest

theorem after_append (m : Marks) (l r : List Access) : m.after (l ++ r) = (m.after l).after r :=
  List.foldl_append

theorem readsEarly_append {m : Marks} {l r : List Access} :
    m.ReadsEarly (l ++ r) ↔ m.ReadsEarly l ∨ (m.after l).ReadsEarly r := by
  induction l generalizing m with
  | nil => simp [ReadsEarly, after]
  | cons a rest ih =>
    change a.Early m ∨ ReadsEarly (a.apply m) (rest ++ r) ↔
      (a.Early m ∨ ReadsEarly (a.apply m) rest) ∨ ReadsEarly (after (a.apply m) rest) r
    rw [ih, or_assoc]

theorem after_reads (m : Marks) (names : List Bytes) : m.after (names.map .read) = m := by
  induction names with
  | nil => rfl
  | cons n rest ih => exact ih

theorem readsEarly_reads {m : Marks} {names : List Bytes} :
    m.ReadsEarly (names.map .read) ↔ ∃ n ∈ names, inSight n m = some false := by
  induction names with
  | nil => simp [ReadsEarly]
  | cons n rest ih =>
    change inSight n m = some false ∨ ReadsEarly m (rest.map .read) ↔ _
    rw [ih]
    simp

end Marks

section Judgements
variable {K L : Language Access} {P Q R : Marks → Prop}

/-- No path of the language reads too early, and each ends as told. -/
def Safe (L : Language Access) (P Q : Marks → Prop) : Prop :=
  ∀ m, P m → ∀ t ∈ L, ¬m.ReadsEarly t ∧ Q (m.after t)

/-- Some path of the language ends as told. -/
def Reaches (L : Language Access) (P Q : Marks → Prop) : Prop :=
  ∀ m, P m → ∃ t ∈ L, Q (m.after t)

/-- Some path of the language reads too early. -/
def Fails (L : Language Access) (P : Marks → Prop) : Prop :=
  ∀ m, P m → ∃ t ∈ L, m.ReadsEarly t

theorem Safe.one : Safe 1 P P := by
  intro m hm t ht
  obtain rfl := (Language.mem_one t).mp ht
  exact ⟨id, hm⟩

theorem Safe.mul (hk : Safe K P Q) (hl : Safe L Q R) : Safe (K * L) P R := by
  intro m hm t ht
  obtain ⟨a, ha, b, hb, rfl⟩ := Language.mem_mul.mp ht
  obtain ⟨hsafe, hq⟩ := hk m hm a ha
  obtain ⟨hsafe', hr⟩ := hl _ hq b hb
  rw [Marks.readsEarly_append, Marks.after_append]
  exact ⟨fun h => h.elim hsafe hsafe', hr⟩

theorem Safe.add (hk : Safe K P Q) (hl : Safe L P Q) : Safe (K + L) P Q := by
  intro m hm t ht
  rcases (Language.mem_add K L t).mp ht with ht | ht
  · exact hk m hm t ht
  · exact hl m hm t ht

/-- A loop keeps what one round keeps. -/
theorem Safe.kstar (h : Safe L P P) : Safe L∗ P P := by
  intro m hm t ht
  obtain ⟨rounds, rfl, hrounds⟩ := Language.mem_kstar.mp ht
  induction rounds generalizing m with
  | nil => exact ⟨id, hm⟩
  | cons r rest ih =>
    obtain ⟨hsafe, hp⟩ := h m hm r (hrounds r (by simp))
    have hrest : ∀ y ∈ rest, y ∈ L := fun y hy => hrounds y (by simp [hy])
    obtain ⟨hsafe', hp'⟩ := ih _ hp hrest (Language.join_mem_kstar hrest)
    rw [List.flatten_cons, Marks.readsEarly_append, Marks.after_append]
    exact ⟨fun h => h.elim hsafe hsafe', hp'⟩

theorem Safe.mono (h : Safe L P Q) {Q' : Marks → Prop} (hq : ∀ m, Q m → Q' m) : Safe L P Q' :=
  fun m hm t ht => ⟨(h m hm t ht).1, hq _ (h m hm t ht).2⟩

theorem Safe.access {a : Access} (h : ∀ m, P m → ¬a.Early m ∧ Q (a.apply m)) :
    Safe a.path P Q := by
  intro m hm t ht
  obtain rfl : t = [a] := ht
  obtain ⟨hearly, hq⟩ := h m hm
  exact ⟨fun he => he.elim hearly id, hq⟩

theorem Reaches.one : Reaches 1 P P := fun _ hm => ⟨[], Language.nil_mem_one, hm⟩

theorem Reaches.mul (hk : Reaches K P Q) (hl : Reaches L Q R) : Reaches (K * L) P R := by
  intro m hm
  obtain ⟨a, ha, hq⟩ := hk m hm
  obtain ⟨b, hb, hr⟩ := hl _ hq
  refine ⟨a ++ b, Language.append_mem_mul ha hb, ?_⟩
  rw [Marks.after_append]
  exact hr

theorem Reaches.left (h : Reaches K P Q) : Reaches (K + L) P Q := by
  intro m hm
  obtain ⟨t, ht, hq⟩ := h m hm
  exact ⟨t, (Language.mem_add K L t).mpr (.inl ht), hq⟩

theorem Reaches.right (h : Reaches L P Q) : Reaches (K + L) P Q := by
  intro m hm
  obtain ⟨t, ht, hq⟩ := h m hm
  exact ⟨t, (Language.mem_add K L t).mpr (.inr ht), hq⟩

/-- A loop may go round no times. -/
theorem Reaches.kstar : Reaches L∗ P P := fun _ hm => ⟨[], Language.nil_mem_kstar L, hm⟩

theorem Reaches.mono (h : Reaches L P Q) {Q' : Marks → Prop} (hq : ∀ m, Q m → Q' m) :
    Reaches L P Q' := by
  intro m hm
  obtain ⟨t, ht, hend⟩ := h m hm
  exact ⟨t, ht, hq _ hend⟩

theorem Reaches.access {a : Access} (h : ∀ m, P m → Q (a.apply m)) : Reaches a.path P Q :=
  fun m hm => ⟨[a], rfl, h m hm⟩

/-- A read too early counts whatever comes after it. -/
theorem Fails.mul_left (h : Fails K P) (hl : ∃ t, t ∈ L) : Fails (K * L) P := by
  intro m hm
  obtain ⟨a, ha, hearly⟩ := h m hm
  obtain ⟨b, hb⟩ := hl
  exact ⟨a ++ b, Language.append_mem_mul ha hb, Marks.readsEarly_append.mpr (.inl hearly)⟩

theorem Fails.mul_right (hk : Reaches K P Q) (hl : Fails L Q) : Fails (K * L) P := by
  intro m hm
  obtain ⟨a, ha, hq⟩ := hk m hm
  obtain ⟨b, hb, hearly⟩ := hl _ hq
  exact ⟨a ++ b, Language.append_mem_mul ha hb, Marks.readsEarly_append.mpr (.inr hearly)⟩

theorem Fails.left (h : Fails K P) : Fails (K + L) P := by
  intro m hm
  obtain ⟨t, ht, hearly⟩ := h m hm
  exact ⟨t, (Language.mem_add K L t).mpr (.inl ht), hearly⟩

theorem Fails.right (h : Fails L P) : Fails (K + L) P := by
  intro m hm
  obtain ⟨t, ht, hearly⟩ := h m hm
  exact ⟨t, (Language.mem_add K L t).mpr (.inr ht), hearly⟩

/-- A loop may go round once. -/
theorem Fails.kstar (h : Fails L P) : Fails L∗ P := by
  intro m hm
  obtain ⟨t, ht, hearly⟩ := h m hm
  refine ⟨[t].flatten, Language.join_mem_kstar (by simpa using ht), ?_⟩
  simpa using hearly

end Judgements

/-! Conditions: a path reads some of the names, and one path reads them all. -/

theorem Cond.reads_of_mem_paths {c : Cond} {b : Bool} {t : List Access} (h : t ∈ c.paths b) :
    ∃ names, names ⊆ c.names ∧ t = names.map .read := by
  -- A path through two parts, of which the second may be missing.
  have both {l r : Cond} {p q : Bool} {t : List Access}
      (hl : ∀ t, t ∈ l.paths p → ∃ names, names ⊆ l.names ∧ t = names.map .read)
      (hr : ∀ t, t ∈ r.paths q → ∃ names, names ⊆ r.names ∧ t = names.map .read)
      (ht : t ∈ l.paths p * r.paths q) :
      ∃ names, names ⊆ l.names ++ r.names ∧ t = names.map .read := by
    obtain ⟨x, hx, y, hy, rfl⟩ := Language.mem_mul.mp ht
    obtain ⟨ns, hns, rfl⟩ := hl x hx
    obtain ⟨ms, hms, rfl⟩ := hr y hy
    refine ⟨ns ++ ms, ?_, by simp⟩
    exact List.append_subset.mpr ⟨List.subset_append_of_subset_left _ hns,
      List.subset_append_of_subset_right _ hms⟩
  have first {l r : Cond} {p : Bool} {t : List Access}
      (hl : ∀ t, t ∈ l.paths p → ∃ names, names ⊆ l.names ∧ t = names.map .read)
      (ht : t ∈ l.paths p) : ∃ names, names ⊆ l.names ++ r.names ∧ t = names.map .read := by
    obtain ⟨ns, hns, rfl⟩ := hl t ht
    exact ⟨ns, List.subset_append_of_subset_left _ hns, rfl⟩
  induction c generalizing b t with
  | compare op l r s =>
    obtain ⟨x, hx, y, hy, rfl⟩ := Language.mem_mul.mp h
    obtain rfl : x = _ := hx
    obtain rfl : y = _ := hy
    exact ⟨l.names ++ r.names, fun _ hn => hn, by simp⟩
  | logical op l r s ihl ihr =>
    cases op <;> cases b
    · rcases (Language.mem_add _ _ _).mp h with h | h
      · exact first (fun _ => ihl) h
      · exact both (fun _ => ihl) (fun _ => ihr) h
    · exact both (fun _ => ihl) (fun _ => ihr) h
    · exact both (fun _ => ihl) (fun _ => ihr) h
    · rcases (Language.mem_add _ _ _).mp h with h | h
      · exact first (fun _ => ihl) h
      · exact both (fun _ => ihl) (fun _ => ihr) h
  | not c s ih => exact ih h

theorem Cond.reads_mem_paths (c : Cond) (b : Bool) : c.names.map .read ∈ c.paths b := by
  induction c generalizing b with
  | compare op l r s =>
    rw [Cond.names, List.map_append]
    exact Language.append_mem_mul rfl rfl
  | logical op l r s ihl ihr =>
    rw [Cond.names, List.map_append]
    cases op <;> cases b
    · exact (Language.mem_add _ _ _).mpr (.inr (Language.append_mem_mul (ihl true) (ihr false)))
    · exact Language.append_mem_mul (ihl true) (ihr true)
    · exact Language.append_mem_mul (ihl false) (ihr false)
    · exact (Language.mem_add _ _ _).mpr (.inr (Language.append_mem_mul (ihl false) (ihr true)))
  | not c s ih => exact ih !b

section Reads
variable {P : Marks → Prop}

theorem Safe.expr {e : Expr} (h : ∀ m, P m → ∀ n ∈ e.names, inSight n m ≠ some false) :
    Safe e.paths P P := by
  intro m hm t ht
  obtain rfl : t = _ := ht
  rw [Marks.readsEarly_reads, Marks.after_reads]
  exact ⟨fun ⟨n, hn, hearly⟩ => h m hm n hn hearly, hm⟩

theorem Safe.cond {c : Cond} {b : Bool} (h : ∀ m, P m → ∀ n ∈ c.names, inSight n m ≠ some false) :
    Safe (c.paths b) P P := by
  intro m hm t ht
  obtain ⟨names, hsub, rfl⟩ := Cond.reads_of_mem_paths ht
  rw [Marks.readsEarly_reads, Marks.after_reads]
  exact ⟨fun ⟨n, hn, hearly⟩ => h m hm n (hsub hn) hearly, hm⟩

theorem Reaches.expr {e : Expr} : Reaches e.paths P P := by
  intro m hm
  refine ⟨_, rfl, ?_⟩
  rw [Marks.after_reads]
  exact hm

theorem Reaches.cond {c : Cond} {b : Bool} : Reaches (c.paths b) P P := by
  intro m hm
  refine ⟨_, c.reads_mem_paths b, ?_⟩
  rw [Marks.after_reads]
  exact hm

theorem Fails.expr {e : Expr} {n : Bytes} (hn : n ∈ e.names)
    (h : ∀ m, P m → inSight n m = some false) : Fails e.paths P :=
  fun m hm => ⟨_, rfl, Marks.readsEarly_reads.mpr ⟨n, hn, h m hm⟩⟩

theorem Fails.cond {c : Cond} {b : Bool} {n : Bytes} (hn : n ∈ c.names)
    (h : ∀ m, P m → inSight n m = some false) : Fails (c.paths b) P :=
  fun m hm => ⟨_, c.reads_mem_paths b, Marks.readsEarly_reads.mpr ⟨n, hn, h m hm⟩⟩

end Reads

/-! Every piece of a program has a path. -/

theorem Decl.paths_nonempty (d : Decl) : ∃ t, t ∈ d.paths := by
  unfold Decl.paths
  split
  · exact ⟨_, Language.append_mem_mul rfl (Language.append_mem_mul rfl rfl)⟩
  · exact ⟨_, rfl⟩

mutual

theorem Stmt.paths_nonempty : (s : Stmt) → ∃ t, t ∈ s.paths
  | .assign name value s => ⟨_, Language.append_mem_mul rfl rfl⟩
  | .print value s => ⟨_, rfl⟩
  | .block body s => by
    obtain ⟨t, ht⟩ := pathsOf_nonempty body
    exact ⟨_, Language.append_mem_mul rfl (Language.append_mem_mul ht rfl)⟩
  | .ite c yes none s => ⟨_, (Language.mem_add _ _ _).mpr (.inr (c.reads_mem_paths false))⟩
  | .ite c yes (some no) s => by
    obtain ⟨t, ht⟩ := Stmt.paths_nonempty yes
    exact ⟨_, (Language.mem_add _ _ _).mpr
      (.inl (Language.append_mem_mul (c.reads_mem_paths true) ht))⟩
  | .loop c body s =>
    ⟨_, Language.append_mem_mul (Language.nil_mem_kstar _) (c.reads_mem_paths false)⟩

theorem Item.paths_nonempty : (u : Item) → ∃ t, t ∈ u.paths
  | .decl d => d.paths_nonempty
  | .stmt s => Stmt.paths_nonempty s

theorem pathsOf_nonempty : (us : List Item) → ∃ t, t ∈ pathsOf us
  | [] => ⟨[], Language.nil_mem_one⟩
  | u :: rest => by
    obtain ⟨t, ht⟩ := Item.paths_nonempty u
    obtain ⟨t', ht'⟩ := pathsOf_nonempty rest
    exact ⟨_, Language.append_mem_mul ht ht'⟩

end

end Signum
