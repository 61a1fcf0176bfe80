import Signum.Proofs.Check.Recorded
import Signum.Proofs.Syntax.Nesting
/- The declarations of a program and the blocks around them.

   `Program.placed` lists the declarations of a program in the order of a recursion over the
   tree, each with the number of blocks it is in. Such a list `Counts` what a walk over the nodes
   finds: it has the declarations of the walk (`Program.placed_decls`), and the numbers count
   blocks among its nodes (`Program.placed_blocks`). In a parsed program each declaration starts
   after the one before it. -/
namespace Signum

mutual

/-- The declarations in a statement with `depth` blocks around it, each with the number of blocks
around the declaration. -/
def Stmt.placedAt (depth : Nat) : Stmt → List (Decl × Nat)
  | .assign _ _ _ => []
  | .print _ _ => []
  | .block body _ => placedIn (depth + 1) body
  | .ite _ yes none _ => yes.placedAt depth
  | .ite _ yes (some no) _ => yes.placedAt depth ++ no.placedAt depth
  | .loop _ body _ => body.placedAt depth

/-- The declarations in a unit. -/
def Item.placedAt (depth : Nat) : Item → List (Decl × Nat)
  | .decl d => [(d, depth)]
  | .stmt s => s.placedAt depth

/-- The declarations in a list of units. -/
def placedIn (depth : Nat) : List Item → List (Decl × Nat)
  | [] => []
  | u :: rest => u.placedAt depth ++ placedIn depth rest

end

/-- The declarations in a program, each with the number of blocks around it. -/
def Program.placed (p : Program) : List (Decl × Nat) := placedIn 0 p.units

/-! What a walk over the tree finds. -/

open Check

/-- Whether a node is a block that has the declaration somewhere in it. -/
def Node.blockAround (d : Decl) : Node → Bool
  | .stmt (.block body _) => d ∈ declsOf (inspectItems everywhere body)
  | _ => false

/-- How many of some nodes are blocks around a declaration. -/
def blocksAround (d : Decl) (nodes : List Node) : Nat := nodes.countP (Node.blockAround d)

theorem blocksAround_append (d : Decl) (ns ms : List Node) :
    blocksAround d (ns ++ ms) = blocksAround d ns + blocksAround d ms := List.countP_append

/-- The list has the declarations among some nodes. Where none is twice, each is listed with the
number of blocks around it, of which `depth` are around all these nodes. -/
structure Counts (depth : Nat) (placed : List (Decl × Nat)) (nodes : List Node) : Prop where
  decls : placed.map Prod.fst = declsOf nodes
  absent : ∀ d, d ∉ declsOf nodes → blocksAround d nodes = 0
  blocks : (declsOf nodes).Nodup → ∀ d k, (d, k) ∈ placed → k = depth + blocksAround d nodes

namespace Counts
variable {depth : Nat} {placed placed' : List (Decl × Nat)} {nodes nodes' : List Node}

theorem nothing (hdecls : declsOf nodes = []) (hblocks : ∀ d, blocksAround d nodes = 0) :
    Counts depth [] nodes :=
  ⟨hdecls.symm, fun d _ => hblocks d, nofun⟩

theorem listed (h : Counts depth placed nodes) {d : Decl} {k : Nat} (hd : (d, k) ∈ placed) :
    d ∈ declsOf nodes :=
  h.decls ▸ List.mem_map_of_mem (f := Prod.fst) hd

theorem append (h : Counts depth placed nodes) (h' : Counts depth placed' nodes') :
    Counts depth (placed ++ placed') (nodes ++ nodes') := by
  refine ⟨?_, fun d hd => ?_, fun hn d k hd => ?_⟩
  · rw [List.map_append, declsOf_append, h.decls, h'.decls]
  · rw [declsOf_append, List.mem_append, not_or] at hd
    rw [blocksAround_append, h.absent d hd.1, h'.absent d hd.2]
  · rw [declsOf_append] at hn
    rw [blocksAround_append]
    -- a declaration of one part is not in the other, which then has no block around it
    obtain ⟨hnodes, hnodes', hapart⟩ := List.nodup_append.mp hn
    rcases List.mem_append.mp hd with hd | hd
    · rw [h'.absent d fun hd' => hapart d (h.listed hd) d hd' rfl]
      exact h.blocks hnodes d k hd
    · rw [h.absent d fun hd' => hapart d hd' d (h'.listed hd) rfl, Nat.zero_add]
      exact h'.blocks hnodes' d k hd

/-- A node that is neither a declaration nor a block. -/
theorem visit {n : Node} (hdecls : declsOf [n] = []) (hblocks : ∀ d, blocksAround d [n] = 0)
    (h : Counts depth placed nodes) : Counts depth placed (Node.visit everywhere n nodes) :=
  (nothing hdecls hblocks).append h

theorem block {body : List Item} (h : Counts (depth + 1) placed (inspectItems everywhere body))
    (s : Span) : Counts depth placed ((Stmt.block body s).inspect everywhere) := by
  rw [Stmt.inspect]
  refine ⟨h.decls, fun d hd => ?_, fun hn d k hd => ?_⟩
  · have hout : ¬(Node.stmt (.block body s)).blockAround d = true := by
      rw [Node.blockAround, decide_eq_true_eq]
      exact hd
    exact (List.countP_cons_of_neg hout).trans (h.absent d hd)
  · have hin : (Node.stmt (.block body s)).blockAround d = true := decide_eq_true (h.listed hd)
    have hcount : blocksAround d (Node.visit everywhere (.stmt (.block body s))
        (inspectItems everywhere body)) = blocksAround d (inspectItems everywhere body) + 1 :=
      List.countP_cons_of_pos hin
    rw [hcount, h.blocks hn d k hd]
    omega

theorem expr (e : Expr) : Counts depth [] (e.inspect everywhere) := by
  induction e with
  | neg e s ih => exact .visit rfl (fun _ => rfl) ih
  | binary op l r s ihl ihr => exact .visit rfl (fun _ => rfl) (ihl.append ihr)
  | _ => exact .nothing rfl fun _ => rfl

theorem cond (c : Cond) : Counts depth [] (c.inspect everywhere) := by
  induction c with
  | compare op l r s => exact .visit rfl (fun _ => rfl) ((expr l).append (expr r))
  | logical op l r s ihl ihr => exact .visit rfl (fun _ => rfl) (ihl.append ihr)
  | not c s ih => exact .visit rfl (fun _ => rfl) ih

theorem decl (d : Decl) : Counts depth [(d, depth)] (d.inspect everywhere) := by
  have hself : Counts depth [(d, depth)] [.decl d] := by
    refine ⟨rfl, fun _ _ => rfl, fun _ d' k hd' => ?_⟩
    obtain ⟨-, rfl⟩ := Prod.mk.inj (List.mem_singleton.mp hd')
    rfl
  obtain ⟨type, name, init, span⟩ := d
  cases init with
  | none => exact hself
  | some e => exact hself.append (expr e)

end Counts

mutual

theorem Stmt.placedAt_counts (depth : Nat) :
    (s : Stmt) → Counts depth (s.placedAt depth) (s.inspect everywhere)
  | .assign name value s => by
    rw [Stmt.placedAt, Stmt.inspect]
    exact .visit rfl (fun _ => rfl) (.expr value)
  | .print value s => by
    rw [Stmt.placedAt, Stmt.inspect]
    exact .visit rfl (fun _ => rfl) (.expr value)
  | .block body s => by
    rw [Stmt.placedAt]
    exact .block (placedIn_counts (depth + 1) body) s
  | .ite c yes none s => by
    rw [Stmt.placedAt, Stmt.inspect]
    exact .visit rfl (fun _ => rfl) ((Counts.cond c).append (yes.placedAt_counts depth))
  | .ite c yes (some no) s => by
    rw [Stmt.placedAt, Stmt.inspect]
    have hyes := (Counts.cond c).append (yes.placedAt_counts depth)
    exact .visit rfl (fun _ => rfl) (hyes.append (no.placedAt_counts depth))
  | .loop c body s => by
    rw [Stmt.placedAt, Stmt.inspect]
    exact .visit rfl (fun _ => rfl) ((Counts.cond c).append (body.placedAt_counts depth))

theorem Item.placedAt_counts (depth : Nat) :
    (u : Item) → Counts depth (u.placedAt depth) (u.inspect everywhere)
  | .decl d => by
    rw [Item.placedAt, Item.inspect]
    exact .decl d
  | .stmt s => by
    rw [Item.placedAt, Item.inspect]
    exact s.placedAt_counts depth

theorem placedIn_counts (depth : Nat) :
    (us : List Item) → Counts depth (placedIn depth us) (inspectItems everywhere us)
  | [] => by
    rw [placedIn, inspectItems]
    exact .nothing rfl fun _ => rfl
  | u :: rest => by
    rw [placedIn, inspectItems]
    exact (u.placedAt_counts depth).append (placedIn_counts depth rest)

end

theorem Program.placed_counts (p : Program) : Counts 0 p.placed p.nodes :=
  .visit rfl (fun _ => rfl) (placedIn_counts 0 p.units)

theorem Program.placed_decls (p : Program) : p.placed.map Prod.fst = p.declarations :=
  p.placed_counts.decls

/-- The number a declaration is listed with is how many blocks of the program are around it. -/
theorem Program.placed_blocks {p : Program} (hn : p.declarations.Nodup) {d : Decl} {k : Nat}
    (h : (d, k) ∈ p.placed) : k = blocksAround d p.nodes :=
  (p.placed_counts.blocks hn d k h).trans (Nat.zero_add _)

/-! Declarations start one after another. -/

/-- Declarations start at some of these tokens, in the same order. -/
def DeclsAt (ts : List Token) (placed : List (Decl × Nat)) : Prop :=
  (placed.map (·.1.span.start)).Sublist (starts ts)

namespace DeclsAt
variable {ts ts' : List Token} {placed placed' : List (Decl × Nat)}

theorem nil (ts : List Token) : DeclsAt ts [] := List.nil_sublist _

theorem append (h : DeclsAt ts placed) (h' : DeclsAt ts' placed') :
    DeclsAt (ts ++ ts') (placed ++ placed') := by
  unfold DeclsAt
  rw [List.map_append, starts_append]
  exact List.Sublist.append h h'

theorem among (h : DeclsAt ts placed) (hsub : ts.Sublist ts') : DeclsAt ts' placed :=
  List.Sublist.trans h (hsub.map _)

end DeclsAt

namespace Grammar

theorem DerivesDecl.at {ts : List Token} {d : Decl} (h : DerivesDecl ts d) (depth : Nat) :
    DeclsAt ts [(d, depth)] := by
  cases h with
  | plain _ _ _ | init _ _ _ _ _ => exact List.Sublist.cons_cons _ (List.nil_sublist _)

mutual

theorem DerivesStmt.declsAt (depth : Nat) {ts : List Token} {s : Stmt} :
    DerivesStmt ts s → DeclsAt ts (s.placedAt depth)
  | .assign _ _ _ _ => by
    rw [Stmt.placedAt]
    exact .nil _
  | .print _ _ _ => by
    rw [Stmt.placedAt]
    exact .nil _
  | .block _ hitems _ => by
    rw [Stmt.placedAt]
    refine (hitems.declsAt (depth + 1)).among (.cons _ ?_)
    exact List.sublist_append_left _ _
  | .ite _ _ hyes => by
    rw [Stmt.placedAt]
    refine (hyes.declsAt depth).among (.cons _ ?_)
    exact List.sublist_append_right _ _
  | .iteElse _ _ hyes _ hno => by
    rw [Stmt.placedAt]
    refine ((hyes.declsAt depth).append (hno.declsAt depth)).among (.cons _ ?_)
    exact ((List.sublist_cons_self _ _).append_left _).trans (List.sublist_append_right _ _)
  | .loop _ _ hbody => by
    rw [Stmt.placedAt]
    refine (hbody.declsAt depth).among (.cons _ ?_)
    exact List.sublist_append_right _ _

theorem DerivesItem.declsAt (depth : Nat) {ts : List Token} {u : Item} :
    DerivesItem ts u → DeclsAt ts (u.placedAt depth)
  | .decl hd => by
    rw [Item.placedAt]
    exact hd.at depth
  | .stmt hs => by
    rw [Item.placedAt]
    exact hs.declsAt depth

theorem DerivesItems.declsAt (depth : Nat) {ts : List Token} {us : List Item} :
    DerivesItems ts us → DeclsAt ts (placedIn depth us)
  | .nil => by
    rw [placedIn]
    exact .nil _
  | .cons hu hrest => by
    rw [placedIn]
    exact (hu.declsAt depth).append (hrest.declsAt depth)

end

end Grammar

/-- The declarations of a parsed program start one after another. -/
theorem Program.declarations_ordered {source : Bytes} {p : Program}
    (h : Program.parse source = .ok p) :
    (p.declarations.map (·.span.start)).Pairwise Point.Before := by
  obtain ⟨lexed, hlex, hderives, -⟩ := Program.parse_derives h
  rw [← p.placed_decls, List.map_map]
  exact (Lexer.tokenize_ordered hlex).sublist (hderives.declsAt 0)

/-- No declaration of a parsed program is there twice. -/
theorem Program.declarations_nodup {source : Bytes} {p : Program}
    (h : Program.parse source = .ok p) : p.declarations.Nodup :=
  List.Nodup.of_map _ ((declarations_ordered h).imp Point.Before.ne)

end Signum
