import Signum.Proofs.Syntax.Layout
import Signum.Proofs.Syntax.Places
/- The places of the nodes of a program nest.

   The tokens of a source stand one after another, and a node runs from the start of a
   token to the end of that or a later one (`Spans`). A node holds the places of its parts,
   and its parts stand one after another (`Node.Nested`). Parentheses are kept out of the
   place of an expression but belong to that of a condition; the place of a condition only
   grows by this, and stays inside the tokens it was read from, so its parts stay inside it
   and it stays before what follows it. -/
namespace Signum

/-! Places. -/

namespace Point

/-- The first place is not after the second in a source. -/
def NoLater (p q : Point) : Prop := p.row < q.row ∨ (p.row = q.row ∧ p.column ≤ q.column)

instance (p q : Point) : Decidable (p.NoLater q) := inferInstanceAs (Decidable (_ ∨ _))

theorem NoLater.refl (p : Point) : p.NoLater p := .inr ⟨rfl, Nat.le_refl _⟩

theorem NoLater.trans {p q r : Point} (h : p.NoLater q) (h' : q.NoLater r) : p.NoLater r := by
  unfold NoLater at *
  omega

theorem origin_noLater (p : Point) : origin.NoLater p := by
  show 0 < p.row ∨ (0 = p.row ∧ 0 ≤ p.column)
  omega

theorem Before.noLater {p q : Point} (h : p.Before q) : p.NoLater q := by
  unfold Before at h
  unfold NoLater
  omega

theorem noLater_after (p : Point) (text : Bytes) : p.NoLater (p.after text) := by
  induction text generalizing p with
  | nil => exact .refl p
  | cons b rest ih => exact (before_step p b).noLater.trans (ih (p.step b))

theorem following_noLater (before text : Bytes) :
    (following before).NoLater (following (before ++ text)) := by
  rw [following_append]
  exact noLater_after _ _

end Point

namespace Span

/-- The first span lies inside the second. -/
def Inside (s t : Span) : Prop := t.start.NoLater s.start ∧ s.stop.NoLater t.stop

/-- The first span ends before the second starts, or where it starts. -/
def Precedes (s t : Span) : Prop := s.stop.NoLater t.start

instance (s t : Span) : Decidable (s.Inside t) := inferInstanceAs (Decidable (_ ∧ _))

instance (s t : Span) : Decidable (s.Precedes t) := inferInstanceAs (Decidable (Point.NoLater _ _))

end Span

/-! Parts of nodes. -/

/-- The node of a unit. -/
def Item.node : Item → Node
  | .decl d => .decl d
  | .stmt s => .stmt s

def Expr.parts : Expr → List Node
  | .neg e _ => [.expr e]
  | .binary _ l r _ => [.expr l, .expr r]
  | _ => []

def Cond.parts : Cond → List Node
  | .compare _ l r _ => [.expr l, .expr r]
  | .logical _ l r _ => [.cond l, .cond r]
  | .not c _ => [.cond c]

def Stmt.parts : Stmt → List Node
  | .assign _ value _ => [.expr value]
  | .print value _ => [.expr value]
  | .block body _ => body.map Item.node
  | .ite c yes none _ => [.cond c, .stmt yes]
  | .ite c yes (some no) _ => [.cond c, .stmt yes, .stmt no]
  | .loop c body _ => [.cond c, .stmt body]

namespace Node

/-- The nodes right below a node, from left to right. -/
def parts : Node → List Node
  | .program p => p.units.map Item.node
  | .decl d => d.init.toList.map .expr
  | .stmt s => s.parts
  | .cond c => c.parts
  | .expr e => e.parts

/-- All nodes of a node, itself first. -/
def nodes : Node → List Node
  | .program p => p.nodes
  | .decl d => d.inspect everywhere
  | .stmt s => s.inspect everywhere
  | .cond c => c.inspect everywhere
  | .expr e => e.inspect everywhere

/-- The parts of a node lie inside it, one after another. -/
structure Nested (n : Node) : Prop where
  inside : ∀ m ∈ n.parts, m.span.Inside n.span
  apart : n.parts.Pairwise fun l r => l.span.Precedes r.span

theorem visit_everywhere (n : Node) (below : List Node) :
    visit everywhere n below = n :: below := rfl

end Node

theorem Item.inspect_everywhere (u : Item) : u.inspect everywhere = u.node.nodes := by
  cases u <;> simp only [Item.inspect, Item.node, Node.nodes]

theorem inspectItems_everywhere (us : List Item) :
    inspectItems everywhere us = (us.map Item.node).flatMap Node.nodes := by
  induction us with
  | nil => simp only [inspectItems, List.map_nil, List.flatMap_nil]
  | cons u rest ih =>
    rw [inspectItems, ih, Item.inspect_everywhere, List.map_cons, List.flatMap_cons]

/-- The nodes of a node are itself and the nodes of its parts. -/
theorem Node.nodes_eq (n : Node) : n.nodes = n :: n.parts.flatMap Node.nodes := by
  cases n with
  | program p => exact congrArg (Node.program p :: ·) (inspectItems_everywhere p.units)
  | decl d =>
    obtain ⟨type, name, init, span⟩ := d
    cases init with
    | none => rfl
    | some e => simp [Node.nodes, Node.parts, Decl.inspect, Node.visit_everywhere]
  | stmt s =>
    cases s with
    | block body span =>
      simp [Node.nodes, Node.parts, Stmt.parts, Stmt.inspect, Node.visit_everywhere,
        inspectItems_everywhere]
    | ite c yes no span =>
      cases no <;>
        simp [Node.nodes, Node.parts, Stmt.parts, Stmt.inspect, Node.visit_everywhere]
    | _ => simp [Node.nodes, Node.parts, Stmt.parts, Stmt.inspect, Node.visit_everywhere]
  | cond c =>
    cases c <;> simp [Node.nodes, Node.parts, Cond.parts, Cond.inspect, Node.visit_everywhere]
  | expr e =>
    cases e <;> simp [Node.nodes, Node.parts, Expr.parts, Expr.inspect, Node.visit_everywhere]

theorem Node.self_mem (n : Node) : n ∈ n.nodes := by
  rw [Node.nodes_eq]
  exact List.mem_cons_self

theorem Node.mem_nodes_of_mem {n : Node} {ns : List Node} (h : n ∈ ns) :
    n ∈ ns.flatMap Node.nodes :=
  List.mem_flatMap.mpr ⟨n, h, n.self_mem⟩

theorem Node.mem_nodes_of_part {n k m : Node} (hk : k ∈ n.parts) (hm : m ∈ k.nodes) :
    m ∈ n.nodes := by
  rw [Node.nodes_eq]
  exact List.mem_cons_of_mem _ (List.mem_flatMap.mpr ⟨k, hk, hm⟩)

theorem Node.length_nodes_part {n k : Node} (hk : k ∈ n.parts) :
    k.nodes.length < n.nodes.length := by
  obtain ⟨left, right, hparts⟩ := List.append_of_mem hk
  rw [Node.nodes_eq n, hparts]
  simp only [List.flatMap_append, List.flatMap_cons, List.length_cons, List.length_append]
  omega

/-- Every node of a node but itself is a part of one of them. -/
theorem Node.exists_parent {n m : Node} (h : m ∈ n.nodes) :
    m = n ∨ ∃ k ∈ n.nodes, m ∈ k.parts := by
  induction hsize : n.nodes.length using Nat.strongRecOn generalizing n with
  | ind size ih =>
    rw [Node.nodes_eq] at h
    rcases List.mem_cons.mp h with rfl | h
    · exact .inl rfl
    · obtain ⟨k, hk, hm⟩ := List.mem_flatMap.mp h
      right
      rcases ih k.nodes.length (hsize ▸ Node.length_nodes_part hk) hm rfl with rfl | ⟨j, hj, hmj⟩
      · exact ⟨n, n.self_mem, hk⟩
      · exact ⟨j, Node.mem_nodes_of_part hk hj, hmj⟩

/-! Spans of tokens. -/

/-- Tokens that stand one after another. -/
structure InOrder (ts : List Token) : Prop where
  forward : ∀ t ∈ ts, t.span.start.NoLater t.span.stop
  apart : ts.Pairwise fun t u => t.span.Precedes u.span

theorem InOrder.sublist {ts us : List Token} (h : InOrder us) (hsub : ts.Sublist us) :
    InOrder ts :=
  ⟨fun t ht => h.forward t (hsub.subset ht), h.apart.sublist hsub⟩

/-- The span runs from the start of a token to the end of that or a later one. -/
def Spans (ts : List Token) (s : Span) : Prop :=
  ∃ t later u, (t :: later).Sublist ts ∧ u ∈ t :: later ∧ s = t.span.upTo u.span

namespace Spans
variable {ts ls ms rs : List Token} {s l m r : Span}

theorem token {t : Token} (h : t ∈ ts) : Spans ts t.span :=
  ⟨t, [], t, List.singleton_sublist.mpr h, List.mem_cons_self, rfl⟩

theorem among (h : Spans ts s) (hsub : ts.Sublist ls) : Spans ls s := by
  obtain ⟨t, later, u, hlater, hu, rfl⟩ := h
  exact ⟨t, later, u, hlater.trans hsub, hu, rfl⟩

theorem start_mem (h : Spans ts s) : ∃ t ∈ ts, s.start = t.span.start := by
  obtain ⟨t, later, u, hlater, -, rfl⟩ := h
  exact ⟨t, hlater.subset List.mem_cons_self, rfl⟩

theorem stop_mem (h : Spans ts s) : ∃ t ∈ ts, s.stop = t.span.stop := by
  obtain ⟨t, later, u, hlater, hu, rfl⟩ := h
  exact ⟨u, hlater.subset hu, rfl⟩

theorem upTo (hl : Spans ls l) (hr : Spans rs r) : Spans (ls ++ rs) (l.upTo r) := by
  obtain ⟨t, later, u, hlater, -, rfl⟩ := hl
  obtain ⟨t', later', u', hlater', hu', rfl⟩ := hr
  refine ⟨t, later ++ t' :: later', u', hlater.append hlater', ?_, rfl⟩
  exact List.mem_cons_of_mem _ (List.mem_append_right _ hu')

theorem forward (h : Spans ts s) (ho : InOrder ts) : s.start.NoLater s.stop := by
  obtain ⟨t, later, u, hlater, hu, rfl⟩ := h
  have ho := ho.sublist hlater
  have ht := ho.forward t List.mem_cons_self
  rcases List.mem_cons.mp hu with rfl | hu
  · exact ht
  · have htu : t.span.Precedes u.span := List.rel_of_pairwise_cons ho.apart hu
    exact ht.trans (htu.trans (ho.forward u (List.mem_cons_of_mem _ hu)))

theorem precedes (hl : Spans ls l) (hr : Spans rs r) (ho : InOrder (ls ++ rs)) :
    l.Precedes r := by
  obtain ⟨t, ht, hstop⟩ := hl.stop_mem
  obtain ⟨u, hu, hstart⟩ := hr.start_mem
  unfold Span.Precedes
  rw [hstop, hstart]
  exact (List.pairwise_append.mp ho.apart).2.2 t ht u hu

/-- What stands between two spans lies inside what runs from the one to the other. -/
theorem inside_middle (hl : Spans ls l) (hm : Spans ms m) (hr : Spans rs r)
    (ho : InOrder (ls ++ (ms ++ rs))) : m.Inside (l.upTo r) := by
  have hleft : InOrder (ls ++ ms) :=
    ho.sublist ((List.sublist_append_left ms rs).append_left ls)
  have hright : InOrder (ms ++ rs) := ho.sublist (List.sublist_append_right _ _)
  constructor
  · exact (hl.forward (hleft.sublist (List.sublist_append_left _ _))).trans (hl.precedes hm hleft)
  · exact (hm.precedes hr hright).trans
      (hr.forward (hright.sublist (List.sublist_append_right _ _)))

theorem inside_first (hl : Spans ls l) (hr : Spans rs r) (ho : InOrder (ls ++ rs)) :
    l.Inside (l.upTo r) :=
  ⟨.refl _, (hl.precedes hr ho).trans (hr.forward (ho.sublist (List.sublist_append_right _ _)))⟩

theorem inside_last (hl : Spans ls l) (hr : Spans rs r) (ho : InOrder (ls ++ rs)) :
    r.Inside (l.upTo r) :=
  ⟨(hl.forward (ho.sublist (List.sublist_append_left _ _))).trans (hl.precedes hr ho), .refl _⟩

end Spans

/-! Nodes in tokens. -/

/-- Some nodes are made of some tokens and stand one after another; every node in them is
nested. What depends on the order of the tokens is said under that condition, so that the
tokens of a part need not be known to be in order before those of the whole are. -/
structure Laid (ts : List Token) (ns : List Node) : Prop where
  spans : ∀ n ∈ ns.flatMap Node.nodes, Spans ts n.span
  nested : InOrder ts → ∀ n ∈ ns.flatMap Node.nodes, n.Nested
  apart : InOrder ts → ns.Pairwise fun l r => l.span.Precedes r.span

namespace Laid
variable {ts ls rs : List Token} {ns ms : List Node} {n : Node}

theorem nil (ts : List Token) : Laid ts [] := by
  refine ⟨?_, ?_, fun _ => List.Pairwise.nil⟩ <;> simp

theorem span (h : Laid ts ns) (hn : n ∈ ns) : Spans ts n.span :=
  h.spans n (Node.mem_nodes_of_mem hn)

theorem among (h : Laid ts ns) (hsub : ts.Sublist ls) : Laid ls ns where
  spans n hn := (h.spans n hn).among hsub
  nested ho := h.nested (ho.sublist hsub)
  apart ho := h.apart (ho.sublist hsub)

theorem append (h : Laid ls ns) (h' : Laid rs ms) : Laid (ls ++ rs) (ns ++ ms) := by
  have hl := h.among (List.sublist_append_left ls rs)
  have hr := h'.among (List.sublist_append_right ls rs)
  constructor
  · intro n hn
    rw [List.flatMap_append] at hn
    exact (List.mem_append.mp hn).elim (hl.spans n) (hr.spans n)
  · intro ho n hn
    rw [List.flatMap_append] at hn
    exact (List.mem_append.mp hn).elim (hl.nested ho n) (hr.nested ho n)
  · intro ho
    refine List.pairwise_append.mpr ⟨hl.apart ho, hr.apart ho, fun n hn m hm => ?_⟩
    exact (h.span hn).precedes (h'.span hm) ho

/-- A node whose parts are laid out inside it. -/
theorem node (h : Laid ts n.parts) (hs : Spans ts n.span)
    (hin : InOrder ts → ∀ m ∈ n.parts, m.span.Inside n.span) : Laid ts [n] := by
  have hnodes : [n].flatMap Node.nodes = n :: n.parts.flatMap Node.nodes := by
    rw [List.flatMap_singleton, Node.nodes_eq]
  constructor
  · rw [hnodes]
    exact List.forall_mem_cons.mpr ⟨hs, h.spans⟩
  · intro ho
    rw [hnodes]
    exact List.forall_mem_cons.mpr ⟨⟨hin ho, h.apart ho⟩, h.nested ho⟩
  · intro _
    exact List.pairwise_singleton _ _

theorem parts (h : Laid ts [n]) : Laid ts n.parts := by
  have hbelow : ∀ m ∈ n.parts.flatMap Node.nodes, m ∈ [n].flatMap Node.nodes := by
    intro m hm
    rw [List.flatMap_singleton, Node.nodes_eq]
    exact List.mem_cons_of_mem _ hm
  refine ⟨fun m hm => h.spans m (hbelow m hm), fun ho m hm => h.nested ho m (hbelow m hm), ?_⟩
  intro ho
  exact (h.nested ho n (Node.mem_nodes_of_mem List.mem_cons_self)).apart

/-- A node without parts that is a token. -/
theorem leaf {t : Token} (hn : n.parts = []) (hs : n.span = t.span) : Laid [t] [n] := by
  refine node (hn ▸ nil _) (hs ▸ .token List.mem_cons_self) fun _ => ?_
  simp [hn]

/-- A node of two parts, from the start of the first to the end of the second. -/
theorem pair {t : Token} {l r : Node} (hl : Laid ls [l]) (hr : Laid rs [r])
    (hn : n.parts = [l, r]) (hs : n.span = l.span.upTo r.span) : Laid (ls ++ t :: rs) [n] := by
  have hsub : (ls ++ rs).Sublist (ls ++ t :: rs) := (List.sublist_cons_self _ _).append_left _
  have hlspan := hl.span List.mem_cons_self
  have hrspan := hr.span List.mem_cons_self
  refine node ?_ ?_ fun ho m hm => ?_
  · rw [hn]
    exact (hl.append hr).among hsub
  · rw [hs]
    exact (hlspan.upTo hrspan).among hsub
  · rw [hn] at hm
    rw [hs]
    have ho := ho.sublist hsub
    simp only [List.mem_cons, List.not_mem_nil, or_false] at hm
    rcases hm with rfl | rfl
    · exact hlspan.inside_first hrspan ho
    · exact hlspan.inside_last hrspan ho

/-- A node of one part, from a token before it to the end of the part. -/
theorem signed {t : Token} {m : Node} (h : Laid ts [m]) (hn : n.parts = [m])
    (hs : n.span = t.span.upTo m.span) : Laid (t :: ts) [n] := by
  have ht : Spans [t] t.span := .token List.mem_cons_self
  have hm := h.span List.mem_cons_self
  refine node ?_ ?_ fun ho k hk => ?_
  · rw [hn]
    exact h.among (List.sublist_cons_self _ _)
  · rw [hs]
    exact ht.upTo hm
  · rw [hn] at hk
    obtain rfl := List.mem_singleton.mp hk
    rw [hs]
    exact ht.inside_last hm ho

/-- A node that runs from one token to another, with its parts between these. -/
theorem enclosed {us : List Token} {t u : Token} (h : Laid ts n.parts)
    (hs : n.span = t.span.upTo u.span) (hus : us = t :: (ts ++ [u])) : Laid us [n] := by
  subst hus
  have ht : Spans [t] t.span := .token List.mem_cons_self
  have hu : Spans [u] u.span := .token List.mem_cons_self
  refine node ?_ ?_ fun ho m hm => ?_
  · exact h.among ((List.sublist_append_left _ _).cons _)
  · rw [hs]
    exact (ht.upTo hu).among ((List.sublist_append_right _ _).cons_cons _)
  · rw [hs]
    exact ht.inside_middle (h.span hm) hu ho

/-- A node that runs from a token to the end of its last part. -/
theorem headed {us : List Token} {t : Token} {m : Node} (h : Laid ls ms) (hm : Laid rs [m])
    (hn : n.parts = ms ++ [m]) (hs : n.span = t.span.upTo m.span) (hus : us = t :: (ls ++ rs)) :
    Laid us [n] := by
  subst hus
  have ht : Spans [t] t.span := .token List.mem_cons_self
  have hlast := hm.span List.mem_cons_self
  have hsub : (t :: rs).Sublist (t :: (ls ++ rs)) := (List.sublist_append_right _ _).cons_cons _
  refine node ?_ ?_ fun ho k hk => ?_
  · rw [hn]
    exact (h.append hm).among (List.sublist_cons_self _ _)
  · rw [hs]
    exact (ht.upTo hlast).among hsub
  · rw [hs]
    rw [hn] at hk
    rcases List.mem_append.mp hk with hk | hk
    · exact ht.inside_middle (h.span hk) hlast ho
    · obtain rfl := List.mem_singleton.mp hk
      exact ht.inside_last hlast (ho.sublist hsub)

end Laid

namespace Grammar

theorem DerivesExpr.laid {k : Tier} {ts : List Token} {e : Expr} (h : DerivesExpr k ts e) :
    Laid ts [.expr e] := by
  induction h with
  | ofProduct _ ih | ofSigned _ ih | ofPrimary _ ih => exact ih
  | sum _ _ _ ihl ihr | product _ _ _ ihl ihr => exact .pair ihl ihr rfl rfl
  | minus _ _ ih => exact .signed ih rfl rfl
  | int _ _ | float _ _ | var _ | readInt _ | readFloat _ => exact .leaf rfl rfl
  | parens _ _ _ ih => exact ih.among ((List.sublist_append_left _ _).cons _)

theorem parts_withSpan (c : Cond) (s : Span) :
    (Node.cond (c.withSpan s)).parts = (Node.cond c).parts := by
  cases c <;> rfl

theorem span_withSpan (c : Cond) (s : Span) : (Node.cond (c.withSpan s)).span = s := by
  cases c <;> rfl

theorem DerivesCond.laid {k : CondTier} {ts : List Token} {c : Cond} (h : DerivesCond k ts c) :
    Laid ts [.cond c] := by
  induction h with
  | ofConjunction _ ih | ofNegation _ ih => exact ih
  | or _ _ _ ihl ihr | and _ _ _ ihl ihr => exact .pair ihl ihr rfl rfl
  | not _ _ ih => exact .signed ih rfl rfl
  | compare hl _ hr => exact .pair hl.laid hr.laid rfl rfl
  | parens _ _ _ ih =>
    -- the parts are those of the condition inside, which stand between the parentheses
    refine .enclosed ?_ (span_withSpan _ _) rfl
    rw [parts_withSpan]
    exact ih.parts

theorem DerivesHeader.laid {ts : List Token} {c : Cond} (h : DerivesHeader ts c) :
    Laid ts [.cond c] := by
  cases h with
  | parens _ hc _ => exact hc.laid.among ((List.sublist_append_left _ _).cons _)

theorem DerivesDecl.laid {ts : List Token} {d : Decl} (h : DerivesDecl ts d) :
    Laid ts [.decl d] := by
  cases h with
  | @plain t name semi =>
    exact .enclosed (.nil [name]) rfl rfl
  | @init t name assign semi ts type e _ _ _ he _ =>
    have hparts := he.laid.among ((List.sublist_cons_self assign ts).cons name)
    exact .enclosed hparts rfl rfl

mutual

theorem DerivesStmt.laid {ts : List Token} {s : Stmt} : DerivesStmt ts s → Laid ts [.stmt s]
  | .assign _ _ he _ => .enclosed (he.laid.among (List.sublist_cons_self _ _)) rfl rfl
  | .print _ he _ => .enclosed he.laid rfl rfl
  | .block _ hitems _ => .enclosed hitems.laid rfl rfl
  | .ite _ hc hyes => .headed hc.laid hyes.laid rfl rfl rfl
  | .iteElse (u := u) _ hc hyes _ hno => by
    have hno := hno.laid.among (List.sublist_cons_self u _)
    refine .headed (hc.laid.append hyes.laid) hno rfl rfl ?_
    rw [List.append_assoc]
  | .loop _ hc hbody => .headed hc.laid hbody.laid rfl rfl rfl

theorem DerivesItem.laid {ts : List Token} {i : Item} : DerivesItem ts i → Laid ts [i.node]
  | .decl hd => hd.laid
  | .stmt hs => hs.laid

theorem DerivesItems.laid {ts : List Token} {us : List Item} :
    DerivesItems ts us → Laid ts (us.map Item.node)
  | .nil => .nil _
  | .cons hu hrest => hu.laid.append hrest.laid

end

end Grammar

/-! Tokens of a source. -/

namespace Lexer

theorem AllPlaced.tail {before : Bytes} {t : Token} {g : Bytes} {pieces : List (Token × Bytes)}
    (h : AllPlaced before ((t, g) :: pieces)) : AllPlaced (before ++ (t.text ++ g)) pieces := by
  intro early u k late heq
  have hplaced := h ((t, g) :: early) u k late (by rw [heq]; rfl)
  simpa [written] using hplaced

/-- Words in their places stand one after another, between the text before them and the end
of what is written. -/
theorem AllPlaced.inOrder {before : Bytes} {pieces : List (Token × Bytes)}
    (h : AllPlaced before pieces) : InOrder (pieces.map Prod.fst) ∧
      ∀ t ∈ pieces.map Prod.fst, (Point.following before).NoLater t.span.start ∧
        t.span.stop.NoLater (.following (before ++ written pieces)) := by
  induction pieces generalizing before with
  | nil => exact ⟨⟨by simp, List.Pairwise.nil⟩, by simp⟩
  | cons piece rest ih =>
    obtain ⟨t, g⟩ := piece
    have hspan : t.span = ⟨.following before, .following (before ++ t.text)⟩ := by
      have hplaced := (h [] t g rest rfl).span
      simpa [written] using hplaced
    obtain ⟨⟨hforward, hapart⟩, hbounds⟩ := ih h.tail
    have hwritten : before ++ written ((t, g) :: rest) =
        before ++ (t.text ++ g) ++ written rest := by
      simp [written]
    have hgap : (Point.following (before ++ t.text)).NoLater
        (.following (before ++ (t.text ++ g))) := by
      rw [← List.append_assoc]
      exact Point.following_noLater _ _
    have hself : t.span.start.NoLater t.span.stop := by
      rw [hspan]
      exact Point.following_noLater _ _
    refine ⟨⟨?_, ?_⟩, ?_⟩
    · exact List.forall_mem_cons.mpr ⟨hself, hforward⟩
    · refine List.pairwise_cons.mpr ⟨fun u hu => ?_, hapart⟩
      unfold Span.Precedes
      rw [hspan]
      exact hgap.trans (hbounds u hu).1
    · rw [hwritten, List.map_cons]
      refine List.forall_mem_cons.mpr ⟨?_, fun u hu => ⟨?_, (hbounds u hu).2⟩⟩
      · rw [hspan]
        exact ⟨.refl _, hgap.trans (Point.following_noLater _ _)⟩
      · exact (Point.following_noLater _ _).trans (hbounds u hu).1

/-- The tokens of a source stand one after another, and the last ends no later than the
source. -/
theorem tokenize_inOrder {source : Bytes} {lexed : Lexed} (h : tokenize source = .ok lexed) :
    InOrder lexed.tokens ∧ (∀ t ∈ lexed.tokens, t.span.stop.NoLater lexed.finish) ∧
      lexed.finish = .following source := by
  obtain ⟨pieces, htokens, hsource, hplaced, -, hfinish, -⟩ := tokenize_placed h
  obtain ⟨horder, hbounds⟩ := hplaced.inOrder
  rw [htokens, ← hsource, ← hfinish] at hbounds
  rw [htokens] at horder
  exact ⟨horder, fun t ht => (hbounds t ht).2, hfinish⟩

end Lexer

/-- A parsed program is derived from all tokens of its source. -/
theorem Program.parse_derives {source : Bytes} {p : Program} (h : Program.parse source = .ok p) :
    ∃ lexed, Lexer.tokenize source = .ok lexed ∧ Grammar.DerivesItems lexed.tokens p.units ∧
      p.span = ⟨.origin, lexed.finish⟩ := by
  unfold Program.parse at h
  split at h
  · cases h
  · next lexed hlex =>
    cases hitems : Parser.items lexed.finish lexed.tokens with
    | error failure => rw [hitems] at h; cases h
    | ok units =>
      rw [hitems] at h
      cases h
      exact ⟨lexed, hlex, Parser.items_derives _ _ hitems, rfl⟩

/-- The places of a parsed program nest. The program runs from the start of its source to the
end; every other node is a part of one, and runs from the start of a token to the end of that or
a later one; the parts of every node lie inside it and stand one after another. -/
theorem Program.parse_nested {source : Bytes} {p : Program} (h : Program.parse source = .ok p) :
    ∃ lexed below, Lexer.tokenize source = .ok lexed ∧ p.nodes = .program p :: below ∧
      p.span = ⟨.origin, .following source⟩ ∧
      (∀ n ∈ below, Spans lexed.tokens n.span ∧ ∃ parent ∈ p.nodes, n ∈ parent.parts) ∧
      ∀ n ∈ p.nodes, n.Nested := by
  obtain ⟨lexed, hlex, hderives, hspan⟩ := Program.parse_derives h
  obtain ⟨horder, hbounds, hfinish⟩ := Lexer.tokenize_inOrder hlex
  have hlaid := hderives.laid
  have hnodes : p.nodes = .program p :: (p.units.map Item.node).flatMap Node.nodes :=
    Node.nodes_eq (.program p)
  refine ⟨lexed, _, hlex, hnodes, by rw [hspan, hfinish], ?_, ?_⟩
  · intro n hn
    obtain ⟨u, hu, hnu⟩ := List.mem_flatMap.mp hn
    refine ⟨hlaid.spans n hn, ?_⟩
    rcases Node.exists_parent hnu with rfl | ⟨k, hk, hnk⟩
    · exact ⟨.program p, Node.self_mem _, hu⟩
    · exact ⟨k, Node.mem_nodes_of_part (n := .program p) hu hk, hnk⟩
  · rw [hnodes]
    refine List.forall_mem_cons.mpr ⟨⟨fun m hm => ?_, hlaid.apart horder⟩, hlaid.nested horder⟩
    obtain ⟨t, ht, hstop⟩ := (hlaid.span hm).stop_mem
    show m.span.Inside p.span
    rw [hspan]
    refine ⟨Point.origin_noLater _, ?_⟩
    rw [hstop]
    exact hbounds t ht

/-- A source with expressions and a condition in several parentheses. -/
def Program.enclosingSource : Bytes := "if (((((a))<(b)))) print ((-c));\n"

/-- The comparison takes in its two own pairs of parentheses, and the operands none of
theirs. -/
theorem Program.parse_nested_enclosing : ∃ p, Program.parse Program.enclosingSource = .ok p ∧
    p.nodes.map (fun n => (n.span.start.column, n.span.stop.column)) =
      [(0, 0), (0, 32), (4, 17), (8, 9), (13, 14), (19, 32), (27, 29), (28, 29)] ∧
    p.span = ⟨⟨0, 0⟩, ⟨1, 0⟩⟩ ∧ ∀ n ∈ p.nodes, n.Nested := by
  have hparsed : (Program.parse enclosingSource).toOption.map (fun p => p.nodes.map fun n =>
      (n.span.start.column, n.span.stop.column)) =
      some [(0, 0), (0, 32), (4, 17), (8, 9), (13, 14), (19, 32), (27, 29), (28, 29)] := by
    decide +kernel
  cases hp : Program.parse enclosingSource with
  | error failure =>
    rw [hp] at hparsed
    cases hparsed
  | ok p =>
    rw [hp] at hparsed
    obtain ⟨lexed, below, -, -, hspan, -, hnested⟩ := Program.parse_nested hp
    exact ⟨p, rfl, Option.some.inj hparsed, hspan, hnested⟩

end Signum
