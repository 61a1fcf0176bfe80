import Signum.Diagnostic
import Signum.Proofs.Syntax.Lexemes
/- The clusters of a text and of its beginnings.

   A beginning of a text is read as the same code points when its own last one is whole
   (`Sealed`), which an ASCII byte always is. Where whether a cluster starts depends only on the
   code points up to there, the clusters of such a beginning are those of the text, but that the
   last may go on. That is what a `Segmentation` promises, and the extended grapheme clusters
   keep it (`segmentation`). The two ways of counting to a column, the clusters of the line up to
   it and the clusters of the line that start before it, then agree. -/
namespace Signum

namespace CodePoint

/-! Code points. -/

theorem split_eq {x : Bytes} {c : CodePoint} {w : Nat} (hx : x ≠ []) (h : decode x = (c, w)) :
    split x = (c, x.take w) :: split (x.drop w) := by
  cases x with
  | nil => exact absurd rfl hx
  | cons a rest =>
    obtain ⟨n, rfl, -⟩ := decode_takes (List.cons_ne_nil a rest) h
    rw [split, h]
    rfl

/-- A code point at the front is read from its own bytes, whatever follows them. -/
theorem split_take {x : Bytes} {c : CodePoint} {w : Nat} (h : decode x = (c, w))
    (hc : c ≠ replacement) (more : Bytes) :
    split (x.take w ++ more) = (c, x.take w) :: split more := by
  have hx : x ≠ [] := by
    rintro rfl
    cases h
    exact hc rfl
  have hlen := length_take_decode hx h
  obtain ⟨n, rfl, -⟩ := decode_takes hx h
  have hne : x.take (n + 1) ++ more ≠ [] := by
    intro hnil
    rw [(List.append_eq_nil_iff.mp hnil).1] at hlen
    cases hlen
  rw [split_eq hne (decode_append h hc more), List.take_left' hlen, List.drop_left' hlen]

theorem split_ascii {a : UInt8} (h : a < 0x80) (rest : Bytes) :
    split (a :: rest) = (a.toNat, [a]) :: split rest :=
  split_eq (List.cons_ne_nil a rest) (decode_ascii h rest)

/-- An ASCII byte ends what stands before it as the end of the text does. -/
theorem decode_before_ascii {x : Bytes} {a : UInt8} (hx : x ≠ []) (h : a < 0x80) (more : Bytes) :
    decode (x ++ a :: more) = decode x := by
  have hcont := not_continuation h
  match x, hx with
  | [b], _ => cases more with
    | nil => simp [decode, two?, three?, four?, hcont]
    | cons m more => cases more <;> simp [decode, two?, three?, four?, hcont]
  | [b, b₁], _ => cases more <;> simp [decode, two?, three?, four?, hcont]
  | [b, b₁, b₂], _ => simp [decode, two?, three?, four?, hcont]
  | b :: b₁ :: b₂ :: b₃ :: x, _ => rfl

theorem split_before_ascii {a : UInt8} (h : a < 0x80) (more x : Bytes) :
    split (x ++ a :: more) = split x ++ split (a :: more) := by
  fun_induction split x with
  | case1 => rfl
  | case2 b rest c w hdec ih =>
    obtain ⟨n, rfl, hlen⟩ := decode_takes (List.cons_ne_nil b rest) hdec
    have hdec' : decode (b :: rest ++ a :: more) = (c, n + 1) := by
      rw [decode_before_ascii (List.cons_ne_nil b rest) h, hdec]
    rw [split_eq (by simp) hdec', List.take_append_of_le_length hlen,
      List.drop_append_of_le_length hlen]
    exact congrArg (_ :: ·) ih

/-- The text is read as the same code points whatever follows it. -/
def Sealed (text : Bytes) : Prop := ∀ more, split (text ++ more) = split text ++ split more

theorem Sealed.nil : Sealed [] := fun more => by
  rw [List.nil_append, split, List.nil_append]

theorem Sealed.append {x y : Bytes} (hx : Sealed x) (hy : Sealed y) : Sealed (x ++ y) := by
  intro more
  rw [List.append_assoc, hx, hx, hy, List.append_assoc]

/-- What follows a sealed text is sealed when the whole is. -/
theorem Sealed.of_append {x y : Bytes} (hx : Sealed x) (h : Sealed (x ++ y)) : Sealed y := by
  intro more
  have hwhole := h more
  rw [List.append_assoc, hx, hx, List.append_assoc] at hwhole
  exact List.append_cancel_left hwhole

/-- A text that ends in an ASCII byte. -/
theorem Sealed.concat_ascii (x : Bytes) {a : UInt8} (h : a < 0x80) : Sealed (x ++ [a]) := by
  intro more
  calc split (x ++ [a] ++ more)
      = split x ++ split (a :: more) := by
        rw [List.append_assoc]
        exact split_before_ascii h more x
    _ = split x ++ split [a] ++ split more := by
        rw [split_ascii h, split_ascii h, split, List.append_assoc]
        rfl
    _ = split (x ++ [a]) ++ split more := by rw [split_before_ascii h]

theorem Sealed.ascii {x : Bytes} (h : ∀ b ∈ x, b < 0x80) : Sealed x := by
  rcases List.eq_nil_or_concat x with rfl | ⟨y, a, rfl⟩
  · exact .nil
  · rw [List.concat_eq_append] at h ⊢
    exact .concat_ascii y (h a (by simp))

/-- The bytes of a code point. -/
theorem Sealed.single {x : Bytes} {c : CodePoint} {w : Nat} (h : decode x = (c, w))
    (hc : c ≠ replacement) : Sealed (x.take w) := by
  intro more
  have hself := split_take h hc []
  rw [List.append_nil, split] at hself
  rw [split_take h hc more, hself]
  rfl

/-- The bytes of the code points add up to the text. -/
theorem flatMap_split (x : Bytes) : (split x).flatMap Prod.snd = x := by
  fun_induction split x with
  | case1 => rfl
  | case2 a rest c w hdec ih =>
    obtain ⟨n, rfl, -⟩ := decode_takes (List.cons_ne_nil a rest) hdec
    rw [List.flatMap_cons, ih]
    exact List.take_append_drop (n + 1) (a :: rest)

theorem split_bytes_ne_nil (x : Bytes) : ∀ p ∈ split x, p.2 ≠ [] := by
  fun_induction split x with
  | case1 => simp
  | case2 a rest c w hdec ih =>
    obtain ⟨n, rfl, -⟩ := decode_takes (List.cons_ne_nil a rest) hdec
    exact List.forall_mem_cons.mpr ⟨List.cons_ne_nil _ _, ih⟩

end CodePoint

namespace Cluster

/-! Clusters. -/

theorem flatten_group (ctx : Context) (current : Bytes) (cps : List (CodePoint × Bytes)) :
    (group ctx current cps).flatten = current ++ cps.flatMap Prod.snd := by
  induction cps generalizing ctx current with
  | nil => simp [group]
  | cons p rest ih =>
    obtain ⟨c, bs⟩ := p
    rw [group]
    split
    · rw [ih, List.append_assoc]
      rfl
    · rw [List.flatten_cons, ih]
      rfl

theorem group_ne_nil {ctx : Context} {current : Bytes} {cps : List (CodePoint × Bytes)}
    (hcurrent : current ≠ []) (h : ∀ p ∈ cps, p.2 ≠ []) : ∀ c ∈ group ctx current cps, c ≠ [] := by
  induction cps generalizing ctx current with
  | nil =>
    intro c hc
    rw [List.mem_singleton.mp hc]
    exact hcurrent
  | cons p rest ih =>
    obtain ⟨c, bs⟩ := p
    obtain ⟨hbs, hrest⟩ := List.forall_mem_cons.mp h
    rw [group]
    split
    · exact ih (List.append_ne_nil_of_left_ne_nil hcurrent bs) hrest
    · exact List.forall_mem_cons.mpr ⟨hcurrent, ih hbs hrest⟩

/-- The clusters of a text add up to it. -/
theorem flatten_clusters (text : Bytes) : (clusters text).flatten = text := by
  have hsplit := CodePoint.flatMap_split text
  unfold clusters
  split
  · next hnil =>
    rw [hnil] at hsplit
    exact hsplit
  · next c bs rest hcons =>
    rw [hcons] at hsplit
    rw [flatten_group]
    exact hsplit

theorem clusters_ne_nil (text : Bytes) : ∀ c ∈ clusters text, c ≠ [] := by
  have hbytes := CodePoint.split_bytes_ne_nil text
  unfold clusters
  split
  · simp
  · next c bs rest hcons =>
    rw [hcons] at hbytes
    obtain ⟨hbs, hrest⟩ := List.forall_mem_cons.mp hbytes
    exact group_ne_nil hbs hrest

/-- The cluster being read is the start of the first. -/
theorem group_head (ctx : Context) (current : Bytes) (cps : List (CodePoint × Bytes)) :
    ∃ more rest, group ctx current cps = (current ++ more) :: rest := by
  induction cps generalizing ctx current with
  | nil => exact ⟨[], [], by rw [group, List.append_nil]⟩
  | cons p rest ih =>
    obtain ⟨c, bs⟩ := p
    rw [group]
    split
    · obtain ⟨more, tail, htail⟩ := ih (ctx.next (classOf c)) (current ++ bs)
      exact ⟨bs ++ more, tail, by rw [htail, List.append_assoc]⟩
    · exact ⟨[], _, by rw [List.append_nil]⟩

/-- Further code points leave all clusters but the last as they are. -/
theorem group_append (ctx : Context) (current : Bytes) (cps : List (CodePoint × Bytes)) :
    ∃ done last ctx', group ctx current cps = done ++ [last] ∧
      ∀ more, group ctx current (cps ++ more) = done ++ group ctx' last more := by
  induction cps generalizing ctx current with
  | nil => exact ⟨[], current, ctx, rfl, fun _ => rfl⟩
  | cons p rest ih =>
    obtain ⟨c, bs⟩ := p
    simp only [List.cons_append, group]
    split
    · exact ih (ctx.next (classOf c)) (current ++ bs)
    · obtain ⟨done, last, ctx', hgroup, hmore⟩ := ih (ctx.next (classOf c)) bs
      refine ⟨current :: done, last, ctx', ?_, fun more => ?_⟩
      · rw [hgroup, List.cons_append]
      · rw [hmore, List.cons_append]

/-- The clusters of a text are those of its beginning, but that the last may go on. -/
theorem clusters_append {x y : Bytes} (hx : x ≠ [])
    (h : CodePoint.split (x ++ y) = CodePoint.split x ++ CodePoint.split y) :
    ∃ done last more rest, clusters x = done ++ [last] ∧
      clusters (x ++ y) = done ++ (last ++ more) :: rest := by
  unfold clusters
  rw [h]
  cases hsplit : CodePoint.split x with
  | nil =>
    have hflat := CodePoint.flatMap_split x
    rw [hsplit] at hflat
    exact absurd hflat.symm hx
  | cons p cps =>
    obtain ⟨c, bs⟩ := p
    rw [List.cons_append]
    dsimp only
    obtain ⟨done, last, ctx, hgroup, hmore⟩ := group_append (.start (classOf c)) bs cps
    obtain ⟨more, rest, hhead⟩ := group_head ctx last (CodePoint.split y)
    exact ⟨done, last, more, rest, hgroup, by rw [hmore, hhead]⟩

/-- A way of cutting a text into clusters, where the code points up to a cluster decide whether it
starts there: further ones leave all clusters but the last as they are. -/
structure Segmentation where
  clusters : Bytes → List Bytes
  flatten : ∀ text, (clusters text).flatten = text
  ne_nil : ∀ text, ∀ c ∈ clusters text, c ≠ []
  append : ∀ {x y : Bytes}, x ≠ [] →
    CodePoint.split (x ++ y) = CodePoint.split x ++ CodePoint.split y →
    ∃ done last more rest, clusters x = done ++ [last] ∧
      clusters (x ++ y) = done ++ (last ++ more) :: rest

/-- The extended grapheme clusters are one. -/
def segmentation : Segmentation := ⟨clusters, flatten_clusters, clusters_ne_nil, clusters_append⟩

/-! Columns. -/

/-- How many of the clusters start before a column, the first of them starting at `start`. -/
def startingBefore (column start : Nat) (cs : List Bytes) : Nat :=
  (List.range cs.length).countP fun i => start + (cs.take i).flatten.length < column

theorem startingBefore_le (column start : Nat) (cs : List Bytes) :
    startingBefore column start cs ≤ cs.length := by
  have hle := List.countP_le_length
    (p := fun i => start + (cs.take i).flatten.length < column) (l := List.range cs.length)
  rwa [List.length_range] at hle

theorem startingBefore_cons (column start : Nat) (c : Bytes) (cs : List Bytes) :
    startingBefore column start (c :: cs) =
      (if start < column then 1 else 0) + startingBefore column (start + c.length) cs := by
  unfold startingBefore
  rw [List.length_cons, List.range_succ_eq_map, List.countP_cons, List.countP_map, Nat.add_comm]
  congr 1
  · simp only [decide_eq_true_eq]
    rfl
  · apply List.countP_congr
    intro i _
    simp only [Function.comp_apply, Nat.succ_eq_add_one, List.take_succ_cons, List.flatten_cons,
      List.length_append, Nat.add_assoc, decide_eq_true_eq]

theorem startingBefore_append (column start : Nat) (cs ds : List Bytes) :
    startingBefore column start (cs ++ ds) =
      startingBefore column start cs + startingBefore column (start + cs.flatten.length) ds := by
  induction cs generalizing start with
  | nil => simp [startingBefore]
  | cons c cs ih =>
    rw [List.cons_append, startingBefore_cons, startingBefore_cons, ih, List.flatten_cons,
      List.length_append, ← Nat.add_assoc, ← Nat.add_assoc]

theorem startingBefore_eq_zero {column start : Nat} (h : column ≤ start) (cs : List Bytes) :
    startingBefore column start cs = 0 := by
  unfold startingBefore
  rw [List.countP_eq_zero]
  intro i _
  simp only [decide_eq_true_eq]
  omega

/-- All clusters of a text that ends no later than the column start before it. -/
theorem startingBefore_eq_length {column start : Nat} {cs : List Bytes} (hcs : ∀ c ∈ cs, c ≠ [])
    (h : start + cs.flatten.length ≤ column) : startingBefore column start cs = cs.length := by
  induction cs generalizing start with
  | nil => rfl
  | cons c cs ih =>
    obtain ⟨hc, hcs⟩ := List.forall_mem_cons.mp hcs
    have hpos : 0 < c.length := List.length_pos_iff.mpr hc
    rw [List.flatten_cons, List.length_append] at h
    rw [startingBefore_cons, if_pos (by omega), ih hcs (by omega), List.length_cons]
    omega

/-- As many clusters of a text start before the end of a beginning as the beginning has. -/
theorem Segmentation.startingBefore_clusters (cut : Segmentation) {x y : Bytes}
    (h : CodePoint.split (x ++ y) = CodePoint.split x ++ CodePoint.split y) :
    startingBefore x.length 0 (cut.clusters (x ++ y)) = (cut.clusters x).length := by
  have hne := cut.ne_nil x
  have hflat := cut.flatten x
  by_cases hx : x = []
  · subst hx
    have hnone : cut.clusters [] = [] := by
      refine List.eq_nil_iff_forall_not_mem.mpr fun c hc => hne c hc ?_
      exact List.flatten_eq_nil_iff.mp hflat c hc
    rw [List.length_nil, startingBefore_eq_zero (Nat.le_refl 0), hnone]
    rfl
  · obtain ⟨done, last, more, rest, hbeginning, hwhole⟩ := cut.append hx h
    replace hflat := congrArg List.length hflat
    rw [hbeginning] at hne hflat
    have hlast : 0 < last.length := List.length_pos_iff.mpr (hne last (by simp))
    simp only [List.flatten_append, List.flatten_singleton, List.length_append] at hflat
    have hdone : startingBefore x.length 0 done = done.length :=
      startingBefore_eq_length (fun c hc => hne c (by simp [hc])) (by omega)
    rw [hwhole, hbeginning, startingBefore_append, hdone, startingBefore_cons,
      if_pos (by omega), startingBefore_eq_zero (by simp only [List.length_append]; omega),
      List.length_append, List.length_singleton]

end Cluster

namespace Diagnostic

open Cluster (startingBefore startingBefore_cons startingBefore_eq_zero)

/-- What stands in the caret line under a cluster. -/
def underneath (cluster : Bytes) : UInt8 := if cluster = [9] then 9 else 32

/-- Before the caret stands one character for each cluster that starts before the column. -/
theorem caretIndent_eq (column start : Nat) (cs : List Bytes) :
    caretIndent column start cs = (cs.take (startingBefore column start cs)).map underneath := by
  induction cs generalizing start with
  | nil => simp [caretIndent]
  | cons c cs ih =>
    rw [caretIndent, startingBefore_cons]
    by_cases h : start < column
    · rw [if_neg (by omega), if_pos h, ih, Nat.add_comm 1, List.take_succ_cons, List.map_cons]
      rfl
    · rw [if_pos (by omega), if_neg h, startingBefore_eq_zero (by omega)]
      rfl

/-- The column shown counts the clusters that start before a column that stands between code
points, or past the end of the line. -/
theorem shownColumnBy_eq (cut : Cluster.Segmentation) {line : Bytes} {column : Nat}
    (h : line.length ≤ column ∨ ∃ x y, line = x ++ y ∧ x.length = column ∧
      CodePoint.split (x ++ y) = CodePoint.split x ++ CodePoint.split y) :
    shownColumnBy cut.clusters line column = startingBefore column 0 (cut.clusters line) + 1 := by
  unfold shownColumnBy
  rcases h with hend | ⟨x, y, rfl, rfl, hsplit⟩
  · have hall : startingBefore column 0 (cut.clusters line) = (cut.clusters line).length := by
      apply Cluster.startingBefore_eq_length (cut.ne_nil line)
      rw [cut.flatten, Nat.zero_add]
      exact hend
    rw [List.take_of_length_le hend, hall]
  · rw [List.take_left' rfl, cut.startingBefore_clusters hsplit]

end Diagnostic
end Signum
