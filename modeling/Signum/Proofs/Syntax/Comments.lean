import Signum.Proofs.Syntax.Lexemes
import Signum.Syntax.Format
import Mathlib.Data.List.DropRight
/- Documentation and the comment lines that hold it.

   The documentation of a source is made of lines that hold no line feed and do not end in a
   carriage return. Such lines are written as comments and read back as they were. The text of
   a documentation is taken without the line feeds at its end, so that empty lines there are
   lost; the lines of this text are lines of the documentation. -/
namespace Signum

namespace Bytes

theorem dropRightWhile_eq (p : UInt8 → Bool) (x : Bytes) :
    dropRightWhile p x = x.rdropWhile p := rfl

theorem splitOn_ne_nil (sep : UInt8) (x : Bytes) : splitOn sep x ≠ [] := by
  cases x with
  | nil => simp [splitOn]
  | cons b x =>
    rw [splitOn]
    split
    · simp
    · split <;> simp

/-- A byte that is no separator stands at the start of the first line. -/
theorem splitOn_cons_of_ne {sep b : UInt8} (h : b ≠ sep) (x : Bytes) :
    ∃ piece pieces, splitOn sep x = piece :: pieces ∧
      splitOn sep (b :: x) = (b :: piece) :: pieces := by
  rw [splitOn, if_neg h]
  cases hx : splitOn sep x with
  | nil => exact absurd hx (splitOn_ne_nil sep x)
  | cons piece pieces => exact ⟨piece, pieces, rfl, rfl⟩

theorem splitOn_cons_sep (sep : UInt8) (x : Bytes) :
    splitOn sep (sep :: x) = [] :: splitOn sep x := by
  rw [splitOn, if_pos rfl]

/-- The lines on both sides of a separator. -/
theorem splitOn_append (sep : UInt8) (x y : Bytes) :
    splitOn sep (x ++ sep :: y) = splitOn sep x ++ splitOn sep y := by
  induction x with
  | nil => simp [splitOn]
  | cons b x ih =>
    by_cases hb : b = sep
    · rw [hb, List.cons_append, splitOn_cons_sep, splitOn_cons_sep, ih, List.cons_append]
    · obtain ⟨piece, pieces, hx, hcons⟩ := splitOn_cons_of_ne hb x
      rw [List.cons_append, splitOn, if_neg hb, ih, hx, hcons]
      rfl

theorem splitOn_of_not_mem {sep : UInt8} {x : Bytes} (h : sep ∉ x) : splitOn sep x = [x] := by
  induction x with
  | nil => rfl
  | cons b x ih =>
    obtain ⟨hb, hx⟩ : ¬sep = b ∧ sep ∉ x := by simpa using h
    rw [splitOn, if_neg (Ne.symm hb), ih hx]

/-- The lines of a text, each with a separator after it. -/
theorem flatMap_splitOn (sep : UInt8) (x : Bytes) :
    (splitOn sep x).flatMap (· ++ [sep]) = x ++ [sep] := by
  induction x with
  | nil => rfl
  | cons b x ih =>
    by_cases hb : b = sep
    · rw [hb, splitOn_cons_sep, List.flatMap_cons, ih]
      rfl
    · obtain ⟨piece, pieces, hx, hcons⟩ := splitOn_cons_of_ne hb x
      rw [hx] at ih
      rw [hcons]
      simpa using ih

theorem trimPrefix_suffix (x lead : Bytes) : x.trimPrefix lead <:+ x := by
  unfold trimPrefix
  have h : ∀ y, dropPrefix? x lead = some y → y <:+ x := by
    fun_induction dropPrefix? x lead with
    | case1 x =>
      rintro y ⟨⟩
      exact List.suffix_refl x
    | case2 => nofun
    | case3 x c lead ih =>
      intro y hy
      exact (ih y hy).trans (List.suffix_cons c x)
    | case4 => nofun
  cases hx : dropPrefix? x lead with
  | none => exact List.suffix_refl x
  | some y => exact h y hx

theorem trimPrefix_append (lead x : Bytes) : (lead ++ x).trimPrefix lead = x := by
  have h : dropPrefix? (lead ++ x) lead = some x := by
    induction lead with
    | nil => cases x <;> rfl
    | cons b lead ih => rw [List.cons_append, dropPrefix?, if_pos rfl, ih]
  rw [trimPrefix, h]
  rfl

end Bytes

open Bytes (newline)

/-- A line that a comment can hold and be read from. -/
def Tidy (line : Bytes) : Prop := newline ∉ line ∧ ∀ h : line ≠ [], line.getLast h ≠ 13

theorem tidy_nil : Tidy [] := ⟨by simp, fun h => absurd rfl h⟩

theorem Tidy.suffix {line x : Bytes} (h : Tidy line) (hx : x <:+ line) : Tidy x := by
  refine ⟨fun hmem => h.1 (hx.subset hmem), fun hne => ?_⟩
  obtain ⟨front, rfl⟩ := hx
  have hlast := h.2 (by simp [hne])
  rwa [List.getLast_append_of_ne_nil _ hne] at hlast

/-! The documentation of a source. -/

theorem gap_comments (text : Bytes) : ∀ line ∈ (Lexer.gap text).comments, newline ∉ line := by
  fun_induction Lexer.gap text with
  | case1 => simp
  | case2 a rest _ g ih => exact ih
  | case3 a rest _ hslash _ g ih =>
    intro line hline
    rcases List.mem_cons.mp hline with rfl | hline
    · intro hmem
      rcases List.mem_cons.mp hmem with heq | hmem
      · rw [hslash.1] at heq
        exact absurd heq (by decide)
      · have := Lexer.takeWhile_all _ _ _ hmem
        simp at this
    · exact ih line hline
  | case4 => simp

theorem tidy_header {line : Bytes} (h : newline ∉ line) :
    Tidy (Bytes.dropRightWhile (· == 13) line) := by
  rw [Bytes.dropRightWhile_eq]
  refine ⟨fun hmem => h ((List.rdropWhile_prefix _ _).subset hmem), fun hne => ?_⟩
  have hlast := List.rdropWhile_last_not (fun b : UInt8 => b == 13) line hne
  simpa using hlast

/-- The line that a comment holds. -/
def held (comment : Bytes) : Bytes := (comment.trimPrefix "//").trimPrefix " "

theorem Tidy.held {comment : Bytes} (h : Tidy comment) : Tidy (held comment) :=
  h.suffix ((Bytes.trimPrefix_suffix _ _).trans (Bytes.trimPrefix_suffix _ _))

/-- The lines of the documentation are those that the comments hold. -/
theorem splitOn_commentText {comments : List Bytes} (h : ∀ c ∈ comments, Tidy c) :
    Bytes.splitOn newline (Lexer.commentText comments) = comments.map held ++ [[]] := by
  induction comments with
  | nil => rfl
  | cons c comments ih =>
    have hc : newline ∉ held c := (h c (by simp)).held.1
    have htail := ih fun d hd => h d (by simp [hd])
    have htext : Lexer.commentText (c :: comments) =
        held c ++ newline :: Lexer.commentText comments := by
      simp [Lexer.commentText, held]
    rw [htext, Bytes.splitOn_append, Bytes.splitOn_of_not_mem hc, htail]
    rfl

/-- The text of a documentation, without the empty lines at its end. -/
def trimmed (documentation : Bytes) : Bytes := Bytes.dropRightWhile (· == newline) documentation

theorem splitOn_trimmed (documentation : Bytes) :
    Bytes.splitOn newline (trimmed documentation) ⊆ Bytes.splitOn newline documentation := by
  let isNewline (b : UInt8) : Bool := b == newline
  have hsplit : documentation.rdropWhile isNewline ++ documentation.rtakeWhile isNewline =
      documentation := List.rdropWhile_append_rtakeWhile
  have htail : ∀ b ∈ documentation.rtakeWhile isNewline, b = newline := by
    intro b hb
    simpa [isNewline] using List.mem_rtakeWhile_imp hb
  rw [trimmed, Bytes.dropRightWhile_eq]
  change Bytes.splitOn newline (documentation.rdropWhile isNewline) ⊆ _
  cases hrest : documentation.rtakeWhile isNewline with
  | nil =>
    rw [hrest, List.append_nil] at hsplit
    rw [hsplit]
    exact List.Subset.refl _
  | cons b tail =>
    obtain rfl : b = newline := htail b (by simp [hrest])
    rw [hrest] at hsplit
    have hlines := Bytes.splitOn_append newline (documentation.rdropWhile isNewline) tail
    rw [hsplit] at hlines
    rw [hlines]
    exact List.subset_append_left _ _

/-! Comment lines. -/

/-- The comment that holds a line. -/
def commentOf (line : Bytes) : Bytes :=
  if line.isEmpty then Bytes.ofString "//" else "// " ++ line

theorem held_commentOf (line : Bytes) : held (commentOf line) = line := by
  unfold held commentOf
  split
  · next h =>
    obtain rfl : line = [] := List.isEmpty_iff.mp h
    decide
  · have hmark : ("// " : Bytes) = "//" ++ (" " : Bytes) := by decide
    rw [hmark, List.append_assoc, Bytes.trimPrefix_append, Bytes.trimPrefix_append]

/-- A comment starts with its marker, and holds a tidy line so as not to lose its end. -/
theorem commentOf_eq {line : Bytes} (h : Tidy line) :
    ∃ x, commentOf line = 47 :: 47 :: x ∧ newline ∉ x ∧
      Bytes.dropRightWhile (· == 13) (commentOf line) = commentOf line := by
  unfold commentOf
  split
  · exact ⟨[], by decide, by simp, by decide⟩
  · next hne =>
    have hne : line ≠ [] := by simpa using hne
    have hmark : ("// " : Bytes) = [47, 47, 32] := by decide
    refine ⟨32 :: line, by rw [hmark]; rfl, ?_, ?_⟩
    · have hspace : ¬newline = 32 := by decide
      simpa [hspace] using h.1
    · rw [Bytes.dropRightWhile_eq, List.rdropWhile_eq_self_iff]
      intro _
      rw [List.getLast_append_of_ne_nil _ hne]
      simpa using h.2 hne

theorem gap_comment {x : Bytes} (h : newline ∉ x) (rest : Bytes) :
    (Lexer.gap (47 :: 47 :: (x ++ newline :: rest))).comments =
        (47 :: 47 :: x) :: (Lexer.gap rest).comments ∧
      (Lexer.gap (47 :: 47 :: (x ++ newline :: rest))).rest = (Lexer.gap rest).rest := by
  have hline : ∀ b ∈ 47 :: x, (b != newline) = true := by
    intro b hb
    rcases List.mem_cons.mp hb with rfl | hb
    · decide
    · simp only [bne_iff_ne]
      rintro rfl
      exact h hb
  have htake : (47 :: (x ++ newline :: rest)).takeWhile (· != newline) = 47 :: x := by
    rw [← List.cons_append]
    exact Lexer.takeWhile_run hline (by simp)
  have hdrop : (47 :: (x ++ newline :: rest)).dropWhile (· != newline) = newline :: rest := by
    rw [← List.cons_append, List.dropWhile_append_of_pos hline]
    simp
  rw [Lexer.gap, if_neg (by decide), if_pos ⟨rfl, rfl⟩]
  simp only [htake, hdrop]
  rw [Lexer.gap, if_pos (by decide)]
  exact ⟨rfl, rfl⟩

/-- Comment lines are cut off as the header. -/
theorem gap_commentLines {lines : List Bytes} (h : ∀ line ∈ lines, Tidy line) (rest : Bytes) :
    (Lexer.gap (lines.flatMap (fun line => commentOf line ++ [newline]) ++ rest)).comments =
        lines.map commentOf ++ (Lexer.gap rest).comments ∧
      (Lexer.gap (lines.flatMap (fun line => commentOf line ++ [newline]) ++ rest)).rest =
        (Lexer.gap rest).rest := by
  induction lines with
  | nil => exact ⟨rfl, rfl⟩
  | cons line lines ih =>
    obtain ⟨x, hx, hnew, -⟩ := commentOf_eq (h line (by simp))
    obtain ⟨hcomments, hrest⟩ := ih fun l hl => h l (by simp [hl])
    have hfirst := gap_comment hnew
      (lines.flatMap (fun line => commentOf line ++ [newline]) ++ rest)
    have htext : (line :: lines).flatMap (fun line => commentOf line ++ [newline]) ++ rest =
        47 :: 47 :: (x ++ newline ::
          (lines.flatMap (fun line => commentOf line ++ [newline]) ++ rest)) := by
      simp [hx]
    rw [htext, hfirst.1, hfirst.2, hcomments, hrest, List.map_cons, hx]
    exact ⟨rfl, rfl⟩

/-- The documentation that is read back from the comment lines of a text. -/
theorem commentText_commentOf {lines : List Bytes} (h : ∀ line ∈ lines, Tidy line) :
    Lexer.commentText ((lines.map commentOf).map (Bytes.dropRightWhile (· == 13))) =
      lines.flatMap (· ++ [newline]) := by
  induction lines with
  | nil => rfl
  | cons line lines ih =>
    obtain ⟨-, -, -, hkept⟩ := commentOf_eq (h line (by simp))
    have htail := ih fun l hl => h l (by simp [hl])
    have hheld := held_commentOf line
    simp only [Lexer.commentText, List.map_cons, List.flatMap_cons] at htail ⊢
    rw [hkept, htail]
    exact congrArg (fun l => l ++ [newline] ++ lines.flatMap (· ++ [newline])) hheld

/-- The documentation of a source. -/
def Documented (documentation : Bytes) : Prop :=
  ∀ line ∈ Bytes.splitOn newline (trimmed documentation), Tidy line

theorem documented_of_tokenize {source : Bytes} {lexed : Lexer.Lexed}
    (h : Lexer.tokenize source = .ok lexed) : Documented (Lexer.commentText lexed.header) := by
  have hheader : ∀ c ∈ lexed.header, Tidy c := by
    rw [(Lexer.tokenize_cutting h).2]
    intro c hc
    obtain ⟨line, hline, rfl⟩ := List.mem_map.mp hc
    exact tidy_header (gap_comments source line hline)
  intro line hline
  have hmem := splitOn_trimmed _ hline
  rw [splitOn_commentText hheader] at hmem
  rcases List.mem_append.mp hmem with hmem | hmem
  · obtain ⟨c, hc, rfl⟩ := List.mem_map.mp hmem
    exact (hheader c hc).held
  · obtain rfl := List.mem_singleton.mp hmem
    exact tidy_nil

/-- In front of text without a header, the comment lines of a documentation give it back. -/
theorem gap_documentation {documentation body : Bytes} (h : Documented documentation)
    (hbody : (Lexer.gap body).comments = []) :
    (Lexer.gap (formatDocumentation documentation ++ body)).rest = (Lexer.gap body).rest ∧
      trimmed (Lexer.commentText
        ((Lexer.gap (formatDocumentation documentation ++ body)).comments.map
          (Bytes.dropRightWhile (· == 13)))) = trimmed documentation := by
  have hformat : formatDocumentation documentation =
      if (trimmed documentation).isEmpty then []
      else (Bytes.splitOn newline (trimmed documentation)).flatMap
        (fun line => commentOf line ++ [newline]) ++ [newline] := rfl
  rw [hformat]
  split
  · next hempty =>
    rw [List.nil_append, hbody, List.isEmpty_iff.mp hempty]
    exact ⟨rfl, rfl⟩
  · rw [List.append_assoc]
    obtain ⟨hcomments, hrest⟩ := gap_commentLines h ([newline] ++ body)
    have hblank : Lexer.gap ([newline] ++ body) =
        { Lexer.gap body with text := newline :: (Lexer.gap body).text } := by
      rw [List.singleton_append, Lexer.gap, if_pos (by decide)]
    rw [hrest, hcomments, hblank, hbody, List.append_nil, commentText_commentOf h]
    refine ⟨rfl, ?_⟩
    rw [Bytes.flatMap_splitOn]
    unfold trimmed
    rw [Bytes.dropRightWhile_eq, Bytes.dropRightWhile_eq,
      List.rdropWhile_concat_pos _ _ _ (by simp), List.rdropWhile_idempotent]

end Signum
