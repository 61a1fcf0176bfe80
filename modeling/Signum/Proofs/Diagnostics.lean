import Signum.Proofs.Blame
import Signum.Proofs.Syntax.Boundaries
import Signum.Proofs.Syntax.Comments
import Signum.Proofs.Syntax.Offending
/- Diagnostics point into their source, and what they say and show agrees.

   Whatever reports a failure, its place parts the code points of the source: the lexer only
   hands out such places, the parser reports them, and the nodes of a program start at tokens.
   The row of such a place has a line. Its column is a number of bytes of that line, or lies
   in the carriage returns that were taken off it. So the column that is printed, counted on
   the line up to the place, and the caret, put under the whole line, go by the same clusters,
   whatever the segmentation is by which a line is cut. -/
namespace Signum

open Bytes (newline)
open CodePoint (Sealed)

/-! Lines. -/

namespace Bytes

theorem length_splitOn (sep : UInt8) (x : Bytes) : (splitOn sep x).length = x.count sep + 1 := by
  induction x with
  | nil => rfl
  | cons b x ih =>
    by_cases hb : b = sep
    · rw [hb, splitOn_cons_sep, List.length_cons, ih, List.count_cons_self]
    · obtain ⟨piece, pieces, hx, hcons⟩ := splitOn_cons_of_ne hb x
      rw [List.count_cons_of_ne hb, ← ih, hx, hcons]
      rfl

/-- The first line ends before the first separator. -/
theorem head?_splitOn (sep : UInt8) (x : Bytes) :
    (splitOn sep x).head? = some (x.takeWhile (· != sep)) := by
  induction x with
  | nil => rfl
  | cons b x ih =>
    by_cases hb : b = sep
    · rw [hb, splitOn_cons_sep]
      simp
    · obtain ⟨piece, pieces, hx, hcons⟩ := splitOn_cons_of_ne hb x
      rw [hx] at ih
      rw [hcons]
      simpa [hb] using ih

/-- A text is some whole lines and the start of one more. -/
theorem last_line (x : Bytes) : ∃ earlier, x = earlier ++ x.rtakeWhile (· != newline) ∧
    newline ∉ x.rtakeWhile (· != newline) ∧ (earlier = [] ∨ ∃ y, earlier = y ++ [newline]) := by
  refine ⟨x.rdropWhile (· != newline), List.rdropWhile_append_rtakeWhile.symm, ?_, ?_⟩
  · intro hmem
    simpa using List.mem_rtakeWhile_imp hmem
  · have hlast := List.rdropWhile_last_not (· != newline) x
    generalize x.rdropWhile (· != newline) = earlier at hlast ⊢
    rcases List.eq_nil_or_concat earlier with rfl | ⟨y, b, rfl⟩
    · exact .inl rfl
    · have hb : b = newline := by simpa using hlast (by simp)
      exact .inr ⟨y, by rw [hb, List.concat_eq_append]⟩

/-- The line of a place in a text: what stands before the place and after it. -/
theorem getElem?_splitOn (before after : Bytes) :
    (splitOn newline (before ++ after))[before.count newline]? =
      some (before.rtakeWhile (· != newline) ++ after.takeWhile (· != newline)) := by
  obtain ⟨earlier, hsplit, hline, hearlier⟩ := last_line before
  generalize before.rtakeWhile (· != newline) = line at hsplit hline ⊢
  subst hsplit
  have hhead : (splitOn newline (line ++ after)).head? =
      some (line ++ after.takeWhile (· != newline)) := by
    rw [head?_splitOn, List.takeWhile_append_of_pos]
    intro b hb
    simp only [bne_iff_ne, ne_eq]
    intro heq
    exact hline (heq ▸ hb)
  have hcount : line.count newline = 0 := List.count_eq_zero.mpr hline
  rw [List.append_assoc, List.count_append, hcount, Nat.add_zero]
  rcases hearlier with rfl | ⟨y, rfl⟩
  · rw [List.nil_append, List.count_nil, ← List.head?_eq_getElem?, hhead]
  · have hrow : (y ++ [newline]).count newline = (splitOn newline y).length := by
      rw [length_splitOn]
      simp
    rw [hrow, List.append_assoc, List.singleton_append, splitOn_append,
      List.getElem?_append_right (Nat.le_refl _), Nat.sub_self, ← List.head?_eq_getElem?, hhead]

end Bytes

/-- The start of the line of a sealed text is sealed. -/
theorem CodePoint.Sealed.last_line {x : Bytes} (h : Sealed x) :
    Sealed (x.rtakeWhile (· != newline)) := by
  obtain ⟨earlier, hsplit, -, hearlier⟩ := Bytes.last_line x
  have hsealed : Sealed earlier := by
    rcases hearlier with rfl | ⟨y, rfl⟩
    · exact .nil
    · exact .concat_ascii y (by decide)
  rw [hsplit] at h
  exact hsealed.of_append h

namespace Diagnostic

/-- The row of a place that parts the code points of a source has a line, and the column shown
counts the clusters of that line which start before the place. -/
theorem line_of_parts (cut : Cluster.Segmentation) {source : Bytes} {p : Point}
    (h : p.Parts source) :
    ∃ line, sourceLine? source p.row = some line ∧
      shownColumnBy cut.clusters line p.column =
        Cluster.startingBefore p.column 0 (cut.clusters line) + 1 := by
  obtain ⟨before, after, rfl, rfl, hsealed⟩ := h
  have hline := Bytes.getElem?_splitOn before after
  -- the column of the place is the length of what stands before it in the line
  show ∃ line, sourceLine? (before ++ after) (before.count newline : Nat) = some line ∧
    shownColumnBy cut.clusters line (before.rtakeWhile (· != newline)).length =
      Cluster.startingBefore (before.rtakeWhile (· != newline)).length 0
        (cut.clusters line) + 1
  generalize hstart : before.rtakeWhile (· != newline) = start at hline ⊢
  refine ⟨Bytes.dropRightWhile (· == 13) (start ++ after.takeWhile (· != newline)), ?_, ?_⟩
  · unfold sourceLine?
    rw [if_neg (by omega), Int.toNat_natCast, hline]
    rfl
  · apply shownColumnBy_eq cut
    rw [Bytes.dropRightWhile_eq]
    have htrimmed := List.rdropWhile_prefix (fun b : UInt8 => b == 13)
      (l := start ++ after.takeWhile (· != newline))
    generalize List.rdropWhile _ (start ++ after.takeWhile (· != newline)) = line at htrimmed ⊢
    by_cases hlong : line.length ≤ start.length
    · exact .inl hlong
    · -- the place stands before the end of the line, so something follows it
      obtain ⟨y, rfl⟩ : start <+: line :=
        List.prefix_of_prefix_length_le (List.prefix_append _ _) htrimmed (by omega)
      have hafter : after ≠ [] := by
        rintro rfl
        have hle := htrimmed.length_le
        simp only [List.takeWhile_nil, List.append_nil] at hle
        exact hlong hle
      have hstart : Sealed start := by
        rw [← hstart]
        exact (hsealed.resolve_right hafter).last_line
      exact .inr ⟨start, y, rfl, rfl, hstart y⟩

/-- What a diagnostic shows of a failure whose row has a line. -/
theorem renderBy_eq {clusters : Bytes → List Bytes} {source line : Bytes} {f : Failure} {n : Nat}
    (file : Bytes) (hline : sourceLine? source f.span.start.row = some line)
    (hshown : shownColumnBy clusters line f.span.start.column = n + 1) :
    f.diagnostic.renderBy clusters file source =
      file ++ ":" ++ Bytes.ofNat (f.span.start.row + 1) ++ ":" ++ Bytes.ofNat (n + 1) ++ ": "
        ++ f.kind.text ++ messageTail f.message ++
        ("\n" ++ line ++ "\n" ++ caretLineBy clusters line f.span.start.column) := by
  simp only [renderBy, Failure.diagnostic, hline, Int.toNat_natCast, hshown]
  rfl

end Diagnostic

/-! Failures. -/

/-- The failures that are reported of a source: by the parser, and of a parsed program by the
checker, by the analysis and by the run, these with whatever words. -/
inductive Reported (source : Bytes) : Failure → Prop where
  | parse {f : Failure} : Program.parse source = .error f → Reported source f
  | check {p : Program} {f : Failure} :
    Program.parse source = .ok p → p.check.1 = .error f → Reported source f
  | analysis {p : Program} {config : Analysis.Config} {kind : ErrorKind} {span : Span}
    (message : Bytes) : Program.parse source = .ok p →
    (Analysis.run config p).1 = .error (.failed kind span) → Reported source ⟨kind, span, message⟩
  | run {p : Program} {fuel : Nat} {input : Input} {kind : ErrorKind} {span : Span}
    (message : Bytes) : Program.parse source = .ok p →
    (Run.run fuel p input).1 = .error (.failed kind span) → Reported source ⟨kind, span, message⟩

/-- The nodes of the units of a parsed program start at places that part the code points of the
source. -/
theorem Program.parse_parts {source : Bytes} {p : Program} (h : Program.parse source = .ok p) :
    ∀ u ∈ p.units, u.node.All fun span => span.start.Parts source := by
  obtain ⟨lexed, hlex, hderives, -⟩ := Program.parse_derives h
  intro u hu n hn
  have hspans := hderives.laid.spans n
    (List.mem_flatMap.mpr ⟨u.node, List.mem_map_of_mem hu, hn⟩)
  obtain ⟨t, ht, hstart⟩ := hspans.start_mem
  rw [hstart]
  exact (Lexer.tokenize_ok_parts hlex).1 t ht

theorem Program.parse_error_parts {source : Bytes} {failure : Failure}
    (h : Program.parse source = .error failure) : failure.span.start.Parts source := by
  unfold Program.parse at h
  split at h
  · next failure' hlex =>
    cases h
    exact Lexer.tokenize_error_parts hlex
  · next lexed hlex =>
    obtain ⟨htokens, hfinish⟩ := Lexer.tokenize_ok_parts hlex
    cases hitems : Parser.items lexed.finish lexed.tokens with
    | ok units =>
      rw [hitems] at h
      cases h
    | error failure' =>
      rw [hitems] at h
      cases h
      obtain ⟨before, rest, hdiverges, hplace⟩ := Parser.items_error_place _ hitems
      rcases hplace with hspan | ⟨op, hhides, hspan⟩
      · rw [hspan]
        cases rest with
        | nil => exact hfinish
        | cons t rest =>
          apply htokens t
          rw [hdiverges.split]
          simp
      · rw [hspan]
        apply htokens op
        obtain ⟨early, lead, ts, rfl, -, opening, left, right, rfl, -⟩ := hhides
        rw [hdiverges.split]
        simp

theorem Reported.parts {source : Bytes} {f : Failure} (h : Reported source f) :
    f.span.start.Parts source := by
  cases h with
  | parse h => exact Program.parse_error_parts h
  | check hp h =>
    exact Check.within_stops (Check.items_stops (Program.parse_parts hp)) _ _ h
  | analysis message hp h =>
    exact Analysis.items_stops _ (Program.parse_parts hp) _ _ h
  | run message hp h =>
    exact Run.items_stops _ (Program.parse_parts hp) _ _ h

/-- Every diagnostic points into its source, and its number and caret agree. The place of a
failure is that after some text of the source, its row has a line, and the diagnostic prints the
column after the clusters of the line that start before the place, and under the line one
character for each of these and then the caret, by whatever segmentation. -/
theorem Reported.column_and_caret_agree {source : Bytes} {f : Failure} (h : Reported source f)
    (cut : Cluster.Segmentation) (file : Bytes) :
    (∃ before after, source = before ++ after ∧ f.span.start = .following before) ∧
    ∃ line n pad, Diagnostic.sourceLine? source f.span.start.row = some line ∧
      n = Cluster.startingBefore f.span.start.column 0 (cut.clusters line) ∧
      pad = ((cut.clusters line).take n).map Diagnostic.underneath ∧ pad.length = n ∧
      f.diagnostic.renderBy cut.clusters file source =
        file ++ ":" ++ Bytes.ofNat (f.span.start.row + 1) ++ ":" ++ Bytes.ofNat (n + 1) ++ ": "
          ++ f.kind.text ++ Diagnostic.messageTail f.message ++
          ("\n" ++ line ++ "\n" ++ (pad ++ "^")) := by
  have hparts := h.parts
  obtain ⟨line, hline, hshown⟩ := Diagnostic.line_of_parts cut hparts
  obtain ⟨before, after, hsource, hplace, -⟩ := hparts
  refine ⟨⟨before, after, hsource, hplace⟩, line, _, _, hline, rfl, rfl, ?_, ?_⟩
  · rw [List.length_map, List.length_take]
    exact Nat.min_eq_left (Cluster.startingBefore_le _ _ _)
  · rw [Diagnostic.renderBy_eq file hline hshown, Diagnostic.caretLineBy, Diagnostic.caretIndent_eq]

/-- A source whose first line is not UTF-8 and whose second has a combining mark after a
variable. -/
def markSource : Bytes := [47, 47, 255, 13, 10, 9, 120, 204, 129, 61, 13, 10]

/-- The mark is reported inside the cluster of the variable. The column is the third, and two
characters stand before the caret, of which the first is the tab of the line. -/
theorem Reported.mark_is_shown : ∃ f, Program.parse markSource = .error f ∧
    f.span.start = ⟨1, 2⟩ ∧
    f.diagnostic.render "p" markSource =
      "p" ++ ":" ++ Bytes.ofNat 2 ++ ":" ++ Bytes.ofNat 3 ++ ": " ++ f.kind.text
        ++ Diagnostic.messageTail f.message ++
        ("\n" ++ ([9, 120, 204, 129, 61] : Bytes) ++ "\n" ++ (([9, 32] : Bytes) ++ "^")) := by
  have hrejected : (problem? (Program.parse markSource)).map (·.span.start) = some ⟨1, 2⟩ := by
    decide +kernel
  obtain ⟨f, hfailure, hstart⟩ := Option.map_eq_some_iff.mp hrejected
  have hparse := problem?_eq_some hfailure
  obtain ⟨-, line, n, pad, hline, hn, hpad, -, hrender⟩ :=
    (Reported.parse hparse).column_and_caret_agree Cluster.segmentation "p"
  rw [hstart] at hline hn hrender
  have hsource : Diagnostic.sourceLine? markSource 1 = some [9, 120, 204, 129, 61] := by
    decide +kernel
  obtain rfl : line = [9, 120, 204, 129, 61] := Option.some.inj (hline.symm.trans hsource)
  have hclusters : Cluster.segmentation.clusters [9, 120, 204, 129, 61] =
      [[9], [120, 204, 129], [61]] := by
    decide +kernel
  rw [hclusters] at hn hpad
  obtain rfl : n = 2 := hn
  obtain rfl : pad = [9, 32] := hpad
  exact ⟨f, hparse, hstart, hrender⟩

-- the end of a source may lie past carriage returns that its last line is shown without
example : (problem? (Program.parse "int x\r\r")).map (·.diagnostic.render "p" "int x\r\r") =
    some (Bytes.ofString
    "p:1:6: parsing error: expected ';' after declaration, found end of file\nint x\n     ^") := by
  decide +kernel

end Signum
