import Signum.Proofs.Syntax.Lexemes
import Mathlib.Data.List.DropRight
/- Cutting a source loses nothing of it.

   A source is a first gap and then words, each with the gap after it. Gaps hold blanks and
   whole comments (`Between`), so everything that is not a word can be told from the source
   alone, and a word is in its place when that is counted from the start of the source
   (`Placed`). A lexer that reads one token comes over a gap and a word in its place
   (`next_placed`); its run to the end of the source (`Scans`) is one such step after another. -/
namespace Signum

namespace Lexer

/-- A text of blanks and comments, with the comments in it. A comment runs up to the end of
its line; it may run to the end of the text only in the last gap of a source. -/
inductive Between (last : Prop) : Bytes → List Bytes → Prop where
  | nil : Between last [] []
  | blank {b : UInt8} {text : Bytes} {comments : List Bytes} :
    b = 32 ∨ b = 9 ∨ b = 13 ∨ b = 10 → Between last text comments →
    Between last (b :: text) comments
  | comment {body text : Bytes} {comments : List Bytes} :
    Bytes.newline ∉ body → text.head? = some Bytes.newline ∨ (last ∧ text = []) →
    Between last text comments →
    Between last (47 :: 47 :: (body ++ text)) ((47 :: 47 :: body) :: comments)

theorem Between.mono {last last' : Prop} {text : Bytes} {comments : List Bytes}
    (h : Between last text comments) (hlast : last → last') : Between last' text comments := by
  induction h with
  | nil => exact .nil
  | blank hb _ ih => exact .blank hb ih
  | comment hbody hend _ ih => exact .comment hbody (hend.imp_right (And.imp_left hlast)) ih

/-- A comment is all that stands before the end of its line. -/
theorem takeWhile_comment {body text : Bytes} (hbody : Bytes.newline ∉ body)
    (hend : text.head? = some Bytes.newline ∨ text = []) :
    (body ++ text).takeWhile (· != Bytes.newline) = body := by
  apply takeWhile_run
  · intro b hb
    simp only [bne_iff_ne, ne_eq]
    intro heq
    exact hbody (heq ▸ hb)
  · intro b hb
    rcases hend with hnext | rfl
    · obtain rfl : b = Bytes.newline := Option.some.inj (hb.symm.trans hnext)
      simp
    · cases hb

/-- The comments of a gap are settled by its text. -/
theorem Between.unique {last : Prop} {text : Bytes} {comments comments' : List Bytes}
    (h : Between last text comments) (h' : Between last text comments') :
    comments = comments' := by
  induction h generalizing comments' with
  | nil => cases h'; rfl
  | blank hb _ ih =>
    cases h' with
    | blank _ h' => exact ih h'
    | comment => simp at hb
  | @comment body text comments hbody hend _ ih =>
    generalize hwhole : (47 :: 47 :: (body ++ text) : Bytes) = whole at h'
    cases h' with
    | nil => cases hwhole
    | blank hb _ =>
      obtain rfl : 47 = _ := (List.cons.inj hwhole).1
      simp at hb
    | @comment body' text' comments' hbody' hend' h' =>
      have hsame : body ++ text = body' ++ text' :=
        (List.cons.inj (List.cons.inj hwhole).2).2
      -- both comments are what stands before the end of the line
      obtain rfl : body = body' := by
        rw [← takeWhile_comment hbody (hend.imp_right And.right), hsame]
        exact takeWhile_comment hbody' (hend'.imp_right And.right)
      obtain rfl : text = text' := List.append_cancel_left hsame
      rw [ih h']

/-- The gap at the start of a text is taken off it, and holds blanks and comments only. -/
theorem gap_between (text : Bytes) :
    text = (gap text).text ++ (gap text).rest ∧
      Between ((gap text).rest = []) (gap text).text (gap text).comments := by
  fun_induction gap text with
  | case1 => exact ⟨rfl, .nil⟩
  | case2 a rest hblank g ih =>
    obtain ⟨hrest, hgap⟩ := ih
    refine ⟨congrArg (a :: ·) hrest, .blank ?_ hgap⟩
    simpa [isBlank, or_assoc] using hblank
  | case3 a rest _ hslash comment g ih =>
    obtain ⟨rfl, hnext⟩ := hslash
    obtain ⟨rest, rfl⟩ := List.head?_eq_some_iff.mp hnext
    obtain ⟨hrest, hgap⟩ := ih
    have hline : (47 :: rest : Bytes).takeWhile (· != Bytes.newline) =
        47 :: rest.takeWhile (· != Bytes.newline) := rfl
    have hafter : (47 :: rest : Bytes).dropWhile (· != Bytes.newline) =
        rest.dropWhile (· != Bytes.newline) := rfl
    simp only [g, comment, hline, hafter] at hrest hgap ⊢
    constructor
    · show 47 :: 47 :: rest = _
      rw [List.append_assoc, ← hrest, List.cons_append, List.cons_append,
        List.takeWhile_append_dropWhile]
    · have hbody : Bytes.newline ∉ rest.takeWhile (· != Bytes.newline) := by
        intro hmem
        simpa using List.mem_takeWhile_imp hmem
      refine .comment hbody ?_ hgap
      -- what follows the comment starts with the end of its line, or there is nothing
      cases hd : rest.dropWhile (· != Bytes.newline) with
      | nil => exact .inr ⟨by rw [gap], by rw [gap]⟩
      | cons b tail =>
        obtain rfl : b = Bytes.newline := by
          have hhead := List.head?_dropWhile_not (· != Bytes.newline) rest
          rw [hd] at hhead
          simpa using hhead
        left
        rw [gap, if_pos (by decide)]
        rfl
  | case4 => exact ⟨rfl, .nil⟩

/-- The text of some words, each with the gap after it. -/
def written (pieces : List (Token × Bytes)) : Bytes := pieces.flatMap fun p => p.1.text ++ p.2

/-- A word with a gap after it stands in its place, after the text `before`. -/
structure Placed (before : Bytes) (t : Token) (gap : Bytes) (last : Prop) : Prop where
  word : t.text ≠ []
  span : t.span = ⟨.following before, .following (before ++ t.text)⟩
  gap : ∃ comments, Between last gap comments

/-- Every word of the pieces stands in its place, the first of them after the text `before`. -/
def AllPlaced (before : Bytes) (pieces : List (Token × Bytes)) : Prop :=
  ∀ early t g late, pieces = early ++ (t, g) :: late →
    Placed (before ++ written early) t g (late = [])

theorem AllPlaced.nil (before : Bytes) : AllPlaced before [] := by
  intro early t g late heq
  simp at heq

theorem AllPlaced.cons {before : Bytes} {t : Token} {g : Bytes} {pieces : List (Token × Bytes)}
    (ht : Placed before t g (pieces = [])) (h : AllPlaced (before ++ (t.text ++ g)) pieces) :
    AllPlaced before ((t, g) :: pieces) := by
  intro early u k late heq
  cases early with
  | nil =>
    obtain ⟨hpiece, rfl⟩ := List.cons.inj heq
    obtain ⟨rfl, rfl⟩ := Prod.mk.inj hpiece
    simpa [written] using ht
  | cons p early =>
    obtain ⟨rfl, rfl⟩ := List.cons.inj heq
    have hplaced := h early u k late rfl
    simpa [written] using hplaced

/-- One step of a lexer: a gap, and a word in its place. -/
theorem next_placed {l l' : Lexer} {t : Token} (hl : l.Counted) (h : l.next = .ok (some t, l')) :
    l'.Counted ∧ l.rest = (gap l.rest).text ++ (t.text ++ l'.rest) ∧
      l'.source.take l'.off = l.source.take l.off ++ (gap l.rest).text ++ t.text ∧ t.text ≠ [] ∧
      t.span = ⟨.following (l.source.take l.off ++ (gap l.rest).text),
        .following (l.source.take l.off ++ (gap l.rest).text ++ t.text)⟩ := by
  obtain ⟨hne, kind, n, -, hword, rfl⟩ := next_some h
  have hgap := toToken_moved l
  have hplace := hgap.counted hl
  have hstop := hword.counted hplace
  have hstart := hplace.pos
  have hend := hstop.pos
  rw [hgap.take] at hstart
  rw [hword.take, hgap.take] at hend
  refine ⟨hstop, ?_, ?_, ?_, ?_⟩
  · rw [← hword.rest]
    exact hgap.rest
  · rw [hword.take, hgap.take]
  · rw [ne_eq, List.take_eq_nil_iff, not_or]
    exact ⟨Nat.succ_ne_zero n, hne⟩
  · rw [hstart, hend]

/-- The run of a lexer to the end of the source. -/
inductive Scans : Lexer → List Token → Lexer → Prop
  | finish {l l' : Lexer} (h : l.next = .ok (none, l')) : Scans l [] l'
  | token {l l' last : Lexer} {t : Token} {tokens : List Token} (h : l.next = .ok (some t, l'))
      (hrest : Scans l' tokens last) : Scans l (t :: tokens) last

theorem scan_scans {l last : Lexer} {tokens : List Token} (h : l.scan = .ok (tokens, last)) :
    l.Scans tokens last := by
  fun_induction scan l generalizing tokens last with
  | case1 l failure hnext => cases h
  | case2 l l' hnext =>
    cases h
    exact .finish hnext
  | case3 l t l' hnext failure hscan ih => cases h
  | case4 l t l' hnext tokens' last' hscan ih =>
    cases h
    exact .token hnext (ih hscan)

/-- What a lexer moves over on its way to the end of the source is all that it has not read: the
gap where it stands, and then words in their places. -/
theorem Scans.placed {l last : Lexer} {tokens : List Token} (h : l.Scans tokens last) :
    l.Counted → ∃ pieces, pieces.map Prod.fst = tokens ∧
      l.rest = (gap l.rest).text ++ written pieces ∧
      AllPlaced (l.source.take l.off ++ (gap l.rest).text) pieces ∧
      Between (pieces = []) (gap l.rest).text (gap l.rest).comments ∧
      last.pos = .following l.source ∧ last.header = l.toToken.header := by
  induction h with
  | @finish l l' hnext =>
    intro hl
    obtain ⟨rfl, hnil⟩ := next_none hnext
    have hgap := toToken_moved l
    refine ⟨[], rfl, ?_, .nil _, ?_, ?_, rfl⟩
    · conv_lhs => rw [hgap.rest, hnil]
      rfl
    · exact (gap_between l.rest).2.mono fun _ => rfl
    · rw [(hgap.counted hl).finish hnil, hgap.source]
  | @token l l' last t tokens hnext _ ih =>
    intro hl
    obtain ⟨hl', hrest, htake, hne, hspan⟩ := next_placed hl hnext
    obtain ⟨pieces, htokens, hwritten, hplaced, hbetween, hpos, hheader⟩ := ih hl'
    have hsource : l'.source = l.source := (next_reaches hnext).1.source
    refine ⟨(t, (gap l'.rest).text) :: pieces, ?_, ?_, .cons ⟨hne, hspan, _, hbetween⟩ ?_, ?_,
      ?_, ?_⟩
    · rw [List.map_cons, htokens]
    · conv_lhs => rw [hrest, hwritten]
      simp [written]
    · rw [← List.append_assoc, ← htake]
      exact hplaced
    · refine (gap_between l.rest).2.mono fun hnil => ?_
      exact absurd (toToken_rest l ▸ hnil) (next_some hnext).1
    · rw [hpos, hsource]
    · rw [hheader, toToken_header_next hnext]

/-- A source is a first gap and then words in their places. -/
theorem tokenize_placed {source : Bytes} {lexed : Lexed} (h : tokenize source = .ok lexed) :
    ∃ pieces, pieces.map Prod.fst = lexed.tokens ∧ source = (gap source).text ++ written pieces ∧
      AllPlaced (gap source).text pieces ∧
      Between (pieces = []) (gap source).text (gap source).comments ∧
      lexed.finish = .following source ∧
      lexed.header = (gap source).comments.map (Bytes.dropRightWhile (· == 13)) := by
  unfold tokenize at h
  split at h
  · cases h
  · next hscan =>
    cases h
    have hplaced := (scan_scans hscan).placed (start_counted source)
    have hheader : (start source).toToken.header = _ := (skipSpace_moved (start source)).2.2
    rw [hheader] at hplaced
    exact hplaced

/-- Cutting a source loses nothing. The source is a first gap and then its tokens, each with a
gap after it; no token is empty, and each is placed by counting lines and bytes from the start
of the source; the source ends where it is said to end. The header is the comments of the first
gap without the carriage returns at their ends. -/
theorem tokenize_lossless {source : Bytes} {lexed : Lexed} (h : tokenize source = .ok lexed) :
    ∃ (first : Bytes) (pieces : List (Token × Bytes)), pieces.map Prod.fst = lexed.tokens ∧
      source = first ++ written pieces ∧ AllPlaced first pieces ∧
      lexed.finish = .following source ∧ (∃ comments, Between (pieces = []) first comments) ∧
      ∀ comments, Between (pieces = []) first comments →
        lexed.header = comments.map (List.rdropWhile (· == 13)) := by
  obtain ⟨pieces, htokens, hsource, hplaced, hfirst, hfinish, hheader⟩ := tokenize_placed h
  refine ⟨(gap source).text, pieces, htokens, hsource, hplaced, hfinish, ⟨_, hfirst⟩, ?_⟩
  intro comments hcomments
  rw [← hfirst.unique hcomments, hheader]
  rfl

/-- A source with a carriage return, a byte that is no UTF-8 and a zero byte in its comments. -/
def oddSource : Bytes :=
  [47, 47, 255, 13, 13, 10, 120, 61, 9, 49, 50, 59, 10, 32, 47, 47, 0, 239]

/-- The odd source is cut into four tokens, and its parts add up. -/
theorem tokenize_lossless_odd : ∃ lexed, tokenize oddSource = .ok lexed ∧
    lexed.tokens.map (fun t => (t.text, t.span.start)) =
      [([120], ⟨1, 0⟩), ([61], ⟨1, 1⟩), ([49, 50], ⟨1, 3⟩), ([59], ⟨1, 5⟩)] ∧
    lexed.finish = ⟨2, 5⟩ ∧ lexed.header = [[47, 47, 255]] ∧
    ∃ (first : Bytes) (pieces : List (Token × Bytes)), pieces.map Prod.fst = lexed.tokens ∧
      oddSource = first ++ written pieces ∧ AllPlaced first pieces := by
  have hcut : (tokenize oddSource).toOption.map (fun l =>
      (l.tokens.map (fun t => (t.text, t.span.start)), l.finish, l.header)) =
      some ([([120], ⟨1, 0⟩), ([61], ⟨1, 1⟩), ([49, 50], ⟨1, 3⟩), ([59], ⟨1, 5⟩)], ⟨2, 5⟩,
        [[47, 47, 255]]) := by
    decide +kernel
  cases hlexed : tokenize oddSource with
  | error failure =>
    rw [hlexed] at hcut
    cases hcut
  | ok lexed =>
    rw [hlexed] at hcut
    obtain ⟨htokens, hfinish, hheader⟩ : _ ∧ _ ∧ _ := by
      simpa only [Except.toOption, Option.map_some, Option.some.injEq, Prod.mk.injEq] using hcut
    obtain ⟨first, pieces, hpieces, hsource, hplaced, -⟩ := tokenize_lossless hlexed
    exact ⟨lexed, rfl, htokens, hfinish, hheader, first, pieces, hpieces, hsource, hplaced⟩

end Lexer
end Signum
