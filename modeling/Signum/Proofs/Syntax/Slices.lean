import Signum.Proofs.Syntax.Scanning
/- A lexer as a function of what is left.

   What a lexer does next depends on the bytes it has not read and on its place, on nothing else. So
   a source can be cut without counters: `gap` takes the blanks and comments off a text, `lexeme`
   tells the kind and length of the token it starts with, and `slices` does one after the other.
   Cutting a source and moving a lexer over it come to the same, failures included
   (`tokenize_eq_slices`). -/
namespace Signum
namespace Lexer

/-- Blanks and comments before a token. -/
structure Gap where
  text : Bytes
  comments : List Bytes
  rest : Bytes

/-- The gap at the start of a text. -/
def gap (text : Bytes) : Gap :=
  match text with
  | [] => ⟨[], [], []⟩
  | a :: rest =>
    if isBlank a then
      let g := gap rest
      { g with text := a :: g.text }
    else if a = 47 ∧ rest.head? = some 47 then
      let comment := a :: rest.takeWhile (· != Bytes.newline)
      let g := gap (rest.dropWhile (· != Bytes.newline))
      { text := comment ++ g.text, comments := comment :: g.comments, rest := g.rest }
    else ⟨[], [], a :: rest⟩
termination_by text.length
decreasing_by
  · simp
  · exact Nat.lt_succ_of_le (List.dropWhile_sublist _).length_le

/-- A gap never lengthens what is left. -/
theorem rest_gap_le (text : Bytes) : (gap text).rest.length ≤ text.length := by
  fun_induction gap text with
  | case1 => simp
  | case2 a rest _ g ih =>
    change (gap rest).rest.length ≤ rest.length + 1
    omega
  | case3 a rest _ _ _ g ih =>
    have := (List.dropWhile_sublist (fun b : UInt8 => b != Bytes.newline) (l := rest)).length_le
    change (gap (rest.dropWhile (· != Bytes.newline))).rest.length ≤ rest.length + 1
    omega
  | case4 => simp

/-- Why no token could be read. Both carry the number of bytes looked at. -/
inductive Fault where
  | malformedFloat (width : Nat)
  | unexpected (c : CodePoint) (width : Nat)
  deriving DecidableEq, Repr

/-- The number of digits at the start of a text. -/
def digitsLength (text : Bytes) : Nat := (text.takeWhile Bytes.isDigit).length

/-- The length of a sign at the start of a text. -/
def signLength : Bytes → Nat
  | s :: _ => if s = 43 ∨ s = 45 then 1 else 0
  | [] => 0

/-- The length of the exponent at the start of a text: 0 when there is none, and
a failure with the length read when its digits are missing. -/
def exponentLength : Bytes → Except Nat Nat
  | e :: rest =>
    if e = 101 ∨ e = 69 then
      let sign := signLength rest
      let digits := digitsLength (rest.drop sign)
      if digits = 0 then .error (1 + sign) else .ok (1 + sign + digits)
    else .ok 0
  | [] => .ok 0

/-- The kind and length of the number at the start of a text. -/
def numeral (text : Bytes) : Except Fault (TokenKind × Nat) :=
  let whole := digitsLength text
  match text.drop whole with
  | 46 :: rest =>
    let fraction := digitsLength rest
    if fraction = 0 then .error (.malformedFloat (whole + 1))
    else match exponentLength (rest.drop fraction) with
      | .ok n => .ok (.float, whole + 1 + fraction + n)
      | .error n => .error (.malformedFloat (whole + 1 + fraction + n))
  | _ => .ok (.int, whole)

/-- The length of the run of identifier characters at the start of a text. -/
def identLength (text : Bytes) : Nat :=
  match text with
  | [] => 0
  | a :: rest =>
    let (c, w) := CodePoint.decode (a :: rest)
    if isIdentPart c then w + identLength (rest.drop (w - 1)) else 0
termination_by text.length
decreasing_by simp only [List.length_drop, List.length_cons]; omega

/-- The kind of a run of identifier characters. -/
def wordKind (text : Bytes) : TokenKind :=
  match Keyword.ofText? text with
  | some k => .keyword k
  | none => .ident

/-- The kind and length of the token at the start of a text. -/
def lexeme (text : Bytes) : Except Fault (TokenKind × Nat) :=
  let (c, w) := CodePoint.decode text
  if c < 128 ∧ Bytes.isDigit c.toUInt8 then numeral text
  else if isIdentStart c then .ok (wordKind (text.take (identLength text)), identLength text)
  else match Symbol.all.find? (fun s => text.startsWith s.text) with
    | some s => .ok (.symbol s, s.text.length)
    | none => .error (.unexpected c w)

/-- A fault as a failure, for a token that starts at `p` in `text`. -/
def Fault.failure (p : Point) (text : Bytes) : Fault → Failure
  | .malformedFloat w =>
    ⟨.parse, ⟨p, p.after (text.take w)⟩, "malformed float literal " ++ Bytes.quoted (text.take w)⟩
  | .unexpected c w =>
    ⟨.parse, ⟨p, p.after (text.take w)⟩, "unexpected character " ++ Bytes.quotedChar c⟩

/-- The tokens of a text that starts at `p`, and where the text ends. -/
def tokensFrom (p : Point) (text : Bytes) : Except Failure (List Token × Point) :=
  match text with
  | [] => .ok ([], p)
  | a :: rest =>
    match lexeme (a :: rest) with
    | .error fault => .error (fault.failure p (a :: rest))
    | .ok (kind, n) =>
      let word := a :: rest.take (n - 1)
      let stop := p.after word
      let g := gap (rest.drop (n - 1))
      match tokensFrom (stop.after g.text) (g.rest) with
      | .error failure => .error failure
      | .ok (tokens, finish) => .ok (⟨kind, word, ⟨p, stop⟩⟩ :: tokens, finish)
termination_by text.length
decreasing_by
  have := rest_gap_le (rest.drop (n - 1))
  simp only [List.length_drop] at this
  simp only [List.length_cons]
  omega

/-- Cuts a source into tokens. -/
def slices (source : Bytes) : Except Failure Lexed :=
  let g := gap source
  match tokensFrom (Point.origin.after g.text) g.rest with
  | .error failure => .error failure
  | .ok (tokens, finish) =>
    .ok { tokens, finish, header := g.comments.map (Bytes.dropRightWhile (· == 13)) }

/-! Bytes that are asked for one after the other. -/

theorem takeWhile_run {p : UInt8 → Bool} {xs ys : Bytes} (hx : ∀ b ∈ xs, p b = true)
    (hy : ∀ b ∈ ys.head?, p b = false) : (xs ++ ys).takeWhile p = xs := by
  rw [List.takeWhile_append_of_pos hx]
  cases ys with
  | nil => simp
  | cons b ys => rw [List.takeWhile_cons_of_neg (by simp [hy b rfl]), List.append_nil]

theorem take_takeWhile (p : UInt8 → Bool) (xs : Bytes) :
    xs.take (xs.takeWhile p).length = xs.takeWhile p :=
  (List.prefix_iff_eq_take.mp (List.takeWhile_prefix p)).symm

/-- What is left after a number of bytes. -/
theorem Moved.drop {l l' : Lexer} {n : Nat} (h : l.Moved l' (l.rest.take n)) :
    l'.rest = l.rest.drop n := by
  have hsplit : l.rest.take n ++ l'.rest = l.rest.take n ++ l.rest.drop n := by
    rw [← h.rest, List.take_append_drop]
  exact List.append_cancel_left hsplit

theorem MovedOnly.add {l l' l'' : Lexer} {n m : Nat} (h : l.MovedOnly l' (l.rest.take n))
    (h' : l'.MovedOnly l'' (l'.rest.take m)) : l.MovedOnly l'' (l.rest.take (n + m)) := by
  rw [List.take_add, ← h.drop]
  exact h.trans h'

/-- Moving on while a byte is as asked. What is asked holds of all the bytes of a code point when it
holds of the first. -/
theorem advanceWhile_bytes {p : UInt8 → Bool}
    (hp : ∀ {a : UInt8} {tail : Bytes} {c : CodePoint} {w : Nat},
      CodePoint.decode (a :: tail) = (c, w) → p a = true → ∀ b ∈ (a :: tail).take w, p b = true)
    (l : Lexer) :
    l.MovedOnly (l.advanceWhile fun l => p (l.peek 0)) (l.rest.takeWhile p) := by
  fun_induction advanceWhile (fun l => p (l.peek 0)) l with
  | case1 l h ih =>
    obtain ⟨a, tail, hcons⟩ := List.exists_cons_of_ne_nil ((off_lt_iff l).mp h.1)
    obtain ⟨⟨c, w⟩, hdec⟩ : ∃ r, CodePoint.decode l.rest = r := ⟨_, rfl⟩
    have hmoved := advance_moved hdec
    have hpa : p a = true := by
      have hpeek := h.2
      rwa [peek_eq, hcons] at hpeek
    have hall : ∀ b ∈ l.rest.take w, p b = true := by
      rw [hcons] at hdec ⊢
      exact hp hdec hpa
    have hrun : l.rest.takeWhile p = l.rest.take w ++ l.advance.rest.takeWhile p := by
      conv_lhs => rw [hmoved.rest]
      exact List.takeWhile_append_of_pos hall
    rw [hrun]
    exact hmoved.trans ih
  | case2 l h =>
    have hnone : l.rest.takeWhile p = [] := by
      cases hrest : l.rest with
      | nil => rfl
      | cons a tail =>
        have hpa : ¬p a = true := by
          intro hpa
          refine h ⟨(off_lt_iff l).mpr (by simp [hrest]), ?_⟩
          rw [peek_eq, hrest]
          exact hpa
        exact List.takeWhile_cons_of_neg hpa
    rw [hnone]
    exact .refl l

theorem ascii_of_digit {b : UInt8} (h : Bytes.isDigit b = true) : b < 0x80 := by
  simp only [Bytes.isDigit, Bool.and_eq_true, decide_eq_true_eq] at h
  exact UInt8.lt_of_le_of_lt h.2 (by decide)

theorem digits_moved (l : Lexer) : l.MovedOnly l.digits (l.rest.take (digitsLength l.rest)) := by
  rw [digitsLength, take_takeWhile]
  refine advanceWhile_bytes (fun {a tail c w} hdec ha => ?_) l
  rw [CodePoint.decode_ascii (ascii_of_digit ha)] at hdec
  cases hdec
  simpa using ha

theorem toLineEnd_moved (l : Lexer) :
    l.MovedOnly l.toLineEnd (l.rest.takeWhile (· != Bytes.newline)) := by
  refine advanceWhile_bytes (p := (· != Bytes.newline)) (fun {a tail c w} hdec ha => ?_) l
  rcases CodePoint.decode_newline hdec with ⟨-, htake⟩ | ⟨-, hline⟩
  · cases w with
    | zero => cases htake
    | succ n =>
      obtain rfl : a = Bytes.newline := (List.cons.inj htake).1
      simp at ha
  · intro b hb
    rw [bne_iff_ne]
    rintro rfl
    exact hline hb

/-! Blanks and comments. -/

theorem isBlank_iff {b : UInt8} : isBlank b = true ↔ b = 32 ∨ b = 9 ∨ b = 13 ∨ b = 10 := by
  simp [isBlank, or_assoc]

theorem gap_nil : gap [] = ⟨[], [], []⟩ := by rw [gap]

theorem gap_blank {a : UInt8} (h : isBlank a = true) (rest : Bytes) :
    gap (a :: rest) = { gap rest with text := a :: (gap rest).text } := by
  rw [gap, if_pos h]

theorem gap_word {a : UInt8} {rest : Bytes} (hblank : ¬isBlank a = true)
    (hslash : ¬(a = 47 ∧ rest.head? = some 47)) : gap (a :: rest) = ⟨[], [], a :: rest⟩ := by
  rw [gap, if_neg hblank, if_neg hslash]

theorem gap_slashes {tail : Bytes} (h : tail.head? = some 47) :
    gap (47 :: tail) =
      let line := (47 :: tail).takeWhile (· != Bytes.newline)
      let g := gap ((47 :: tail).dropWhile (· != Bytes.newline))
      { text := line ++ g.text, comments := line :: g.comments, rest := g.rest } := by
  rw [gap, if_neg (by decide), if_pos ⟨rfl, h⟩]
  rfl

theorem slashes_iff {l : Lexer} {a : UInt8} {tail : Bytes} (h : l.rest = a :: tail) :
    (l.peek 0 = 47 ∧ l.peek 1 = 47) ↔ a = 47 ∧ tail.head? = some 47 := by
  rw [peek_cons h, peek_eq, h]
  cases tail with
  | nil => simp
  | cons b tail => simp

theorem keepComment_moved (begin : Nat) (l : Lexer) : l.Moved (l.keepComment begin) [] := by
  unfold keepComment
  split <;> exact ⟨rfl, rfl, rfl, rfl⟩

theorem keepComment_started (begin : Nat) (l : Lexer) :
    (l.keepComment begin).started = l.started := by
  unfold keepComment
  split <;> rfl

theorem keepComment_header (begin : Nat) (l : Lexer) : (l.keepComment begin).header =
    if l.started then l.header
    else l.header ++ [(l.since begin).dropRightWhile (· == 13)] := by
  unfold keepComment
  split <;> rfl

/-- Moving over a comment takes its line, which is kept while no token has been looked for. -/
theorem comment_moved (l : Lexer) :
    let line := l.rest.takeWhile (· != Bytes.newline)
    let l' := l.toLineEnd.keepComment l.off
    l.Moved l' line ∧ l'.rest = l.rest.dropWhile (· != Bytes.newline) ∧
      l'.started = l.started ∧
      l'.header = if l.started then l.header
        else l.header ++ [Bytes.dropRightWhile (· == 13) line] := by
  intro line l'
  have hline := toLineEnd_moved l
  have hkept : l.Moved l' line := by
    have hboth := hline.toMoved.trans (keepComment_moved l.off l.toLineEnd)
    rwa [List.append_nil] at hboth
  refine ⟨hkept, ?_, ?_, ?_⟩
  · refine List.append_cancel_left (hkept.rest.symm.trans ?_)
    exact List.takeWhile_append_dropWhile.symm
  · rw [keepComment_started, hline.started]
  · rw [keepComment_header, hline.started, hline.header, hline.since]

/-- The blanks and comments that are moved over are the gap; its comments are kept while no token
has been looked for. -/
theorem skipSpace_moved (l : Lexer) :
    l.Moved l.skipSpace (gap l.rest).text ∧ l.skipSpace.rest = (gap l.rest).rest ∧
      l.skipSpace.header = if l.started then l.header
        else l.header ++ (gap l.rest).comments.map (Bytes.dropRightWhile (· == 13)) := by
  fun_induction skipSpace l with
  | case1 l h hblank ih =>
    obtain ⟨a, tail, hcons⟩ := List.exists_cons_of_ne_nil ((off_lt_iff l).mp h)
    rw [peek_cons hcons] at hblank
    have hmoved : l.MovedOnly l.advance [a] := advance_byte hcons (by
      rcases isBlank_iff.mp hblank with rfl | rfl | rfl | rfl <;> decide)
    obtain ⟨hmove, hrest, hheader⟩ := ih
    rw [hmoved.rest_cons hcons] at hmove hrest hheader
    rw [hcons, gap_blank hblank]
    refine ⟨hmoved.toMoved.trans hmove, hrest, ?_⟩
    rw [hheader, hmoved.header, hmoved.started]
  | case2 l h hblank hslash ih =>
    obtain ⟨a, tail, hcons⟩ := List.exists_cons_of_ne_nil ((off_lt_iff l).mp h)
    obtain ⟨rfl, hnext⟩ := (slashes_iff hcons).mp hslash
    have hgap := gap_slashes hnext
    rw [← hcons] at hgap
    obtain ⟨hkept, hafter, hstarted, hlines⟩ := comment_moved l
    obtain ⟨hmove, hrest, hheader⟩ := ih
    rw [hafter] at hmove hrest hheader
    rw [hgap]
    refine ⟨hkept.trans hmove, hrest, ?_⟩
    rw [hheader, hstarted, hlines]
    split
    · rfl
    · rw [List.append_assoc]
      rfl
  | case3 l h hblank hslash =>
    obtain ⟨a, tail, hcons⟩ := List.exists_cons_of_ne_nil ((off_lt_iff l).mp h)
    rw [peek_cons hcons] at hblank
    rw [hcons, gap_word hblank (mt (slashes_iff hcons).mpr hslash)]
    exact ⟨.refl l, rfl, by simp⟩
  | case4 l h =>
    have hnil : l.rest = [] := not_not.mp (mt (off_lt_iff l).mpr h)
    rw [hnil, gap_nil]
    exact ⟨.refl l, rfl, by simp⟩

/-! Numbers. -/

theorem sign_moved (l : Lexer) : l.MovedOnly l.sign (l.rest.take (signLength l.rest)) := by
  unfold sign
  cases hrest : l.rest with
  | nil =>
    rw [peek_nil hrest, if_neg (by decide)]
    exact .refl l
  | cons s tail =>
    rw [peek_cons hrest, signLength]
    split
    · next hs => exact advance_byte hrest (by rcases hs with rfl | rfl <;> decide)
    · exact .refl l

theorem exponentLength_cons (e : UInt8) (rest : Bytes) :
    exponentLength (e :: rest) =
      if e = 101 ∨ e = 69 then
        if digitsLength (rest.drop (signLength rest)) = 0 then .error (1 + signLength rest)
        else .ok (1 + signLength rest + digitsLength (rest.drop (signLength rest)))
      else .ok 0 := rfl

theorem isDigit_peek (l : Lexer) : Bytes.isDigit (l.peek 0) = true ↔ digitsLength l.rest ≠ 0 := by
  unfold digitsLength
  cases hrest : l.rest with
  | nil =>
    rw [peek_nil hrest]
    decide
  | cons a tail =>
    rw [peek_cons hrest, List.takeWhile_cons]
    split <;> simp_all

/-- Moving over an exponent takes as many bytes as it is long, also where its digits are
missing. -/
theorem exponent_moved (l : Lexer) : ∃ l' n, l.MovedOnly l' (l.rest.take n) ∧
    (l.exponent = .ok l' ∧ exponentLength l.rest = .ok n ∨
      l.exponent = .error l' ∧ exponentLength l.rest = .error n) := by
  unfold exponent
  cases hrest : l.rest with
  | nil =>
    rw [peek_nil hrest, if_neg (by decide)]
    exact ⟨l, 0, .refl l, .inl ⟨rfl, rfl⟩⟩
  | cons e tail =>
    rw [peek_cons hrest, exponentLength_cons]
    split
    · next he =>
      have hbyte : l.MovedOnly l.advance [e] :=
        advance_byte hrest (by rcases he with rfl | rfl <;> decide)
      have htail : l.advance.rest = tail := hbyte.rest_cons hrest
      have hlead : l.MovedOnly l.advance (l.rest.take 1) := by rwa [hrest]
      have hsigned := hlead.add (sign_moved l.advance)
      have hdigits := hsigned.add (digits_moved l.advance.sign)
      have hdrop : l.advance.sign.rest = tail.drop (signLength tail) := by
        rw [(sign_moved l.advance).drop, htail]
      rw [← hdrop]
      rw [hrest, htail] at hsigned hdigits
      dsimp only
      split
      · next hdigit =>
        rw [if_neg ((isDigit_peek _).mp hdigit)]
        exact ⟨_, _, hdigits, .inl ⟨rfl, rfl⟩⟩
      · next hdigit =>
        rw [if_pos (not_not.mp (mt (isDigit_peek _).mpr hdigit))]
        exact ⟨_, _, hsigned, .inr ⟨rfl, rfl⟩⟩
    · exact ⟨l, 0, .refl l, .inl ⟨rfl, rfl⟩⟩

/-! Tokens. -/

/-- Reading a token where the lexer stands comes to what is said of its length and kind. -/
inductive Agrees (l : Lexer) :
    Except Failure (Token × Lexer) → Except Fault (TokenKind × Nat) → Prop where
  | token {kind : TokenKind} {n : Nat} {l' : Lexer} (h : l.MovedOnly l' (l.rest.take n)) :
    Agrees l (.ok (l.token kind l')) (.ok (kind, n))
  | fault (fault : Fault) : Agrees l (.error (fault.failure l.pos l.rest)) (.error fault)

theorem malformed_eq {l l' : Lexer} {n : Nat} (h : l.MovedOnly l' (l.rest.take n)) :
    l.malformed l' = (Fault.malformedFloat n).failure l.pos l.rest := by
  rw [malformed, h.pos, h.since]
  rfl

/-- Where a byte other than zero is seen, it is the next one. -/
theorem rest_of_peek {l : Lexer} {b : UInt8} (h : l.peek 0 = b) (hb : b ≠ 0) :
    ∃ tail, l.rest = b :: tail := by
  cases hrest : l.rest with
  | nil =>
    rw [peek_nil hrest] at h
    exact absurd h.symm hb
  | cons a tail =>
    rw [peek_cons hrest] at h
    exact ⟨tail, by rw [h]⟩

theorem number_agrees (l : Lexer) : Agrees l l.number (numeral l.rest) := by
  have hwhole := digits_moved l
  unfold number numeral
  dsimp only
  rw [← hwhole.drop]
  split
  · next hpoint =>
    obtain ⟨tail, htail⟩ := rest_of_peek hpoint (by decide)
    have hbyte : l.digits.MovedOnly l.digits.advance [46] := advance_byte htail (by decide)
    have hafter := hwhole.add (m := 1) (by rwa [htail])
    rw [htail, ← hbyte.rest_cons htail]
    simp only
    split
    · next hdigit =>
      rw [if_neg ((isDigit_peek _).mp hdigit)]
      have hfraction := hafter.add (digits_moved l.digits.advance)
      obtain ⟨l', n, hexp, hcases⟩ := exponent_moved l.digits.advance.digits
      have hall := hfraction.add hexp
      rw [← (digits_moved l.digits.advance).drop]
      rcases hcases with ⟨hscan, hlength⟩ | ⟨hscan, hlength⟩
      · rw [hscan, hlength]
        exact .token hall
      · rw [hscan, hlength]
        dsimp only
        rw [malformed_eq hall]
        exact .fault _
    · next hdigit =>
      rw [if_pos (not_not.mp (mt (isDigit_peek _).mpr hdigit)), malformed_eq hafter]
      exact .fault _
  · next hpoint =>
    split
    · next tail htail => exact absurd (peek_cons htail) hpoint
    · exact .token hwhole

theorem identLength_eq {x : Bytes} {c : CodePoint} {w : Nat} (hx : x ≠ [])
    (h : CodePoint.decode x = (c, w)) :
    identLength x = if isIdentPart c then w + identLength (x.drop w) else 0 := by
  cases x with
  | nil => exact absurd rfl hx
  | cons a rest =>
    obtain ⟨n, rfl, -⟩ := CodePoint.decode_takes (List.cons_ne_nil a rest) h
    rw [identLength, h]
    rfl

/-- Moving over the characters of an identifier. -/
theorem advanceWhile_part (l : Lexer) :
    l.MovedOnly (l.advanceWhile fun l => isIdentPart (CodePoint.decode l.rest).1)
      (l.rest.take (identLength l.rest)) := by
  fun_induction advanceWhile (fun l => isIdentPart (CodePoint.decode l.rest).1) l with
  | case1 l h ih =>
    obtain ⟨⟨c, w⟩, hdec⟩ : ∃ r, CodePoint.decode l.rest = r := ⟨_, rfl⟩
    have hpart : isIdentPart c = true := by
      have hmore := h.2
      rwa [hdec] at hmore
    have hmoved := advance_moved hdec
    rw [identLength_eq ((off_lt_iff l).mp h.1) hdec, if_pos hpart, ← hmoved.drop]
    exact hmoved.add ih
  | case2 l h =>
    have hnone : identLength l.rest = 0 := by
      by_cases hnil : l.rest = []
      · rw [hnil, identLength]
      · obtain ⟨⟨c, w⟩, hdec⟩ : ∃ r, CodePoint.decode l.rest = r := ⟨_, rfl⟩
        have hpart : ¬isIdentPart c = true := by
          intro hpart
          exact h ⟨(off_lt_iff l).mpr hnil, by rwa [hdec]⟩
        rw [identLength_eq hnil hdec, if_neg hpart]
    rw [hnone]
    exact .refl l

theorem word_agrees (l : Lexer) :
    Agrees l (.ok l.word) (.ok (wordKind (l.rest.take (identLength l.rest)),
      identLength l.rest)) := by
  have hmoved := advanceWhile_part l
  have hword : l.word = l.token (wordKind (l.rest.take (identLength l.rest)))
      (l.advanceWhile fun l => isIdentPart (CodePoint.decode l.rest).1) := by
    unfold word wordKind
    dsimp only
    rw [hmoved.since]
    cases Keyword.ofText? (l.rest.take (identLength l.rest)) <;> rfl
  rw [hword]
  exact .token hmoved

/-- How the symbols are written. -/
theorem symbol_text (s : Symbol) : s.text = match s with
    | .eq => [61, 61]
    | .ne => [33, 61]
    | .le => [60, 61]
    | .ge => [62, 61]
    | .andAnd => [38, 38]
    | .orOr => [124, 124]
    | .lparen => [40]
    | .rparen => [41]
    | .lbrace => [123]
    | .rbrace => [125]
    | .semi => [59]
    | .assign => [61]
    | .plus => [43]
    | .minus => [45]
    | .star => [42]
    | .slash => [47]
    | .lt => [60]
    | .gt => [62]
    | .bang => [33] := by
  cases s <;> decide

theorem startsWith_cons (a b : UInt8) (x y : Bytes) :
    Bytes.startsWith (a :: x) (b :: y) = (decide (a = b) && Bytes.startsWith x y) := by
  unfold Bytes.startsWith
  rw [Bytes.dropPrefix?]
  split
  · next h => simp [h]
  · next h => simp [h]

theorem startsWith_nil (x : Bytes) : Bytes.startsWith x [] = true := by
  cases x <;> rfl

theorem symbol_ascii (s : Symbol) : ∀ b ∈ s.text, b < 0x80 := by
  rw [symbol_text]
  cases s <;> simp

theorem startsWith_eq {x lead : Bytes} (h : Bytes.startsWith x lead = true) :
    x.take lead.length = lead := by
  induction lead generalizing x with
  | nil => rfl
  | cons b lead ih =>
    cases x with
    | nil => simp [Bytes.startsWith, Bytes.dropPrefix?] at h
    | cons a x =>
      rw [startsWith_cons, Bool.and_eq_true, decide_eq_true_eq] at h
      rw [List.length_cons, List.take_succ_cons, ih h.2, h.1]

/-- A text is looked at no further than what it is compared with. -/
theorem startsWith_take {n : Nat} {lead : Bytes} (h : lead.length ≤ n) (x : Bytes) :
    Bytes.startsWith (x.take n) lead = Bytes.startsWith x lead := by
  induction lead generalizing n x with
  | nil => rw [startsWith_nil, startsWith_nil]
  | cons b lead ih =>
    obtain ⟨m, rfl⟩ := Nat.exists_eq_add_of_le' (Nat.le_trans (Nat.succ_le_succ (Nat.zero_le _)) h)
    cases x with
    | nil => rfl
    | cons a x =>
      rw [List.take_succ_cons, startsWith_cons, startsWith_cons, ih (Nat.le_of_succ_le_succ h)]

theorem advanceBy_ascii {l : Lexer} {bs : Bytes} (h : ∀ b ∈ bs, b < 0x80) (hrest : bs <+: l.rest) :
    l.MovedOnly (l.advanceBy bs.length) bs := by
  induction bs generalizing l with
  | nil => exact .refl l
  | cons b bs ih =>
    obtain ⟨hb, hbs⟩ := List.forall_mem_cons.mp h
    obtain ⟨tail, htail⟩ := hrest
    have hbyte : l.MovedOnly l.advance [b] := advance_byte htail.symm hb
    exact hbyte.trans (ih hbs ⟨tail, (hbyte.rest_cons htail.symm).symm⟩)

/-- Looking at two bytes finds the symbol that the text starts with. -/
theorem find_window (x : Bytes) :
    (Symbol.all.find? fun s => Bytes.startsWith (x.take 2) s.text) =
      Symbol.all.find? fun s => Bytes.startsWith x s.text := by
  have hshort (s : Symbol) : s.text.length ≤ 2 := by cases s <;> decide
  congr 1
  funext s
  exact startsWith_take (hshort s) x

theorem symbol_agrees {l : Lexer} {c : CodePoint} {w : Nat}
    (hdec : CodePoint.decode l.rest = (c, w)) :
    Agrees l
      (match l.symbol? with
      | some read => .ok read
      | none =>
        .error ⟨.parse, ⟨l.pos, l.advance.pos⟩, "unexpected character " ++ Bytes.quotedChar c⟩)
      (match Symbol.all.find? fun s => Bytes.startsWith l.rest s.text with
      | some s => .ok (.symbol s, s.text.length)
      | none => .error (.unexpected c w)) := by
  unfold symbol?
  rw [find_window]
  cases hfind : Symbol.all.find? fun s => Bytes.startsWith l.rest s.text with
  | none =>
    have hpos : l.advance.pos = l.pos.after (l.rest.take w) := (advance_moved hdec).pos
    simp only [Option.map_none, hpos]
    exact .fault (.unexpected c w)
  | some s =>
    have hfront : l.rest.take s.text.length = s.text := startsWith_eq (by
      simpa using List.find?_some hfind)
    have hmoved : l.MovedOnly (l.advanceBy s.text.length) (l.rest.take s.text.length) := by
      rw [hfront]
      exact advanceBy_ascii (symbol_ascii s) (List.prefix_iff_eq_take.mpr hfront.symm)
    exact .token hmoved

theorem readToken_agrees {l : Lexer} (h : l.rest ≠ []) :
    Agrees l l.readToken (lexeme l.rest) := by
  obtain ⟨⟨c, w⟩, hdec⟩ : ∃ r, CodePoint.decode l.rest = r := ⟨_, rfl⟩
  have hdigit : Bytes.isDigit (l.peek 0) = true ↔ c < 128 ∧ Bytes.isDigit c.toUInt8 = true := by
    obtain ⟨a, tail, hcons⟩ := List.exists_cons_of_ne_nil h
    rw [hcons] at hdec
    rw [peek_cons hcons]
    have hbyte (ha : a < 0x80) : c = a.toNat := by
      rw [CodePoint.decode_ascii ha] at hdec
      exact (Prod.mk.inj hdec).1.symm
    constructor
    · intro hd
      obtain rfl := hbyte (ascii_of_digit hd)
      exact ⟨UInt8.lt_iff_toNat_lt.mp (ascii_of_digit hd), by simpa using hd⟩
    · rintro ⟨hc, hd⟩
      obtain rfl := hbyte (CodePoint.ascii_of_decode hdec hc)
      simpa using hd
  unfold readToken lexeme
  rw [hdec]
  dsimp only
  rw [if_congr hdigit rfl rfl]
  split
  · exact number_agrees l
  · split
    · exact word_agrees l
    · exact symbol_agrees hdec

/-! Sources. -/

/-- Between two tokens the lexer moves over the gap. -/
theorem toToken_moved (l : Lexer) : l.Moved l.toToken (gap l.rest).text :=
  have hmoved := (skipSpace_moved l).1
  ⟨hmoved.source, hmoved.off, hmoved.rest, hmoved.pos⟩

theorem toToken_rest (l : Lexer) : l.toToken.rest = (gap l.rest).rest := (skipSpace_moved l).2.1

theorem toToken_header {l : Lexer} (h : l.started = true) : l.toToken.header = l.header :=
  (skipSpace_moved l).2.2.trans (if_pos h)

theorem next_none {l l' : Lexer} (h : l.next = .ok (none, l')) :
    l' = l.toToken ∧ l.toToken.rest = [] := by
  unfold next at h
  split at h
  · split at h <;> cases h
  · next hoff =>
    cases h
    exact ⟨rfl, not_not.mp (mt (off_lt_iff _).mpr hoff)⟩

theorem next_error {l : Lexer} {failure : Failure} (h : l.next = .error failure) :
    ∃ fault, l.toToken.rest ≠ [] ∧ lexeme l.toToken.rest = .error fault ∧
      failure = fault.failure l.toToken.pos l.toToken.rest := by
  unfold next at h
  split at h
  · next hoff =>
    have hne := (off_lt_iff _).mp hoff
    have hagrees := readToken_agrees hne
    split at h
    · cases h
    · next hread =>
      cases h
      rw [hread] at hagrees
      generalize lexeme l.toToken.rest = r at hagrees
      cases hagrees with
      | fault fault => exact ⟨fault, hne, rfl, rfl⟩
  · cases h

/-- The token that is read is the one the text starts with, and the lexer moves over it. -/
theorem next_some {l l' : Lexer} {t : Token} (h : l.next = .ok (some t, l')) :
    l.toToken.rest ≠ [] ∧ ∃ kind n, lexeme l.toToken.rest = .ok (kind, n + 1) ∧
      l.toToken.MovedOnly l' (l.toToken.rest.take (n + 1)) ∧
      t = ⟨kind, l.toToken.rest.take (n + 1), ⟨l.toToken.pos, l'.pos⟩⟩ := by
  unfold next at h
  split at h
  · next hoff =>
    have hne := (off_lt_iff _).mp hoff
    have hagrees := readToken_agrees hne
    split at h
    · next hread =>
      cases h
      have hless := (readToken_reaches hoff hread).2
      rw [hread] at hagrees
      generalize lexeme l.toToken.rest = r at hagrees
      cases hagrees with
      | @token kind n _ hmoved =>
        cases n with
        | zero =>
          rw [hmoved.off] at hless
          exact absurd hless (Nat.lt_irrefl _)
        | succ n => exact ⟨hne, kind, n, rfl, hmoved, congrArg (Token.mk kind · _) hmoved.since⟩
    · cases h
  · cases h

theorem tokensFrom_lexeme {p : Point} {text : Bytes} {kind : TokenKind} {n : Nat}
    (hne : text ≠ []) (h : lexeme text = .ok (kind, n + 1)) :
    let word := text.take (n + 1)
    let g := gap (text.drop (n + 1))
    tokensFrom p text = (tokensFrom ((p.after word).after g.text) g.rest).map
      fun r => (⟨kind, word, ⟨p, p.after word⟩⟩ :: r.1, r.2) := by
  obtain ⟨a, rest, rfl⟩ := List.exists_cons_of_ne_nil hne
  rw [tokensFrom, h]
  simp only [Nat.add_sub_cancel, List.take_succ_cons, List.drop_succ_cons]
  split <;> next heq => rw [heq]; rfl

/-- One token of the lexer is one token of the cut text. -/
theorem tokensFrom_next {l l' : Lexer} {t : Token} (h : l.next = .ok (some t, l')) :
    tokensFrom l.toToken.pos l.toToken.rest =
      (tokensFrom l'.toToken.pos l'.toToken.rest).map fun r => (t :: r.1, r.2) := by
  obtain ⟨hne, kind, n, hlex, hmoved, rfl⟩ := next_some h
  rw [tokensFrom_lexeme hne hlex, (toToken_moved l').pos, toToken_rest l', hmoved.drop, hmoved.pos]

theorem toToken_header_next {l l' : Lexer} {t : Token} (h : l.next = .ok (some t, l')) :
    l'.toToken.header = l.toToken.header := by
  obtain ⟨-, kind, n, -, hmoved, -⟩ := next_some h
  rw [toToken_header hmoved.started, hmoved.header]

/-- What the lexer gives of a source is what cutting gives of what is left, from where the next
token starts. -/
theorem scan_eq (l : Lexer) :
    l.scan.map (fun r => (r.1, r.2.pos, r.2.header)) =
      (tokensFrom l.toToken.pos l.toToken.rest).map (fun r => (r.1, r.2, l.toToken.header)) := by
  fun_induction scan l with
  | case1 l failure hnext =>
    obtain ⟨fault, hne, hlex, rfl⟩ := next_error hnext
    obtain ⟨a, rest, hcons⟩ := List.exists_cons_of_ne_nil hne
    rw [hcons] at hlex ⊢
    rw [tokensFrom, hlex]
    rfl
  | case2 l l' hnext =>
    obtain ⟨rfl, hnil⟩ := next_none hnext
    rw [hnil, tokensFrom]
    rfl
  | case3 l t l' hnext failure hscan ih =>
    rw [tokensFrom_next hnext]
    rw [hscan] at ih
    cases htokens : tokensFrom l'.toToken.pos l'.toToken.rest with
    | error failure' =>
      rw [htokens] at ih
      exact ih
    | ok r =>
      rw [htokens] at ih
      cases ih
  | case4 l t l' hnext tokens last hscan ih =>
    rw [tokensFrom_next hnext]
    rw [hscan, toToken_header_next hnext] at ih
    cases htokens : tokensFrom l'.toToken.pos l'.toToken.rest with
    | error failure =>
      rw [htokens] at ih
      cases ih
    | ok r =>
      rw [htokens] at ih
      exact congrArg (Except.map fun r => (t :: r.1, r.2)) ih

/-- Moving a lexer over a source and cutting the source come to the same. -/
theorem tokenize_eq_slices (source : Bytes) : tokenize source = slices source := by
  have hscan := scan_eq (start source)
  have hpos : (start source).toToken.pos = Point.origin.after (gap source).text :=
    (toToken_moved (start source)).pos
  have hrest : (start source).toToken.rest = (gap source).rest := toToken_rest (start source)
  have hheader : (start source).toToken.header =
      (gap source).comments.map (Bytes.dropRightWhile (· == 13)) :=
    (skipSpace_moved (start source)).2.2
  rw [hpos, hrest, hheader] at hscan
  have htokenize : tokenize source =
      ((start source).scan.map fun r => (r.1, r.2.pos, r.2.header)).map
        fun r => ⟨r.1, r.2.1, r.2.2⟩ := by
    unfold tokenize
    cases (start source).scan <;> rfl
  rw [htokenize, hscan]
  unfold slices
  dsimp only
  cases tokensFrom (Point.origin.after (gap source).text) (gap source).rest <;> rfl

end Lexer
end Signum
