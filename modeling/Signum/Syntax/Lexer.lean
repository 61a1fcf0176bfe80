import Signum.Failure
import Signum.Syntax.Token
import Signum.Text.Letter
/- Cutting a source into tokens.

   A lexer stands somewhere in its source and moves on code point by code point,
   with an offset that counts bytes and a place that counts rows and columns.
   Between tokens stand blanks and comments, and a comment runs from `//` to the
   end of its line. A token is the longest one that starts where these end.
   Comments before any token are the header of the source; `commentText` is the
   documentation they hold. -/
namespace Signum

/-- A lexer at work: the source, how far it has come, the comments of the header
so far, and whether it has looked for a token yet. -/
structure Lexer where
  source : Bytes
  off : Nat
  pos : Point
  header : List Bytes
  started : Bool

namespace Lexer

/-- Whether an identifier can start with the code point. -/
def isIdentStart (c : CodePoint) : Bool := c = 95 || CodePoint.isLetter c

/-- Whether an identifier can go on with the code point. -/
def isIdentPart (c : CodePoint) : Bool := isIdentStart c || CodePoint.isDecimal c

/-- Whether the byte is a blank between tokens. -/
def isBlank (b : UInt8) : Bool := b = 32 || b = 9 || b = 13 || b = 10

/-- A lexer at the start of a source. -/
def start (source : Bytes) : Lexer := ⟨source, 0, .origin, [], false⟩

/-- What has not been read. -/
def rest (l : Lexer) : Bytes := l.source.drop l.off

/-- What has been read since an offset. -/
def since (l : Lexer) (begin : Nat) : Bytes := (l.source.take l.off).drop begin

/-- The byte `ahead` places further on, or zero when there is none. -/
def peek (l : Lexer) (ahead : Nat) : UInt8 := (l.source[l.off + ahead]?).getD 0

/-- Moves over a code point. -/
def advance (l : Lexer) : Lexer :=
  let (c, w) := CodePoint.decode l.rest
  { l with
    off := l.off + w
    pos := if c = 10 then ⟨l.pos.row + 1, 0⟩ else ⟨l.pos.row, l.pos.column + w⟩ }

/-- Moves over a number of code points. -/
def advanceBy : Nat → Lexer → Lexer
  | 0, l => l
  | n + 1, l => advanceBy n l.advance

/-- The lexer is one that comes from another by moving on, perhaps not at all. -/
structure Reaches (l l' : Lexer) : Prop where
  source : l'.source = l.source
  off : l.off ≤ l'.off

theorem Reaches.refl (l : Lexer) : l.Reaches l := ⟨rfl, Nat.le_refl _⟩

theorem Reaches.trans {l l' l'' : Lexer} (h : l.Reaches l') (h' : l'.Reaches l'') :
    l.Reaches l'' := ⟨h'.source.trans h.source, Nat.le_trans h.off h'.off⟩

theorem reaches_advance (l : Lexer) : l.Reaches l.advance := ⟨rfl, Nat.le_add_right _ _⟩

/-- Before the end of the source, moving on gets further. -/
theorem off_lt_advance {l : Lexer} (h : l.off < l.source.length) : l.off < l.advance.off := by
  have hrest : l.rest ≠ [] := by
    unfold rest
    rw [ne_eq, List.drop_eq_nil_iff]
    omega
  obtain ⟨a, tail, hcons⟩ := List.exists_cons_of_ne_nil hrest
  have hw := (@CodePoint.decode_width a tail).1
  show l.off < l.off + (CodePoint.decode l.rest).2
  rw [hcons]
  omega

/-- Moves on while there is more and it is as asked. -/
def advanceWhile (more : Lexer → Bool) (l : Lexer) : Lexer :=
  if _h : l.off < l.source.length ∧ more l = true then advanceWhile more l.advance else l
termination_by l.source.length - l.off
decreasing_by
  have := off_lt_advance _h.1
  show l.source.length - l.advance.off < l.source.length - l.off
  omega

theorem reaches_advanceWhile (more : Lexer → Bool) (l : Lexer) :
    l.Reaches (l.advanceWhile more) := by
  fun_induction advanceWhile more l with
  | case1 l h ih => exact l.reaches_advance.trans ih
  | case2 l h => exact .refl l

/-- A lexer that can move on does. -/
theorem off_lt_advanceWhile {more : Lexer → Bool} {l : Lexer} (h : l.off < l.source.length)
    (hmore : more l = true) : l.off < (l.advanceWhile more).off := by
  rw [advanceWhile, dif_pos ⟨h, hmore⟩]
  exact Nat.lt_of_lt_of_le (off_lt_advance h) (reaches_advanceWhile more l.advance).off

/-- Moves to the end of the line. -/
def toLineEnd (l : Lexer) : Lexer := l.advanceWhile fun l => l.peek 0 != Bytes.newline

/-- Keeps a comment that starts at an offset and has just been read, when no token
has been looked for. -/
def keepComment (begin : Nat) (l : Lexer) : Lexer :=
  if l.started then l
  else { l with header := l.header ++ [(l.since begin).dropRightWhile (· == 13)] }

theorem reaches_keepComment (begin : Nat) (l : Lexer) : l.Reaches (l.keepComment begin) := by
  unfold keepComment
  split <;> exact ⟨rfl, Nat.le_refl _⟩

/-- Moves over blanks and comments. -/
def skipSpace (l : Lexer) : Lexer :=
  if _h : l.off < l.source.length then
    if isBlank (l.peek 0) then skipSpace l.advance
    else if _hslash : l.peek 0 = 47 ∧ l.peek 1 = 47 then
      skipSpace (l.toLineEnd.keepComment l.off)
    else l
  else l
termination_by l.source.length - l.off
decreasing_by
  · have := off_lt_advance _h
    show l.source.length - l.advance.off < l.source.length - l.off
    omega
  · have hmore : (l.peek 0 != Bytes.newline) = true := by rw [_hslash.1]; decide
    have hline : l.off < l.toLineEnd.off := off_lt_advanceWhile _h hmore
    have hkept := l.toLineEnd.reaches_keepComment l.off
    have hsource := hkept.source.trans (reaches_advanceWhile _ l).source
    have hoff := hkept.off
    rw [hsource]
    omega

theorem reaches_skipSpace (l : Lexer) : l.Reaches l.skipSpace := by
  fun_induction skipSpace l with
  | case1 l _ _ ih => exact l.reaches_advance.trans ih
  | case2 l _ _ _ ih =>
    exact ((reaches_advanceWhile _ l).trans (reaches_keepComment l.off _)).trans ih
  | case3 l | case4 l => exact .refl l

/-- The token from where the lexer `l` stands to where it has come since. -/
def token (l : Lexer) (kind : TokenKind) (l' : Lexer) : Token × Lexer :=
  (⟨kind, l'.since l.off, ⟨l.pos, l'.pos⟩⟩, l')

/-- The failure of a number whose digits are missing where the lexer has come to. -/
def malformed (l l' : Lexer) : Failure :=
  ⟨.parse, ⟨l.pos, l'.pos⟩, "malformed float literal " ++ Bytes.quoted (l'.since l.off)⟩

/-- Moves over digits. -/
def digits (l : Lexer) : Lexer := l.advanceWhile fun l => Bytes.isDigit (l.peek 0)

/-- Moves over a sign, if there is one. -/
def sign (l : Lexer) : Lexer := if l.peek 0 = 43 ∨ l.peek 0 = 45 then l.advance else l

/-- Moves over the exponent of a number, if there is one; fails where its digits
are missing. -/
def exponent (l : Lexer) : Except Lexer Lexer :=
  if l.peek 0 = 101 ∨ l.peek 0 = 69 then
    let signed := l.advance.sign
    if Bytes.isDigit (signed.peek 0) then .ok signed.digits else .error signed
  else .ok l

/-- Reads a number. -/
def number (l : Lexer) : Except Failure (Token × Lexer) :=
  let whole := l.digits
  if whole.peek 0 = 46 then
    let point := whole.advance
    if Bytes.isDigit (point.peek 0) then
      match point.digits.exponent with
      | .ok l' => .ok (l.token .float l')
      | .error l' => .error (l.malformed l')
    else .error (l.malformed point)
  else .ok (l.token .int whole)

/-- Reads an identifier or a keyword. -/
def word (l : Lexer) : Token × Lexer :=
  let l' := l.advanceWhile fun l => isIdentPart (CodePoint.decode l.rest).1
  match Keyword.ofText? (l'.since l.off) with
  | some k => l.token (.keyword k) l'
  | none => l.token .ident l'

/-- Reads a symbol. -/
def symbol? (l : Lexer) : Option (Token × Lexer) :=
  (Symbol.all.find? fun s => Bytes.startsWith (l.rest.take 2) s.text).map fun s =>
    l.token (.symbol s) (l.advanceBy s.text.length)

/-- Reads the token that starts where the lexer stands. -/
def readToken (l : Lexer) : Except Failure (Token × Lexer) :=
  let c := (CodePoint.decode l.rest).1
  if Bytes.isDigit (l.peek 0) then l.number
  else if isIdentStart c then .ok l.word
  else match l.symbol? with
    | some read => .ok read
    | none =>
      .error ⟨.parse, ⟨l.pos, l.advance.pos⟩, "unexpected character " ++ Bytes.quotedChar c⟩

/-- Moves to where the next token starts, from where on no comment is kept. -/
def toToken (l : Lexer) : Lexer := { l.skipSpace with started := true }

/-- Reads the next token, or none at the end of the source. -/
def next (l : Lexer) : Except Failure (Option Token × Lexer) :=
  if l.toToken.off < l.toToken.source.length then
    match l.toToken.readToken with
    | .ok (t, l') => .ok (some t, l')
    | .error failure => .error failure
  else .ok (none, l.toToken)

/-! Reading gets further. -/

theorem Reaches.digits {l l' : Lexer} (h : l.Reaches l') : l.Reaches l'.digits :=
  h.trans (reaches_advanceWhile _ l')

theorem Reaches.advance {l l' : Lexer} (h : l.Reaches l') : l.Reaches l'.advance :=
  h.trans (reaches_advance l')

theorem reaches_advanceBy (n : Nat) (l : Lexer) : l.Reaches (l.advanceBy n) := by
  induction n generalizing l with
  | zero => exact .refl l
  | succ n ih => exact l.reaches_advance.trans (ih l.advance)

theorem Reaches.sign {l l' : Lexer} (h : l.Reaches l') : l.Reaches l'.sign := by
  unfold Lexer.sign
  split
  · exact h.advance
  · exact h

theorem reaches_exponent {l l' : Lexer} (h : l.exponent = .ok l') : l.Reaches l' := by
  unfold exponent at h
  split at h
  · dsimp only at h
    split at h
    · cases h
      exact l.reaches_advance.sign.digits
    · cases h
  · cases h
    exact .refl l

theorem reaches_number {l l' : Lexer} {t : Token} (h : l.number = .ok (t, l')) :
    l.digits.Reaches l' := by
  unfold number at h
  dsimp only at h
  split at h
  · split at h
    · split at h
      · next hexp =>
        cases h
        exact ((Reaches.refl _).advance.digits).trans (reaches_exponent hexp)
      · cases h
    · cases h
  · cases h
    exact .refl _

/-- A token takes at least one byte. -/
theorem readToken_reaches {l l' : Lexer} {t : Token} (hoff : l.off < l.source.length)
    (h : l.readToken = .ok (t, l')) : l.Reaches l' ∧ l.off < l'.off := by
  unfold readToken at h
  dsimp only at h
  split at h
  · next hdigit =>
    have hdigits : l.off < l.digits.off := off_lt_advanceWhile hoff hdigit
    have hrest := reaches_number h
    exact ⟨(Reaches.refl l).digits.trans hrest, Nat.lt_of_lt_of_le hdigits hrest.off⟩
  · split at h
    · next hstart =>
      have hpart : isIdentPart (CodePoint.decode l.rest).1 = true := by
        rw [isIdentPart, hstart, Bool.true_or]
      have hl' : (l.advanceWhile fun l => isIdentPart (CodePoint.decode l.rest).1) = l' := by
        have hword := congrArg Prod.snd (Except.ok.inj h)
        unfold word at hword
        dsimp only at hword
        split at hword <;> exact hword
      rw [← hl']
      exact ⟨reaches_advanceWhile _ l, off_lt_advanceWhile hoff hpart⟩
    · split at h
      · next hsymbol =>
        cases h
        unfold symbol? at hsymbol
        obtain ⟨s, -, hread⟩ := Option.map_eq_some_iff.mp hsymbol
        cases hread
        have hpos : 0 < s.text.length := by cases s <;> decide
        obtain ⟨n, hn⟩ := Nat.exists_eq_add_of_lt hpos
        rw [hn, Nat.zero_add]
        exact ⟨reaches_advanceBy _ l,
          Nat.lt_of_lt_of_le (off_lt_advance hoff) (reaches_advanceBy n l.advance).off⟩
      · cases h

theorem reaches_toToken (l : Lexer) : l.Reaches l.toToken :=
  ⟨l.reaches_skipSpace.source, l.reaches_skipSpace.off⟩

/-- A token that was read is behind the lexer, and what it took is of the source. -/
theorem next_reaches {l l' : Lexer} {t : Token} (h : l.next = .ok (some t, l')) :
    l.Reaches l' ∧ l.off < l.source.length ∧ l.off < l'.off := by
  unfold next at h
  split at h
  · next hoff =>
    split at h
    · next hread =>
      cases h
      obtain ⟨hreach, hlt⟩ := readToken_reaches hoff hread
      have hskip := l.reaches_toToken
      have hle := hskip.off
      rw [hskip.source] at hoff
      exact ⟨hskip.trans hreach, by omega, by omega⟩
    · cases h
  · cases h

/-- Reads tokens up to the end of the source. -/
def scan (l : Lexer) : Except Failure (List Token × Lexer) :=
  match _hnext : l.next with
  | .error failure => .error failure
  | .ok (none, l') => .ok ([], l')
  | .ok (some t, l') =>
    match scan l' with
    | .error failure => .error failure
    | .ok (tokens, last) => .ok (t :: tokens, last)
termination_by l.source.length - l.off
decreasing_by
  obtain ⟨hreach, hwithin, hless⟩ := next_reaches _hnext
  rw [hreach.source]
  omega

/-- A source cut into tokens: the tokens, where the source ends, and the comments
before the first token. -/
structure Lexed where
  tokens : List Token
  finish : Point
  header : List Bytes

/-- Cuts a source into tokens. -/
def tokenize (source : Bytes) : Except Failure Lexed :=
  match (start source).scan with
  | .error failure => .error failure
  | .ok (tokens, last) => .ok { tokens, finish := last.pos, header := last.header }

/-- The text held by comment lines: each line without its marker and one space. -/
def commentText (lines : List Bytes) : Bytes :=
  lines.flatMap fun line => (line.trimPrefix "//").trimPrefix " " ++ [Bytes.newline]

end Lexer
end Signum
