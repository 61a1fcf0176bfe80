import Signum.Syntax.Lexer
import Signum.Proofs.Text.Decoding
import Mathlib.Data.List.DropRight
/- Where a lexer is.

   A lexer moves its offset and its place on by code points. A line feed is a code point of its
   own, so it never passes the end of a line unseen, and its place is the one that is counted from
   the start of the source: how many lines end before it, and how many bytes stand between the last
   of these ends and it (`Point.following`). `Moved` says which bytes a lexer has come over; every
   function of the lexer is a sequence of such moves, and `Counted`, that the counters are right, is
   kept by each of them. -/
namespace Signum

namespace Point

/-- The place after some text of a source: the number of lines that ended, and the number of
bytes since. -/
def following (text : Bytes) : Point :=
  ⟨text.count Bytes.newline, (text.rtakeWhile (· != Bytes.newline)).length⟩

theorem following_concat (text : Bytes) (b : UInt8) :
    following (text ++ [b]) = (following text).step b := by
  unfold following step
  rw [List.count_append, List.rtakeWhile_concat]
  by_cases hb : b = Bytes.newline
  · subst hb
    simp
  · simp [hb]

theorem after_append (p : Point) (text more : Bytes) :
    p.after (text ++ more) = (p.after text).after more :=
  List.foldl_append

/-- Moving byte by byte comes to the place that is counted. -/
theorem following_append (before text : Bytes) :
    following (before ++ text) = (following before).after text := by
  induction text using List.reverseRecOn with
  | nil => rw [List.append_nil]; rfl
  | append_singleton text b ih =>
    rw [← List.append_assoc, following_concat, ih, after_append]
    rfl

theorem following_eq (text : Bytes) : following text = origin.after text :=
  following_append [] text

/-- In a line the column counts the bytes. -/
theorem after_line {text : Bytes} (h : Bytes.newline ∉ text) (p : Point) :
    p.after text = ⟨p.row, p.column + text.length⟩ := by
  induction text generalizing p with
  | nil => rfl
  | cons b text ih =>
    rw [List.mem_cons, not_or] at h
    show (p.step b).after text = _
    rw [ih h.2, step, if_neg (fun hb => h.1 hb.symm)]
    simp only [List.length_cons]
    congr 1
    omega

/-- Moving over a code point is moving over its bytes. -/
theorem after_decode {x : Bytes} {c : CodePoint} {w : Nat} (h : CodePoint.decode x = (c, w))
    (p : Point) :
    p.after (x.take w) = if c = 10 then ⟨p.row + 1, 0⟩ else ⟨p.row, p.column + w⟩ := by
  rcases CodePoint.decode_newline h with ⟨rfl, htake⟩ | ⟨hc, hline⟩
  · rw [htake, if_pos rfl]
    rfl
  · rw [after_line hline, if_neg hc]
    cases x with
    | nil =>
      cases h
      rfl
    | cons a rest => rw [CodePoint.length_take_decode (List.cons_ne_nil a rest) h]

end Point

namespace Lexer

/-- The lexer has come over the bytes to where `l'` stands. -/
structure Moved (l l' : Lexer) (bs : Bytes) : Prop where
  source : l'.source = l.source
  off : l'.off = l.off + bs.length
  rest : l.rest = bs ++ l'.rest
  pos : l'.pos = l.pos.after bs

namespace Moved

variable {l l' l'' : Lexer} {bs cs : Bytes}

theorem refl (l : Lexer) : l.Moved l [] := ⟨rfl, rfl, rfl, rfl⟩

theorem trans (h : l.Moved l' bs) (h' : l'.Moved l'' cs) : l.Moved l'' (bs ++ cs) where
  source := h'.source.trans h.source
  off := by rw [h'.off, h.off, List.length_append, Nat.add_assoc]
  rest := by rw [h.rest, h'.rest, List.append_assoc]
  pos := by rw [h'.pos, h.pos, Point.after_append]

theorem front (h : l.Moved l' bs) : l.rest.take bs.length = bs := by
  rw [h.rest, List.take_left]

/-- The bytes are those of the source between the two offsets. -/
theorem since (h : l.Moved l' bs) : l'.since l.off = bs := by
  rw [Lexer.since, h.source, h.off, List.drop_take, Nat.add_sub_cancel_left]
  exact h.front

theorem take (h : l.Moved l' bs) : l'.source.take l'.off = l.source.take l.off ++ bs := by
  rw [h.source, h.off, List.take_add]
  exact congrArg _ h.front

end Moved

/-- The counters of a lexer are right: it stands within the source, at the place that is counted
from the start. -/
structure Counted (l : Lexer) : Prop where
  off : l.off ≤ l.source.length
  pos : l.pos = .following (l.source.take l.off)

theorem start_counted (source : Bytes) : (start source).Counted := ⟨Nat.zero_le _, rfl⟩

/-- Moving keeps the counters right. -/
theorem Moved.counted {l l' : Lexer} {bs : Bytes} (h : l.Moved l' bs) (hl : l.Counted) :
    l'.Counted where
  off := by
    have hlength := congrArg List.length h.rest
    rw [Lexer.rest, List.length_drop, List.length_append] at hlength
    have := hl.off
    rw [h.source, h.off]
    omega
  pos := by rw [h.take, Point.following_append, ← hl.pos, h.pos]

/-- At the end of the source everything has been counted. -/
theorem Counted.finish {l : Lexer} (h : l.Counted) (hrest : l.rest = []) :
    l.pos = .following l.source := by
  rw [h.pos, List.take_of_length_le (List.drop_eq_nil_iff.mp hrest)]

theorem off_lt_iff (l : Lexer) : l.off < l.source.length ↔ l.rest ≠ [] := by
  rw [rest, ne_eq, List.drop_eq_nil_iff, Nat.not_le]

theorem peek_eq (l : Lexer) (n : Nat) : l.peek n = (l.rest[n]?).getD 0 := by
  rw [peek, rest, List.getElem?_drop]

theorem peek_cons {l : Lexer} {a : UInt8} {tail : Bytes} (h : l.rest = a :: tail) :
    l.peek 0 = a := by
  rw [peek_eq, h]
  rfl

theorem peek_nil {l : Lexer} (h : l.rest = []) : l.peek 0 = 0 := by
  rw [peek_eq, h]
  rfl

/-- A lexer that has come over the bytes and is otherwise as it was. -/
structure MovedOnly (l l' : Lexer) (bs : Bytes) : Prop extends Moved l l' bs where
  header : l'.header = l.header
  started : l'.started = l.started

theorem MovedOnly.refl (l : Lexer) : l.MovedOnly l [] := ⟨.refl l, rfl, rfl⟩

theorem MovedOnly.trans {l l' l'' : Lexer} {bs cs : Bytes} (h : l.MovedOnly l' bs)
    (h' : l'.MovedOnly l'' cs) : l.MovedOnly l'' (bs ++ cs) :=
  ⟨h.toMoved.trans h'.toMoved, h'.header.trans h.header, h'.started.trans h.started⟩

/-- The lexer moves over the code point that comes next. -/
theorem advance_moved {l : Lexer} {c : CodePoint} {w : Nat}
    (h : CodePoint.decode l.rest = (c, w)) : l.MovedOnly l.advance (l.rest.take w) := by
  have hlength : (l.rest.take w).length = w := by
    by_cases hnil : l.rest = []
    · rw [hnil] at h ⊢
      cases h
      rfl
    · exact CodePoint.length_take_decode hnil h
  unfold advance
  rw [h]
  refine ⟨⟨rfl, ?_, ?_, ?_⟩, rfl, rfl⟩
  · rw [hlength]
  · show l.rest = l.rest.take w ++ l.source.drop (l.off + w)
    rw [← List.drop_drop]
    exact (List.take_append_drop w l.rest).symm
  · rw [Point.after_decode h]

/-- The lexer moves over a byte that is a code point of its own. -/
theorem advance_byte {l : Lexer} {a : UInt8} {tail : Bytes} (h : l.rest = a :: tail)
    (ha : a < 0x80) : l.MovedOnly l.advance [a] := by
  have hdecode : CodePoint.decode l.rest = (a.toNat, 1) := by
    rw [h, CodePoint.decode_ascii ha]
  have hmoved := advance_moved hdecode
  rwa [h] at hmoved

theorem MovedOnly.rest_cons {l l' : Lexer} {a : UInt8} {tail : Bytes} (h : l.MovedOnly l' [a])
    (hrest : l.rest = a :: tail) : l'.rest = tail :=
  (List.cons.inj (h.rest.symm.trans hrest)).2

end Lexer
end Signum
