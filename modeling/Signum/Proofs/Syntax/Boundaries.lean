import Signum.Proofs.Syntax.Layout
import Signum.Proofs.Text.Clusters
/- Tokens stand between code points.

   A source is any bytes, and in a comment they may be read in one way from the start of the
   line and in another from elsewhere. Outside of comments that does not happen: what stands
   before a token is sealed, as its words are made of whole code points and its gaps end in
   ASCII bytes. Only the gap at the end of a source may end in the middle of a code point.
   So every place that the lexer hands out parts the code points of the source
   (`Point.Parts`). -/
namespace Signum

open CodePoint (Sealed)

/-- The place parts the code points of a source: those before it are read as such whatever
follows, unless nothing follows. -/
def Point.Parts (source : Bytes) (p : Point) : Prop :=
  ∃ before after, source = before ++ after ∧ p = .following before ∧ (Sealed before ∨ after = [])

namespace Lexer

/-! Words. -/

theorem ident_sealed (x : Bytes) : Sealed (x.take (identLength x)) := by
  fun_induction identLength x with
  | case1 => exact .nil
  | case2 a tail c w hdec hpart ih =>
    obtain ⟨n, rfl, -⟩ := CodePoint.decode_takes (List.cons_ne_nil a tail) hdec
    rw [List.take_add]
    exact (Sealed.single hdec (ne_replacement_of_part hpart)).append ih
  | case3 => exact .nil

theorem IsExponent.ascii {x : Bytes} (h : IsExponent x) : ∀ b ∈ x, b < 0x80 := by
  rcases h with rfl | ⟨e, sign, ds, rfl, he, hsign, -, hds⟩
  · simp
  · intro b hb
    rcases List.mem_cons.mp hb with rfl | hb
    · rcases he with rfl | rfl <;> decide
    · rcases List.mem_append.mp hb with hb | hb
      · have hmark : b = 43 ∨ b = 45 := by
          rcases hsign with rfl | rfl | rfl <;> simp at hb <;> simp [hb]
        rcases hmark with rfl | rfl <;> decide
      · exact ascii_of_digit (hds b hb)

theorem IsFloat.ascii {x : Bytes} (h : IsFloat x) : ∀ b ∈ x, b < 0x80 := by
  obtain ⟨ds, fs, e, rfl, hds, hfs, -, he⟩ := h
  intro b hb
  rcases List.mem_append.mp hb with hb | hb
  · exact ascii_of_digit (hds b hb)
  · rcases List.mem_cons.mp hb with rfl | hb
    · decide
    · rcases List.mem_append.mp hb with hb | hb
      · exact ascii_of_digit (hfs b hb)
      · exact he.ascii b hb

/-- A number is made of ASCII bytes. -/
theorem numeral_ascii {x : Bytes} {kind : TokenKind} {n : Nat} (h : numeral x = .ok (kind, n)) :
    ∀ b ∈ x.take n, b < 0x80 := by
  rcases numeral_kind h with rfl | rfl
  · unfold numeral at h
    dsimp only at h
    split at h
    · split at h
      · cases h
      · split at h <;> cases h
    · cases h
      exact fun b hb => ascii_of_digit (take_digitsLength x b hb)
  · exact (numeral_take h).2.ascii

theorem symbol_ne_nil (s : Symbol) : s.text ≠ [] := by
  rw [symbol_text]
  cases s <;> simp

theorem identLength_pos {a : UInt8} {rest : Bytes} {c : CodePoint} {w : Nat}
    (hdec : CodePoint.decode (a :: rest) = (c, w)) (hstart : isIdentStart c = true) :
    0 < identLength (a :: rest) := by
  obtain ⟨n, rfl, -⟩ := CodePoint.decode_takes (List.cons_ne_nil a rest) hdec
  rw [identLength_eq (List.cons_ne_nil a rest) hdec, if_pos (isIdentPart_of_start hstart)]
  exact Nat.lt_of_lt_of_le (Nat.succ_pos n) (Nat.le_add_right _ _)

/-- The bytes that the lexer takes for a token. -/
theorem word_eq_take (a : UInt8) (rest : Bytes) {n : Nat} (hn : 0 < n) :
    a :: rest.take (n - 1) = (a :: rest).take n := by
  obtain ⟨m, rfl⟩ := Nat.exists_eq_add_one.mpr hn
  rfl

/-- The bytes of a token are sealed. -/
theorem lexeme_sealed {a : UInt8} {rest : Bytes} {kind : TokenKind} {n : Nat}
    (h : lexeme (a :: rest) = .ok (kind, n)) : Sealed (a :: rest.take (n - 1)) := by
  obtain ⟨⟨c, w⟩, hdec⟩ : ∃ r, CodePoint.decode (a :: rest) = r := ⟨_, rfl⟩
  rw [lexeme_eq hdec] at h
  split at h
  · next hdigit =>
    have ha := CodePoint.ascii_of_decode hdec hdigit.1
    refine .ascii (List.forall_mem_cons.mpr ⟨ha, fun b hb => ?_⟩)
    cases n with
    | zero => simp at hb
    | succ n => exact numeral_ascii h b (List.mem_cons_of_mem a hb)
  split at h
  · next hstart =>
    cases h
    rw [word_eq_take a rest (identLength_pos hdec hstart)]
    exact ident_sealed (a :: rest)
  · split at h
    · next s hs =>
      cases h
      have hstarts : Bytes.startsWith (a :: rest) s.text = true := by
        simpa using List.find?_some hs
      rw [word_eq_take a rest (List.length_pos_iff.mpr (symbol_ne_nil s)), startsWith_eq hstarts]
      exact .ascii (symbol_ascii s)
    · cases h

/-! Gaps. -/

/-- A gap that is not the last of a source is sealed. -/
theorem Between.sealed {last : Prop} {text : Bytes} {comments : List Bytes}
    (h : Between last text comments) (hlast : ¬last) : Sealed text := by
  induction h with
  | nil => exact .nil
  | @blank b text comments hb _ ih =>
    have hblank : Sealed [b] := by
      apply Sealed.ascii
      rcases hb with rfl | rfl | rfl | rfl <;> simp
    exact hblank.append ih
  | @comment body text comments _ hend _ ih =>
    rcases hend with hnext | ⟨h, -⟩
    · obtain ⟨tail, rfl⟩ := List.head?_eq_some_iff.mp hnext
      have hnewline : Sealed [Bytes.newline] := Sealed.concat_ascii [] (by decide)
      have htail : Sealed tail := hnewline.of_append ih
      have hline : Sealed (47 :: 47 :: body ++ [Bytes.newline]) := .concat_ascii _ (by decide)
      simpa using hline.append htail
    · exact absurd h hlast

theorem gap_sealed (text : Bytes) : Sealed (gap text).text ∨ (gap text).rest = [] := by
  by_cases hlast : (gap text).rest = []
  · exact .inr hlast
  · exact .inl ((gap_between text).2.sealed hlast)

/-! Places. -/

/-- What holds of the places in what cutting a text gives: of the start of every token and of
the end, or of the start of the problem. -/
def Places (P : Point → Prop) : Except Failure (List Token × Point) → Prop
  | .ok (tokens, finish) => (∀ t ∈ tokens, P t.span.start) ∧ P finish
  | .error failure => P failure.span.start

/-- Cutting a text gives places that part its code points. -/
theorem tokensFrom_parts (before : Bytes) : (text : Bytes) → Sealed before ∨ text = [] →
    Places (Point.Parts (before ++ text)) (tokensFrom (.following before) text)
  | [], _ => by
    rw [tokensFrom]
    exact ⟨by simp, before, [], rfl, rfl, .inr rfl⟩
  | a :: rest, hbefore => by
    have hbefore : Sealed before := hbefore.resolve_right (List.cons_ne_nil a rest)
    have hhere : (Point.following before).Parts (before ++ a :: rest) :=
      ⟨before, a :: rest, rfl, rfl, .inl hbefore⟩
    rw [tokensFrom]
    split
    · next fault _ => cases fault <;> exact hhere
    · next kind n hlex =>
      dsimp only
      have hshorter : (gap (rest.drop (n - 1))).rest.length ≤ rest.length :=
        Nat.le_trans (rest_gap_le _) (by simp)
      have hword := lexeme_sealed hlex
      have hgap := gap_sealed (rest.drop (n - 1))
      have hsplit := (gap_between (rest.drop (n - 1))).1
      generalize gap (rest.drop (n - 1)) = g at hgap hsplit hshorter ⊢
      generalize hwordEq : a :: rest.take (n - 1) = word at hword ⊢
      have htext : before ++ a :: rest = before ++ (word ++ g.text) ++ g.rest := by
        rw [List.append_assoc, List.append_assoc, ← hsplit, ← hwordEq, List.cons_append,
          List.take_append_drop]
      rw [← Point.following_append, ← Point.following_append, List.append_assoc]
      -- the word and the gap are sealed, so the rest is cut after a sealed text again
      have hrest := tokensFrom_parts (before ++ (word ++ g.text)) g.rest
        (hgap.imp_left fun hg => hbefore.append (hword.append hg))
      rw [← htext] at hrest
      cases htokens : tokensFrom (.following (before ++ (word ++ g.text))) g.rest with
      | error failure =>
        rw [htokens] at hrest
        exact hrest
      | ok r =>
        rw [htokens] at hrest
        exact ⟨List.forall_mem_cons.mpr ⟨hhere, hrest.1⟩, hrest.2⟩
termination_by text => text.length
decreasing_by simp only [List.length_cons]; omega

theorem tokensFrom_gap_parts (source : Bytes) : Places (Point.Parts source)
    (tokensFrom (Point.origin.after (gap source).text) (gap source).rest) := by
  have hplaces := tokensFrom_parts (gap source).text (gap source).rest (gap_sealed source)
  rwa [← (gap_between source).1, Point.following_eq] at hplaces

theorem tokenize_ok_parts {source : Bytes} {lexed : Lexed} (h : tokenize source = .ok lexed) :
    (∀ t ∈ lexed.tokens, t.span.start.Parts source) ∧ lexed.finish.Parts source := by
  have hplaces := tokensFrom_gap_parts source
  rw [tokenize_eq_slices] at h
  unfold slices at h
  dsimp only at h
  split at h
  · cases h
  · next tokens finish heq =>
    cases h
    rw [heq] at hplaces
    exact hplaces

theorem tokenize_error_parts {source : Bytes} {failure : Failure}
    (h : tokenize source = .error failure) : failure.span.start.Parts source := by
  have hplaces := tokensFrom_gap_parts source
  rw [tokenize_eq_slices] at h
  unfold slices at h
  dsimp only at h
  split at h
  · next heq =>
    cases h
    rw [heq] at hplaces
    exact hplaces
  · cases h

end Lexer
end Signum
