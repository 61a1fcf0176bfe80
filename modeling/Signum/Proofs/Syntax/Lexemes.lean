import Signum.Proofs.Syntax.Slices
/- Texts that are cut as they were written.

   A token ends where it cannot go on, so its text is cut again in the same way in front of
   anything that cannot extend it: a blank, a semicolon or a closing parenthesis after a word
   or a number, and anything but an equals sign after the symbols that it would lengthen.
   `Genuine` says so of a kind and a text, and the identifiers and float literals of a source
   are genuine. `Lexes text words` says that a text is cut into these words, whatever its
   place; it is proved one word and one blank at a time. -/
namespace Signum

/-- What a token is, without its place. -/
abbrev Lexeme : Type := TokenKind × Bytes

def Token.lexeme (t : Token) : Lexeme := (t.kind, t.text)

namespace Lexer

/-- What follows cannot extend a word or a number: nothing, a blank, a semicolon or a closing
parenthesis. -/
def Delimits (rest : Bytes) : Prop := ∀ b ∈ rest.head?, b = 32 ∨ b = 59 ∨ b = 41

/-- The text is cut as this kind of token in front of what cannot extend it. -/
def Genuine (kind : TokenKind) (text : Bytes) : Prop :=
  text ≠ [] ∧ ∀ rest, Delimits rest → lexeme (text ++ rest) = .ok (kind, text.length)

/-! Identifiers and keywords. -/

theorem isIdentPart_of_start {c : CodePoint} (h : isIdentStart c = true) : isIdentPart c = true := by
  unfold isIdentPart
  rw [h, Bool.true_or]

/-- Bytes that are no code point are no part of a word. -/
theorem ne_replacement_of_part {c : CodePoint} (h : isIdentPart c = true) :
    c ≠ CodePoint.replacement := by
  rintro rfl
  exact absurd h (by decide +kernel)

theorem identLength_delimited {rest : Bytes} (h : Delimits rest) : identLength rest = 0 := by
  cases rest with
  | nil => rw [identLength]
  | cons b rest =>
    have hb := h b rfl
    have hascii : b < 0x80 := by
      rcases hb with rfl | rfl | rfl <;> decide
    have hpart : isIdentPart b.toNat = false := by
      rcases hb with rfl | rfl | rfl <;> decide +kernel
    rw [identLength_eq (List.cons_ne_nil b rest) (CodePoint.decode_ascii hascii rest), hpart]
    rfl

theorem identLength_le (x : Bytes) : identLength x ≤ x.length := by
  fun_induction identLength x with
  | case1 => simp
  | case2 a rest c w hdec hpart ih =>
    obtain ⟨n, rfl, hw⟩ := CodePoint.decode_takes (List.cons_ne_nil a rest) hdec
    simp only [List.length_drop, List.length_cons] at ih hw ⊢
    omega
  | case3 => simp

/-- A run of identifier characters is cut again in front of what does not go on with it. -/
theorem identLength_append {rest : Bytes} (hrest : Delimits rest) (x : Bytes) :
    identLength (x.take (identLength x) ++ rest) = identLength x := by
  fun_induction identLength x with
  | case1 => rw [List.take_zero, List.nil_append, identLength_delimited hrest]
  | case2 a tail c w hdec hpart ih =>
    have hlen := CodePoint.length_take_decode (List.cons_ne_nil a tail) hdec
    obtain ⟨n, rfl, -⟩ := CodePoint.decode_takes (List.cons_ne_nil a tail) hdec
    generalize hm : identLength (tail.drop (n + 1 - 1)) = m at ih ⊢
    have hc := ne_replacement_of_part hpart
    -- the first character, then the others, then what follows
    have hsplit : (a :: tail).take (n + 1 + m) ++ rest =
        (a :: tail).take (n + 1) ++ ((tail.drop n).take m ++ rest) := by
      rw [List.take_add, List.append_assoc]
      rfl
    rw [hsplit, identLength_eq (by simp) (CodePoint.decode_append hdec hc _), if_pos hpart]
    rw [List.drop_append_of_le_length (by omega), List.drop_of_length_le (by omega)]
    rw [List.nil_append]
    exact congrArg (n + 1 + ·) ih
  | case3 => rw [List.take_zero, List.nil_append, identLength_delimited hrest]

theorem lexeme_eq {x : Bytes} {c : CodePoint} {w : Nat} (h : CodePoint.decode x = (c, w)) :
    lexeme x =
      if c < 128 ∧ Bytes.isDigit c.toUInt8 then numeral x
      else if isIdentStart c then .ok (wordKind (x.take (identLength x)), identLength x)
      else match Symbol.all.find? (fun s => x.startsWith s.text) with
        | some s => .ok (.symbol s, s.text.length)
        | none => .error (.unexpected c w) := by
  unfold lexeme wordKind
  cases Keyword.ofText? (x.take (identLength x)) <;> exact h ▸ rfl

theorem numeral_kind {x : Bytes} {kind : TokenKind} {n : Nat} (h : numeral x = .ok (kind, n)) :
    kind = .int ∨ kind = .float := by
  unfold numeral at h
  dsimp only at h
  split at h
  · split at h
    · cases h
    · split at h
      · cases h
        exact .inr rfl
      · cases h
  · cases h
    exact .inl rfl

/-- A word is cut again with the same kind. -/
theorem lexeme_word {x rest : Bytes} {kind : TokenKind} {n : Nat} (hx : x ≠ [])
    (h : lexeme x = .ok (kind, n)) (hkind : kind = .ident ∨ ∃ k, kind = .keyword k)
    (hrest : Delimits rest) :
    n ≤ x.length ∧ 0 < n ∧ lexeme (x.take n ++ rest) = .ok (kind, n) := by
  obtain ⟨⟨c, w⟩, hdec⟩ : ∃ r, CodePoint.decode x = r := ⟨_, rfl⟩
  rw [lexeme_eq hdec] at h
  split at h
  · rcases numeral_kind h with rfl | rfl <;> simp at hkind
  next hdigit =>
  split at h
  · next hstart =>
    obtain ⟨hk, hn⟩ : wordKind (x.take (identLength x)) = kind ∧ identLength x = n := by
      simpa using h
    have hpart := isIdentPart_of_start hstart
    have hlong : identLength x = w + identLength (x.drop w) := by
      rw [identLength_eq hx hdec, if_pos hpart]
    obtain ⟨m, rfl, -⟩ := CodePoint.decode_takes hx hdec
    have hle := identLength_le x
    rw [hn] at hk hlong hle
    refine ⟨hle, by omega, ?_⟩
    -- the first code point is read from its own bytes, which are cut off with the word
    have hfront : x.take n = x.take (m + 1) ++ (x.drop (m + 1)).take (n - (m + 1)) := by
      rw [← List.take_add]
      congr 1
      omega
    have hdec' : CodePoint.decode (x.take n ++ rest) = (c, m + 1) := by
      rw [hfront, List.append_assoc]
      exact CodePoint.decode_append hdec (ne_replacement_of_part hpart) _
    have hlength : identLength (x.take n ++ rest) = n := by
      rw [← hn]
      exact identLength_append hrest x
    have htake : (x.take n ++ rest).take n = x.take n := by
      rw [List.take_append_of_le_length (by simp [hle]), List.take_take, Nat.min_self]
    rw [lexeme_eq hdec', if_neg hdigit, if_pos hstart, hlength, htake, hk]
  · split at h
    · simp only [Except.ok.injEq, Prod.mk.injEq] at h
      obtain ⟨rfl, -⟩ := h
      simp at hkind
    · cases h

theorem keyword_genuine (k : Keyword) : Genuine (.keyword k) k.text := by
  have hne : k.text ≠ [] := by cases k <;> decide
  have hself : lexeme k.text = .ok (.keyword k, k.text.length) := by
    have hopt : (lexeme k.text).toOption = some (.keyword k, k.text.length) := by
      cases k <;> decide +kernel
    cases hlex : lexeme k.text with
    | error fault =>
      rw [hlex] at hopt
      cases hopt
    | ok r =>
      rw [hlex] at hopt
      exact congrArg Except.ok (Option.some.inj hopt)
  refine ⟨hne, fun rest hrest => ?_⟩
  have h := (lexeme_word hne hself (.inr ⟨k, rfl⟩) hrest).2.2
  rwa [List.take_length] at h

/-! Numbers. -/

theorem takeWhile_all (p : UInt8 → Bool) (xs : Bytes) : ∀ b ∈ xs.takeWhile p, p b = true :=
  fun b hb => List.all_eq_true.mp List.all_takeWhile b hb

/-- Digits are counted up to what is none. -/
theorem digitsLength_append {ds rest : Bytes} (hds : ∀ b ∈ ds, Bytes.isDigit b = true)
    (hrest : ∀ b ∈ rest.head?, Bytes.isDigit b = false) :
    digitsLength (ds ++ rest) = ds.length :=
  congrArg List.length (takeWhile_run hds hrest)

theorem digitsLength_le (x : Bytes) : digitsLength x ≤ x.length :=
  (List.takeWhile_prefix Bytes.isDigit).length_le

theorem take_digitsLength (x : Bytes) :
    ∀ b ∈ x.take (digitsLength x), Bytes.isDigit b = true := by
  rw [digitsLength, take_takeWhile]
  exact takeWhile_all Bytes.isDigit x

theorem not_digit_of_delimits {rest : Bytes} (h : Delimits rest) :
    ∀ b ∈ rest.head?, Bytes.isDigit b = false := by
  intro b hb
  rcases h b hb with rfl | rfl | rfl <;> decide

/-- The text of an exponent, or none. -/
def IsExponent (text : Bytes) : Prop :=
  text = [] ∨ ∃ e sign ds, text = e :: (sign ++ ds) ∧ (e = 101 ∨ e = 69) ∧
    (sign = [] ∨ sign = [43] ∨ sign = [45]) ∧ ds ≠ [] ∧ ∀ b ∈ ds, Bytes.isDigit b = true

theorem take_signLength (x : Bytes) :
    signLength x ≤ x.length ∧ (x.take (signLength x) = [] ∨ x.take (signLength x) = [43] ∨
      x.take (signLength x) = [45]) := by
  cases x with
  | nil => exact ⟨Nat.le_refl _, .inl rfl⟩
  | cons s x =>
    rw [signLength]
    split
    · next hs =>
      refine ⟨by simp, .inr ?_⟩
      rcases hs with rfl | rfl
      · exact .inl rfl
      · exact .inr rfl
    · exact ⟨Nat.zero_le _, .inl rfl⟩

theorem signLength_append {sign ds : Bytes} (hsign : sign = [] ∨ sign = [43] ∨ sign = [45])
    (hne : ds ≠ []) (hds : ∀ b ∈ ds, Bytes.isDigit b = true) (rest : Bytes) :
    signLength (sign ++ ds ++ rest) = sign.length := by
  rcases hsign with rfl | rfl | rfl
  · cases ds with
    | nil => exact absurd rfl hne
    | cons d ds =>
      have hd : ¬(d = 43 ∨ d = 45) := by
        rintro (rfl | rfl) <;> exact absurd (hds _ (List.mem_cons_self ..)) (by decide)
      simp [signLength, hd]
  · rfl
  · rfl

theorem exponentLength_take {x : Bytes} {m : Nat} (h : exponentLength x = .ok m) :
    m ≤ x.length ∧ IsExponent (x.take m) := by
  cases x with
  | nil =>
    cases h
    exact ⟨Nat.le_refl _, .inl rfl⟩
  | cons e rest =>
    rw [exponentLength_cons] at h
    split at h
    · next he =>
      split at h
      · cases h
      · next hds =>
        obtain ⟨hle, hsign⟩ := take_signLength rest
        have hall := take_digitsLength (rest.drop (signLength rest))
        have hshort := digitsLength_le (rest.drop (signLength rest))
        generalize digitsLength (rest.drop (signLength rest)) = n at *
        cases h
        rw [List.length_drop] at hshort
        refine ⟨by simp only [List.length_cons]; omega, .inr ?_⟩
        refine ⟨e, rest.take (signLength rest), (rest.drop (signLength rest)).take n, ?_, he, hsign,
          ?_, hall⟩
        · rw [show 1 + signLength rest + n = (signLength rest + n) + 1 by omega]
          rw [List.take_succ_cons, List.take_add]
        · intro hnil
          have hlength := congrArg List.length hnil
          rw [List.length_take, List.length_drop, List.length_nil] at hlength
          omega
    · cases h
      exact ⟨Nat.zero_le _, .inl rfl⟩

theorem exponentLength_append {x rest : Bytes} (hx : IsExponent x) (hrest : Delimits rest) :
    exponentLength (x ++ rest) = .ok x.length := by
  rcases hx with rfl | ⟨e, sign, ds, rfl, he, hsign, hne, hds⟩
  · cases rest with
    | nil => rfl
    | cons b rest =>
      have hb : ¬(b = 101 ∨ b = 69) := by
        rcases hrest b rfl with rfl | rfl | rfl <;> decide
      rw [List.nil_append, exponentLength_cons, if_neg hb]
      rfl
  · have hlen := signLength_append hsign hne hds rest
    have hrun : digitsLength (ds ++ rest) = ds.length :=
      digitsLength_append hds (not_digit_of_delimits hrest)
    have hpos : ds.length ≠ 0 := by simpa using hne
    rw [List.cons_append, exponentLength_cons, if_pos he, hlen, List.append_assoc]
    rw [List.drop_append_of_le_length (Nat.le_refl _), List.drop_length, List.nil_append, hrun]
    rw [if_neg hpos]
    simp only [List.length_cons, List.length_append]
    congr 1
    omega

/-- The text of a float literal. -/
def IsFloat (text : Bytes) : Prop :=
  ∃ ds fs e, text = ds ++ 46 :: (fs ++ e) ∧ (∀ b ∈ ds, Bytes.isDigit b = true) ∧
    (∀ b ∈ fs, Bytes.isDigit b = true) ∧ fs ≠ [] ∧ IsExponent e

theorem numeral_take {x : Bytes} {n : Nat} (h : numeral x = .ok (.float, n)) :
    n ≤ x.length ∧ IsFloat (x.take n) := by
  unfold numeral at h
  dsimp only at h
  split at h
  · next rest hdrop =>
    split at h
    · cases h
    · next hfs =>
      split at h
      · next m hexp =>
        cases h
        obtain ⟨hle, he⟩ := exponentLength_take hexp
        have hds := take_digitsLength x
        have hall := take_digitsLength rest
        have hwhole := digitsLength_le x
        have hfraction := digitsLength_le rest
        have hlength := congrArg List.length hdrop
        rw [List.length_drop, List.length_cons] at hlength
        rw [List.length_drop] at hle
        generalize digitsLength x = k at *
        generalize digitsLength rest = j at *
        refine ⟨by omega, x.take k, rest.take j, (rest.drop j).take m, ?_, hds, hall, ?_, he⟩
        · rw [show k + 1 + j + m = k + ((j + m) + 1) by omega, List.take_add, hdrop,
            List.take_succ_cons, List.take_add]
        · intro hnil
          have hzero := congrArg List.length hnil
          rw [List.length_take, List.length_nil] at hzero
          omega
      · cases h
  · cases h

theorem numeral_float {x rest : Bytes} (hx : IsFloat x) (hrest : Delimits rest) :
    numeral (x ++ rest) = .ok (.float, x.length) := by
  obtain ⟨ds, fs, e, rfl, hds, hfs, hne, he⟩ := hx
  -- neither the exponent nor what follows starts with a digit
  have hstop : ∀ b ∈ (e ++ rest).head?, Bytes.isDigit b = false := by
    rcases he with rfl | ⟨c, sign, gs, rfl, hc, -⟩
    · exact not_digit_of_delimits hrest
    · intro b hb
      obtain rfl : c = b := by simpa using hb
      rcases hc with rfl | rfl <;> decide
  have hwhole : digitsLength (ds ++ 46 :: (fs ++ (e ++ rest))) = ds.length := by
    refine digitsLength_append hds fun b hb => ?_
    obtain rfl : 46 = b := by simpa using hb
    decide
  have hfraction : digitsLength (fs ++ (e ++ rest)) = fs.length := digitsLength_append hfs hstop
  have hpos : fs.length ≠ 0 := by simpa using hne
  rw [List.append_assoc, List.cons_append, List.append_assoc]
  unfold numeral
  dsimp only
  rw [hwhole, List.drop_left]
  simp only
  rw [hfraction, List.drop_left, if_neg hpos, exponentLength_append he hrest]
  dsimp only
  simp only [List.length_append, List.length_cons]
  congr 2
  omega

theorem numeral_int {ds rest : Bytes} (hds : ∀ b ∈ ds, Bytes.isDigit b = true)
    (hrest : Delimits rest) : numeral (ds ++ rest) = .ok (.int, ds.length) := by
  have hwhole : digitsLength (ds ++ rest) = ds.length :=
    digitsLength_append hds (not_digit_of_delimits hrest)
  unfold numeral
  dsimp only
  rw [hwhole, List.drop_left]
  split
  · next tail =>
    have := hrest 46 rfl
    simp at this
  · rfl

/-- A text that starts with a digit is cut as a number. -/
theorem lexeme_numeral {a : UInt8} (h : Bytes.isDigit a = true) (x : Bytes) :
    lexeme (a :: x) = numeral (a :: x) := by
  have hle : a.toNat ≤ 57 := by
    simp only [Bytes.isDigit, Bool.and_eq_true, decide_eq_true_eq, UInt8.le_iff_toNat_le] at h
    exact h.2
  have hascii : a < 0x80 := by
    rw [UInt8.lt_iff_toNat_lt]
    simp only [UInt8.reduceToNat]
    omega
  have hsmall : a.toNat < 128 := by omega
  have hback : a.toNat.toUInt8 = a := by simp
  rw [lexeme_eq (CodePoint.decode_ascii hascii x), if_pos ⟨hsmall, by rw [hback, h]⟩]

theorem digits_genuine {ds : Bytes} (hne : ds ≠ []) (hds : ∀ b ∈ ds, Bytes.isDigit b = true) :
    Genuine .int ds := by
  refine ⟨hne, fun rest hrest => ?_⟩
  cases ds with
  | nil => exact absurd rfl hne
  | cons d ds =>
    rw [List.cons_append, lexeme_numeral (hds d (List.mem_cons_self ..)), ← List.cons_append]
    exact numeral_int hds hrest

theorem wordKind_ne_float (text : Bytes) : wordKind text ≠ .float := by
  unfold wordKind
  split <;> simp

/-- A float literal is a number with digits before the point. -/
theorem lexeme_float {x : Bytes} {n : Nat} (h : lexeme x = .ok (.float, n)) :
    n ≤ x.length ∧ ∃ d y, Bytes.isDigit d = true ∧ x.take n = d :: y ∧ IsFloat (d :: y) := by
  obtain ⟨⟨c, w⟩, hdec⟩ : ∃ r, CodePoint.decode x = r := ⟨_, rfl⟩
  rw [lexeme_eq hdec] at h
  split at h
  · next hdigit =>
    obtain ⟨hle, hfloat⟩ := numeral_take h
    refine ⟨hle, ?_⟩
    obtain ⟨ds, fs, e, htake, hds, hrest⟩ := hfloat
    cases ds with
    | nil =>
      -- the text would start with the point, which is no digit
      have hx := List.take_append_drop n x
      rw [htake, List.nil_append, List.cons_append] at hx
      rw [← hx, CodePoint.decode_ascii (by decide)] at hdec
      cases hdec
      exact absurd hdigit.2 (by decide)
    | cons d ds =>
      exact ⟨d, _, hds d (List.mem_cons_self ..), htake, ⟨d :: ds, fs, e, rfl, hds, hrest⟩⟩
  · split at h
    · simp only [Except.ok.injEq, Prod.mk.injEq] at h
      exact absurd h.1 (wordKind_ne_float _)
    · split at h
      · simp at h
      · cases h

/-- The tokens whose texts are kept are cut again as they were. -/
theorem lexeme_genuine {x : Bytes} {kind : TokenKind} {n : Nat} (hx : x ≠ [])
    (h : lexeme x = .ok (kind, n)) (hkind : kind = .ident ∨ kind = .float) :
    Genuine kind (x.take n) := by
  rcases hkind with rfl | rfl
  · have hword (rest : Bytes) (hrest : Delimits rest) := lexeme_word hx h (.inl rfl) hrest
    obtain ⟨hle, hpos, -⟩ := hword [] nofun
    have hlen : (x.take n).length = n := by simp [hle]
    refine ⟨?_, fun rest hrest => ?_⟩
    · intro hnil
      rw [hnil, List.length_nil] at hlen
      omega
    · rw [hlen]
      exact (hword rest hrest).2.2
  · obtain ⟨hle, d, y, hd, htake, hfloat⟩ := lexeme_float h
    rw [htake]
    refine ⟨List.cons_ne_nil d y, fun rest hrest => ?_⟩
    rw [List.cons_append, lexeme_numeral hd, ← List.cons_append]
    exact numeral_float hfloat hrest

/-! Symbols. -/

/-- What follows does not lengthen the symbol. -/
def Ends (s : Symbol) (rest : Bytes) : Prop :=
  s = .assign ∨ s = .lt ∨ s = .gt ∨ s = .bang → rest.head? ≠ some 61

theorem startsWith_single (x : Bytes) (b : UInt8) :
    Bytes.startsWith x [b] = decide (x.head? = some b) := by
  cases x with
  | nil => rfl
  | cons a x => simp [startsWith_cons, startsWith_nil]

theorem find_symbol {s : Symbol} {rest : Bytes} (h : Ends s rest) :
    Symbol.all.find? (fun s' => Bytes.startsWith (s.text ++ rest) s'.text) = some s := by
  cases s <;>
    simp_all [Ends, Symbol.all, symbol_text, startsWith_cons, startsWith_single]

/-- A text that starts like no word and no number is cut as a symbol. -/
theorem lexeme_punctuation {a : UInt8} (hascii : a < 0x80) (hdigit : Bytes.isDigit a = false)
    (hstart : isIdentStart a.toNat = false) (x : Bytes) :
    lexeme (a :: x) =
      match Symbol.all.find? (fun s => Bytes.startsWith (a :: x) s.text) with
      | some s => .ok (.symbol s, s.text.length)
      | none => .error (.unexpected a.toNat 1) := by
  have hback : a.toNat.toUInt8 = a := by simp
  rw [lexeme_eq (CodePoint.decode_ascii hascii x), hback, hdigit, hstart]
  simp

theorem lexeme_symbol {s : Symbol} {rest : Bytes} (h : Ends s rest) :
    lexeme (s.text ++ rest) = .ok (.symbol s, s.text.length) := by
  obtain ⟨a, x, htext, hascii, hdigit, hstart⟩ : ∃ a x, s.text = a :: x ∧ a < 0x80 ∧
      Bytes.isDigit a = false ∧ isIdentStart a.toNat = false := by
    cases s <;> exact ⟨_, _, symbol_text _, by decide, by decide, by decide +kernel⟩
  have hfind := find_symbol h
  rw [htext] at hfind ⊢
  rw [List.cons_append] at hfind ⊢
  rw [lexeme_punctuation hascii hdigit hstart, hfind]
  simp only [htext]

/-- No token starts with a blank. -/
theorem lexeme_blank {b : UInt8} (h : isBlank b = true) (rest : Bytes) {r : TokenKind × Nat} :
    lexeme (b :: rest) ≠ .ok r := by
  have hb := isBlank_iff.mp h
  have hfind : Symbol.all.find? (fun s => Bytes.startsWith (b :: rest) s.text) = none := by
    rcases hb with rfl | rfl | rfl | rfl <;> simp [Symbol.all, symbol_text, startsWith_cons]
  rw [lexeme_punctuation (by rcases hb with rfl | rfl | rfl | rfl <;> decide)
    (by rcases hb with rfl | rfl | rfl | rfl <;> decide)
    (by rcases hb with rfl | rfl | rfl | rfl <;> decide +kernel), hfind]
  simp

/-! Tokens of a source. -/

/-- What the text of a token of a source can be relied on for: a word or a float literal is cut
again as it was, and an integer literal has no sign. -/
structure Clean (t : Token) : Prop where
  genuine : t.kind = .ident ∨ t.kind = .float → Genuine t.kind t.text
  unsigned : t.kind = .int → t.text.head? ≠ some 45

theorem lexeme_clean {a : UInt8} {rest : Bytes} {kind : TokenKind} {n : Nat}
    (h : lexeme (a :: rest) = .ok (kind, n)) (span : Span) :
    Clean ⟨kind, a :: rest.take (n - 1), span⟩ := by
  refine ⟨fun hkind => ?_, fun hkind hminus => ?_⟩
  · have hgenuine := lexeme_genuine (List.cons_ne_nil a rest) h hkind
    cases n with
    | zero => exact absurd rfl hgenuine.1
    | succ n => exact hgenuine
  · obtain rfl : a = 45 := by simpa using hminus
    have hsymbol : lexeme ([45] ++ rest) = .ok (.symbol .minus, 1) :=
      lexeme_symbol (s := .minus) (by simp [Ends])
    rw [List.singleton_append, h] at hsymbol
    obtain rfl : kind = .int := hkind
    simp at hsymbol

/-! What a source is cut into. -/

/-- The text is cut into the tokens, the first of them at `p`, and ends at `finish`: each token is
a lexeme, and the next one stands behind the gap after it. -/
inductive Cutting : (p : Point) → (text : Bytes) → (tokens : List Token) → (finish : Point) → Prop
  | done (p : Point) : Cutting p [] [] p
  | token {p finish : Point} {a : UInt8} {rest : Bytes} {kind : TokenKind} {n : Nat}
      {tokens : List Token} (hlex : lexeme (a :: rest) = .ok (kind, n))
      (hrest : Cutting ((p.after (a :: rest.take (n - 1))).after (gap (rest.drop (n - 1))).text)
        (gap (rest.drop (n - 1))).rest tokens finish) :
      Cutting p (a :: rest)
        (⟨kind, a :: rest.take (n - 1), ⟨p, p.after (a :: rest.take (n - 1))⟩⟩ :: tokens) finish

theorem tokensFrom_cutting (p : Point) : (text : Bytes) → ∀ {tokens : List Token} {finish : Point},
    tokensFrom p text = .ok (tokens, finish) → Cutting p text tokens finish
  | [], tokens, finish, h => by
    rw [tokensFrom] at h
    cases h
    exact .done p
  | a :: rest, tokens, finish, h => by
    rw [tokensFrom] at h
    split at h
    · cases h
    · next kind n hlex =>
      dsimp only at h
      split at h
      · cases h
      · next tokens' finish' hrest =>
        cases h
        have hshorter : (gap (rest.drop (n - 1))).rest.length ≤ rest.length :=
          Nat.le_trans (rest_gap_le _) (by simp)
        exact .token hlex (tokensFrom_cutting _ _ hrest)
termination_by text => text.length
decreasing_by simp only [List.length_cons]; omega

/-- A source is cut behind its first gap, whose comments are the header. -/
theorem tokenize_cutting {source : Bytes} {lexed : Lexed} (h : tokenize source = .ok lexed) :
    Cutting (Point.origin.after (gap source).text) (gap source).rest lexed.tokens lexed.finish ∧
      lexed.header = (gap source).comments.map (Bytes.dropRightWhile (· == 13)) := by
  rw [tokenize_eq_slices] at h
  unfold slices at h
  dsimp only at h
  split at h
  · cases h
  · next tokens finish heq =>
    cases h
    exact ⟨tokensFrom_cutting _ _ heq, rfl⟩

theorem Cutting.clean {p finish : Point} {text : Bytes} {tokens : List Token}
    (h : Cutting p text tokens finish) : ∀ t ∈ tokens, Clean t := by
  induction h with
  | done p => exact List.forall_mem_nil _
  | token hlex _ ih => exact List.forall_mem_cons.mpr ⟨lexeme_clean hlex _, ih⟩

theorem tokenize_clean {source : Bytes} {lexed : Lexed} (h : tokenize source = .ok lexed) :
    ∀ t ∈ lexed.tokens, Clean t := (tokenize_cutting h).1.clean

/-! Texts. -/

/-- The text, which starts with no gap, is cut into these words. -/
def Cuts (text : Bytes) (words : List Lexeme) : Prop :=
  ∀ p, ∃ tokens finish, tokensFrom p text = .ok (tokens, finish) ∧
    tokens.map Token.lexeme = words

/-- After blanks, but no comments, the text is cut into these words. -/
def Lexes (text : Bytes) (words : List Lexeme) : Prop :=
  (gap text).comments = [] ∧ Cuts (gap text).rest words

theorem Lexes.nil : Lexes [] [] := by
  refine ⟨by rw [gap_nil], fun p => ⟨[], p, ?_, rfl⟩⟩
  rw [gap_nil, tokensFrom]

theorem Lexes.blank {b : UInt8} {rest : Bytes} {words : List Lexeme} (hb : isBlank b = true)
    (h : Lexes rest words) : Lexes (b :: rest) words := by
  unfold Lexes at h ⊢
  rw [gap_blank hb]
  exact h

/-- A word that is cut off the front, and then the others. -/
theorem Lexes.word {text rest : Bytes} {kind : TokenKind} {words : List Lexeme} (hne : text ≠ [])
    (hlex : lexeme (text ++ rest) = .ok (kind, text.length))
    (hslash : kind = .symbol .slash → rest.head? ≠ some 47) (h : Lexes rest words) :
    Lexes (text ++ rest) ((kind, text) :: words) := by
  cases text with
  | nil => exact absurd rfl hne
  | cons a text =>
    rw [List.cons_append] at hlex ⊢
    have hblank : ¬isBlank a = true := fun hb => lexeme_blank hb _ hlex
    have hcomment : ¬(a = 47 ∧ (text ++ rest).head? = some 47) := by
      rintro ⟨rfl, hnext⟩
      have hsymbol : lexeme ([47] ++ (text ++ rest)) = .ok (.symbol .slash, 1) :=
        lexeme_symbol (s := .slash) (by simp [Ends])
      rw [List.singleton_append, hlex] at hsymbol
      simp only [List.length_cons, Except.ok.injEq, Prod.mk.injEq] at hsymbol
      obtain ⟨hkind, hlen⟩ := hsymbol
      obtain rfl : text = [] := List.length_eq_zero_iff.mp (by omega)
      exact hslash hkind hnext
    rw [Lexes, gap_word hblank hcomment]
    refine ⟨rfl, fun p => ?_⟩
    obtain ⟨tokens, finish, htokens, hwords⟩ := h.2 ((p.after (a :: text)).after (gap rest).text)
    refine ⟨⟨kind, a :: text, ⟨p, p.after (a :: text)⟩⟩ :: tokens, finish, ?_, ?_⟩
    · rw [tokensFrom, hlex]
      simp only [List.length_cons, Nat.add_sub_cancel, List.take_left, List.drop_left]
      rw [htokens]
    · rw [List.map_cons, hwords]
      rfl

theorem Lexes.symbol {s : Symbol} {rest : Bytes} {words : List Lexeme} (hs : Ends s rest)
    (hslash : s = .slash → rest.head? ≠ some 47) (h : Lexes rest words) :
    Lexes (s.text ++ rest) ((.symbol s, s.text) :: words) := by
  refine Lexes.word ?_ (lexeme_symbol hs) (fun hk => hslash (TokenKind.symbol.inj hk)) h
  rw [symbol_text]
  cases s <;> simp

theorem Lexes.genuine {kind : TokenKind} {text rest : Bytes} {words : List Lexeme}
    (hg : Genuine kind text) (hk : kind ≠ .symbol .slash) (hrest : Delimits rest)
    (h : Lexes rest words) : Lexes (text ++ rest) ((kind, text) :: words) :=
  .word hg.1 (hg.2 rest hrest) (fun hs => absurd hs hk) h

/-- A text whose header is cut off is cut into the words of the rest. -/
theorem Lexes.tokenize {source : Bytes} {words : List Lexeme} (h : Cuts (gap source).rest words) :
    ∃ lexed, Lexer.tokenize source = .ok lexed ∧ lexed.tokens.map Token.lexeme = words ∧
      lexed.header = (gap source).comments.map (Bytes.dropRightWhile (· == 13)) := by
  obtain ⟨tokens, finish, htokens, hwords⟩ := h (Point.origin.after (gap source).text)
  refine ⟨⟨tokens, finish, (gap source).comments.map (Bytes.dropRightWhile (· == 13))⟩, ?_,
    hwords, rfl⟩
  rw [tokenize_eq_slices]
  unfold slices
  dsimp only
  rw [htokens]

end Lexer
end Signum
