import Signum.Proofs.Number.Layouts
import Signum.Run.Input
import Signum.Run.Value
import Signum.Syntax.Parser
/- What a program prints for a number reads back.

   The shortest decimal of a number is laid out around a point or with a power of ten, and either
   way it is spelled, so reading the text rounds what `Chosen` says rounds to the number
   (`read?_display`). The text is one word of the input (`nextWord?_word`) and, when it has no sign,
   one float literal (`Spelling.isFloat`). -/
namespace Signum

namespace Binary64

open Decimal (Chosen)

/-- What is printed for a finite number. -/
theorem display_finite {n : Nat} (negative : Bool) (hn : Representable n) :
    ∃ s : Spelling, display (.finite negative n) = signText negative ++ s.text ∧
      scale? negative 10 s.decimal.coefficient s.decimal.exponent = some (.finite negative n) := by
  by_cases hzero : n = 0
  · subst hzero
    refine ⟨⟨[48], [48], none, by simp, Bytes.isDigit_zero, by simp, Bytes.isDigit_zero, by simp⟩,
      ?_, ?_⟩
    · have htext : Bytes.ofString "0.0" = [48, 46, 48] := by decide
      simp only [display, if_true, htext]
      rfl
    · unfold scale?
      exact if_pos rfl
  · have hpos : 0 < n := Nat.pos_of_ne_zero hzero
    have hchosen := Decimal.shortest_chosen hn hpos
    have hsmall := Chosen.leading_lt hchosen
    obtain ⟨s, htext, hunits⟩ := (Decimal.shortest n).layout_spells (by omega)
    refine ⟨s, ?_, ?_⟩
    · rw [display_layout negative hn hpos, htext]
    · apply scale?_eq negative hn hpos
      rw [hunits]
      exact hchosen.reads

/-- What is printed for a number is read as the number. -/
theorem read?_display {f : Binary64} (hnan : f ≠ .nan)
    (hfields : ∀ negative n, f = .finite negative n → Representable n) :
    read? f.display = some f := by
  cases f with
  | nan => exact absurd rfl hnan
  | infinite negative => cases negative <;> decide
  | finite negative n =>
    obtain ⟨s, htext, hscale⟩ := display_finite negative (hfields negative n rfl)
    rw [htext, s.read?_eq, hscale]

end Binary64

/-! Words of the input. -/

/-- The byte is a code point of its own and no white space. -/
def Solid (b : UInt8) : Prop := b < 0x80 ∧ CodePoint.isBlank b.toNat = false

theorem solid_of_graphic {b : UInt8} (hlow : 33 ≤ b.toNat) (hhigh : b.toNat < 127) : Solid b := by
  have hcases : ∀ c < 127, 33 ≤ c → CodePoint.isBlank c = false := by decide
  refine ⟨?_, hcases b.toNat hhigh hlow⟩
  have hbound : (0x80 : UInt8).toNat = 128 := rfl
  rw [UInt8.lt_iff_toNat_lt]
  omega

theorem solid_all {text : Bytes}
    (h : text.all (fun b => decide (b < 0x80) && !CodePoint.isBlank b.toNat) = true) :
    ∀ b ∈ text, Solid b := by
  intro b hb
  have hsolid := List.all_eq_true.mp h b hb
  rw [Bool.and_eq_true, decide_eq_true_eq, Bool.not_eq_true'] at hsolid
  exact hsolid

theorem solid_digit {b : UInt8} (h : Bytes.isDigit b = true) : Solid b := by
  obtain ⟨hlow, hhigh⟩ := (Bytes.isDigit_iff b).mp h
  apply solid_of_graphic <;> omega

namespace Bytes

/-- A word ends where the text ends or a blank stands. -/
theorem takeWord_solid {rest : Bytes} (hrest : ∀ b ∈ rest.head?, Lexer.isBlank b = true)
    (word : Bytes) (hword : ∀ b ∈ word, Solid b) :
    ∀ taken, takeWord taken (word ++ rest) = (taken.reverse ++ word, rest) := by
  induction word with
  | nil =>
    intro taken
    cases rest with
    | nil => simp [takeWord]
    | cons b rest =>
      have hb : b = 32 ∨ b = 9 ∨ b = 13 ∨ b = 10 := by
        simpa [Lexer.isBlank, or_assoc] using hrest b rfl
      have hascii : b < 0x80 := by rcases hb with rfl | rfl | rfl | rfl <;> decide
      have hblank : CodePoint.isBlank b.toNat = true := by
        rcases hb with rfl | rfl | rfl | rfl <;> decide
      rw [List.nil_append, takeWord, CodePoint.decode_ascii hascii]
      simp only [hblank, if_true, List.append_nil]
  | cons a word ih =>
    intro taken
    obtain ⟨hascii, hblank⟩ := hword a List.mem_cons_self
    have hnext := ih (fun b hb => hword b (List.mem_cons_of_mem a hb)) (a :: taken)
    rw [List.cons_append, takeWord, CodePoint.decode_ascii hascii]
    simp only [hblank, Bool.false_eq_true, if_false, Nat.sub_self, List.take_zero, List.drop_zero,
      List.reverse_singleton, List.singleton_append]
    rw [hnext]
    simp

theorem nextWord?_word {word rest : Bytes} (hne : word ≠ []) (hword : ∀ b ∈ word, Solid b)
    (hrest : ∀ b ∈ rest.head?, Lexer.isBlank b = true) :
    nextWord? (word ++ rest) = some (word, rest) := by
  have htake := takeWord_solid hrest word hword []
  obtain ⟨a, more, rfl⟩ := List.exists_cons_of_ne_nil hne
  obtain ⟨hascii, hblank⟩ := hword a List.mem_cons_self
  have hdrop : dropBlanks (a :: more ++ rest) = a :: more ++ rest := by
    rw [List.cons_append, dropBlanks, CodePoint.decode_ascii hascii]
    simp only [hblank, Bool.false_eq_true, if_false]
  unfold nextWord?
  rw [hdrop]
  simp only [List.cons_append] at htake ⊢
  rw [htake]
  rfl

end Bytes

namespace Spelling

theorem solid {s : Spelling} : ∀ b ∈ s.text, Solid b := by
  intro b hb
  rcases mem_text hb with hdigit | rfl | rfl | rfl
  · exact solid_digit hdigit
  all_goals exact ⟨by decide, by decide⟩

theorem isExponent_tail (s : Spelling) : Lexer.IsExponent s.tail := by
  unfold tail
  cases s.power with
  | none => exact .inl rfl
  | some e =>
    right
    cases e with
    | ofNat n =>
      obtain ⟨hne, hdigits⟩ := ofNat_digits n
      exact ⟨69, [], Bytes.ofNat n, rfl, .inr rfl, .inl rfl, hne, hdigits⟩
    | negSucc n =>
      obtain ⟨hne, hdigits⟩ := ofNat_digits (n + 1)
      exact ⟨69, [45], Bytes.ofNat (n + 1), rfl, .inr rfl, .inr (.inr rfl), hne, hdigits⟩

theorem isFloat (s : Spelling) : Lexer.IsFloat s.text :=
  ⟨s.before, s.after, s.tail, rfl, s.before_digits, s.after_digits, s.after_ne, s.isExponent_tail⟩

/-- A spelling is one token, which covers all of it. -/
theorem tokenize_eq (s : Spelling) :
    Lexer.tokenize s.text =
      .ok ⟨[⟨.float, s.text, ⟨.origin, Point.origin.after s.text⟩⟩],
        Point.origin.after s.text, []⟩ := by
  obtain ⟨d, rest, htext, hd⟩ := s.text_cons
  have hnothing : Lexer.Delimits [] := by rintro b ⟨⟩
  have hfloat := Lexer.numeral_float s.isFloat hnothing
  rw [List.append_nil, htext, ← Lexer.lexeme_numeral hd] at hfloat
  have hblank : ¬Lexer.isBlank d = true := fun hb => Lexer.lexeme_blank hb _ hfloat
  have hcomment : ¬(d = 47 ∧ rest.head? = some 47) := by
    rintro ⟨rfl, -⟩
    exact absurd hd (by decide)
  rw [htext, Lexer.tokenize_eq_slices]
  unfold Lexer.slices
  rw [Lexer.gap_word hblank hcomment]
  dsimp only
  rw [Lexer.tokensFrom, hfloat]
  simp only [List.length_cons, Nat.add_sub_cancel, List.take_length, List.drop_length]
  rw [Lexer.gap_nil]
  dsimp only
  rw [Lexer.tokensFrom]
  rfl

end Spelling

namespace Parser

/-- A float literal on its own is read as the number it stands for. -/
theorem expr_literal {finish : Point} {t : Token} {v : Binary64} (hkind : t.kind = .float)
    (hread : Binary64.read? t.text = some v) :
    ∃ shorter, expr finish [t] = .ok (.float v t.text t.span) [] shorter := by
  have hprimary : primary finish [t] = .ok (.float v t.text t.span) [] (by simp) := by
    rw [primary]
    split <;> simp_all
  have hminus : ¬t.kind = .symbol .minus := by
    rw [hkind]
    decide
  have hunary : unary finish [t] = .ok (.float v t.text t.span) [] (by simp) := by
    rw [unary, if_neg hminus, hprimary]
  refine ⟨by simp, ?_⟩
  rw [expr, term, hunary]
  simp only [Step.bind, termTail, Step.weaken, exprTail]

end Parser

/-! What is printed. -/

namespace Binary64

theorem length_signText (negative : Bool) : (signText negative).length ≤ 1 := by
  cases negative <;> decide

theorem display_ne {f : Binary64}
    (hfields : ∀ negative n, f = .finite negative n → Representable n) : f.display ≠ [] := by
  cases f with
  | nan => decide
  | infinite negative => cases negative <;> decide
  | finite negative n =>
    obtain ⟨s, htext, -⟩ := display_finite negative (hfields negative n rfl)
    obtain ⟨d, rest, hcons, -⟩ := s.text_cons
    rw [htext, hcons]
    simp

theorem length_display {f : Binary64}
    (hfields : ∀ negative n, f = .finite negative n → Representable n) :
    f.display.length < Input.wordLimit := by
  have hlimit : Input.wordLimit = 65536 := rfl
  rw [hlimit]
  cases f with
  | nan => decide
  | infinite negative => cases negative <;> decide
  | finite negative n =>
    have hsign := length_signText negative
    by_cases hzero : n = 0
    · have htext : (Bytes.ofString "0.0").length = 3 := by decide
      simp only [display, if_pos hzero]
      rw [List.length_append, htext]
      omega
    · have hn := hfields negative n rfl
      have hpos := Nat.pos_of_ne_zero hzero
      have hlayout := Chosen.length_layout (Decimal.shortest_chosen hn hpos)
      rw [display_layout negative hn hpos, List.length_append]
      omega

theorem solid_display {f : Binary64}
    (hfields : ∀ negative n, f = .finite negative n → Representable n) :
    ∀ b ∈ f.display, Solid b := by
  have hsign (negative : Bool) : ∀ b ∈ signText negative, Solid b := by
    cases negative with
    | false => rintro b ⟨⟩
    | true =>
      intro b hb
      obtain rfl : b = 45 := List.mem_singleton.mp hb
      exact ⟨by decide, by decide⟩
  cases f with
  | nan => exact solid_all (by decide)
  | infinite negative => cases negative <;> exact solid_all (by decide)
  | finite negative n =>
    obtain ⟨s, htext, -⟩ := display_finite negative (hfields negative n rfl)
    rw [htext]
    intro b hb
    rcases List.mem_append.mp hb with hb | hb
    · exact hsign negative b hb
    · exact s.solid b hb

end Binary64

/-- The text stands for the number wherever a number is read. -/
structure ReadsBack (text : Bytes) (f : Binary64) : Prop where
  solid : ∀ b ∈ text, Solid b
  word : ∀ rest, (∀ b ∈ rest.head?, Lexer.isBlank b = true) →
    (Input.mk (text ++ rest)).word = (some text, ⟨rest⟩)
  number : ∀ rest, (∀ b ∈ rest.head?, Lexer.isBlank b = true) →
    (Input.mk (text ++ rest)).readFloat = (some f, ⟨rest⟩)
  /-- A finite number without a sign is a literal: the text is one token, read as the number. -/
  literal : ∀ n, f = .finite false n →
    Lexer.tokenize text = .ok ⟨[⟨.float, text, ⟨.origin, Point.origin.after text⟩⟩],
      Point.origin.after text, []⟩ ∧
    ∃ shorter, Parser.expr (Point.origin.after text)
      [⟨.float, text, ⟨.origin, Point.origin.after text⟩⟩] =
        .ok (.float f text ⟨.origin, Point.origin.after text⟩) [] shorter

/-- What is printed for a number reads back as the number, bit for bit. -/
theorem printed_reads_back (bits : UInt64) (h : Binary64.ofBits bits ≠ .nan) :
    ReadsBack (Value.float (Binary64.ofBits bits)).text (Binary64.ofBits bits) ∧
      (Binary64.ofBits bits).toBits = bits := by
  have hfields : ∀ negative n, Binary64.ofBits bits = .finite negative n →
      Binary64.Representable n := fun negative n hf => Binary64.representable_ofBits hf
  have hread := Binary64.read?_display h hfields
  have hsolid := Binary64.solid_display hfields
  refine ⟨?_, Binary64.toBits_ofBits h⟩
  have hword : ∀ rest, (∀ b ∈ rest.head?, Lexer.isBlank b = true) →
      (Input.mk ((Binary64.ofBits bits).display ++ rest)).word =
        (some (Binary64.ofBits bits).display, ⟨rest⟩) := by
    intro rest hrest
    unfold Input.word
    rw [Bytes.nextWord?_word (Binary64.display_ne hfields) hsolid hrest]
    simp only [if_pos (Binary64.length_display hfields)]
  constructor
  · exact hsolid
  · exact hword
  · intro rest hrest
    unfold Input.readFloat
    rw [show (Value.float (Binary64.ofBits bits)).text = (Binary64.ofBits bits).display from rfl,
      hword rest hrest]
    simp only [Option.bind_some, hread]
  · intro n hf
    obtain ⟨s, htext, -⟩ := Binary64.display_finite false (hfields false n hf)
    have htokens := s.tokenize_eq
    rw [← hf] at htext
    change (Binary64.ofBits bits).display = s.text at htext
    rw [← htext] at htokens
    exact ⟨htokens, Parser.expr_literal rfl hread⟩

theorem printed_reads_back_least :
    Binary64.ofBits 1 ≠ .nan ∧
      ReadsBack (Value.float (Binary64.ofBits 1)).text (Binary64.ofBits 1) ∧
      (Binary64.ofBits 1).toBits = 1 := by
  have h : Binary64.ofBits 1 ≠ .nan := by decide
  exact ⟨h, printed_reads_back 1 h⟩

end Signum
