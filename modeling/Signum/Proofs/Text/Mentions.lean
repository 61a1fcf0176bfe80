import Signum.Report.Page
import Signum.Proofs.Text.Clusters
/- Mentions of variables, and the names the lexer knows.

   A mention is read cluster by cluster and a name code point by code point. The clusters of a
   name start with code points of the name, so a mention goes on to the end of the name, and it
   stops there unless the last cluster does not: the character after the name joins it exactly
   when the name ends in a letter that stands before the character it belongs to and the
   character can be printed (`joins_ascii`). Then it is taken for a part of the name. -/
namespace Signum

namespace Lexer

/-! The code points of a name. -/

theorem isIdentPart_ascii {b : UInt8} (hascii : b < 0x80) (hword : Bytes.isAlphaNum b = false)
    (hunder : b ≠ 95) : isIdentPart b.toNat = false := by
  have hcases : ∀ c : Fin 128, Bytes.isAlphaNum c.val.toUInt8 = false → c.val.toUInt8 ≠ 95 →
      isIdentPart c.val = false := by decide +kernel
  have hlt : b.toNat < 128 := UInt8.lt_iff_toNat_lt.mp hascii
  have hback : b.toNat.toUInt8 = b := by simp
  apply hcases ⟨b.toNat, hlt⟩
  · rw [hback]
    exact hword
  · rw [hback]
    exact hunder

/-- A text that is all identifier characters has no other code points. -/
theorem isIdentPart_of_length {x : Bytes} (h : identLength x = x.length) :
    ∀ p ∈ CodePoint.split x, isIdentPart p.1 = true := by
  fun_induction identLength x with
  | case1 =>
    rw [CodePoint.split]
    rintro p ⟨⟩
  | case2 a rest c w hdec hpart ih =>
    obtain ⟨n, rfl, hw⟩ := CodePoint.decode_takes (List.cons_ne_nil a rest) hdec
    have hrest : identLength (rest.drop (n + 1 - 1)) = (rest.drop (n + 1 - 1)).length := by
      simp only [List.length_drop, List.length_cons] at h hw ⊢
      omega
    rw [CodePoint.split_eq (List.cons_ne_nil a rest) hdec]
    exact List.forall_mem_cons.mpr ⟨hpart, ih hrest⟩
  | case3 a rest =>
    simp at h

/-- A name starts with a letter or an underscore. -/
theorem name_start {name : Bytes} (h : lexeme name = .ok (.ident, name.length)) :
    ∃ c w, CodePoint.decode name = (c, w) ∧ name ≠ [] ∧ isIdentStart c = true ∧
      identLength name = name.length := by
  obtain ⟨⟨c, w⟩, hdec⟩ : ∃ r, CodePoint.decode name = r := ⟨_, rfl⟩
  rw [lexeme_eq hdec] at h
  split at h
  · rcases numeral_kind h with hkind | hkind <;> cases hkind
  · split at h
    · next hstart =>
      refine ⟨c, w, hdec, ?_, hstart, ?_⟩
      · rintro rfl
        cases hdec
        exact absurd rfl (ne_replacement_of_part (isIdentPart_of_start hstart))
      · simp only [Except.ok.injEq, Prod.mk.injEq] at h
        exact h.2
    · split at h
      · next s _ =>
        simp only [Except.ok.injEq, Prod.mk.injEq] at h
        cases h.1
      · cases h

end Lexer

/-! The last cluster of a name. -/

namespace Cluster

open Lexer (isIdentPart isIdentStart)

/-- The class of an ASCII character. -/
theorem classOf_ascii {b : UInt8} (h : b < 0x80) :
    if 32 ≤ b.toNat ∧ b.toNat ≤ 126 then classOf b.toNat = .other
    else classOf b.toNat = .cr ∨ classOf b.toNat = .lf ∨ classOf b.toNat = .control := by
  have hcases : ∀ c : Fin 128, if 32 ≤ c.val ∧ c.val ≤ 126 then classOf c.val = .other
      else classOf c.val = .cr ∨ classOf c.val = .lf ∨ classOf c.val = .control := by
    decide +kernel
  exact hcases ⟨b.toNat, UInt8.lt_iff_toNat_lt.mp h⟩

/-- What an ASCII character joins: a mark that stands before it, if it can be printed. -/
theorem joins_ascii {ctx : Context} (hlast : ctx.last ≠ .cr) {b : UInt8} (h : b < 0x80) :
    ctx.joins (classOf b.toNat) = true ↔
      ctx.last = .prepend ∧ 32 ≤ b.toNat ∧ b.toNat ≤ 126 := by
  obtain ⟨last, odd, pictured, glued⟩ := ctx
  have hclass := classOf_ascii h
  split at hclass
  · next hprints =>
    rw [hclass]
    cases last <;> simp [Context.joins, hprints]
  · next hprints =>
    simp only [hprints, and_false, iff_false]
    rcases hclass with hclass | hclass | hclass <;> rw [hclass]
    · cases last <;> simp [Context.joins]
    · cases last <;> simp_all [Context.joins]
    · cases last <;> simp [Context.joins]

/-- The context after some code points. -/
def Context.run (ctx : Context) (cps : List (CodePoint × Bytes)) : Context :=
  cps.foldl (fun ctx p => ctx.next (classOf p.1)) ctx

/-- Of what comes last, the class is remembered. -/
theorem Context.run_last (c : CodePoint) (bs : Bytes)
    (cps : List (CodePoint × Bytes)) :
    ∀ p ∈ ((c, bs) :: cps).getLast?, ((start (classOf c)).run cps).last = classOf p.1 := by
  intro p hp
  rcases List.eq_nil_or_concat cps with rfl | ⟨init, q, rfl⟩
  · obtain rfl : (c, bs) = p := by simpa using hp
    rfl
  · rw [List.concat_eq_append] at hp ⊢
    obtain rfl : q = p := by
      rw [← List.cons_append, List.getLast?_concat] at hp
      exact Option.some.inj hp
    unfold run
    rw [List.foldl_append]
    rfl

theorem classOf_ne_cr {c : CodePoint} (h : c ≠ 13) : classOf c ≠ .cr := by
  unfold classOf
  rw [if_neg h]
  repeat' refine iteInduction (motive := (· ≠ ClusterClass.cr)) (fun _ => ?_) (fun _ => ?_)
  all_goals decide

end Cluster

namespace Markdown.Mention

open Cluster (classOf group)

/-- The bytes are those of a code point that can be part of a name, whatever joins it. -/
def Part (first : Bool) (bs : Bytes) : Prop := ∀ more, isNamePart first (bs ++ more) = true

theorem Part.self {first : Bool} {bs : Bytes} (h : Part first bs) : isNamePart first bs = true := by
  have happend := h []
  rwa [List.append_nil] at happend

/-- A name that has begun can go on with anything. -/
theorem Part.append {first : Bool} {bs : Bytes} (h : Part first bs) (more : Bytes) :
    Part first (bs ++ more) := by
  intro x
  rw [List.append_assoc]
  exact h (more ++ x)

/-- A name read by clusters ends with its code points, unless what follows joins the last. -/
theorem lengthOf_group {more : List (CodePoint × Bytes)}
    (hmore : ∀ p ∈ more.head?, p.2 ≠ [] ∧ ∀ x, isNamePart false (p.2 ++ x) = false)
    (cps : List (CodePoint × Bytes)) (hcps : ∀ p ∈ cps, Part false p.2) :
    ∀ (ctx : Cluster.Context) (first : Bool) (current : Bytes), Part first current →
      (lengthOf first (group ctx current (cps ++ more)) =
          (current ++ cps.flatMap Prod.snd).length ↔
        ∀ p ∈ more.head?, (ctx.run cps).joins (classOf p.1) = false) := by
  induction cps with
  | nil =>
    intro ctx first current hcurrent
    have hself := hcurrent.self
    cases more with
    | nil => simp [group, lengthOf, hself]
    | cons p rest =>
      obtain ⟨c, bs⟩ := p
      obtain ⟨hbs, hnone⟩ := hmore (c, bs) rfl
      have hpos : 0 < bs.length := List.length_pos_iff.mpr hbs
      simp only [List.nil_append, group, List.head?_cons, Option.mem_some_iff, forall_eq',
        Cluster.Context.run, List.foldl_nil, List.flatMap_nil, List.append_nil]
      split
      · next hjoins =>
        obtain ⟨after, others, hhead⟩ := Cluster.group_head (ctx.next (classOf c)) (current ++ bs) rest
        rw [hhead, lengthOf, List.append_assoc, if_pos (hcurrent (bs ++ after)), hjoins]
        simp only [List.length_append, Bool.true_eq_false, iff_false]
        omega
      · next hjoins =>
        obtain ⟨after, others, hhead⟩ := Cluster.group_head (ctx.next (classOf c)) bs rest
        have hstop : lengthOf false (group (ctx.next (classOf c)) bs rest) = 0 := by
          rw [hhead, lengthOf, hnone after]
          rfl
        rw [lengthOf, if_pos hself, hstop]
        simpa using hjoins
  | cons p cps ih =>
    intro ctx first current hcurrent
    obtain ⟨c, bs⟩ := p
    obtain ⟨hbs, hcps⟩ := List.forall_mem_cons.mp hcps
    have hrun : ctx.run ((c, bs) :: cps) = (ctx.next (classOf c)).run cps := rfl
    rw [List.cons_append, group, hrun, List.flatMap_cons]
    -- the code point joins the cluster being read, or closes it and opens the next
    split
    · rw [← List.append_assoc]
      exact ih hcps (ctx.next (classOf c)) first (current ++ bs) (hcurrent.append bs)
    · have hrest := ih hcps (ctx.next (classOf c)) false bs hbs
      rw [lengthOf, if_pos hcurrent.self, List.length_append, Nat.add_left_cancel_iff]
      exact hrest

/-- The bytes of a code point that names are made of. -/
theorem part_of_decode {first : Bool} {x : Bytes} {c : CodePoint} {w : Nat}
    (h : CodePoint.decode x = (c, w)) (hpart : Lexer.isIdentPart c = true)
    (hfirst : first = true → Lexer.isIdentStart c = true) : Part first (x.take w) := by
  intro more
  unfold isNamePart
  rw [CodePoint.decode_append h (Lexer.ne_replacement_of_part hpart) more]
  cases first with
  | false => exact hpart
  | true =>
    simp only [Bool.not_true, Bool.false_and, Bool.or_false]
    exact hfirst rfl

/-- The code points of a name are parts of names. -/
theorem part_of_split (x : Bytes) :
    ∀ p ∈ CodePoint.split x, Lexer.isIdentPart p.1 = true → Part false p.2 := by
  fun_induction CodePoint.split x with
  | case1 => rintro p ⟨⟩
  | case2 a rest c w hdec ih =>
    obtain ⟨n, rfl, -⟩ := CodePoint.decode_takes (List.cons_ne_nil a rest) hdec
    refine List.forall_mem_cons.mpr ⟨?_, ih⟩
    intro hpart
    exact part_of_decode hdec hpart fun h => absurd h Bool.false_ne_true

theorem part_of_start {x : Bytes} {c : CodePoint} {w : Nat} (h : CodePoint.decode x = (c, w))
    (hstart : Lexer.isIdentStart c = true) : Part true (x.take w) :=
  part_of_decode h (Lexer.isIdentPart_of_start hstart) fun _ => hstart

/-- The name ends in a letter that stands before the character it belongs to. -/
def Leaning (name : Bytes) : Prop :=
  ∃ p ∈ (CodePoint.split name).getLast?, classOf p.1 = .prepend

/-- The text starts with an ASCII character that can be printed. -/
def Prints (text : Bytes) : Prop := ∃ b ∈ text.head?, 32 ≤ b.toNat ∧ b.toNat ≤ 126

/-- The text starts with no character of a name, if with any, and with an ASCII one. -/
def EndsName (text : Bytes) : Prop :=
  ∀ b ∈ text.head?, b < 0x80 ∧ Bytes.isAlphaNum b = false ∧ b ≠ 95

/-- A name is split apart from what ends it. -/
theorem EndsName.split_append {text : Bytes} (h : EndsName text) (name : Bytes) :
    CodePoint.split (name ++ text) = CodePoint.split name ++ CodePoint.split text := by
  cases text with
  | nil => rw [List.append_nil, CodePoint.split, List.append_nil]
  | cons b text => exact CodePoint.split_before_ascii (h b rfl).1 text name

/-- What ends a name starts with no part of one. -/
theorem EndsName.no_part {text : Bytes} (h : EndsName text) :
    ∀ p ∈ (CodePoint.split text).head?, p.2 ≠ [] ∧ ∀ x, isNamePart false (p.2 ++ x) = false := by
  cases text with
  | nil =>
    rw [CodePoint.split]
    rintro p ⟨⟩
  | cons b text =>
    obtain ⟨hascii, hword, hunder⟩ := h b rfl
    rw [CodePoint.split_ascii hascii]
    rintro p ⟨⟩
    refine ⟨List.cons_ne_nil b [], fun x => ?_⟩
    unfold isNamePart
    rw [List.singleton_append, CodePoint.decode_ascii hascii]
    exact Lexer.isIdentPart_ascii hascii hword hunder

/-- What ends a name joins its last character exactly when that one leans and it can be printed. -/
theorem EndsName.joins {text : Bytes} (h : EndsName text) {ctx : Cluster.Context}
    (hcr : ctx.last ≠ .cr) :
    (∀ p ∈ (CodePoint.split text).head?, ctx.joins (classOf p.1) = false) ↔
      ¬(ctx.last = .prepend ∧ Prints text) := by
  cases text with
  | nil =>
    rw [CodePoint.split]
    simp [Prints]
  | cons b text =>
    have hascii := (h b rfl).1
    have hprints : Prints (b :: text) ↔ 32 ≤ b.toNat ∧ b.toNat ≤ 126 := by simp [Prints]
    rw [CodePoint.split_ascii hascii, hprints, ← Cluster.joins_ascii hcr hascii]
    simp

theorem nameLength_eq {name text : Bytes} (hname : Lexer.lexeme name = .ok (.ident, name.length))
    (htext : EndsName text) :
    nameLength (name ++ text) = name.length ↔ ¬(Leaning name ∧ Prints text) := by
  obtain ⟨c, w, hdec, hne, hstart, hlength⟩ := Lexer.name_start hname
  have hparts := Lexer.isIdentPart_of_length hlength
  have hsplit : CodePoint.split name = (c, name.take w) :: CodePoint.split (name.drop w) :=
    CodePoint.split_eq hne hdec
  have hflat := CodePoint.flatMap_split name
  have hcps : ∀ p ∈ CodePoint.split (name.drop w), Part false p.2 := by
    intro p hp
    apply part_of_split _ p hp
    apply hparts
    rw [hsplit]
    exact List.mem_cons_of_mem _ hp
  have hgroup := lengthOf_group htext.no_part (CodePoint.split (name.drop w)) hcps
    (.start (classOf c)) true (name.take w) (part_of_start hdec hstart)
  rw [hsplit, List.flatMap_cons] at hflat
  rw [hflat] at hgroup
  unfold nameLength Cluster.clusters
  rw [htext.split_append, hsplit, List.cons_append]
  dsimp only
  rw [hgroup]
  -- the class of the last code point is what the context remembers
  obtain ⟨p, hp⟩ : ∃ p, (CodePoint.split name).getLast? = some p := by
    rw [hsplit]
    exact ⟨_, List.getLast?_cons⟩
  have hlast := Cluster.Context.run_last c (name.take w) (CodePoint.split (name.drop w)) p
    (by rw [← hsplit]; exact hp)
  have hcr : classOf p.1 ≠ .cr := by
    apply Cluster.classOf_ne_cr
    intro h13
    have hpart := hparts p (List.mem_of_getLast? hp)
    rw [h13] at hpart
    exact absurd hpart (by decide +kernel)
  have hleaning : Leaning name ↔ classOf p.1 = .prepend := by
    unfold Leaning
    rw [hp]
    simp
  rw [hleaning, ← hlast]
  exact htext.joins (hlast ▸ hcr)

end Markdown.Mention

/-! Mentions in running text, and their links. -/

namespace Markdown

open Mention (nameLength nameLength_eq EndsName Leaning Prints)

variable {name text : Bytes}

/-- A name stands on one line. -/
theorem ne_newline_of_name (hname : Lexer.lexeme name = .ok (.ident, name.length)) :
    ∀ b ∈ name, b ≠ Bytes.newline := by
  rintro b hb rfl
  obtain ⟨-, -, -, -, -, hlength⟩ := Lexer.name_start hname
  obtain ⟨x, y, hxy⟩ := List.append_of_mem hb
  have hnewline : Bytes.newline < 0x80 := by decide
  have hmem : (10, [Bytes.newline]) ∈ CodePoint.split name := by
    rw [hxy, CodePoint.split_before_ascii hnewline, CodePoint.split_ascii hnewline]
    exact List.mem_append_right _ List.mem_cons_self
  exact absurd (Lexer.isIdentPart_of_length hlength _ hmem) (by decide +kernel)

/-- The name at a mention is looked for up to the end of the line. -/
theorem nameLength_line (hname : Lexer.lexeme name = .ok (.ident, name.length))
    (htext : EndsName text) :
    nameLength ((name ++ text).takeWhile (· != Bytes.newline)) = name.length ↔
      ¬(Leaning name ∧ Prints text) := by
  have hline : (name ++ text).takeWhile (· != Bytes.newline) =
      name ++ text.takeWhile (· != Bytes.newline) := by
    apply List.takeWhile_append_of_pos
    intro b hb
    simpa using ne_newline_of_name hname b hb
  have hrest : EndsName (text.takeWhile (· != Bytes.newline)) ∧
      (Prints (text.takeWhile (· != Bytes.newline)) ↔ Prints text) := by
    cases text with
    | nil => exact ⟨htext, Iff.rfl⟩
    | cons b text =>
      by_cases hb : b = Bytes.newline
      · subst hb
        simp [EndsName, Prints, Bytes.newline]
      · have hkept : (b :: text).takeWhile (· != Bytes.newline) =
            b :: text.takeWhile (· != Bytes.newline) := by
          rw [List.takeWhile_cons, if_pos (by simpa using hb)]
        rw [hkept]
        exact ⟨htext, Iff.rfl⟩
  rw [hline, nameLength_eq hname hrest.1, hrest.2]

theorem special_mention (definitions : Definitions) (pieces : List Piece) (before : CodePoint)
    (hname : Lexer.lexeme name = .ok (.ident, name.length)) (htext : EndsName text) :
    special definitions pieces before 64 (name ++ text) =
        (.done (.mention name) :: pieces, some text) ↔ ¬(Leaning name ∧ Prints text) := by
  have hlength := nameLength_line hname htext
  have hpos : 0 < name.length := by
    obtain ⟨-, -, -, hne, -⟩ := Lexer.name_start hname
    exact List.length_pos_iff.mpr hne
  show (if nameLength ((name ++ text).takeWhile (· != Bytes.newline)) = 0 then (pieces, none)
    else _) = _ ↔ _
  generalize nameLength ((name ++ text).takeWhile (· != Bytes.newline)) = n at hlength
  rw [← hlength]
  constructor
  · intro h
    split at h
    · cases h
    · simp only [Prod.mk.injEq, List.cons.injEq, Piece.done.injEq, Inline.mention.injEq,
        Option.some.injEq, and_true] at h
      obtain ⟨htake, hdrop⟩ := h
      have htakeLength := congrArg List.length htake
      have hdropLength := congrArg List.length hdrop
      simp only [List.length_take, List.length_drop, List.length_append] at htakeLength hdropLength
      by_cases hn : n ≤ name.length + text.length
      · omega
      · -- nothing follows the name, so nothing can be taken for a part of it
        rw [hlength]
        obtain rfl : text = [] := List.length_eq_zero_iff.mp (by omega)
        simp [Prints]
  · rintro rfl
    rw [if_neg (by omega), List.take_left, List.drop_left]

/-- Where a character may start something, a mention of a name is read as the name. -/
theorem scan_mention (definitions : Definitions) (s : Scan)
    (hopen : (!s.escaped || s.last.isNone) = true)
    (hname : Lexer.lexeme name = .ok (.ident, name.length)) (htext : EndsName text)
    (h : ¬(Leaning name ∧ Prints text)) :
    scan definitions s (64 :: (name ++ text)) =
      scan definitions ⟨.done (.mention name) :: s.flushed, [], none, s.escaped,
        (64 :: name).reverse ++ s.behind⟩ text := by
  have hspecial := (special_mention definitions s.flushed s.before hname htext).mpr h
  have hend : lineEnd? s.last (64 :: (name ++ text)) = none := rfl
  have hcan : (isSpecial 64 && (!s.escaped || s.last.isNone)) = true := by
    rw [hopen]
    rfl
  rw [scan, hend]
  simp only [hcan, if_true, hspecial, List.length_append, Nat.add_sub_cancel, List.take_left,
    List.drop_left]

end Markdown

namespace Report

open Markdown (mentionHtml urlHtml textHtml)

/-- A mention of a declared variable is a link to its row. -/
theorem mentionHtml_declared (r : Report) {name : Bytes}
    (h : r.variables.any (·.declared.name == name) = true) :
    mentionHtml r.resolver name =
      .ok ("<a class=\"var-link\" href=\"" ++ urlHtml ("#" ++ anchor name) ++ "\">" ++
        textHtml name ++ "</a>") := by
  have hsharp : ("#" : Bytes) = [35] := by decide
  unfold mentionHtml resolver
  rw [if_pos h, hsharp]
  rfl

end Report

/-- A report on no text, with these variables. -/
def Report.bare (declared : List ReportedVariable) : Report :=
  { name := [], program := ⟨[], [], ⟨.origin, .origin⟩⟩, documentation := ⟨[], none, [], [], none⟩,
    recording := .empty, output := [], «variables» := declared, failure := none }

/-- The lexer reads a name that starts with a letter as far as there are identifier characters. -/
theorem Lexer.lexeme_name {name : Bytes} {c : CodePoint} {w : Nat}
    (hdec : CodePoint.decode name = (c, w)) (hdigit : ¬(c < 128 ∧ Bytes.isDigit c.toUInt8 = true))
    (hstart : isIdentStart c = true) (hlength : identLength name = name.length)
    (hkind : wordKind name = .ident) : lexeme name = .ok (.ident, name.length) := by
  rw [lexeme_eq hdec, if_neg hdigit, if_pos hstart, hlength, List.take_length, hkind]

open Markdown.Mention (nameLength EndsName Leaning Prints)

/-- A mention of a name in front of what does not go on with it is a mention of that name, which
the report links when the variable is declared; but a name that leans on the character after
it takes what can be printed along. -/
theorem mention_links (r : Report) (definitions : Markdown.Definitions) (s : Markdown.Scan)
    {name text : Bytes} (hname : Lexer.lexeme name = .ok (.ident, name.length))
    (htext : EndsName text) :
    (nameLength (name ++ text) = name.length ↔ ¬(Leaning name ∧ Prints text)) ∧
    (Markdown.special definitions s.flushed s.before 64 (name ++ text) =
        (.done (.mention name) :: s.flushed, some text) ↔ ¬(Leaning name ∧ Prints text)) ∧
    (¬(Leaning name ∧ Prints text) → (!s.escaped || s.last.isNone) = true →
      Markdown.scan definitions s (64 :: (name ++ text)) =
        Markdown.scan definitions ⟨.done (.mention name) :: s.flushed, [], none, s.escaped,
          (64 :: name).reverse ++ s.behind⟩ text) ∧
    (r.variables.any (·.declared.name == name) = true →
      Markdown.mentionHtml r.resolver name =
        .ok ("<a class=\"var-link\" href=\"" ++ Markdown.urlHtml ("#" ++ Report.anchor name) ++
          "\">" ++ Markdown.textHtml name ++ "</a>")) :=
  ⟨Markdown.Mention.nameLength_eq hname htext,
    Markdown.special_mention definitions s.flushed s.before hname htext,
    fun h hopen => Markdown.scan_mention definitions s hopen hname htext h,
    r.mentionHtml_declared⟩

/-- A mention of `x1` before a comma, in a report on a program that declares it. -/
theorem mention_links_x1 :
    let r := Report.bare [⟨⟨[120, 49], .int, ⟨.origin, .origin⟩, 0, 0⟩, none⟩]
    (Lexer.lexeme [120, 49] = .ok (.ident, 2) ∧ EndsName [44, 32] ∧
      ¬(Leaning [120, 49] ∧ Prints [44, 32]) ∧
      r.variables.any (·.declared.name == [120, 49]) = true) ∧
    nameLength ([120, 49] ++ [44, 32]) = 2 ∧
    Markdown.special [] [] 32 64 ([120, 49] ++ [44, 32]) =
      ([.done (.mention [120, 49])], some [44, 32]) ∧
    Markdown.scan [] .start (64 :: ([120, 49] ++ [44, 32])) =
      Markdown.scan [] ⟨[.done (.mention [120, 49])], [], none, false, [49, 120, 64]⟩ [44, 32] ∧
    Markdown.mentionHtml r.resolver [120, 49] =
      .ok ("<a class=\"var-link\" href=\"" ++ Markdown.urlHtml ("#" ++ Report.anchor [120, 49]) ++
        "\">" ++ Markdown.textHtml [120, 49] ++ "</a>") := by
  intro r
  have hname : Lexer.lexeme [120, 49] = .ok (.ident, 2) :=
    Lexer.lexeme_name (c := 120) (w := 1) (by decide) (by decide) (by decide +kernel)
      (by decide +kernel) (by decide +kernel)
  have htext : EndsName [44, 32] := by
    rintro b ⟨⟩
    decide
  have hends : ¬(Leaning [120, 49] ∧ Prints [44, 32]) := by
    rintro ⟨⟨p, hp, hclass⟩, -⟩
    have hlast : (CodePoint.split [120, 49]).getLast? = some (49, [49]) := by decide +kernel
    rw [hlast] at hp
    cases hp
    exact absurd hclass (by decide +kernel)
  have hdeclared : r.variables.any (·.declared.name == [120, 49]) = true := by decide
  obtain ⟨hlength, hspecial, hscan, hlink⟩ := mention_links r [] .start hname htext
  exact ⟨⟨hname, htext, hends, hdeclared⟩, hlength.mpr hends, hspecial.mpr hends, hscan hends rfl,
    hlink hdeclared⟩

/-- A name ending in the Malayalam letter dot reph takes the full stop after it along. -/
theorem full_stop_joins_name :
    Lexer.lexeme [120, 0xE0, 0xB5, 0x8E] = .ok (.ident, 4) ∧
      nameLength ([120, 0xE0, 0xB5, 0x8E] ++ [46]) = 5 := by
  refine ⟨?_, by decide +kernel⟩
  exact Lexer.lexeme_name (c := 120) (w := 1) (by decide) (by decide) (by decide +kernel)
    (by decide +kernel) (by decide +kernel)

end Signum
