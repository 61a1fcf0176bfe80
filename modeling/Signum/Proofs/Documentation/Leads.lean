import Signum.Documentation
import Signum.Proofs.Text.Blanks
/- Cutting the lead off a field.

   A lead is a name and a colon, the first colon of the text it starts (`Leads`). It is cut off
   the run of text that the content starts with, together with the blanks after it, and nothing
   else of the content changes (`Cut`). Where the content does not start with a run of text it
   stays whole. So a field keeps its content but for the name it is filed under
   (`entry_keeps`). -/
namespace Signum

open Markdown

namespace Documentation

/-- The text starts with the lead, a name and the first colon of the text. -/
def Leads (lead text : Bytes) : Prop :=
  ∃ name, 58 ∉ name ∧ lead = name ++ [58] ∧ lead <+: text

/-- Content, and what is left of it without the lead and the blanks after it. -/
inductive Cut (lead : Bytes) : List Inline → List Inline → Prop where
  | whole (content : List Inline) : Cut lead content content
  /-- The run of text holds nothing else. -/
  | run {blanks : Bytes} (ending : LineEnd) (rest : List Inline) (h : CodePoint.Blank blanks) :
    Cut lead (.text (lead ++ blanks) ending :: rest) rest
  | start {blanks : Bytes} (text : Bytes) (ending : LineEnd) (rest : List Inline)
      (h : CodePoint.Blank blanks) :
    Cut lead (.text (lead ++ blanks ++ text) ending :: rest) (.text text ending :: rest)

/-- A block without the lead. -/
inductive CutBlock (lead : Bytes) : Block (List Inline) → Block (List Inline) → Prop where
  | whole (b : Block (List Inline)) : CutBlock lead b b
  | paragraph {content kept : List Inline} (h : Cut lead content kept) :
    CutBlock lead (.paragraph content) (.paragraph kept)
  | plain {content kept : List Inline} (h : Cut lead content kept) :
    CutBlock lead (.plain content) (.plain kept)
  | heading {content kept : List Inline} (level : Nat) (h : Cut lead content kept) :
    CutBlock lead (.heading level content) (.heading level kept)

/-- An inline without the lead. -/
inductive CutInline (lead : Bytes) : Inline → Inline → Prop where
  | whole (i : Inline) : CutInline lead i i
  | emphasis {content kept : List Inline} (strong : Bool) (h : Cut lead content kept) :
    CutInline lead (.emphasis strong content) (.emphasis strong kept)
  | link {content kept : List Inline} (target : Target) (h : Cut lead content kept) :
    CutInline lead (.link target content) (.link target kept)
  | image {content kept : List Inline} (target : Target) (h : Cut lead content kept) :
    CutInline lead (.image target content) (.image target kept)

/-- The first of a list changes, and the others stay. -/
inductive First {α : Type} (R : α → α → Prop) : List α → List α → Prop where
  | cons {x y : α} (h : R x y) (rest : List α) : First R (x :: rest) (y :: rest)

/-- What an entry keeps. Code becomes text that is read as the bytes of the code, and a mention its
name. -/
inductive Keeps (lead : Bytes) : Entry → Passage → Prop where
  | item {item kept : List (Block (List Inline))} (h : First (CutBlock lead) item kept) :
    Keeps lead (.ofItem item) (.blocks kept)
  | content {b : Block (List Inline)} {content kept : List Inline}
      (hb : b = .paragraph content ∨ b = .plain content ∨ ∃ level, b = .heading level content)
      (h : First (CutInline lead) content kept) : Keeps lead (.ofBlock b) (.inlines kept)
  | quote {bs kept : List (Block (List Inline))} (h : First (CutBlock lead) bs kept) :
    Keeps lead (.ofBlock (.quote bs)) (.blocks kept)
  | list (start : Option Nat) (items : List (List (Block (List Inline)))) :
    Keeps lead (.ofBlock (.list start items)) (.listItems items)
  | inline {i : Inline} {content kept : List Inline}
      (hi : (∃ strong, i = .emphasis strong content) ∨ (∃ target, i = .link target content) ∨
        ∃ target, i = .image target content)
      (h : First (CutInline lead) content kept) : Keeps lead (.ofInline i) (.inlines kept)
  | code {raw text : Bytes} (htext : literal raw = .text text .none)
      (hread : characters text = raw.map .byte) :
    Keeps lead (.ofInline (.code raw)) (.inlines [literal raw])
  | mention (name : Bytes) : Keeps lead (.ofInline (.mention name)) (.inlines [.text name .none])

/-- Code as text is read as its bytes. -/
theorem literal_eq (raw : Bytes) :
    ∃ text, literal raw = .text text .none ∧ characters text = raw.map .byte := by
  refine ⟨_, rfl, ?_⟩
  induction raw with
  | nil => rw [List.flatMap_nil, characters, List.map_nil]
  | cons b rest ih =>
    rw [List.flatMap_cons, List.map_cons, ← ih]
    generalize rest.flatMap _ = more
    split
    · next hpunct =>
      show characters (92 :: b :: more) = _
      rw [characters, if_pos ⟨rfl, hpunct⟩]
    · next hpunct =>
      have hescape : b ≠ 92 := by
        rintro rfl
        exact hpunct (by decide)
      have hreference : b ≠ 38 := by
        rintro rfl
        exact hpunct (by decide)
      cases more with
      | nil => simp only [List.append_nil, characters]
      | cons c more =>
        show characters (b :: c :: more) = _
        rw [characters, if_neg (fun h => hescape h.1), if_neg hreference]

variable {lead text : Bytes}

/-! Leads of a text. -/

theorem cut_eq {rest : Bytes} {name : Bytes} (h : Bytes.cut 58 text = some (name, rest)) :
    58 ∉ name ∧ text = name ++ 58 :: rest := by
  induction text generalizing name with
  | nil => cases h
  | cons b text ih =>
    rw [Bytes.cut] at h
    by_cases hb : b = 58
    · rw [if_pos hb] at h
      cases h
      exact ⟨List.not_mem_nil, by rw [hb, List.nil_append]⟩
    · rw [if_neg hb] at h
      obtain ⟨⟨l, r⟩, hcut, heq⟩ := Option.map_eq_some_iff.mp h
      cases heq
      obtain ⟨hl, htext⟩ := ih hcut
      refine ⟨?_, by rw [htext, List.cons_append]⟩
      intro hmem
      rcases List.mem_cons.mp hmem with hmem | hmem
      · exact hb hmem.symm
      · exact hl hmem

theorem Leads.of_cut {name rest : Bytes} (h : Bytes.cut 58 text = some (name, rest)) :
    Leads (name ++ ":") text := by
  obtain ⟨hname, htext⟩ := cut_eq h
  refine ⟨name, hname, rfl, rest, ?_⟩
  calc name ++ [58] ++ rest = name ++ 58 :: rest := List.append_assoc ..
    _ = text := htext.symm

/-- Nothing but the start of the text stands before the lead, as far as there is no colon. -/
theorem Leads.at_start {before more : Bytes} (h : Leads lead (before ++ lead ++ more))
    (hbefore : 58 ∉ before) : before = [] := by
  obtain ⟨name, hname, rfl, after, hafter⟩ := h
  have hkept (x : Bytes) (hx : 58 ∉ x) : ∀ b ∈ x, (b != 58) = true := by
    intro b hb
    rw [bne_iff_ne]
    rintro rfl
    exact hx hb
  have hboth : 58 ∉ before ++ name := by
    intro hmem
    rcases List.mem_append.mp hmem with hmem | hmem
    · exact hbefore hmem
    · exact hname hmem
  -- the text up to its first colon, read off both ways of writing it
  have hname : name = before ++ name :=
    calc name = (name ++ 58 :: after).takeWhile (· != 58) := by
          rw [List.takeWhile_append_of_pos (hkept name hname), List.takeWhile_cons_of_neg (by simp),
            List.append_nil]
      _ = (before ++ name ++ 58 :: more).takeWhile (· != 58) := by
          simpa [List.append_assoc] using congrArg (List.takeWhile (· != 58)) hafter
      _ = before ++ name := by
          rw [List.takeWhile_append_of_pos (hkept _ hboth), List.takeWhile_cons_of_neg (by simp),
            List.append_nil]
  have hlength := congrArg List.length hname
  rw [List.length_append] at hlength
  exact List.length_eq_zero_iff.mp (by omega)

/-! What is cut off content. The content may be followed by more of the text. -/

theorem trimmed_left {raw more : Bytes} (h : raw.trim = lead) (hlead : Leads lead (raw ++ more)) :
    ∃ blanks, CodePoint.Blank blanks ∧ raw = lead ++ blanks := by
  obtain ⟨before, after, hbefore, hafter, hraw⟩ := Bytes.trim_between raw
  rw [h] at hraw
  have hstart : Leads lead (before ++ lead ++ (after ++ more)) := by
    rw [hraw, List.append_assoc] at hlead
    exact hlead
  have hnone : before = [] := hstart.at_start (hbefore.not_mem (by decide) (by decide))
  refine ⟨after, hafter, ?_⟩
  rw [hraw, hnone, List.nil_append]

theorem dropped_left {raw more : Bytes} (h : lead.length ≤ raw.length)
    (hlead : Leads lead (raw ++ more)) : ∃ blanks, CodePoint.Blank blanks ∧
      raw = lead ++ blanks ++ trimLeft (raw.drop lead.length) := by
  obtain ⟨name, -, -, hstart⟩ := hlead
  obtain ⟨after, rfl⟩ : lead <+: raw :=
    List.prefix_of_prefix_length_le hstart (List.prefix_append ..) h
  refine ⟨after.takeWhile isSpace, ?_, ?_⟩
  · exact .of_spaces (List.all_eq_true.mp List.all_takeWhile)
  · rw [List.drop_left, trimLeft, List.append_assoc, List.takeWhile_append_dropWhile]

theorem cutLead_cut {is kept : List Inline} {more : Bytes} (h : cutLead? lead is = some kept)
    (hlead : Leads lead (Inline.writtenAll is ++ more)) : Cut lead is kept := by
  unfold cutLead? at h
  split at h
  · next raw ending rest =>
    rw [Inline.writtenAll, Inline.written, List.append_assoc] at hlead
    split at h
    · next htrim =>
      cases h
      obtain ⟨blanks, hblanks, hraw⟩ := trimmed_left htrim hlead
      rw [hraw]
      exact .run ending kept hblanks
    · split at h
      · cases h
      · next hlong =>
        cases h
        obtain ⟨blanks, hblanks, hraw⟩ := dropped_left (Nat.le_of_not_lt hlong) hlead
        generalize trimLeft (raw.drop lead.length) = left at hraw ⊢
        rw [hraw]
        exact .start left ending rest hblanks
  · cases h
    exact .whole is

theorem cutBlock_cut {b kept : Block (List Inline)} {more : Bytes}
    (h : cutBlock? lead b = some kept) (hlead : Leads lead (b.written ++ more)) :
    CutBlock lead b kept := by
  cases b with
  | paragraph content =>
    obtain ⟨left, hcut, rfl⟩ := Option.map_eq_some_iff.mp h
    rw [Block.written] at hlead
    exact .paragraph (cutLead_cut hcut hlead)
  | plain content =>
    obtain ⟨left, hcut, rfl⟩ := Option.map_eq_some_iff.mp h
    rw [Block.written] at hlead
    exact .plain (cutLead_cut hcut hlead)
  | heading level content =>
    obtain ⟨left, hcut, rfl⟩ := Option.map_eq_some_iff.mp h
    rw [Block.written] at hlead
    exact .heading level (cutLead_cut hcut hlead)
  | quote | list | fenced | indented | rule | markup =>
    cases h
    exact .whole _

theorem cutItem_cut {item kept : List (Block (List Inline))} (h : cutItem? lead item = some kept)
    (hlead : Leads lead (Block.writtenAll item)) : First (CutBlock lead) item kept := by
  cases item with
  | nil => cases h
  | cons b rest =>
    obtain ⟨left, hcut, rfl⟩ := Option.map_eq_some_iff.mp h
    rw [Block.writtenAll] at hlead
    exact .cons (cutBlock_cut hcut hlead) rest

theorem cutInline_cut {i kept : Inline} {more : Bytes} (h : cutInline? lead i = some kept)
    (hlead : Leads lead (i.written ++ more)) : CutInline lead i kept := by
  cases i with
  | emphasis strong content =>
    obtain ⟨left, hcut, rfl⟩ := Option.map_eq_some_iff.mp h
    rw [Inline.written] at hlead
    exact .emphasis strong (cutLead_cut hcut hlead)
  | link target content =>
    obtain ⟨left, hcut, rfl⟩ := Option.map_eq_some_iff.mp h
    rw [Inline.written] at hlead
    exact .link target (cutLead_cut hcut hlead)
  | image target content =>
    obtain ⟨left, hcut, rfl⟩ := Option.map_eq_some_iff.mp h
    rw [Inline.written] at hlead
    exact .image target (cutLead_cut hcut hlead)
  | text | code | address | markup | mention =>
    cases h
    exact .whole _

theorem cutInlines_cut {is kept : List Inline} (h : cutInlines? lead is = some kept)
    (hlead : Leads lead (Inline.writtenAll is)) : First (CutInline lead) is kept := by
  cases is with
  | nil => cases h
  | cons i rest =>
    obtain ⟨left, hcut, rfl⟩ := Option.map_eq_some_iff.mp h
    rw [Inline.writtenAll] at hlead
    exact .cons (cutInline_cut hcut hlead) rest

/-! What an entry keeps. -/

theorem ofItem_keeps {item : List (Block (List Inline))} {p : Passage}
    (h : (Entry.ofItem item).content lead = some p) (hlead : Leads lead (Entry.ofItem item).text) :
    Keeps lead (.ofItem item) p := by
  obtain ⟨kept, hcut, rfl⟩ := Option.map_eq_some_iff.mp h
  exact .item (cutItem_cut hcut hlead)

theorem ofBlock_keeps {b : Block (List Inline)} {p : Passage}
    (h : (Entry.ofBlock b).content lead = some p) (hlead : Leads lead (Entry.ofBlock b).text) :
    Keeps lead (.ofBlock b) p := by
  have hcontent {content : List Inline}
      (hb : b = .paragraph content ∨ b = .plain content ∨ ∃ level, b = .heading level content)
      (hp : (cutInlines? lead content).map .inlines = some p)
      (hlead : Leads lead (Inline.writtenAll content)) : Keeps lead (.ofBlock b) p := by
    obtain ⟨kept, hcut, rfl⟩ := Option.map_eq_some_iff.mp hp
    exact .content hb (cutInlines_cut hcut hlead)
  rw [Entry.ofBlock] at hlead
  cases b with
  | paragraph content =>
    rw [Block.written] at hlead
    exact hcontent (.inl rfl) h hlead
  | plain content =>
    rw [Block.written] at hlead
    exact hcontent (.inr (.inl rfl)) h hlead
  | heading level content =>
    rw [Block.written] at hlead
    exact hcontent (.inr (.inr ⟨level, rfl⟩)) h hlead
  | quote bs =>
    obtain ⟨kept, hcut, rfl⟩ := Option.map_eq_some_iff.mp h
    rw [Block.written] at hlead
    exact .quote (cutItem_cut hcut hlead)
  | list start items =>
    rw [Entry.ofBlock] at h
    dsimp only at h
    split at h
    · cases h
    · cases h
      exact .list start items
  | fenced | indented | rule | markup => cases h

theorem ofInline_keeps {i : Inline} {p : Passage}
    (h : (Entry.ofInline i).content lead = some p) (hlead : Leads lead (Entry.ofInline i).text) :
    Keeps lead (.ofInline i) p := by
  have hcontent {content : List Inline}
      (hi : (∃ strong, i = .emphasis strong content) ∨ (∃ target, i = .link target content) ∨
        ∃ target, i = .image target content)
      (hp : (cutInlines? lead content).map .inlines = some p)
      (hlead : Leads lead (Inline.writtenAll content)) : Keeps lead (.ofInline i) p := by
    obtain ⟨kept, hcut, rfl⟩ := Option.map_eq_some_iff.mp hp
    exact .inline hi (cutInlines_cut hcut hlead)
  rw [Entry.ofInline] at hlead
  cases i with
  | emphasis strong content =>
    rw [Inline.written] at hlead
    exact hcontent (.inl ⟨strong, rfl⟩) h hlead
  | link target content =>
    rw [Inline.written] at hlead
    exact hcontent (.inr (.inl ⟨target, rfl⟩)) h hlead
  | image target content =>
    rw [Inline.written] at hlead
    exact hcontent (.inr (.inr ⟨target, rfl⟩)) h hlead
  | code raw =>
    cases h
    obtain ⟨text, htext, hread⟩ := literal_eq raw
    exact .code htext hread
  | mention name =>
    cases h
    exact .mention name
  | text | address | markup => cases h

/-- An entry keeps its content, but for the lead it starts with. -/
theorem entry_keeps {b : Block (List Inline)} {e : Entry} {p : Passage} (he : e ∈ entries b)
    (h : e.content lead = some p) (hlead : Leads lead e.text) : Keeps lead e p := by
  cases b with
  | paragraph content | plain content | heading level content =>
    obtain ⟨i, -, rfl⟩ := List.mem_map.mp he
    exact ofInline_keeps h hlead
  | quote bs =>
    obtain ⟨inner, -, rfl⟩ := List.mem_map.mp he
    exact ofBlock_keeps h hlead
  | list start items =>
    obtain ⟨item, -, rfl⟩ := List.mem_map.mp he
    exact ofItem_keeps h hlead
  | fenced | indented | rule | markup => cases he

end Documentation
end Signum
