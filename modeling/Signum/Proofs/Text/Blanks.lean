import Signum.Text.Blank
import Signum.Markdown.Character
import Signum.Proofs.Text.Clusters
/- Blanks around a text.

   A text is blank when all its code points are white space. What is dropped from the ends of a
   text is blank (`trim_between`), and a blank text holds no ASCII byte but white space
   (`Blank.not_mem`), so what is dropped never holds a mark such as a colon. -/
namespace Signum

namespace CodePoint

/-- Every code point of the text is white space. -/
def Blank (text : Bytes) : Prop := ∀ p ∈ split text, isBlank p.1 = true

theorem Blank.nil : Blank [] := by
  intro p hp
  rw [split] at hp
  cases hp

/-- An ASCII byte that is not white space is not in a blank text. -/
theorem Blank.not_mem {x : Bytes} (h : Blank x) {a : UInt8} (hascii : a < 0x80)
    (ha : isBlank a.toNat = false) : a ∉ x := by
  intro hmem
  obtain ⟨before, after, rfl⟩ := List.append_of_mem hmem
  have hpoint : (a.toNat, [a]) ∈ split (before ++ a :: after) := by
    rw [split_before_ascii hascii, split_ascii hascii]
    exact List.mem_append_right _ List.mem_cons_self
  have hblank := h _ hpoint
  rw [ha] at hblank
  cases hblank

/-! The blanks of markdown are ASCII bytes. -/

theorem isBlank_of_space {b : UInt8} (h : Markdown.isSpace b = true) :
    b < 0x80 ∧ isBlank b.toNat = true := by
  have hcases : ∀ c : Fin 256, Markdown.isSpace c.val.toUInt8 = true →
      c.val.toUInt8 < 0x80 ∧ isBlank c.val = true := by decide +kernel
  have hback : b.toNat.toUInt8 = b := by simp
  have hb := hcases ⟨b.toNat, b.toNat_lt⟩
  rw [hback] at hb
  exact hb h

theorem Blank.of_spaces {x : Bytes} (h : ∀ b ∈ x, Markdown.isSpace b = true) : Blank x := by
  induction x with
  | nil => exact .nil
  | cons b rest ih =>
    have hb := isBlank_of_space (h b List.mem_cons_self)
    intro p hp
    rw [split_ascii hb.1] at hp
    rcases List.mem_cons.mp hp with rfl | hp
    · exact hb.2
    · exact ih (fun c hc => h c (List.mem_cons_of_mem b hc)) p hp

/-! Code points at the start and at the end of a text. -/

/-- Code points at the start of a text are read from their own bytes, when each has a
well-formed encoding. -/
theorem split_front {x : Bytes} {front back : List (CodePoint × Bytes)}
    (h : split x = front ++ back) (hfront : ∀ p ∈ front, p.1 ≠ replacement) :
    split (front.flatMap Prod.snd) = front := by
  induction front generalizing x with
  | nil => rw [List.flatMap_nil, split]
  | cons p front ih =>
    cases x with
    | nil =>
      rw [split] at h
      cases h
    | cons a rest =>
      obtain ⟨⟨c, w⟩, hdec⟩ : ∃ r, decode (a :: rest) = r := ⟨_, rfl⟩
      rw [split_eq (List.cons_ne_nil a rest) hdec, List.cons_append] at h
      obtain ⟨rfl, hback⟩ := List.cons_eq_cons.mp h
      obtain ⟨hc, hrest⟩ := List.forall_mem_cons.mp hfront
      rw [List.flatMap_cons, split_take hdec hc, ih hback hrest]

/-- Code points at the end of a text are read from their own bytes. -/
theorem split_back {x : Bytes} {front back : List (CodePoint × Bytes)}
    (h : split x = front ++ back) : split (back.flatMap Prod.snd) = back := by
  induction front generalizing x with
  | nil =>
    rw [List.nil_append] at h
    rw [← h, flatMap_split]
  | cons p front ih =>
    cases x with
    | nil =>
      rw [split] at h
      cases h
    | cons a rest =>
      obtain ⟨⟨c, w⟩, hdec⟩ : ∃ r, decode (a :: rest) = r := ⟨_, rfl⟩
      rw [split_eq (List.cons_ne_nil a rest) hdec, List.cons_append] at h
      exact ih (List.cons_eq_cons.mp h).2

theorem Blank.of_points {x : Bytes} {points : List (CodePoint × Bytes)} (h : split x = points)
    (hpoints : ∀ p ∈ points, isBlank p.1 = true) : Blank x := by
  intro p hp
  rw [h] at hp
  exact hpoints p hp

end CodePoint

namespace Bytes

open CodePoint

/-- A text is what is left of it without the blanks around it, between blanks. -/
theorem trim_between (x : Bytes) :
    ∃ before after, Blank before ∧ Blank after ∧ x = before ++ trim x ++ after := by
  let blank : CodePoint × Bytes → Bool := fun p => isBlank p.1
  let front := (split x).takeWhile blank
  let rest := (split x).dropWhile blank
  let middle := (rest.reverse.dropWhile blank).reverse
  let back := (rest.reverse.takeWhile blank).reverse
  have hrest : rest = middle ++ back := by
    show rest = (rest.reverse.dropWhile blank).reverse ++ (rest.reverse.takeWhile blank).reverse
    rw [← List.reverse_append, List.takeWhile_append_dropWhile, List.reverse_reverse]
  have hsplit : split x = front ++ (middle ++ back) := by
    rw [← hrest]
    exact List.takeWhile_append_dropWhile.symm
  have hends : split x = (front ++ middle) ++ back := by rw [hsplit, List.append_assoc]
  have hfront : ∀ p ∈ front, isBlank p.1 = true :=
    List.all_eq_true.mp List.all_takeWhile
  have hback : ∀ p ∈ back, isBlank p.1 = true := by
    intro p hp
    exact List.all_eq_true.mp List.all_takeWhile p (List.mem_reverse.mp hp)
  refine ⟨front.flatMap Prod.snd, back.flatMap Prod.snd, ?_, ?_, ?_⟩
  · apply Blank.of_points (split_front hsplit _) hfront
    intro p hp hreplacement
    have hp := hfront p hp
    rw [hreplacement] at hp
    exact absurd hp (by decide)
  · exact Blank.of_points (split_back hends) hback
  · have htrim : trim x = middle.flatMap Prod.snd := (List.flatMap_def ..).symm
    calc x = (split x).flatMap Prod.snd := (flatMap_split x).symm
      _ = front.flatMap Prod.snd ++ (middle.flatMap Prod.snd ++ back.flatMap Prod.snd) := by
        rw [hsplit, List.flatMap_append, List.flatMap_append]
      _ = front.flatMap Prod.snd ++ trim x ++ back.flatMap Prod.snd := by
        rw [htrim, List.append_assoc]

end Bytes
end Signum
