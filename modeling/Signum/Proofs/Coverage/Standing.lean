import Signum.Syntax.Tree
/- How a global variable stands with the analysis.

   A join keeps a variable bound only when its first side has it bound: the state at the
   head of a loop or of an `if` without `else`, and the first branch of an `if` with one.
   `Stmt.track` follows from the text of a program alone what this does to one global
   variable: whether the analysis has bound it, and whether it was `lost`, that is, whether
   a run may have given it a value on a path that a join has dropped. -/
namespace Signum

/-- How a global variable stands at some point of a program. -/
structure Standing where
  /-- An inner variable of the same name is in sight. -/
  hidden : Bool
  /-- The analysis has it bound. -/
  bound : Bool
  /-- A run may have given it a value that the analysis does not know of. -/
  lost : Bool
  deriving DecidableEq, Repr

namespace Standing

/-- A variable that is not declared yet. -/
def start : Standing := ⟨false, false, false⟩

/-- After an assignment to `name`. -/
def assign (x name : Bytes) (t : Standing) : Standing :=
  if name = x && !t.hidden then { t with bound := true, lost := false } else t

/-- After a join of two states; the first decides what stays bound. -/
def join (mine theirs : Standing) : Standing :=
  { mine with lost := mine.lost || theirs.lost || (theirs.bound && !mine.bound) }

/-- After a declaration, at the top of a program or inside it. -/
def declare (x : Bytes) (top : Bool) (d : Decl) (t : Standing) : Standing :=
  if d.name ≠ x then t
  else if top then ⟨false, d.init.isSome, false⟩
  else { t with hidden := true }

end Standing

mutual

/-- How the global variable `x` stands after a statement. -/
def Stmt.track (x : Bytes) (t : Standing) : Stmt → Standing
  | .assign name _ _ => t.assign x name
  | .print _ _ => t
  | .block body _ => { trackItems x false t body with hidden := t.hidden }
  | .ite _ yes none _ => t.join (yes.track x t)
  | .ite _ yes (some no) _ => (yes.track x t).join (no.track x t)
  | .loop _ body _ => t.join (body.track x t)

/-- How it stands after a unit. -/
def Item.track (x : Bytes) (top : Bool) (t : Standing) : Item → Standing
  | .decl d => t.declare x top d
  | .stmt s => s.track x t

/-- How it stands after some units. -/
def trackItems (x : Bytes) (top : Bool) (t : Standing) : List Item → Standing
  | [] => t
  | u :: rest => trackItems x top (u.track x top t) rest

end

/-- How the global variable `x` stands at the end of a program. -/
def Program.standing (p : Program) (x : Bytes) : Standing := trackItems x true .start p.units

namespace Standing

theorem hidden_assign (x name : Bytes) (t : Standing) : (t.assign x name).hidden = t.hidden := by
  unfold assign
  split <;> rfl

/-- A join that loses nothing has lost nothing on either side, and keeps what the other
side has bound. -/
theorem join_not_lost {mine theirs : Standing} (h : (mine.join theirs).lost = false) :
    mine.lost = false ∧ theirs.lost = false ∧ (theirs.bound = true → mine.bound = true) := by
  simp only [join, Bool.or_eq_false_iff, Bool.and_eq_false_iff, Bool.not_eq_false'] at h
  obtain ⟨⟨hm, ht⟩, hb⟩ := h
  refine ⟨hm, ht, fun htb => ?_⟩
  rcases hb with hb | hb
  · rw [htb] at hb
    cases hb
  · exact hb

/-- A join that loses nothing changes nothing. -/
theorem join_eq_self {mine theirs : Standing} (h : (mine.join theirs).lost = false) :
    mine.join theirs = mine := by
  have hm := (join_not_lost h).1
  unfold join at h ⊢
  dsimp only at h
  rw [h, ← hm]

end Standing

end Signum
