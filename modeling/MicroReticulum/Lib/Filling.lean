import Mathlib.Tactic

/-!
# Places filled in any order

A row of places, each filled or not. Its height is how far it is filled without
a gap; filling one more place adds one to the count, and moves the height over
whatever had been filled beyond it.
-/

namespace Lib.Filling

variable {α : Type*} {filled : α → Bool} {l : List α} {i : Nat} {x : α}

/-- The length of the filled beginning. -/
def height (filled : α → Bool) (l : List α) : Nat := (l.takeWhile filled).length

theorem height_le (hi : i < l.length) (hgap : filled l[i] = false) : height filled l ≤ i := by
  induction l generalizing i with
  | nil => cases hi
  | cons a l ih =>
    unfold height
    cases i with
    | zero => simp [show filled a = false from hgap]
    | succ i =>
      rw [List.takeWhile_cons]
      split
      · exact Nat.succ_le_succ (ih (Nat.lt_of_succ_lt_succ hi) hgap)
      · exact Nat.zero_le _

theorem take_height (filled : α → Bool) (l : List α) : l.take (height filled l) = l.takeWhile filled := by
  induction l with
  | nil => rfl
  | cons a l ih =>
    unfold height
    rw [List.takeWhile_cons]
    split
    · exact congrArg (a :: ·) ih
    · rfl

/-- From the height on, the count goes on behind the place just filled. -/
theorem height_set (hi : i < l.length) (hgap : filled l[i] = false) (x : α) :
    height filled (l.set i x) =
      height filled l + (((l.set i x).drop (height filled l)).takeWhile filled).length := by
  have hbegin : (l.set i x).take (height filled l) = l.takeWhile filled := by
    rw [List.take_set_of_le (height_le hi hgap), take_height]
  have hsplit := List.take_append_drop (height filled l) (l.set i x)
  rw [hbegin] at hsplit
  have hall : ∀ a ∈ l.takeWhile filled, filled a = true := List.all_eq_true.1 List.all_takeWhile
  conv_lhs => rw [← hsplit]
  rw [height, List.takeWhile_append_of_pos hall, List.length_append]
  rfl

theorem countP_set_filled (hi : i < l.length) (hgap : filled l[i] = false) (hx : filled x = true) :
    (l.set i x).countP filled = l.countP filled + 1 := by
  rw [List.countP_set hi, hgap, hx]
  rfl

/-- Every place is filled once as many are as there are. -/
theorem countP_eq_length_iff : l.countP filled = l.length ↔ ∀ i (hi : i < l.length), filled l[i] = true := by
  rw [List.countP_eq_length, List.forall_mem_iff_getElem]

end Lib.Filling
