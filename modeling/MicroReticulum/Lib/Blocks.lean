import Mathlib.Tactic

/-!
# Lists cut into blocks

`blocks k` cuts a list into the full blocks of `k` it holds, `pieces k` into
blocks of which the last may be shorter. A list of blocks of one length can be
found again in its concatenation by position alone.
-/

namespace Lib.Blocks

variable {α : Type*} {k i j : Nat} {b : List α} {xs : List (List α)}

def blocks (k : Nat) (b : List α) : List (List α) :=
  (List.range (b.length / k)).map fun i => (b.drop (i * k)).take k

def pieces (k : Nat) (b : List α) : List (List α) :=
  (List.range ((b.length + k - 1) / k)).map fun i => (b.drop (i * k)).take k

/-- Every member has this length. -/
def Even (k : Nat) (xs : List (List α)) : Prop := ∀ x ∈ xs, x.length = k

-- ---------------------------------------------------------------------------
-- Positions in a concatenation
-- ---------------------------------------------------------------------------

theorem Even.tail {x : List α} (h : Even k (x :: xs)) : Even k xs := fun y hy => h y (by simp [hy])

theorem Even.drop (h : Even k xs) : Even k (xs.drop i) := fun x hx => h x (List.mem_of_mem_drop hx)

theorem Even.take (h : Even k xs) : Even k (xs.take i) := fun x hx => h x (List.mem_of_mem_take hx)

theorem length_flatten (h : Even k xs) : xs.flatten.length = xs.length * k := by
  induction xs with
  | nil => simp
  | cons x xs ih =>
    rw [List.flatten_cons, List.length_append, h x (by simp), ih h.tail, List.length_cons]
    ring

theorem drop_flatten (h : Even k xs) (i : Nat) : xs.flatten.drop (i * k) = (xs.drop i).flatten := by
  induction i generalizing xs with
  | zero => simp
  | succ i ih =>
    cases xs with
    | nil => simp
    | cons x xs =>
      have hx : x.length = k := h x (by simp)
      rw [List.flatten_cons, Nat.succ_mul, Nat.add_comm, ← List.drop_drop, List.drop_left' hx, ih h.tail]
      rfl

theorem take_flatten (h : Even k xs) (i : Nat) : xs.flatten.take (i * k) = (xs.take i).flatten := by
  induction i generalizing xs with
  | zero => simp
  | succ i ih =>
    cases xs with
    | nil => simp
    | cons x xs =>
      have hx : x.length = k := h x (by simp)
      rw [List.flatten_cons, Nat.succ_mul, Nat.add_comm, List.take_append, hx, Nat.add_sub_cancel_left,
        ih h.tail, List.take_of_length_le (by omega)]
      rfl

/-- The `i`-th block of a concatenation. -/
theorem block_flatten (h : Even k xs) (hi : i < xs.length) : (xs.flatten.drop (i * k)).take k = xs[i] := by
  have hlen : xs[i].length = k := h _ (List.getElem_mem hi)
  rw [drop_flatten h, List.drop_eq_getElem_cons hi, List.flatten_cons, List.take_left' hlen]

theorem blocks_flatten (hk : 0 < k) (h : Even k xs) : blocks k xs.flatten = xs := by
  rw [blocks, length_flatten h, Nat.mul_div_cancel _ hk]
  apply List.ext_getElem
  · simp
  · intro i h₁ h₂
    rw [List.getElem_map, List.getElem_range, block_flatten h h₂]

-- ---------------------------------------------------------------------------
-- Pieces
-- ---------------------------------------------------------------------------

theorem lt_pieces (hk : 0 < k) : i < (b.length + k - 1) / k ↔ i * k < b.length := by
  rw [Nat.lt_iff_add_one_le, Nat.le_div_iff_mul_le hk, Nat.succ_mul]
  omega

theorem ne_nil_of_mem_pieces (hk : 0 < k) {x : List α} (h : x ∈ pieces k b) : x ≠ [] := by
  obtain ⟨i, hi, rfl⟩ := List.mem_map.1 h
  have hlt := (lt_pieces hk).1 (List.mem_range.1 hi)
  rw [← List.length_pos_iff, List.length_take, List.length_drop]
  omega

/-- What is left to cut behind the first `i` pieces. -/
theorem flatten_take_pieces (i : Nat) :
    ((List.range i).map fun i => (b.drop (i * k)).take k).flatten = b.take (i * k) := by
  induction i with
  | zero => simp
  | succ i ih =>
    rw [List.range_succ, List.map_append, List.flatten_append, ih]
    simp only [List.map_cons, List.map_nil, List.flatten_cons, List.flatten_nil, List.append_nil]
    rw [← List.take_add, Nat.succ_mul]

theorem flatten_pieces (hk : 0 < k) : (pieces k b).flatten = b := by
  rw [pieces, flatten_take_pieces]
  apply List.take_of_length_le
  by_contra hlt
  have h := (lt_pieces hk).2 (lt_of_not_ge hlt)
  exact lt_irrefl _ h

@[simp] theorem length_pieces : (pieces k b).length = (b.length + k - 1) / k := by simp [pieces]

theorem length_pieces_le (hk : 0 < k) : (pieces k b).length ≤ b.length := by
  rw [length_pieces]
  by_contra h
  have hlt := (lt_pieces hk).1 (not_le.1 h)
  exact absurd (Nat.le_mul_of_pos_right b.length hk) (by omega)

end Lib.Blocks
