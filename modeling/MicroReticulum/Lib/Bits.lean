import Mathlib.Tactic

/-!
# Bits of a word

The bits of a 32-bit word under the masks that set, clear and test them.
-/

namespace Lib.Bits

variable {x y : UInt32} {i : Nat}

def bit (x : UInt32) (i : Nat) : Bool := x.toBitVec.getLsbD i

theorem bit_or : bit (x ||| y) i = (bit x i || bit y i) := by
  simp [bit]

theorem bit_and : bit (x &&& y) i = (bit x i && bit y i) := by
  simp [bit]

theorem bit_of_ge (h : 32 ≤ i) : bit x i = false := BitVec.getLsbD_of_ge _ _ h

/-- Cleared by the complement of a mask. -/
theorem bit_clear : bit (x &&& ~~~y) i = (bit x i && !bit y i) := by
  by_cases h : i < 32
  · simp [bit, h]
  · rw [bit_of_ge (not_lt.1 h), bit_of_ge (not_lt.1 h), Bool.false_and]

theorem eq_zero_iff : x = 0 ↔ ∀ i, bit x i = false := by
  constructor
  · rintro rfl i
    simp [bit]
  · intro h
    apply UInt32.eq_of_toBitVec_eq
    apply BitVec.eq_of_getLsbD_eq
    intro i _
    simpa [bit] using h i

/-- A mask meets a word in some bit. -/
theorem and_ne_zero_iff : x &&& y ≠ 0 ↔ ∃ i, bit x i ∧ bit y i := by
  rw [ne_eq, eq_zero_iff, not_forall]
  simp [bit_and]

end Lib.Bits
