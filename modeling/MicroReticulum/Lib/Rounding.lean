import Mathlib.Tactic

/-!
# Rounding to so many significant bits

`roundEven p m` is the number nearest to `m` that has a `p`-bit significand, and
of two as near the one whose significand is even. It is what converting an
integer to a binary floating-point number does, as long as the exponent is in
range.
-/

namespace Lib.Rounding

variable {p m d : Nat}

/-- Bits below the `p` highest. -/
def excess (p m : Nat) : Nat := Nat.log2 m + 1 - p

def roundEven (p m : Nat) : Nat :=
  let unit := 2 ^ excess p m
  let q := m / unit
  let r := m % unit
  if 2 * r < unit ∨ 2 * r = unit ∧ q % 2 = 0 then q * unit else (q + 1) * unit

/-- Has a significand of `p` bits. -/
def Significant (p d : Nat) : Prop := ∃ k e, k < 2 ^ p ∧ d = k * 2 ^ e

theorem excess_le (hm : m ≠ 0) (h : excess p m ≠ 0) : 2 ^ (p + excess p m) ≤ 2 * m := by
  have hlog : 2 ^ Nat.log2 m ≤ m := Nat.log2_self_le hm
  have he : p + excess p m = Nat.log2 m + 1 := by
    unfold excess at h ⊢
    omega
  rw [he, Nat.pow_succ']
  exact Nat.mul_le_mul_left 2 hlog

theorem lt_excess (m : Nat) : m < 2 ^ (p + excess p m) := by
  refine Nat.lt_of_lt_of_le Nat.lt_log2_self (Nat.pow_le_pow_right (by decide) ?_)
  unfold excess
  omega

/-- A number with `p` significant bits, not below the highest of `m`, has none
below those of `m` either. -/
theorem Significant.dvd (hd : Significant p d) (h : 2 ^ (p + excess p m) ≤ 2 * d) : 2 ^ excess p m ∣ d := by
  obtain ⟨k, e, hk, rfl⟩ := hd
  refine Dvd.dvd.mul_left (Nat.pow_dvd_pow 2 ?_) k
  by_contra hlt
  have hle : 2 ^ (e + 1) ≤ 2 ^ excess p m := Nat.pow_le_pow_right (by decide) (by omega)
  have hpos : 0 < 2 ^ e := by positivity
  have hbig : 2 * (k * 2 ^ e) < 2 ^ (p + excess p m) :=
    calc 2 * (k * 2 ^ e) < 2 * (2 ^ p * 2 ^ e) := by
          have := Nat.mul_lt_mul_of_pos_right hk hpos
          omega
      _ = 2 ^ p * 2 ^ (e + 1) := by ring
      _ ≤ 2 ^ p * 2 ^ excess p m := Nat.mul_le_mul_left _ hle
      _ = 2 ^ (p + excess p m) := (pow_add 2 p _).symm
  omega

theorem roundEven_eq (h : 2 ^ excess p m ∣ m) : roundEven p m = m := by
  have hr : m % 2 ^ excess p m = 0 := Nat.mod_eq_zero_of_dvd h
  have hpos : 0 < 2 ^ excess p m := by positivity
  simp only [roundEven, hr, Nat.mul_zero, hpos, true_or, if_true]
  exact Nat.div_mul_cancel h

theorem roundEven_dvd (p m : Nat) : 2 ^ excess p m ∣ roundEven p m := by
  simp only [roundEven]
  split <;> exact Nat.dvd_mul_left _ _

/-- Exactly the numbers with a short enough significand are kept. -/
theorem roundEven_eq_iff : roundEven p m = m ↔ Significant p m := by
  constructor
  · intro h
    have hdvd := roundEven_dvd p m
    rw [h] at hdvd
    obtain ⟨k, hk⟩ := hdvd
    refine ⟨k, excess p m, ?_, hk.trans (Nat.mul_comm _ _)⟩
    have hlt := lt_excess (p := p) m
    rw [pow_add, Nat.mul_comm] at hlt
    exact Nat.lt_of_mul_lt_mul_left (lt_of_eq_of_lt hk.symm hlt)
  · intro h
    refine roundEven_eq ?_
    rcases eq_or_ne m 0 with rfl | hm
    · exact dvd_zero _
    · by_cases he : excess p m = 0
      · rw [he]
        exact one_dvd m
      · exact h.dvd (excess_le hm he)

/-- None lies between the two neighbours rounding chooses from. -/
theorem Significant.gap (hd : Significant p d) (hm : m ≠ 0) (he : excess p m ≠ 0) :
    d ≤ m / 2 ^ excess p m * 2 ^ excess p m ∨ (m / 2 ^ excess p m + 1) * 2 ^ excess p m ≤ d := by
  have hpos : 0 < 2 ^ excess p m := by positivity
  by_cases hlow : 2 ^ (p + excess p m) ≤ 2 * d
  · obtain ⟨c, hc⟩ := hd.dvd hlow
    rw [hc, Nat.mul_comm _ c]
    rcases Nat.lt_or_ge (m / 2 ^ excess p m) c with h | h
    · exact .inr (Nat.mul_le_mul_right _ h)
    · exact .inl (Nat.mul_le_mul_right _ h)
  · refine .inl ?_
    have hm' := excess_le hm he
    cases p with
    | zero =>
      obtain ⟨k, e, hk, rfl⟩ := hd
      obtain rfl : k = 0 := by simpa using hk
      simp
    | succ p =>
      have hhalf : 2 ^ (p + 1 + excess (p + 1) m) = 2 * (2 ^ p * 2 ^ excess (p + 1) m) := by ring
      have hq : 2 ^ p ≤ m / 2 ^ excess (p + 1) m := (Nat.le_div_iff_mul_le hpos).2 (by omega)
      have hmul := Nat.mul_le_mul_right (2 ^ excess (p + 1) m) hq
      omega

/-- No number with so short a significand is nearer. -/
theorem roundEven_nearest (hd : Significant p d) :
    ((roundEven p m : Int) - m).natAbs ≤ ((d : Int) - m).natAbs := by
  rcases eq_or_ne m 0 with rfl | hm
  · rw [roundEven_eq (dvd_zero _)]
    simp
  by_cases he : excess p m = 0
  · rw [roundEven_eq (by rw [he]; exact one_dvd m)]
    simp
  have hgap := hd.gap hm he
  have hsplit := Nat.div_add_mod m (2 ^ excess p m)
  have hr := Nat.mod_lt m (show 0 < 2 ^ excess p m by positivity)
  simp only [roundEven]
  rw [Nat.mul_comm] at hsplit
  rw [Nat.add_mul, Nat.one_mul] at hgap ⊢
  generalize m / 2 ^ excess p m * 2 ^ excess p m = a at hgap hsplit ⊢
  generalize m % 2 ^ excess p m = r at hsplit hr ⊢
  generalize 2 ^ excess p m = u at hgap hr ⊢
  split <;> omega

end Lib.Rounding
