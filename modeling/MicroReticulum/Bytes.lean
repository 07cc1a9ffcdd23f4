import Mathlib.Tactic

/-!
# Byte strings

The value behind `RNS::Bytes`. `left` and `mid` clamp to the string's own
length, as the source's do, so neither can read past it.
-/

namespace MicroReticulum

abbrev Bytes := List UInt8

namespace Bytes

instance : LawfulBEq Bytes := inferInstanceAs (LawfulBEq (List UInt8))

def left (b : Bytes) (len : Nat) : Bytes := b.take len

def right (b : Bytes) (len : Nat) : Bytes := b.drop (b.length - len)

def mid (b : Bytes) (beginpos len : Nat) : Bytes := (b.drop beginpos).take len

/-- `data()[pos]`, read only where the caller has checked the size. -/
def byte (b : Bytes) (pos : Nat) : Nat := (b.getD pos 0).toNat

@[simp] theorem length_left (b : Bytes) (len : Nat) : (b.left len).length = min len b.length := by
  simp [left]

@[simp] theorem length_mid (b : Bytes) (pos len : Nat) :
    (b.mid pos len).length = min len (b.length - pos) := by
  simp [mid]

theorem byte_lt (b : Bytes) (pos : Nat) : b.byte pos < 256 := by
  simpa [byte] using (b.getD pos 0).toNat_lt

theorem byte_drop (b : Bytes) (n pos : Nat) : byte (b.drop n) pos = b.byte (n + pos) := by
  simp [byte, List.getD_eq_getElem?_getD]

-- ---------------------------------------------------------------------------
-- Integers in memory
-- ---------------------------------------------------------------------------

/-- Least byte first, in `n` bytes. -/
def le : Nat → Nat → Bytes
  | 0, _ => []
  | n + 1, v => UInt8.ofNat v :: le n (v / 256)

def ofLe (b : Bytes) : Nat := b.foldr (fun x rest => x.toNat + 256 * rest) 0

@[simp] theorem length_le (n v : Nat) : (le n v).length = n := by
  induction n generalizing v with
  | zero => rfl
  | succ n ih => simp [le, ih]

theorem ofLe_le {n v : Nat} (h : v < 256 ^ n) : ofLe (le n v) = v := by
  induction n generalizing v with
  | zero =>
    have hv : v = 0 := by simpa using h
    rw [hv]
    rfl
  | succ n ih =>
    have hrest : v / 256 < 256 ^ n := by
      rw [Nat.div_lt_iff_lt_mul (by norm_num), ← Nat.pow_succ]
      exact h
    have htail : ofLe (le n (v / 256)) = v / 256 := ih hrest
    simp only [le, ofLe, List.foldr_cons] at htail ⊢
    rw [htail, UInt8.toNat_ofNat']
    exact Nat.mod_add_div v 256

end Bytes

end MicroReticulum
