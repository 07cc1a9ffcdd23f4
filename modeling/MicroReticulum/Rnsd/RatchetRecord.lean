import MicroReticulum.Destination.Ratchets
import MicroReticulum.Lib.Blocks
import MicroReticulum.Rnsd.ChannelTable

/-!
# The stored ratchets of a destination

`<rotated_at> <hex>`: the seconds of the last rotation, a space, and the private
keys one behind the other. Loading takes the record apart again.
-/

namespace MicroReticulum.Rnsd

open Lib.Blocks
open MicroReticulum.MsgPack (Text hex decimal)
open MicroReticulum.Announcing (RATCHETSIZE)
open MicroReticulum.Destinations (RATCHET_COUNT second)

def RNSD_RATCHET_LEN : Nat := 32

-- ---------------------------------------------------------------------------
-- Text
-- ---------------------------------------------------------------------------

/-- A hex digit of either case; `assignHex` tests none. -/
def nibble (c : Char) : Nat := (c.toNat % 256 % 32 + 9) % 25

def assignHex : Text → Bytes
  | a :: b :: rest => UInt8.ofNat (nibble a * 16 + nibble b) :: assignHex rest
  | _ => []

def isSpace (c : Char) : Bool := c = ' ' ∨ 9 ≤ c.toNat ∧ c.toNat ≤ 13

def digits (s : Text) : Nat := Nat.ofDigitChars 10 (s.takeWhile Char.isDigit) 0

/-- `strtoull` to base ten, which stops at what is no digit and at the greatest value. -/
def strtoull (s : Text) : Nat :=
  match s.dropWhile isSpace with
  | '-' :: rest => if digits rest < 2 ^ 64 then (2 ^ 64 - digits rest) % 2 ^ 64 else 2 ^ 64 - 1
  | '+' :: rest => min (digits rest) (2 ^ 64 - 1)
  | rest => min (digits rest) (2 ^ 64 - 1)

-- ---------------------------------------------------------------------------
-- The record
-- ---------------------------------------------------------------------------

/-- `snprintf` into 24 characters, the last one a NUL. -/
def head (rotatedAt : Nat) : Text := (decimal rotatedAt ++ [' ']).take 23

def ourDestRatchetsPersist (timeValid : Bool) (privs : List Bytes) (rotatedAt : Nat) : Text :=
  head ((if timeValid then rotatedAt else 0) / second) ++ privs.flatMap toHex

/-- The private keys, and the time of the last rotation. -/
def ourDestRatchetsLoad (rec : Text) : List Bytes × Nat :=
  match rec.findIdx? (· = ' ') with
  | none => ([], 0)
  | some sp =>
    let rest := rec.drop (sp + 1)
    if rest.length % (RNSD_RATCHET_LEN * 2) ≠ 0 then ([], 0)
    else (((blocks (RNSD_RATCHET_LEN * 2) rest).map assignHex).filter (·.length = RNSD_RATCHET_LEN),
      strtoull rec * second)

-- ---------------------------------------------------------------------------
-- Round trip
-- ---------------------------------------------------------------------------

variable {b : Bytes} {privs : List Bytes} {v : Nat} {rest : Text}

theorem length_toHex : (toHex b).length = b.length * 2 := by
  induction b with
  | nil => rfl
  | cons x b ih =>
    rw [toHex, List.flatMap_cons, List.length_append, List.length_cons]
    unfold toHex at ih
    rw [ih]
    simp only [hex, List.length_cons, List.length_nil]
    ring

theorem nibble_digitChar : ∀ n < 16, nibble (Nat.digitChar n) = n := by decide

theorem assignHex_toHex : assignHex (toHex b) = b := by
  induction b with
  | nil => rfl
  | cons x b ih =>
    have hx := x.toNat_lt
    have hhigh := nibble_digitChar (x.toNat / 16) (by omega)
    have hlow := nibble_digitChar (x.toNat % 16) (by omega)
    unfold toHex at ih ⊢
    simp only [List.flatMap_cons, hex, List.cons_append, List.nil_append, assignHex, ih, hhigh, hlow,
      Nat.div_add_mod']
    rw [UInt8.ofNat_toNat]

theorem isDigit_of_mem_decimal {c : Char} (hc : c ∈ decimal v) : c.isDigit :=
  Nat.isDigit_of_mem_toDigits (by decide) le_rfl hc

theorem toNat_of_isDigit {c : Char} (h : c.isDigit) : 48 ≤ c.toNat ∧ c.toNat ≤ 57 := by
  exact Char.isDigit_iff_toNat.1 h

theorem decimal_eq_cons : ∃ c cs, decimal v = c :: cs ∧ c.isDigit := by
  cases hd : decimal v with
  | nil => exact absurd hd Nat.toDigits_ne_nil
  | cons c cs => exact ⟨c, cs, rfl, isDigit_of_mem_decimal (v := v) (by simp [hd])⟩

theorem digits_decimal : digits (decimal v ++ ' ' :: rest) = v := by
  have htake : (decimal v ++ ' ' :: rest).takeWhile Char.isDigit = decimal v := by
    rw [List.takeWhile_append_of_pos fun c hc => isDigit_of_mem_decimal hc]
    simp
  rw [digits, htake]
  exact Nat.ofDigitChars_ten_toDigits

theorem strtoull_decimal (hv : v < 2 ^ 64) : strtoull (decimal v ++ ' ' :: rest) = v := by
  have hdigits : digits (decimal v ++ ' ' :: rest) = v := digits_decimal
  obtain ⟨c, cs, hd, hc⟩ := @decimal_eq_cons v
  rw [hd, List.cons_append] at hdigits ⊢
  obtain ⟨hlow, hhigh⟩ := toNat_of_isDigit hc
  have hspace : ¬ isSpace c := by
    simp only [isSpace, decide_eq_true_eq, not_or, not_and, not_le]
    exact ⟨fun he => absurd (he ▸ hlow) (by decide), fun _ => by omega⟩
  unfold strtoull
  rw [List.dropWhile_cons_of_neg hspace]
  split
  · next he =>
    cases he
    exact absurd hlow (by decide)
  · next he =>
    cases he
    exact absurd hlow (by decide)
  · rw [hdigits]
    omega

theorem head_eq (hv : v < 2 ^ 64) : head v = decimal v ++ [' '] := by
  have hlen : (decimal v).length ≤ 20 := (Nat.length_toDigits_le_iff (by decide) (by decide)).2 (by omega)
  rw [head, List.take_of_length_le]
  rw [List.length_append, List.length_singleton]
  omega

theorem findIdx?_decimal : (decimal v ++ ' ' :: rest).findIdx? (· = ' ') = some (decimal v).length := by
  have hnone : (decimal v).findIdx? (· = ' ') = none := by
    refine List.findIdx?_eq_none_iff.2 fun c hc => decide_eq_false ?_
    rintro rfl
    exact absurd (isDigit_of_mem_decimal hc) (by decide)
  rw [List.findIdx?_append, hnone, List.findIdx?_cons]
  simp

/-- What is stored is loaded again: the keys in their order, and the seconds of the time, or none
where the clock was not valid. -/
theorem load_persist (timeValid : Bool) (t : Nat) (ht : t < 2 ^ 64) (hlen : ∀ b ∈ privs, b.length = RATCHETSIZE) :
    ourDestRatchetsLoad (ourDestRatchetsPersist timeValid privs (t * second)) =
      (privs, if timeValid then t * second else 0) := by
  have htime : (if timeValid then t * second else 0) / second = if timeValid then t else 0 := by
    cases timeValid
    · exact Nat.zero_div _
    · exact Nat.mul_div_cancel _ (by decide)
  have hv : (if timeValid then t else 0) < 2 ^ 64 := by
    split
    · exact ht
    · decide
  have heven : Even (RNSD_RATCHET_LEN * 2) (privs.map toHex) := by
    intro s hs
    obtain ⟨b, hb, rfl⟩ := List.mem_map.1 hs
    rw [length_toHex, hlen b hb]
    rfl
  have hkeys : privs.flatMap toHex = (privs.map toHex).flatten := List.flatMap_def
  unfold ourDestRatchetsPersist
  rw [htime, head_eq hv, List.append_assoc, List.singleton_append]
  unfold ourDestRatchetsLoad
  rw [findIdx?_decimal]
  have hdrop : ((decimal (if timeValid then t else 0)) ++ ' ' :: privs.flatMap toHex).drop
      ((decimal (if timeValid then t else 0)).length + 1) = (privs.map toHex).flatten := by
    rw [hkeys, List.drop_append]
    simp
  simp only [hdrop, length_flatten heven, Nat.mul_mod_left, blocks_flatten (by decide : 0 < RNSD_RATCHET_LEN * 2) heven,
    strtoull_decimal hv, List.map_map]
  rw [if_neg (by simp)]
  refine Prod.ext ?_ ?_
  · have hid : privs.map (assignHex ∘ toHex) = privs := by
      have hall : ∀ b ∈ privs, (assignHex ∘ toHex) b = id b := fun b _ => assignHex_toHex
      rw [List.map_congr_left hall, List.map_id]
    rw [hid]
    exact List.filter_eq_self.2 fun b hb => decide_eq_true (hlen b hb)
  · cases timeValid
    · exact Nat.zero_mul _
    · rfl

end MicroReticulum.Rnsd
