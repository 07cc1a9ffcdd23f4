import Mathlib.Tactic

/-!
# Rings that keep the last few pushes

A fixed number of slots written round and round. `Recent r a k` says that `a`
is among the last `k` pushes and still in the ring; what a ring of `n` slots has
is what was pushed among the last `n`.
-/

namespace Lib

structure Ring (α : Type*) (n : Nat) where
  slots : Vector α n
  pos : Nat
  count : Nat
  pos_lt : pos < n
  count_le : count ≤ n
  /-- Until it has gone round, a ring is filled from its first slot. -/
  filling : count < n → pos = count
  deriving DecidableEq

namespace Ring

variable {α : Type*} {n k : Nat} {r : Ring α n} {a b : α}

def empty (a : α) (h : 0 < n) : Ring α n :=
  { slots := .replicate n a, pos := 0, count := 0, pos_lt := h, count_le := Nat.zero_le n,
    filling := fun _ => rfl }

def push (r : Ring α n) (a : α) : Ring α n :=
  { slots := r.slots.set r.pos a r.pos_lt
    pos := if r.pos + 1 = n then 0 else r.pos + 1
    count := if r.count < n then r.count + 1 else r.count
    pos_lt := by have hp := r.pos_lt; split <;> omega
    count_le := by have hc := r.count_le; split <;> omega
    filling := by
      have hp := r.pos_lt
      have hf := r.filling
      split <;> split <;> omega }

def has [DecidableEq α] (r : Ring α n) (a : α) : Bool := (r.slots.toList.take r.count).contains a

/-- What the next push overwrites. -/
def next (r : Ring α n) : Option α := if r.count = n then r.slots[r.pos]? else none

/-- The slot of the push `j` pushes back. -/
def back (r : Ring α n) (j : Nat) : Nat := if j < r.pos then r.pos - 1 - j else r.pos + n - 1 - j

def Recent (r : Ring α n) (a : α) (k : Nat) : Prop :=
  ∃ j, j < k ∧ j < r.count ∧ r.slots[r.back j]? = some a

theorem recent_push : (r.push a).Recent a 1 := by
  have hp := r.pos_lt
  refine ⟨0, Nat.one_pos, ?_, ?_⟩
  · simp only [push]
    split <;> omega
  · have hback : (r.push a).back 0 = r.pos := by
      simp only [back, push]
      split <;> split <;> omega
    rw [hback]
    simp [push]

theorem Recent.push (h : r.Recent a k) (hk : k < n) : (r.push b).Recent a (k + 1) := by
  obtain ⟨j, hj, hc, ha⟩ := h
  have hp := r.pos_lt
  have hcn := r.count_le
  have hback : (r.push b).back (j + 1) = r.back j := by
    simp only [back, Ring.push]
    split <;> split <;> split <;> omega
  have hne : r.pos ≠ r.back j := by
    simp only [back]
    split <;> omega
  refine ⟨j + 1, Nat.succ_lt_succ hj, ?_, ?_⟩
  · simp only [Ring.push]
    split <;> omega
  · rw [hback, Ring.push, Vector.getElem?_set_ne _ hne]
    exact ha

theorem Recent.mono {k' : Nat} (h : r.Recent a k) (hk : k ≤ k') : r.Recent a k' := by
  obtain ⟨j, hj, hrest⟩ := h
  exact ⟨j, hj.trans_le hk, hrest⟩

/-- What a ring has is what was pushed among the last `n`. -/
theorem has_iff [DecidableEq α] : r.has a = true ↔ r.Recent a n := by
  have hp := r.pos_lt
  have hcn := r.count_le
  have hf := r.filling
  rw [Ring.has, List.contains_iff_mem, List.mem_iff_getElem?]
  constructor
  · rintro ⟨i, hi⟩
    have hlt : i < r.count := by
      have hlen := (List.getElem?_eq_some_iff.1 hi).1
      simp only [List.length_take] at hlen
      omega
    rw [List.getElem?_take_of_lt hlt, Vector.getElem?_toList] at hi
    by_cases hip : i < r.pos
    · refine ⟨r.pos - 1 - i, by omega, by omega, ?_⟩
      rwa [show r.back (r.pos - 1 - i) = i by simp only [back]; split <;> omega]
    · refine ⟨r.pos + n - 1 - i, by omega, by omega, ?_⟩
      rwa [show r.back (r.pos + n - 1 - i) = i by simp only [back]; split <;> omega]
  · rintro ⟨j, -, hc, ha⟩
    have hlt : r.back j < r.count := by
      simp only [back]
      split <;> omega
    exact ⟨r.back j, by rw [List.getElem?_take_of_lt hlt, Vector.getElem?_toList, ha]⟩

/-- A push takes away only what it overwrites. -/
theorem has_push [DecidableEq α] (h : r.has a = true) (hn : r.next ≠ some a) : (r.push b).has a = true := by
  obtain ⟨j, hj, hc, ha⟩ := has_iff.1 h
  have hroom : j + 1 < n := by
    by_contra hlast
    have hfull : r.count = n := by
      have hcn := r.count_le
      omega
    have hback : r.back j = r.pos := by
      have hp := r.pos_lt
      simp only [back]
      split <;> omega
    refine hn ?_
    rw [next, if_pos hfull, ← hback]
    exact ha
  have hrec : r.Recent a (j + 1) := ⟨j, Nat.lt_succ_self j, hc, ha⟩
  exact has_iff.2 ((hrec.push hroom).mono hroom)

theorem has_push_self [DecidableEq α] : (r.push a).has a = true :=
  has_iff.2 (recent_push.mono (Nat.one_le_iff_ne_zero.2 (Nat.ne_zero_of_lt r.pos_lt)))

theorem Recent.has [DecidableEq α] (h : r.Recent a k) (hk : k ≤ n) : r.has a = true :=
  has_iff.2 (h.mono hk)

end Ring

end Lib
