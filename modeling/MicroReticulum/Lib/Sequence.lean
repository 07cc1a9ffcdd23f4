import Mathlib.Tactic

/-!
# Sequence numbers and keyed buffers

Absolute positions seen modulo `M` are unique within a window of `M`; a buffer
keyed by them gives up at most one entry per key; and a list grows to a longer
beginning of another by that one's next element.
-/

namespace Lib.Sequence

/-- Within a window of `M` from `b` on, a residue names one position. -/
theorem eq_of_mod_eq {a b M : Nat} (h : a % M = b % M) (hle : b ≤ a) (hlt : a < b + M) : a = b := by
  obtain ⟨k, rfl⟩ := Nat.exists_eq_add_of_le hle
  have hk : b + k ≡ b + 0 [MOD M] := h
  have hk0 : k % M = 0 % M := Nat.ModEq.add_left_cancel' b hk
  rw [Nat.mod_eq_of_lt (by omega), Nat.zero_mod] at hk0
  omega

variable {α β : Type*} [DecidableEq β] {key : α → β} {buffer : List α} {k : β}

theorem key_ne_of_mem_eraseP (hn : (buffer.map key).Nodup)
    (h : x ∈ buffer.eraseP (fun y => key y == k)) : key x ≠ k := by
  induction buffer with
  | nil => simp at h
  | cons y ys ih =>
    rw [List.map_cons, List.nodup_cons] at hn
    by_cases hy : key y = k
    · rw [List.eraseP_cons_of_pos (by simpa using hy)] at h
      intro hx
      exact hn.1 (List.mem_map.2 ⟨x, h, hx.trans hy.symm⟩)
    · rw [List.eraseP_cons_of_neg (by simpa using hy)] at h
      rcases List.mem_cons.1 h with rfl | h
      · exact hy
      · exact ih hn.2 h

theorem mem_eraseP_of_key_ne (h : x ∈ buffer) (hx : key x ≠ k) :
    x ∈ buffer.eraseP (fun y => key y == k) :=
  (List.mem_eraseP_of_neg (by simpa using hx)).2 h

theorem nodup_eraseP (hn : (buffer.map key).Nodup) :
    ((buffer.eraseP (fun y => key y == k)).map key).Nodup :=
  hn.sublist (List.eraseP_sublist.map key)

theorem concat_prefix {l full : List α} (h : l <+: full) (hx : full[l.length]? = some x) :
    l ++ [x] <+: full := by
  obtain ⟨rest, rfl⟩ := h
  cases rest with
  | nil => simp at hx
  | cons y ys =>
    obtain rfl : y = x := by simpa using hx
    exact ⟨ys, by simp⟩

theorem getElem?_of_prefix {l full : List α} {i : Nat} (h : l <+: full) (hi : l[i]? = some x) :
    full[i]? = some x := by
  obtain ⟨rest, rfl⟩ := h
  rw [List.getElem?_append_left (List.getElem?_eq_some_iff.1 hi).1, hi]

end Lib.Sequence
