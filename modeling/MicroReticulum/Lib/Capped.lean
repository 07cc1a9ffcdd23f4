import Mathlib.Tactic

/-!
# Collecting into an array of fixed size

A walk over a list that keeps the keys of what it looks for until its array is
full keeps the first of them. Where keys tell members apart it has them all
exactly if there are no more of them than the array holds.
-/

namespace Lib.Capped

variable {α κ : Type*} {cap : Nat} {q : α → Bool} {f : α → κ} {l : List α}

def push (cap : Nat) (q : α → Bool) (f : α → κ) (found : List κ) (a : α) : List κ :=
  if cap ≤ found.length then found
  else if q a then found ++ [f a] else found

def collect (cap : Nat) (q : α → Bool) (f : α → κ) (l : List α) : List κ := l.foldl (push cap q f) []

theorem foldl_push (found : List κ) :
    l.foldl (push cap q f) found = found ++ ((l.filter q).map f).take (cap - found.length) := by
  induction l generalizing found with
  | nil => simp
  | cons a l ih =>
    rw [List.foldl_cons, ih]
    by_cases hfull : cap ≤ found.length
    · have hzero : cap - found.length = 0 := by omega
      rw [push, if_pos hfull, hzero, List.take_zero, List.take_zero]
    · rw [push, if_neg hfull]
      cases hq : q a with
      | false => simp [hq]
      | true =>
        obtain ⟨n, hn⟩ : ∃ n, cap - found.length = n + 1 := Nat.exists_eq_succ_of_ne_zero (by omega)
        have hlen : cap - (found ++ [f a]).length = n := by
          rw [List.length_append, List.length_singleton]
          omega
        rw [if_pos rfl, hlen, hn, List.filter_cons_of_pos hq, List.map_cons, List.take_succ_cons, List.append_assoc]
        rfl

theorem collect_eq : collect cap q f l = ((l.filter q).map f).take cap := by
  rw [collect, foldl_push, List.nil_append, List.length_nil, Nat.sub_zero]

theorem mem_collect {k : κ} (h : k ∈ collect cap q f l) : ∃ a ∈ l, q a ∧ f a = k := by
  rw [collect_eq] at h
  obtain ⟨a, ha, rfl⟩ := List.mem_map.1 (List.mem_of_mem_take h)
  obtain ⟨hmem, hq⟩ := List.mem_filter.1 ha
  exact ⟨a, hmem, hq, rfl⟩

theorem collect_complete (hd : ((l.filter q).map f).Nodup) :
    (∀ a ∈ l, q a → f a ∈ collect cap q f l) ↔ l.countP q ≤ cap := by
  have hlen : ((l.filter q).map f).length = l.countP q := by rw [List.length_map, List.countP_eq_length_filter]
  rw [collect_eq]
  constructor
  · intro h
    have hsub : (l.filter q).map f ⊆ ((l.filter q).map f).take cap := by
      intro k hk
      obtain ⟨a, ha, rfl⟩ := List.mem_map.1 hk
      obtain ⟨hmem, hq⟩ := List.mem_filter.1 ha
      exact h a hmem hq
    have hle := (hd.subperm hsub).length_le
    rw [hlen, List.length_take] at hle
    exact hle.trans (min_le_left _ _)
  · intro hle a ha hq
    rw [List.take_of_length_le (hlen.trans_le hle)]
    exact List.mem_map_of_mem (List.mem_filter.2 ⟨ha, hq⟩)

end Lib.Capped
