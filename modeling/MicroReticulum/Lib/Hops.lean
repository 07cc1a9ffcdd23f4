import Mathlib.Combinatorics.SimpleGraph.Metric
import Mathlib.Data.ENat.Lattice
import Mathlib.Tactic

/-!
# Hops to the nearest of a set of vertices

The distance of every vertex to a set, and what an exchange of estimates between
neighbours makes of a lower and of an upper bound: each round, both reach one
hop further.
-/

namespace Lib.Hops

variable {V : Type*} {G : SimpleGraph V} {S : Set V} {u v : V} {r k : ℕ}

noncomputable def hops (G : SimpleGraph V) (S : Set V) (v : V) : ℕ∞ := ⨅ s : S, G.edist v s

theorem hops_mem (hv : v ∈ S) : hops G S v = 0 :=
  le_antisymm ((iInf_le _ (⟨v, hv⟩ : S)).trans_eq G.edist_self) bot_le

/-- A vertex next to one at a distance is at most one hop further. -/
theorem hops_le_succ (h : G.Adj u v) : hops G S v ≤ hops G S u + 1 := by
  unfold hops
  rw [ENat.iInf_add]
  refine le_iInf fun s => (iInf_le _ s).trans ?_
  have htri : G.edist v s ≤ G.edist v u + G.edist u s := G.edist_triangle
  rw [add_comm (G.edist u s)]
  refine htri.trans (add_le_add_left ?_ _)
  exact (SimpleGraph.edist_eq_one_iff_adj.2 h.symm).le

/-- One outside the set that reaches it has a neighbour one hop nearer. -/
theorem exists_nearer (hv : v ∉ S) (hr : hops G S v < r) : ∃ u, G.Adj u v ∧ hops G S u + 1 = hops G S v := by
  have hne : hops G S v ≠ ⊤ := (hr.trans_le le_top).ne
  have hS : Nonempty S := by
    by_contra hempty
    rw [not_nonempty_iff] at hempty
    exact hne (iInf_of_empty _)
  obtain ⟨s, hs⟩ := ciInf_mem fun s : S => G.edist v s
  have hs : G.edist v s = hops G S v := hs
  obtain ⟨p, hp⟩ := SimpleGraph.exists_walk_of_edist_ne_top (hs ▸ hne)
  cases p with
  | nil => exact absurd s.2 hv
  | @cons _ u _ hadj q =>
    refine ⟨u, hadj.symm, le_antisymm ?_ (hops_le_succ hadj.symm)⟩
    have hu : hops G S u ≤ q.length := (iInf_le _ s).trans q.edist_le
    rw [← hs, ← hp, SimpleGraph.Walk.length_cons, Nat.cast_succ]
    exact add_le_add_left hu 1

-- ---------------------------------------------------------------------------
-- Estimates
-- ---------------------------------------------------------------------------

/-- `x` is not below the distance of `v`, as far as the first `r` hops go. -/
def AtLeast (G : SimpleGraph V) (S : Set V) (r : ℕ) (v : V) (x : ℕ) : Prop := min (hops G S v) r ≤ x

/-- `x` is not above it where it is less than `r`. -/
def AtMost (G : SimpleGraph V) (S : Set V) (r : ℕ) (v : V) (x : ℕ) : Prop := hops G S v < r → (x : ℕ∞) ≤ hops G S v

theorem AtLeast.mono (h : AtLeast G S r v k) {r' : ℕ} (hr : r' ≤ r) : AtLeast G S r' v k :=
  (min_le_min le_rfl (by exact_mod_cast hr)).trans h

theorem AtMost.mono (h : AtMost G S r v k) {r' : ℕ} (hr : r' ≤ r) : AtMost G S r' v k :=
  fun hv => h (hv.trans_le (by exact_mod_cast hr))

theorem atLeast_mem (hv : v ∈ S) : AtLeast G S r v k := by
  unfold AtLeast
  rw [hops_mem hv]
  simp

theorem atLeast_zero : AtLeast G S 0 v k := by
  simp [AtLeast]

theorem atMost_zero : AtMost G S 0 v k := by
  simp [AtMost]

theorem atLeast_of_le (h : r ≤ k) : AtLeast G S r v k := (min_le_right _ _).trans (by exact_mod_cast h)

/-- What a neighbour's lower bound gives. -/
theorem AtLeast.next (h : AtLeast G S r u k) (hadj : G.Adj u v) : AtLeast G S (r + 1) v (k + 1) := by
  unfold AtLeast at *
  push_cast
  rw [min_le_iff] at h ⊢
  rcases h with h | h
  · exact .inl ((hops_le_succ hadj).trans (add_le_add_left h 1))
  · exact .inr (add_le_add_left h 1)

/-- Between the two bounds there is nothing left. -/
theorem eq_of_bounds (hl : AtLeast G S r v k) (hm : AtMost G S r v k) (hk : k ≤ r) : (k : ℕ∞) = min (hops G S v) r := by
  refine le_antisymm ?_ hl
  rcases lt_or_ge (hops G S v) r with h | h
  · rw [min_eq_left h.le]
    exact hm h
  · rw [min_eq_right h]
    exact_mod_cast hk

end Lib.Hops
