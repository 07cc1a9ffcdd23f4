import Mathlib.Tactic

/-!
# Paced events

Every event has a cost, in time, and the next one waits until it is paid. The
costs of the events of a window, but for the last, then fit into the window. The
list has the newest event first.
-/

namespace Lib.Pacing

variable {α : Type*} {time cost : α → ℚ} {x y : α} {l l' : List α} {a b rate : ℚ}

/-- The newer event comes when the older one is paid. -/
def Paid (time cost : α → ℚ) (newer older : α) : Prop := time older + cost older ≤ time newer

def window (time : α → ℚ) (a b : ℚ) (l : List α) : List α := l.filter fun x => a ≤ time x ∧ time x ≤ b

theorem mem_window : x ∈ window time a b l ↔ x ∈ l ∧ a ≤ time x ∧ time x ≤ b := by
  simp [window]

/-- Older events all fit between the first of them and the event they are older than. -/
theorem sum_le (h : (x :: l).Pairwise (Paid time cost)) (ha : ∀ y ∈ x :: l, a ≤ time y) :
    (l.map cost).sum ≤ time x - a := by
  induction l generalizing x with
  | nil =>
    have hx := ha x (by simp)
    simpa using hx
  | cons y l ih =>
    have hpaid : time y + cost y ≤ time x := List.rel_of_pairwise_cons h (by simp)
    have hrest := ih h.of_cons fun z hz => ha z (List.mem_cons_of_mem x hz)
    rw [List.map_cons, List.sum_cons]
    linarith

/-- All the events of a window but its last fit into it. -/
theorem sum_window_le (h : l.Pairwise (Paid time cost)) (hw : window time a b l = x :: l') :
    (l'.map cost).sum ≤ b - a := by
  have hp : (x :: l').Pairwise (Paid time cost) := hw ▸ h.filter _
  have hmem : ∀ y ∈ x :: l', a ≤ time y ∧ time y ≤ b := fun y hy => (mem_window.1 (hw ▸ hy)).2
  have hsum := sum_le hp fun y hy => (hmem y hy).1
  have hx := (hmem x (by simp)).2
  linarith

/-- Where the time to wait is the event's own size over a rate, the sizes of a
window's events are at most the window's share and one event. -/
theorem size_window_le {size : α → ℚ} (hr : 0 < rate) (h : l.Pairwise (Paid time fun x => size x / rate))
    (hw : window time a b l = x :: l') :
    ((window time a b l).map size).sum ≤ rate * (b - a) + size x := by
  have hcosts := sum_window_le h hw
  simp only [div_eq_mul_inv, List.sum_map_mul_right] at hcosts
  rw [← div_eq_mul_inv, div_le_iff₀' hr] at hcosts
  rw [hw, List.map_cons, List.sum_cons]
  linarith

end Lib.Pacing
