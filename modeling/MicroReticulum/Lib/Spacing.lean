import Mathlib.Tactic

/-!
# Events on two clocks

Events are timed on a clock that is not yet right or on one that is, and each
keeps its distance from the one before, but for the first after the clock is put
right. The list has the newest first. No more than two events then fall into one
period, and any number of them take all their periods but one.
-/

namespace Lib.Spacing

variable {α : Type*} {period : ℕ} {time : α → ℕ} {exact : α → Prop} {a b c s : α} {l : List α} {w : ℕ}

/-- How the newer event follows the older one. A clock that is not right any more starts anew. -/
def After (period : ℕ) (time : α → ℕ) (exact : α → Prop) (newer older : α) : Prop :=
  ¬ exact older ∧ exact newer ∧ time older ≤ time newer ∨
    time older + period ≤ time newer ∧ (exact older → ¬ exact newer → 2 * time older + period ≤ time newer)

theorem After.le (h : After period time exact b a) : time a ≤ time b := by
  rcases h with ⟨-, -, h⟩ | ⟨h, -⟩
  · exact h
  · exact le_of_add_le_left h

/-- Not both of two steps are early ones. -/
theorem After.two (hcb : After period time exact c b) (hba : After period time exact b a) :
    time a + period ≤ time c := by
  rcases hba with ⟨-, hb, hle⟩ | ⟨h, -⟩
  · rcases hcb with ⟨hn, -⟩ | ⟨h, -⟩
    · exact absurd hb hn
    · exact (Nat.add_le_add_right hle period).trans h
  · exact h.trans hcb.le

theorem le_of_mem (h : (a :: l).IsChain (After period time exact)) (hb : b ∈ a :: l) : time b ≤ time a := by
  induction l generalizing a with
  | nil =>
    obtain rfl := List.mem_singleton.1 hb
    exact le_rfl
  | cons c l ih =>
    obtain ⟨hac, hrest⟩ := List.isChain_cons_cons.1 h
    rcases List.mem_cons.1 hb with rfl | hb
    · exact le_rfl
    · exact (ih hrest hb).trans hac.le

-- ---------------------------------------------------------------------------
-- In one period
-- ---------------------------------------------------------------------------

/-- The events of a window of one period. -/
def within (period : ℕ) (time : α → ℕ) (w : ℕ) (l : List α) : List α :=
  l.filter fun a => w ≤ time a ∧ time a < w + period

theorem length_within_le (h : l.IsChain (After period time exact)) : (within period time w l).length ≤ 2 := by
  unfold within
  induction l with
  | nil => simp
  | cons c l ih =>
    rw [List.filter_cons]
    split
    · next hc =>
      simp only [decide_eq_true_eq] at hc
      cases l with
      | nil => simp
      | cons b l =>
        obtain ⟨hcb, hl⟩ := List.isChain_cons_cons.1 h
        -- all that is older than the last two is a period away
        have hnone : l.filter (fun a => w ≤ time a ∧ time a < w + period) = [] := by
          refine List.filter_eq_nil_iff.2 fun a ha hw => ?_
          simp only [decide_eq_true_eq] at hw
          have hfar : time a + period ≤ time c := by
            cases l with
            | nil => cases ha
            | cons d l =>
              obtain ⟨hbd, hl⟩ := List.isChain_cons_cons.1 hl
              exact (Nat.add_le_add_right (le_of_mem hl ha) period).trans (hcb.two hbd)
          omega
        rw [List.filter_cons, hnone]
        split <;> simp
    · exact ih h.tail

-- ---------------------------------------------------------------------------
-- Over many periods
-- ---------------------------------------------------------------------------

/-- A run of events takes a period for each but one, and for each if the clock is not right at its
end. -/
theorem spread (h : (a :: l).IsChain (After period time exact)) (hlow : ∀ b ∈ a :: l, period ≤ time b)
    (hs : (a :: l).getLast? = some s) :
    time s + l.length * period ≤ time a + period ∧ (¬ exact a → time s + l.length * period ≤ time a) := by
  induction l generalizing a with
  | nil =>
    obtain rfl : a = s := by simpa using hs
    simp
  | cons b l ih =>
    obtain ⟨hab, hl⟩ := List.isChain_cons_cons.1 h
    obtain ⟨hle, hlate⟩ := ih hl (fun c hc => hlow c (List.mem_cons_of_mem a hc)) (by simpa using hs)
    have hb := hlow b (by simp)
    rw [List.length_cons, Nat.add_mul, Nat.one_mul, ← Nat.add_assoc]
    rcases hab with ⟨hnb, ha, hab⟩ | ⟨hab, hanew⟩
    · refine ⟨?_, fun hna => absurd ha hna⟩
      exact Nat.add_le_add_right ((hlate hnb).trans hab) period
    · refine ⟨Nat.add_le_add_right (hle.trans hab) period, fun hna => ?_⟩
      by_cases hexact : exact b
      · have hnew := hanew hexact hna
        omega
      · exact (Nat.add_le_add_right (hlate hexact) period).trans hab

end Lib.Spacing
