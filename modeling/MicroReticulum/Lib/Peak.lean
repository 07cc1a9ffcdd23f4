import Mathlib.Tactic

/-!
# A running maximum

The greatest of the values some holders have, kept as one number that is raised
and never recomputed. It stays right exactly as long as no holder gives up a
value that was greater than all the others'.
-/

namespace Lib.Peak

variable {κ δ : Type*} [DecidableEq κ] [LinearOrder δ] [OrderBot δ] {held : κ → Option δ} {d v w : δ} {k : κ}

/-- `d` is the greatest value held, the least one of all where none is. -/
structure Peak (held : κ → Option δ) (d : δ) : Prop where
  bound : ∀ k v, held k = some v → v ≤ d
  reached : d = ⊥ ∨ ∃ k, held k = some d

/-- Some other holder has as much as `k`. -/
def Matched (held : κ → Option δ) (k : κ) (v : δ) : Prop := ∃ k' v', k' ≠ k ∧ held k' = some v' ∧ v ≤ v'

omit [OrderBot δ] in
theorem not_matched (h : ¬ Matched held k v) {k' : κ} {v' : δ} (hk : k' ≠ k) (hv : held k' = some v') : v' < v :=
  not_le.1 fun hle => h ⟨k', v', hk, hv, hle⟩

omit [DecidableEq κ] in
theorem Peak.empty (h : ∀ k, held k = none) : Peak held ⊥ :=
  ⟨fun k v hv => by simp [h k] at hv, .inl rfl⟩

/-- A new value of `k`, the maximum raised to it where it is greater. -/
theorem Peak.raise (h : Peak held d) :
    Peak (Function.update held k (some w)) (max d w) ↔ ∀ v, held k = some v → v ≤ w ∨ Matched held k v := by
  constructor
  · intro hp v hv
    by_contra hn
    obtain ⟨hlt, hothers⟩ := not_or.1 hn
    have hvd := h.bound k v hv
    have hmax : max d w = d := max_eq_left ((not_le.1 hlt).le.trans hvd)
    rw [hmax] at hp
    obtain hbot | ⟨k', hk'⟩ := hp.reached
    · exact hlt (hvd.trans (hbot ▸ bot_le))
    · by_cases hkk : k' = k
      · subst hkk
        rw [Function.update_self] at hk'
        cases hk'
        exact hlt hvd
      · rw [Function.update_of_ne hkk] at hk'
        exact absurd hvd (not_le.2 (not_matched hothers hkk hk'))
  · intro hok
    refine ⟨fun k' v hv => ?_, ?_⟩
    · by_cases hkk : k' = k
      · subst hkk
        rw [Function.update_self] at hv
        cases hv
        exact le_max_right _ _
      · rw [Function.update_of_ne hkk] at hv
        exact (h.bound k' v hv).trans (le_max_left _ _)
    · obtain hdw | hwd := le_total d w
      · exact .inr ⟨k, by rw [Function.update_self, max_eq_right hdw]⟩
      · rw [max_eq_left hwd]
        obtain hbot | ⟨k', hk'⟩ := h.reached
        · exact .inl hbot
        · by_cases hkk : k' = k
          · subst hkk
            obtain hle | ⟨j, u, hj, hu, hle⟩ := hok d hk'
            · exact .inr ⟨k', by rw [Function.update_self, le_antisymm hle hwd]⟩
            · exact .inr ⟨j, by rw [Function.update_of_ne hj, hu, le_antisymm (h.bound j u hu) hle]⟩
          · exact .inr ⟨k', by rw [Function.update_of_ne hkk, hk']⟩

/-- A value given up, the maximum left as it is. -/
theorem Peak.drop (h : Peak held d) :
    Peak (Function.update held k none) d ↔ ∀ v, held k = some v → v = ⊥ ∨ Matched held k v := by
  constructor
  · intro hp v hv
    by_contra hn
    obtain ⟨hpos, hothers⟩ := not_or.1 hn
    have hvd := h.bound k v hv
    obtain hbot | ⟨k', hk'⟩ := hp.reached
    · exact hpos (le_bot_iff.1 (hbot ▸ hvd))
    · by_cases hkk : k' = k
      · subst hkk
        rw [Function.update_self] at hk'
        cases hk'
      · rw [Function.update_of_ne hkk] at hk'
        exact absurd hvd (not_le.2 (not_matched hothers hkk hk'))
  · intro hok
    refine ⟨fun k' v hv => ?_, ?_⟩
    · by_cases hkk : k' = k
      · subst hkk
        rw [Function.update_self] at hv
        cases hv
      · rw [Function.update_of_ne hkk] at hv
        exact h.bound k' v hv
    · obtain hbot | ⟨k', hk'⟩ := h.reached
      · exact .inl hbot
      · by_cases hkk : k' = k
        · subst hkk
          obtain hbot | ⟨j, u, hj, hu, hle⟩ := hok d hk'
          · exact .inl hbot
          · exact .inr ⟨j, by rw [Function.update_of_ne hj, hu, le_antisymm (h.bound j u hu) hle]⟩
        · exact .inr ⟨k', by rw [Function.update_of_ne hkk, hk']⟩

end Lib.Peak
