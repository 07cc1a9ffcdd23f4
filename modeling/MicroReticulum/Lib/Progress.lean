import MicroReticulum.Lib.Runs

/-!
# Endless runs and what they come to

An endless run takes one operation after another. Liveness is shown by a rank
that only ever falls: while it stays, so does a time that is due, and a tick
after that time makes it fall. Where ticks never stop coming and their times pass
every bound, such a phase ends.
-/

namespace Lib.Progress

open Lib.Runs

variable {σ ι τ : Type*} {step : σ → ι → σ} {s : σ} {ops : ℕ → ι} {Inv In In' : σ → Prop} {Tick : ι → Prop}

/-- The states of an endless run. -/
def states (step : σ → ι → σ) (s : σ) (ops : ℕ → ι) : ℕ → σ
  | 0 => s
  | j + 1 => step (states step s ops j) (ops j)

theorem states_eq_run (j : ℕ) : states step s ops j = run step s ((List.range j).map ops) := by
  induction j with
  | zero => rfl
  | succ j ih => rw [List.range_succ, List.map_append, List.map_singleton, run_concat, ← ih, states]

theorem states_invariant (hstep : ∀ s op, Inv s → Inv (step s op)) (hs : Inv s) (j : ℕ) :
    Inv (states step s ops j) := by
  induction j with
  | zero => exact hs
  | succ j ih => exact hstep _ _ ih

/-- At any time of the run, ticks are to come at times past every bound. -/
def Ticking [LE τ] (step : σ → ι → σ) (Tick : ι → Prop) (clock : σ → τ) (s : σ) (ops : ℕ → ι) : Prop :=
  ∀ j t, ∃ j' ≥ j, Tick (ops j') ∧ t ≤ clock (states step s ops j')

/-- While the phase lasts the rank does not rise, and what is due stays due until it falls;
a tick then makes it fall. -/
structure Leaves [LE τ] (step : σ → ι → σ) (Inv : σ → Prop) (Tick : ι → Prop) (clock : σ → τ)
    (In : σ → Prop) (rank : σ → ℕ) (due : σ → τ) : Prop where
  moves : ∀ s op, Inv s → In s → In (step s op) →
    rank (step s op) < rank s ∨ rank (step s op) = rank s ∧ due (step s op) = due s
  ticks : ∀ s op, Inv s → In s → Tick op → due s ≤ clock s → In (step s op) → rank (step s op) < rank s

/-- How many ticks of a run come at or after the time that is due. -/
def overdue [LE τ] [DecidableLE τ] (step : σ → ι → σ) (Tick : ι → Prop) [DecidablePred Tick] (clock due : σ → τ) :
    σ → List ι → ℕ
  | _, [] => 0
  | s, op :: ops => (if Tick op ∧ due s ≤ clock s then 1 else 0) + overdue step Tick clock due (step s op) ops

section

variable [LE τ] {clock : σ → τ} {rank : σ → ℕ} {due : σ → τ}

/-- As long as it lasts. -/
theorem Leaves.stays (h : Leaves step Inv Tick clock In rank due) (hinv : ∀ j, Inv (states step s ops j)) {j m : ℕ}
    (hin : ∀ j' ≥ j, In (states step s ops j')) :
    rank (states step s ops (j + m)) < rank (states step s ops j) ∨
      rank (states step s ops (j + m)) = rank (states step s ops j) ∧
        due (states step s ops (j + m)) = due (states step s ops j) := by
  induction m with
  | zero => exact .inr ⟨rfl, rfl⟩
  | succ m ih =>
    have hnext := h.moves _ (ops (j + m)) (hinv (j + m)) (hin _ (by omega)) (hin (j + m + 1) (by omega))
    rcases ih with hlt | ⟨heq, hdue⟩
    · refine .inl (lt_of_le_of_lt ?_ hlt)
      rcases hnext with hlt' | ⟨heq', -⟩
      · exact hlt'.le
      · exact heq'.le
    · rcases hnext with hlt' | ⟨heq', hdue'⟩
      · exact .inl (lt_of_lt_of_eq hlt' heq)
      · exact .inr ⟨heq'.trans heq, hdue'.trans hdue⟩

/-- A run inside the phase has no more such ticks than its first state has rank. -/
theorem Leaves.overdue_le [DecidableLE τ] [DecidablePred Tick] (h : Leaves step Inv Tick clock In rank due)
    {ops : List ι} (hinv : Throughout step Inv s ops) (hin : Throughout step In s ops) :
    rank (run step s ops) + overdue step Tick clock due s ops ≤ rank s := by
  induction ops generalizing s with
  | nil => exact le_rfl
  | cons op ops ih =>
    obtain ⟨hs, hinv⟩ := throughout_cons.1 hinv
    obtain ⟨hin₀, hin⟩ := throughout_cons.1 hin
    have hin₁ : In (step s op) := hin [] List.nil_prefix
    have hrest := ih hinv hin
    have hle : rank (step s op) ≤ rank s := (h.moves s op hs hin₀ hin₁).elim le_of_lt fun h => h.1.le
    rw [run_cons, overdue]
    split
    · next hd =>
      have hlt := h.ticks s op hs hin₀ hd.1 hd.2 hin₁
      omega
    · omega

/-- The phase ends. -/
theorem Leaves.ends (h : Leaves step Inv Tick clock In rank due) (hinv : ∀ j, Inv (states step s ops j))
    (ht : Ticking step Tick clock s ops) (j : ℕ) : ∃ j' ≥ j, ¬ In (states step s ops j') := by
  by_contra hall
  push Not at hall
  -- a phase that never ends would lower its rank for ever
  obtain ⟨r, hr⟩ : ∃ r, r = rank (states step s ops j) := ⟨_, rfl⟩
  induction r using Nat.strong_induction_on generalizing j with
  | _ r ih =>
    obtain ⟨j', hj, htick, hdue⟩ := ht j (due (states step s ops j))
    obtain ⟨m, rfl⟩ := Nat.exists_eq_add_of_le hj
    have hfall : rank (states step s ops (j + m + 1)) < rank (states step s ops j) := by
      rcases h.stays hinv (m := m) hall with hlt | ⟨heq, hsame⟩
      · rcases h.moves _ (ops (j + m)) (hinv _) (hall _ hj) (hall (j + m + 1) (by omega)) with hlt' | ⟨heq', -⟩
        · exact hlt'.trans hlt
        · exact heq'.trans_lt hlt
      · exact heq ▸ h.ticks _ _ (hinv _) (hall _ hj) htick (hsame ▸ hdue) (hall (j + m + 1) (by omega))
    exact ih _ (hr ▸ hfall) (j + m + 1) (fun j' hj' => hall j' (by omega)) rfl

end

end Lib.Progress
