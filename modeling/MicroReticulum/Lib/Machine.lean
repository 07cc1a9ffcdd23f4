import MicroReticulum.Lib.Log
import MicroReticulum.Lib.Runs

/-!
# Machines with a log

Operations are transitions, and the log of a run is all they have said. While
every operation keeps an invariant of log and state, what relates the states
before and after it, and its part of the log, relates those of a run.
-/

namespace Lib.Machine

open Lib.Log Lib.Log.Transition Lib.Runs

variable {σ ι α : Type*} {step : ι → Transition σ α} {s s' : σ} {log : List α} {ops : List ι}
  {Inv Inv' : List α → σ → Prop} {R R' : σ → σ → List α → Prop} {t : Transition σ α}

def logged (step : ι → Transition σ α) (s : σ × List α) (op : ι) : σ × List α :=
  ((step op s.1).1, s.2 ++ (step op s.1).2)

theorem fst_logged (s : σ × List α) (op : ι) : (logged step s op).1 = (step op s.1).1 := rfl

theorem run_logged : run (logged step) (s, log) ops = ((trace step ops s).1, log ++ (trace step ops s).2) := by
  induction ops generalizing s log with
  | nil => simp
  | cons op ops ih =>
    rw [run_cons, logged, ih, trace_cons, List.append_assoc]

/-- Whatever was logged before, the invariant is kept, and under it the relation holds. -/
def Under (Inv : List α → σ → Prop) (R : σ → σ → List α → Prop) (s s' : σ) (new : List α) : Prop :=
  ∀ log, Inv log s → Inv (log ++ new) s' ∧ R s s' new

theorem under_composes (hR : Composes R) : Composes (Under Inv R) where
  refl s log hi := by
    rw [List.append_nil]
    exact ⟨hi, hR.refl s⟩
  comp h₁ h₂ log hi := by
    obtain ⟨hi₁, hr₁⟩ := h₁ log hi
    obtain ⟨hi₂, hr₂⟩ := h₂ _ hi₁
    rw [← List.append_assoc]
    exact ⟨hi₂, hR.comp hr₁ hr₂⟩

/-- Each of the parts has its turn, between what comes before it and what comes after. -/
theorem visits (hR : Composes R) {ts : List (Transition σ α)} (h : ∀ u ∈ ts, Meets R u) (ht : t ∈ ts) (s : σ) :
    ∃ s₁ pre post, R s s₁ pre ∧ R (t s₁).1 (all ts s).1 post := by
  induction ts generalizing s with
  | nil => exact absurd ht List.not_mem_nil
  | cons u ts ih =>
    have hrest : ∀ u ∈ ts, Meets R u := fun u hu => h u (List.mem_cons_of_mem _ hu)
    rcases List.mem_cons.1 ht with rfl | ht
    · exact ⟨s, [], _, hR.refl s, hR.all hrest (t s).1⟩
    · obtain ⟨s₁, pre, post, hpre, hpost⟩ := ih hrest ht (u s).1
      exact ⟨s₁, _, post, hR.comp (h u List.mem_cons_self s) hpre, hpost⟩

theorem run_under (hR : Composes R) (h : ∀ op ∈ ops, Meets (Under Inv R) (step op)) (hi : Inv [] s) :
    Inv (run (logged step) (s, []) ops).2 (run (logged step) (s, []) ops).1 ∧
      R s (run (logged step) (s, []) ops).1 (run (logged step) (s, []) ops).2 := by
  rw [run_logged, List.nil_append]
  exact (under_composes hR).trace h s [] hi

end Lib.Machine
