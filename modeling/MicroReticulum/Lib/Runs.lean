import Mathlib.Tactic

/-!
# Runs of a deterministic step function

A system is a total step over operations; nondeterminism (the network, the
clock, a callback) lives in the operation list. A run is the fold of the step.
`Guarded` says that every operation meets a condition in the state it is taken
from, and `Throughout` that a property holds in every state on the way.
-/

namespace Lib.Runs

variable {σ ι : Type*} {step : σ → ι → σ} {s : σ} {op : ι} {ops more pre : List ι}
  {Ok : σ → ι → Prop} {Inv P Q : σ → Prop}

def run (step : σ → ι → σ) (s : σ) (ops : List ι) : σ := ops.foldl step s

@[simp] theorem run_nil : run step s [] = s := rfl

@[simp] theorem run_cons : run step s (op :: ops) = run step (step s op) ops := rfl

theorem run_append : run step s (ops ++ more) = run step (run step s ops) more := by
  simp [run, List.foldl_append]

theorem run_concat : run step s (ops ++ [op]) = step (run step s ops) op := by
  simp [run_append]

/-- Every operation meets `Ok` in the state it is taken from. -/
def Guarded (step : σ → ι → σ) (Ok : σ → ι → Prop) : σ → List ι → Prop
  | _, [] => True
  | s, op :: ops => Ok s op ∧ Guarded step Ok (step s op) ops

instance Guarded.decide [h : ∀ s op, Decidable (Ok s op)] :
    ∀ s (ops : List ι), Decidable (Guarded step Ok s ops)
  | _, [] => .isTrue trivial
  | s, op :: ops => @instDecidableAnd _ _ (h s op) (decide (step s op) ops)

/-- `P` holds in the first state and in every state the run passes through. -/
def Throughout (step : σ → ι → σ) (P : σ → Prop) (s : σ) (ops : List ι) : Prop :=
  ∀ pre, pre <+: ops → P (run step s pre)

-- ---------------------------------------------------------------------------
-- Guarded runs
-- ---------------------------------------------------------------------------

@[simp] theorem guarded_nil : Guarded step Ok s [] := trivial

@[simp] theorem guarded_cons :
    Guarded step Ok s (op :: ops) ↔ Ok s op ∧ Guarded step Ok (step s op) ops := Iff.rfl

theorem guarded_append :
    Guarded step Ok s (ops ++ more) ↔
      Guarded step Ok s ops ∧ Guarded step Ok (run step s ops) more := by
  induction ops generalizing s with
  | nil => simp
  | cons op ops ih => simp [ih, and_assoc]

theorem Guarded.initial (h : Guarded step Ok s ops) (hp : pre <+: ops) :
    Guarded step Ok s pre := by
  obtain ⟨rest, rfl⟩ := hp
  exact (guarded_append.1 h).1

theorem Guarded.mono {Ok' : σ → ι → Prop} (h : Guarded step Ok s ops) (hw : ∀ s op, Ok s op → Ok' s op) :
    Guarded step Ok' s ops := by
  induction ops generalizing s with
  | nil => trivial
  | cons op ops ih => exact ⟨hw s op h.1, ih h.2⟩

theorem Guarded.and {Ok' : σ → ι → Prop} (h : Guarded step Ok s ops) (h' : Guarded step Ok' s ops) :
    Guarded step (fun s op => Ok s op ∧ Ok' s op) s ops := by
  induction ops generalizing s with
  | nil => trivial
  | cons op ops ih => exact ⟨⟨h.1, h'.1⟩, ih h.2 h'.2⟩

theorem guarded_of_forall (h : ∀ op ∈ ops, ∀ s, Ok s op) : Guarded step Ok s ops := by
  induction ops generalizing s with
  | nil => trivial
  | cons op ops ih => exact ⟨h op (by simp) s, ih fun o ho => h o (List.mem_cons_of_mem _ ho)⟩

/-- What holds of every operation may be asked of each in its turn. -/
theorem Guarded.with_mem {D : ι → Prop} (h : Guarded step Ok s ops) (hd : ∀ op ∈ ops, D op) :
    Guarded step (fun s op => Ok s op ∧ D op) s ops := by
  induction ops generalizing s with
  | nil => trivial
  | cons op ops ih =>
    exact ⟨⟨h.1, hd op (by simp)⟩, ih h.2 fun o ho => hd o (List.mem_cons_of_mem _ ho)⟩

-- ---------------------------------------------------------------------------
-- Invariants
-- ---------------------------------------------------------------------------

/-- The induction every safety result rests on: what one guarded step keeps, a
guarded run keeps. -/
theorem Guarded.invariant (hstep : ∀ s op, Inv s → Ok s op → Inv (step s op))
    (h : Guarded step Ok s ops) (hs : Inv s) : Inv (run step s ops) := by
  induction ops generalizing s with
  | nil => exact hs
  | cons op ops ih => exact ih h.2 (hstep s op hs h.1)

/-- A condition that follows from another one and an invariant. -/
theorem Guarded.mono_inv {Ok' : σ → ι → Prop} (h : Guarded step Ok s ops)
    (hstep : ∀ s op, Inv s → Ok s op → Inv (step s op)) (hw : ∀ s op, Inv s → Ok s op → Ok' s op) (hs : Inv s) :
    Guarded step Ok' s ops := by
  induction ops generalizing s with
  | nil => trivial
  | cons op ops ih => exact ⟨hw s op hs h.1, ih h.2 (hstep s op hs h.1)⟩

theorem Guarded.throughout (hstep : ∀ s op, Inv s → Ok s op → Inv (step s op))
    (h : Guarded step Ok s ops) (hs : Inv s) : Throughout step Inv s ops :=
  fun _ hp => (h.initial hp).invariant hstep hs

/-- What one operation brings about and the others keep holds once it has come. -/
theorem Guarded.attains (h : Guarded step Ok s ops) (hstep : ∀ s op, Inv s → Ok s op → Inv (step s op))
    (hkeep : ∀ s op, Inv s → Ok s op → P s → P (step s op)) (hmake : ∀ s, Inv s → Ok s op → P (step s op))
    (hs : Inv s) (hop : op ∈ ops) : P (run step s ops) := by
  obtain ⟨pre, post, rfl⟩ := List.append_of_mem hop
  obtain ⟨hpre, hok, hpost⟩ := guarded_append.1 h
  have hinv := hpre.invariant hstep hs
  have hboth : ∀ s op, Inv s ∧ P s → Ok s op → Inv (step s op) ∧ P (step s op) :=
    fun s op h hok => ⟨hstep s op h.1 hok, hkeep s op h.1 hok h.2⟩
  rw [run_append, run_cons]
  exact (hpost.invariant hboth ⟨hstep _ _ hinv hok, hmake _ hinv hok⟩).2

/-- Under an invariant, conditions that agree guard the same runs. -/
theorem guarded_congr {Ok' : σ → ι → Prop} (hstep : ∀ s op, Inv s → Inv (step s op))
    (hiff : ∀ s op, Inv s → (Ok s op ↔ Ok' s op)) (hs : Inv s) :
    Guarded step Ok s ops ↔ Guarded step Ok' s ops := by
  induction ops generalizing s with
  | nil => exact Iff.rfl
  | cons op ops ih => exact and_congr (hiff s op hs) (ih (hstep s op hs))

/-- So do conditions of which one keeps the invariant. -/
theorem guarded_iff {Ok' : σ → ι → Prop} (hstep : ∀ s op, Inv s → Ok s op → Inv (step s op))
    (hiff : ∀ s op, Inv s → (Ok' s op ↔ Ok s op)) (hs : Inv s) :
    Guarded step Ok' s ops ↔ Guarded step Ok s ops := by
  induction ops generalizing s with
  | nil => exact Iff.rfl
  | cons op ops ih =>
    rw [guarded_cons, guarded_cons, hiff s op hs]
    exact and_congr_right fun hok => ih (hstep s op hs hok)

theorem invariant (hstep : ∀ s op, Inv s → Inv (step s op)) (hs : Inv s) :
    Inv (run step s ops) := by
  induction ops generalizing s with
  | nil => exact hs
  | cons op ops ih => exact ih (hstep s op hs)

theorem Throughout.mono (h : Throughout step P s ops) (hw : ∀ s, P s → Q s) :
    Throughout step Q s ops :=
  fun pre hp => hw _ (h pre hp)

/-- Where guarded steps keep an invariant that gives `Q`, and an unguarded one
breaks `Q` at once, `Q` holds throughout exactly the guarded runs. -/
theorem throughout_iff (hstep : ∀ s op, Inv s → Ok s op → Inv (step s op)) (hq : ∀ s, Inv s → Q s)
    (hbad : ∀ s op, Inv s → ¬ Ok s op → ¬ Q (step s op)) (hs : Inv s) :
    Throughout step Q s ops ↔ Guarded step Ok s ops := by
  refine ⟨fun h => ?_, fun h => (h.throughout hstep hs).mono hq⟩
  induction ops generalizing s with
  | nil => trivial
  | cons op ops ih =>
    have hok : Ok s op := by
      by_contra hn
      exact hbad s op hs hn (h [op] (by simp))
    refine ⟨hok, ih (hstep s op hs hok) fun pre hp => ?_⟩
    exact h (op :: pre) (List.cons_prefix_cons.2 ⟨rfl, hp⟩)

theorem throughout_cons : Throughout step P s (op :: ops) ↔ P s ∧ Throughout step P (step s op) ops := by
  constructor
  · intro h
    exact ⟨h [] List.nil_prefix, fun pre hp => h (op :: pre) (List.cons_prefix_cons.2 ⟨rfl, hp⟩)⟩
  · rintro ⟨hs, h⟩ pre hp
    cases pre with
    | nil => exact hs
    | cons op' pre =>
      obtain ⟨rfl, hrest⟩ := List.cons_prefix_cons.1 hp
      exact h pre hrest

theorem Throughout.last (h : Throughout step P s ops) : P (run step s ops) :=
  h ops List.prefix_rfl

/-- What a run knows and did not know at the start, one of its operations has told. -/
theorem traced {α : Type*} {Known : σ → α → Prop} {Tells : σ → ι → α → Prop} {a : α}
    (hstep : ∀ s op, Known (step s op) a → Known s a ∨ Tells s op a) (hs : ¬ Known s a)
    (h : Known (run step s ops) a) :
    ∃ before op after, ops = before ++ op :: after ∧ Tells (run step s before) op a := by
  induction ops generalizing s with
  | nil => exact absurd h hs
  | cons op ops ih =>
    by_cases hk : Known (step s op) a
    · exact ⟨[], op, ops, rfl, (hstep s op hk).resolve_left hs⟩
    · obtain ⟨before, told, after, rfl, ht⟩ := ih hk h
      exact ⟨op :: before, told, after, rfl, ht⟩

/-- A run either changes nothing or is lost, by whether every operation meets
`Ok`, if one that does changes nothing and one that does not leads into states
the step does not leave. -/
theorem still_or_lost {Ok : ι → Prop} {Lost : σ → Prop}
    (hok : ∀ op ∈ ops, Ok op → step s op = s) (hlost : ∀ s op, Lost s → Lost (step s op))
    (hbad : ∀ op ∈ ops, ¬ Ok op → Lost (step s op)) :
    (∀ op ∈ ops, Ok op) ∧ run step s ops = s ∨
      (¬ ∀ op ∈ ops, Ok op) ∧ Lost (run step s ops) := by
  induction ops with
  | nil => simp
  | cons op ops ih =>
    by_cases h : Ok op
    · rw [run_cons, hok op (by simp) h]
      simpa [h] using ih (fun o ho => hok o (by simp [ho])) (fun o ho => hbad o (by simp [ho]))
    · refine .inr ⟨fun hall => h (hall op (by simp)), ?_⟩
      rw [run_cons]
      exact invariant hlost (hbad op (by simp) h)

end Lib.Runs
