import Mathlib.Tactic

/-!
# Transitions that log what they do

A transition takes a state to the next one and to the list of what it did on
the way. Past-time properties are about such a list: `Since` says that
something was done and nothing of another kind after it, `Always` that every
entry meets a condition on the entries before it.
-/

namespace Lib.Log

variable {σ α ι : Type*} {P Q P' Q' : α → Prop} {C D : List α → α → Prop} {log more : List α} {a : α}

-- ---------------------------------------------------------------------------
-- Logs
-- ---------------------------------------------------------------------------

def Since (P Q : α → Prop) (log : List α) : Prop :=
  ∃ pre a post, log = pre ++ a :: post ∧ P a ∧ ∀ b ∈ post, Q b

def Always (C : List α → α → Prop) (log : List α) : Prop :=
  ∀ pre a post, log = pre ++ a :: post → C pre a

theorem since_nil : ¬ Since P Q [] := by
  rintro ⟨pre, a, post, h, -⟩
  simp at h

theorem since_concat : Since P Q (log ++ [a]) ↔ P a ∨ Q a ∧ Since P Q log := by
  constructor
  · rintro ⟨pre, b, post, h, hb, hq⟩
    induction post using List.reverseRecOn with
    | nil =>
      obtain ⟨-, hab⟩ := List.append_inj' h rfl
      obtain rfl := List.singleton_inj.1 hab
      exact .inl hb
    | append_singleton post c _ =>
      rw [← List.cons_append, ← List.append_assoc] at h
      obtain ⟨rfl, hc⟩ := List.append_inj' h rfl
      obtain rfl := List.singleton_inj.1 hc
      exact .inr ⟨hq a (by simp), pre, b, post, rfl, hb, fun d hd => hq d (by simp [hd])⟩
  · rintro (ha | ⟨hqa, pre, b, post, rfl, hb, hq⟩)
    · exact ⟨log, a, [], rfl, ha, by simp⟩
    · refine ⟨pre, b, post ++ [a], by simp, hb, fun c hc => ?_⟩
      obtain hc | rfl := by simpa using hc
      · exact hq c hc
      · exact hqa

/-- `Since` read from the last entry backwards. -/
def sinceLast (P Q : α → Prop) [DecidablePred P] [DecidablePred Q] : List α → Bool
  | [] => false
  | a :: log => P a || Q a && sinceLast P Q log

theorem sinceLast_reverse [DecidablePred P] [DecidablePred Q] (log : List α) :
    sinceLast P Q log.reverse = true ↔ Since P Q log := by
  induction log using List.reverseRecOn with
  | nil => simp [sinceLast, since_nil]
  | append_singleton log a ih => simp [sinceLast, since_concat, ih]

instance [DecidablePred P] [DecidablePred Q] : Decidable (Since P Q log) :=
  decidable_of_iff _ (sinceLast_reverse log)

theorem Since.concat (h : Since P Q log) (hq : Q a) : Since P Q (log ++ [a]) :=
  since_concat.2 (.inr ⟨hq, h⟩)

theorem since_last (h : P a) : Since P Q (log ++ [a]) := since_concat.2 (.inl h)

theorem Since.mono (h : Since P Q log) (hp : ∀ a, P a → P' a) (hq : ∀ a, Q a → Q' a) : Since P' Q' log := by
  obtain ⟨pre, a, post, rfl, ha, hall⟩ := h
  exact ⟨pre, a, post, rfl, hp a ha, fun b hb => hq b (hall b hb)⟩

@[simp] theorem always_nil : Always C [] := by
  intro pre a post h
  simp at h

theorem always_concat : Always C (log ++ [a]) ↔ Always C log ∧ C log a := by
  constructor
  · intro h
    refine ⟨?_, h log a [] rfl⟩
    rintro pre b post rfl
    exact h pre b (post ++ [a]) (by simp)
  · rintro ⟨h, ha⟩ pre b post hs
    induction post using List.reverseRecOn with
    | nil =>
      obtain ⟨rfl, hb⟩ := List.append_inj' hs rfl
      obtain rfl := List.singleton_inj.1 hb
      exact ha
    | append_singleton post c _ =>
      rw [← List.cons_append, ← List.append_assoc] at hs
      obtain ⟨rfl, -⟩ := List.append_inj' hs rfl
      exact h pre b post rfl

theorem always_iff : Always C log ↔ ∀ (k : Nat) (h : k < log.length), C (log.take k) log[k] := by
  constructor
  · intro h k hk
    exact h _ _ (log.drop (k + 1)) (by rw [List.getElem_cons_drop, List.take_append_drop])
  · rintro h pre a post rfl
    simpa using h pre.length (by simp)

instance [∀ log a, Decidable (C log a)] : Decidable (Always C log) := decidable_of_iff _ always_iff.symm

-- ---------------------------------------------------------------------------
-- Transitions
-- ---------------------------------------------------------------------------

def Transition (σ α : Type*) : Type _ := σ → σ × List α

namespace Transition

variable {t u : Transition σ α} {ts : List (Transition σ α)} {s : σ} {R : σ → σ → List α → Prop}

def skip : Transition σ α := fun s => (s, [])

/-- Change the state, and say so. -/
def act (f : σ → σ) (a : α) : Transition σ α := fun s => (f s, [a])

/-- Change the state without a word. -/
def quiet (f : σ → σ) : Transition σ α := fun s => (f s, [])

def andThen (t u : Transition σ α) : Transition σ α := fun s =>
  ((u (t s).1).1, (t s).2 ++ (u (t s).1).2)

/-- One after the other. -/
def all : List (Transition σ α) → Transition σ α
  | [] => skip
  | t :: ts => t.andThen (all ts)

/-- The run of a logged step function. -/
def trace (step : ι → Transition σ α) (ops : List ι) : Transition σ α := all (ops.map step)

@[simp] theorem skip_apply : (skip : Transition σ α) s = (s, []) := rfl

@[simp] theorem act_apply (f : σ → σ) : act f a s = (f s, [a]) := rfl

@[simp] theorem quiet_apply (f : σ → σ) : (quiet f : Transition σ α) s = (f s, []) := rfl

theorem andThen_apply : t.andThen u s = ((u (t s).1).1, (t s).2 ++ (u (t s).1).2) := rfl

@[simp] theorem quiet_andThen (f : σ → σ) : (quiet f : Transition σ α).andThen t s = t (f s) := by
  simp [andThen_apply]

theorem act_andThen (f : σ → σ) (a : α) : (act f a).andThen t s = ((t (f s)).1, a :: (t (f s)).2) := rfl

@[simp] theorem trace_nil (step : ι → Transition σ α) : trace step [] s = (s, []) := rfl

theorem trace_cons (step : ι → Transition σ α) (op : ι) (ops : List ι) :
    trace step (op :: ops) s =
      ((trace step ops (step op s).1).1, (step op s).2 ++ (trace step ops (step op s).1).2) := rfl

theorem trace_append (step : ι → Transition σ α) (ops more : List ι) :
    trace step (ops ++ more) s =
      ((trace step more (trace step ops s).1).1,
        (trace step ops s).2 ++ (trace step more (trace step ops s).1).2) := by
  induction ops generalizing s with
  | nil => simp
  | cons op ops ih => simp [trace_cons, ih]

/-- A relation of the states before and after and of what was logged between. -/
def Meets (R : σ → σ → List α → Prop) (t : Transition σ α) : Prop := ∀ s, R s (t s).1 (t s).2

/-- One that may be shown of each part of a transition. -/
structure Composes (R : σ → σ → List α → Prop) : Prop where
  refl : ∀ s, R s s []
  comp : ∀ {s₁ s₂ s₃ log₁ log₂}, R s₁ s₂ log₁ → R s₂ s₃ log₂ → R s₁ s₃ (log₁ ++ log₂)

theorem Composes.skip (hR : Composes R) : Meets R skip := hR.refl

theorem Composes.andThen_at (hR : Composes R) (ht : R s (t s).1 (t s).2)
    (hu : R (t s).1 (u (t s).1).1 (u (t s).1).2) : R s (t.andThen u s).1 (t.andThen u s).2 :=
  hR.comp ht hu

theorem Composes.andThen (hR : Composes R) (ht : Meets R t) (hu : Meets R u) : Meets R (t.andThen u) :=
  fun s => hR.comp (ht s) (hu (t s).1)

theorem Composes.all (hR : Composes R) (h : ∀ t ∈ ts, Meets R t) : Meets R (all ts) := by
  induction ts with
  | nil => exact hR.refl
  | cons t ts ih => exact hR.andThen (h t (by simp)) (ih fun u hu => h u (List.mem_cons_of_mem _ hu))

theorem Composes.trace (hR : Composes R) {step : ι → Transition σ α} {ops : List ι}
    (h : ∀ op ∈ ops, Meets R (step op)) : Meets R (trace step ops) :=
  hR.all fun t ht => by
    obtain ⟨op, hop, rfl⟩ := List.mem_map.1 ht
    exact h op hop

/-- Whatever was logged before, the invariant of log and state is kept. -/
def Keeps (Inv : List α → σ → Prop) (s s' : σ) (log : List α) : Prop :=
  ∀ before, Inv before s → Inv (before ++ log) s'

theorem keeps_composes (Inv : List α → σ → Prop) : Composes (Keeps Inv) where
  refl s before h := by simpa using h
  comp h₁ h₂ before h := by
    rw [← List.append_assoc]
    exact h₂ _ (h₁ _ h)

end Transition

end Lib.Log
