import Mathlib.Tactic

/-!
# Calls that may throw half way

A call on an object that is updated in place either returns, throws with the
object as it stood at the throw, or fails an assertion and takes the whole
device down. `andThen` is the semicolon, `caught` the handler around it.
-/

namespace Lib

inductive Outcome (σ : Type*) where
  | done (s : σ)
  | threw (s : σ)
  | aborted
  deriving DecidableEq, Repr

namespace Outcome

variable {σ : Type*}

def andThen : Outcome σ → (σ → Outcome σ) → Outcome σ
  | .done s, f => f s
  | .threw s, _ => .threw s
  | .aborted, _ => .aborted

def caught (handler : σ → σ) : Outcome σ → Outcome σ
  | .threw s => .done (handler s)
  | .done s => .done s
  | .aborted => .aborted

/-- What is left of the object, if the device still runs. -/
def state? : Outcome σ → Option σ
  | .done s | .threw s => some s
  | .aborted => none

@[simp] theorem andThen_done : (done s).andThen f = f s := rfl
@[simp] theorem andThen_threw : (threw s).andThen f = threw s := rfl
@[simp] theorem andThen_aborted : (aborted : Outcome σ).andThen f = aborted := rfl
@[simp] theorem caught_done : (done s).caught h = done s := rfl
@[simp] theorem caught_threw : (threw s).caught h = done (h s) := rfl
@[simp] theorem caught_aborted : (aborted : Outcome σ).caught h = aborted := rfl

/-- Every object the call may leave behind satisfies `P`. -/
def All (P : σ → Prop) (o : Outcome σ) : Prop := ∀ s, o.state? = some s → P s

@[simp] theorem all_done {P : σ → Prop} : (done s).All P ↔ P s := by simp [All, state?]
@[simp] theorem all_threw {P : σ → Prop} : (threw s).All P ↔ P s := by simp [All, state?]
@[simp] theorem all_aborted {P : σ → Prop} : (aborted : Outcome σ).All P := by simp [All, state?]

theorem andThen_eq_done {o : Outcome σ} {f : σ → Outcome σ} :
    o.andThen f = done s ↔ ∃ a, o = done a ∧ f a = done s := by
  cases o <;> simp [andThen]

/-- The call throws. -/
def Throws (o : Outcome σ) : Prop := ∃ s, o = threw s

@[simp] theorem throws_done : ¬ (done s).Throws := nofun
@[simp] theorem throws_threw : (threw s).Throws := ⟨s, rfl⟩
@[simp] theorem throws_aborted : ¬ (aborted : Outcome σ).Throws := nofun

theorem throws_andThen {o : Outcome σ} {f : σ → Outcome σ} :
    (o.andThen f).Throws ↔ o.Throws ∨ ∃ a, o = done a ∧ (f a).Throws := by
  cases o <;> simp [andThen]

theorem caught_all {Q : σ → Prop} {o : Outcome σ} (hd : ∀ s, o = done s → Q s)
    (hh : ∀ s, Q (h s)) : (o.caught h).All Q := by
  cases o with
  | done s => simpa using hd s rfl
  | threw s => simpa using hh s
  | aborted => exact all_aborted

theorem All.mono {P Q : σ → Prop} {o : Outcome σ} (ho : o.All P) (h : ∀ s, P s → Q s) : o.All Q :=
  fun s hs => h s (ho s hs)

/-- What is left by the first call is enough for `Q`, where it throws, and for the second. -/
theorem All.bind {P Q : σ → Prop} {o : Outcome σ} {f : σ → Outcome σ} (ho : o.All P) (ht : ∀ s, P s → Q s)
    (hf : ∀ s, P s → (f s).All Q) : (o.andThen f).All Q := by
  cases o with
  | done s => exact hf s (all_done.1 ho)
  | threw s => exact all_threw.2 (ht s (all_threw.1 ho))
  | aborted => exact all_aborted

theorem All.andThen {P : σ → Prop} {o : Outcome σ} {f : σ → Outcome σ} (ho : o.All P)
    (hf : ∀ s, P s → (f s).All P) : (o.andThen f).All P :=
  ho.bind (fun _ h => h) hf

/-- The call leaves an object behind, and that satisfies `P`. -/
def Leaves (P : σ → Prop) (o : Outcome σ) : Prop := ∃ s, o.state? = some s ∧ P s

@[simp] theorem leaves_done {P : σ → Prop} : (done s).Leaves P ↔ P s := by simp [Leaves, state?]
@[simp] theorem leaves_threw {P : σ → Prop} : (threw s).Leaves P ↔ P s := by simp [Leaves, state?]

theorem Leaves.mono {P Q : σ → Prop} {o : Outcome σ} (ho : o.Leaves P) (h : ∀ s, P s → Q s) : o.Leaves Q := by
  obtain ⟨s, hs, hp⟩ := ho
  exact ⟨s, hs, h s hp⟩

/-- What the first call leaves is enough for `Q`, where it throws, and for the second. -/
theorem Leaves.bind {P Q : σ → Prop} {o : Outcome σ} {f : σ → Outcome σ} (ho : o.Leaves P) (ht : ∀ s, P s → Q s)
    (hf : ∀ s, P s → (f s).Leaves Q) : (o.andThen f).Leaves Q := by
  cases o with
  | done s => exact hf s (leaves_done.1 ho)
  | threw s => exact leaves_threw.2 (ht s (leaves_threw.1 ho))
  | aborted =>
    obtain ⟨s, hs, -⟩ := ho
    cases hs

theorem Leaves.andThen {P : σ → Prop} {o : Outcome σ} {f : σ → Outcome σ} (ho : o.Leaves P)
    (hf : ∀ s, P s → (f s).Leaves P) : (o.andThen f).Leaves P :=
  ho.bind (fun _ h => h) hf

theorem All.caught {P : σ → Prop} {o : Outcome σ} {h : σ → σ} (ho : o.All P)
    (hh : ∀ s, P s → P (h s)) : (o.caught h).All P := by
  cases o with
  | done s => exact ho
  | threw s => exact all_done.2 (hh s (all_threw.1 ho))
  | aborted => exact all_aborted

end Outcome

end Lib
