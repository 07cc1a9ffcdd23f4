import Mathlib.Tactic

/-!
# Reading a buffer with a cursor

Readers over a span of elements in fixed-width size arithmetic. A reader that
would touch an element past the span's end, let a size wrap, or take the rest
of the span from past its end has escaped, and nothing more is said of it. One
that reports having consumed more than there is goes on, but is no longer
clean. `Reads` packs the two facts callers need of a reader: on which spans it
is confined, and that it then consumes something, and no more than there is.
-/

namespace Lib.Cursor

inductive Read (α : Type) where
  | ok (clean : Bool) (a : α)
  | error (clean : Bool) (text : String)
  | escaped
  deriving DecidableEq, Repr

namespace Read

variable {α β : Type}

def taint (clean : Bool) : Read α → Read α
  | .ok c a => .ok (clean && c) a
  | .error c text => .error (clean && c) text
  | .escaped => .escaped

protected def bind : Read α → (α → Read β) → Read β
  | .ok c a, f => (f a).taint c
  | .error c text, _ => .error c text
  | .escaped, _ => .escaped

instance : Monad Read where
  pure := .ok true
  bind := Read.bind

def fail (text : String) : Read α := .error true text

def confined : Read α → Bool
  | .ok c _ => c
  | .error c _ => c
  | .escaped => false

@[simp] theorem taint_true (r : Read α) : r.taint true = r := by cases r <;> simp [taint]

@[simp] theorem pure_bind (a : α) (f : α → Read β) : (pure a >>= f) = f a := taint_true _
@[simp] theorem ok_bind (a : α) (f : α → Read β) : (Read.ok true a >>= f) = f a := taint_true _
@[simp] theorem error_bind (f : α → Read β) : (Read.error c text >>= f) = .error c text := rfl
@[simp] theorem fail_bind (f : α → Read β) : (fail text >>= f) = fail text := rfl
@[simp] theorem escaped_bind (f : α → Read β) : (Read.escaped >>= f) = .escaped := rfl
@[simp] theorem confined_ok : (Read.ok c a : Read α).confined = c := rfl
@[simp] theorem confined_pure (a : α) : (pure a : Read α).confined = true := rfl
@[simp] theorem confined_fail : (fail text : Read α).confined = true := rfl
@[simp] theorem confined_escaped : (escaped : Read α).confined = false := rfl

theorem taint_taint (r : Read α) : (r.taint c').taint c = r.taint (c && c') := by
  cases r <;> simp [taint, Bool.and_assoc]

theorem taint_bind (r : Read α) (f : α → Read β) : (r.taint c >>= f) = (r >>= f).taint c := by
  cases r with
  | ok c' a => exact (taint_taint (f a)).symm
  | error c' text => rfl
  | escaped => rfl

theorem bind_assoc (r : Read α) (f : α → Read β) (g : β → Read γ) :
    (r >>= f >>= g) = r >>= fun a => f a >>= g := by
  cases r with
  | ok c a => exact taint_bind (f a) g
  | error c text => rfl
  | escaped => rfl

theorem confined_bind {r : Read α} {f : α → Read β} :
    (r >>= f).confined = true ↔
      r.confined = true ∧ ∀ a, r = .ok true a → (f a).confined = true := by
  cases r with
  | ok c a =>
    cases c with
    | true => simp
    | false =>
      show ((f a).taint false).confined = true ↔ _
      cases f a <;> simp [taint, confined]
  | error c text => simp [confined]
  | escaped => simp

theorem not_confined_bind {r : Read α} {f : α → Read β} (h : r.confined = false) :
    (r >>= f).confined = false := by
  rw [← Bool.not_eq_true] at h ⊢
  exact fun hc => h (confined_bind.1 hc).1

theorem bind_eq_ok {r : Read α} {f : α → Read β} :
    (r >>= f) = .ok true b ↔ ∃ a, r = .ok true a ∧ f a = .ok true b := by
  cases r with
  | ok c a =>
    cases c with
    | true => simp
    | false =>
      show (f a).taint false = _ ↔ _
      cases f a <;> simp [taint]
  | error c text => simp
  | escaped => simp

@[simp] theorem fail_ne_ok : (fail text : Read α) ≠ .ok c a := nofun

@[simp] theorem pure_eq_ok : (pure a : Read α) = .ok true b ↔ a = b := by
  show Read.ok true a = _ ↔ _
  simp

end Read

-- ---------------------------------------------------------------------------
-- Primitives
-- ---------------------------------------------------------------------------

section

variable {ε α β ν : Type} (width : Nat)

/-- What the `k` elements from `pos` on stand for. -/
def field (value : List ε → ν) (span : List ε) (pos k : Nat) : Read ν :=
  if pos + k ≤ span.length then pure (value ((span.drop pos).take k)) else .escaped

/-- The same, behind the test that the elements are there. -/
def tested (value : List ε → ν) (span : List ε) (pos k : Nat) (short : String) : Read ν :=
  if span.length < pos + k then .fail short else field value span pos k

/-- What a reader reports that has not looked at all it stepped over. -/
def past (span : List ε) (k : Nat) : Read (Unit × Nat) := .ok (k ≤ span.length) ((), k)

/-- A sum of sizes. -/
def add (a b : Nat) : Read Nat := if a + b < width then pure (a + b) else .escaped

/-- The span from `off` on. -/
def rest (span : List ε) (off : Nat) : Read (List ε) :=
  if off ≤ span.length then pure (span.drop off) else .escaped

/-- Runs a reader at the cursor and moves the cursor by what it consumed. -/
def consume (span : List ε) (r : List ε → Read (α × Nat)) (off : Nat) : Read (α × Nat) := do
  let view ← rest span off
  let (a, k) ← r view
  let off ← add width off k
  pure (a, off)

/-- What holds of the value and the cursor a reader leaves behind. -/
def After (span : List ε) (r : List ε → Read (α × Nat)) (off : Nat) (P : α → Nat → Prop) : Prop :=
  ∀ a off', consume width span r off = .ok true (a, off') → P a off'

/-- On spans of representable size the reader is confined exactly where `Fits`
holds, and what it hands back, it has read from the span. -/
structure Reads (r : List ε → Read (α × Nat)) (Fits : List ε → Prop) : Prop where
  confined : ∀ span, span.length < width → ((r span).confined = true ↔ Fits span)
  within : ∀ span a k, span.length < width → r span = .ok true (a, k) → 1 ≤ k ∧ k ≤ span.length

variable {width} {span : List ε} {r : List ε → Read (α × Nat)} {Fits : List ε → Prop} {off : Nat}
  {value : List ε → ν}

theorem field_of_le (h : pos + k ≤ span.length) :
    field value span pos k = pure (value ((span.drop pos).take k)) := if_pos h

theorem tested_of_le (h : pos + k ≤ span.length) :
    tested value span pos k short = pure (value ((span.drop pos).take k)) := by
  rw [tested, if_neg (by omega), field_of_le h]

theorem tested_of_lt (h : span.length < pos + k) :
    tested value span pos k short = .fail short := if_pos h

@[simp] theorem tested_confined : (tested value span pos k short).confined = true := by
  rcases Nat.lt_or_ge span.length (pos + k) with h | h
  · rw [tested_of_lt h, Read.confined_fail]
  · rw [tested_of_le h, Read.confined_pure]

theorem tested_eq_ok : tested value span pos k short = .ok true v ↔
    pos + k ≤ span.length ∧ value ((span.drop pos).take k) = v := by
  rcases Nat.lt_or_ge span.length (pos + k) with h | h
  · simp [tested_of_lt h, h]
  · simp [tested_of_le h, h]

theorem add_of_lt (h : a + b < width) : add width a b = pure (a + b) := if_pos h

theorem Reads.congr {Fits' : List ε → Prop} (h : Reads width r Fits) (he : ∀ span, Fits span ↔ Fits' span) :
    Reads width r Fits' :=
  ⟨fun span hs => (h.confined span hs).trans (he span), h.within⟩

theorem Reads.consume_ok (h : Reads width r Fits) (hs : span.length < width)
    (hr : consume width span r off = .ok true (a, off')) : off < off' ∧ off' ≤ span.length := by
  simp only [consume, rest, add] at hr
  split at hr
  · next hoff =>
    simp only [Read.pure_bind, Read.bind_eq_ok] at hr
    obtain ⟨⟨a', k⟩, hk, hr⟩ := hr
    have hw := h.within _ _ _ (by simp; omega) hk
    rw [List.length_drop] at hw
    rw [if_pos (by omega)] at hr
    simp only [Read.pure_eq_ok, Prod.mk.injEq] at hr
    obtain ⟨_, rfl, -, rfl⟩ := hr
    omega
  · simp at hr

theorem Reads.consume_confined (h : Reads width r Fits) (hs : span.length < width)
    (hoff : off ≤ span.length) :
    (consume width span r off).confined = true ↔ Fits (span.drop off) := by
  have hd : (span.drop off).length < width := by simp; omega
  rw [← h.confined _ hd]
  simp only [consume, rest, if_pos hoff, Read.pure_bind, Read.confined_bind]
  refine ⟨fun hc => hc.1, fun hc => ⟨hc, ?_⟩⟩
  rintro ⟨a, k⟩ hk
  have hw := h.within _ _ _ hd hk
  rw [List.length_drop] at hw
  simp [add, if_pos (show off + k < width by omega)]

/-- A reader that goes on from another is confined where the first one's header
fits and, from the cursor it leaves, the second is. -/
theorem Reads.then_confined (h : Reads width r Fits) (hs : span.length < width)
    (hoff : off ≤ span.length) {f : α × Nat → Read β} {P : α → Nat → Prop}
    (hf : ∀ a off', off' ≤ span.length → ((f (a, off')).confined = true ↔ P a off')) :
    (consume width span r off >>= f).confined = true ↔
      Fits (span.drop off) ∧ After width span r off P := by
  rw [Read.confined_bind, h.consume_confined hs hoff]
  refine and_congr_right fun _ => ⟨fun hc a off' hr => ?_, fun hc => ?_⟩
  · exact (hf a off' (h.consume_ok hs hr).2).1 (hc _ hr)
  · rintro ⟨a, off'⟩ hr
    exact (hf a off' (h.consume_ok hs hr).2).2 (hc a off' hr)

end

-- ---------------------------------------------------------------------------
-- One reader after the other
-- ---------------------------------------------------------------------------

section

variable {σ ι : Type}

/-- Steps in a row, each from the state the one before left. -/
def perform (step : σ → ι → Read σ) : List ι → σ → Read σ
  | [], s => pure s
  | op :: ops, s => step s op >>= perform step ops

/-- The condition holds of each step, in the state it starts from. -/
def Along (step : σ → ι → Read σ) (Fits : σ → ι → Prop) : List ι → σ → Prop
  | [], _ => True
  | op :: ops, s => Fits s op ∧ ∀ s', step s op = .ok true s' → Along step Fits ops s'

variable {step : σ → ι → Read σ} {Fits : σ → ι → Prop} {I : σ → Prop} {ops : List ι} {s s' : σ}

@[simp] theorem perform_nil : perform step [] s = pure s := rfl
@[simp] theorem perform_cons : perform step (op :: ops) s = step s op >>= perform step ops := rfl

theorem perform_confined (hfits : ∀ s op, I s → ((step s op).confined = true ↔ Fits s op))
    (hinv : ∀ s op s', I s → step s op = .ok true s' → I s') (hs : I s) :
    (perform step ops s).confined = true ↔ Along step Fits ops s := by
  induction ops generalizing s with
  | nil => simp [Along]
  | cons op ops ih =>
    rw [perform_cons, Read.confined_bind, hfits s op hs]
    exact and_congr_right fun _ => forall_congr' fun s' =>
      imp_congr_right fun hr => ih (hinv s op s' hs hr)

theorem perform_keeps (hinv : ∀ s op s', I s → step s op = .ok true s' → I s') (hs : I s)
    (hr : perform step ops s = .ok true s') : I s' := by
  induction ops generalizing s with
  | nil =>
    rw [perform_nil, Read.pure_eq_ok] at hr
    exact hr ▸ hs
  | cons op ops ih =>
    rw [perform_cons, Read.bind_eq_ok] at hr
    obtain ⟨m, hm, hr⟩ := hr
    exact ih (hinv s op m hs hm) hr

end

end Lib.Cursor
