import MicroReticulum.Lib.Log

/-!
# What comes in is held or has gone out

Books are kept of a log: what each entry takes in, and what it gives out. A
state holds something, and a transition balances where what it gives out and
what is held after it make up what was held before it and what it took in.
Over a run from a state that holds nothing, all that came in is held or has
gone out, once each.
-/

namespace Lib.Balance

open Lib.Log Lib.Log.Transition

variable {σ α M κ : Type*}

-- ---------------------------------------------------------------------------
-- Totals
-- ---------------------------------------------------------------------------

section

variable [AddCommMonoid M] {f came went : α → M} {log more : List α} {a : α}

def total (f : α → M) (log : List α) : M := (log.map f).sum

@[simp] theorem total_nil : total f [] = 0 := rfl

@[simp] theorem total_cons : total f (a :: log) = f a + total f log := by
  simp [total]

@[simp] theorem total_append : total f (log ++ more) = total f log + total f more := by
  simp [total]

theorem total_eq_zero (h : ∀ a ∈ log, f a = 0) : total f log = 0 := by
  induction log with
  | nil => rfl
  | cons a log ih => simp [h a (by simp), ih fun b hb => h b (by simp [hb])]

-- ---------------------------------------------------------------------------
-- Balance
-- ---------------------------------------------------------------------------

variable {held : σ → M} {s s' : σ} {slots : List σ} {i : Nat}

/-- A comparison of totals: that they are equal, or that nothing has come from nowhere. -/
structure Compares (rel : M → M → Prop) : Prop where
  refl : ∀ a, rel a a
  trans : ∀ {a b c}, rel a b → rel b c → rel a c
  add : ∀ {a b}, rel a b → ∀ c, rel (a + c) (b + c)

theorem compares_eq : Compares (Eq : M → M → Prop) := ⟨fun _ => rfl, Eq.trans, fun h c => by rw [h]⟩

theorem compares_le [PartialOrder M] [IsOrderedAddMonoid M] : Compares (LE.le : M → M → Prop) :=
  ⟨le_refl, le_trans, fun h c => add_le_add_left h c⟩

def Balances (rel : M → M → Prop) (held : σ → M) (came went : α → M) (s s' : σ) (log : List α) : Prop :=
  rel (held s' + total went log) (held s + total came log)

variable {rel : M → M → Prop}

theorem Compares.still (hr : Compares rel) (s : σ) : Balances rel held came went s s [] := hr.refl _

theorem Compares.chain (hr : Compares rel) {s₁ s₂ s₃ : σ} (h₁ : Balances rel held came went s₁ s₂ log)
    (h₂ : Balances rel held came went s₂ s₃ more) : Balances rel held came went s₁ s₃ (log ++ more) := by
  unfold Balances at *
  have h₂ := hr.add h₂ (total went log)
  have h₁ := hr.add h₁ (total came more)
  rw [add_right_comm _ (total came more)] at h₂
  have h := hr.trans h₂ h₁
  rw [add_assoc, add_comm (total went more), ← total_append, add_assoc, ← total_append] at h
  exact h

theorem balances_composes (hr : Compares rel) : Composes (Balances rel held came went) := ⟨hr.still, hr.chain⟩

theorem total_of_getElem? (hs : slots[i]? = some s) :
    total held slots = held s + total held (slots.eraseIdx i) := by
  induction slots generalizing i with
  | nil => simp at hs
  | cons s₀ slots ih =>
    cases i with
    | zero =>
      obtain rfl : s₀ = s := by simpa using hs
      simp [total]
    | succ i =>
      have h := ih (i := i) (by simpa using hs)
      simp only [total, List.map_cons, List.sum_cons, List.eraseIdx_cons_succ] at h ⊢
      rw [h]
      ac_rfl

theorem total_set (hs : slots[i]? = some s) :
    total held (slots.set i s') = held s' + total held (slots.eraseIdx i) := by
  induction slots generalizing i with
  | nil => simp at hs
  | cons s₀ slots ih =>
    cases i with
    | zero => simp [total]
    | succ i =>
      have h := ih (i := i) (by simpa using hs)
      simp only [total, List.set_cons_succ, List.map_cons, List.sum_cons, List.eraseIdx_cons_succ] at h ⊢
      rw [h]
      ac_rfl

/-- A table balances with the slot that is written. -/
theorem Compares.set (hr : Compares rel) (h : Balances rel held came went s s' log) (hs : slots[i]? = some s) :
    Balances rel (total held) came went slots (slots.set i s') log := by
  unfold Balances at *
  rw [total_set hs, total_of_getElem? hs, add_right_comm, add_right_comm (held s)]
  exact hr.add h _

end

-- ---------------------------------------------------------------------------
-- Where a ticket is
-- ---------------------------------------------------------------------------

variable {held : σ → Multiset κ} {came went : α → Multiset κ} {log : List α} {s : σ} {slots : List σ} {t : κ} {i j : Nat}

theorem mem_total {f : α → Multiset κ} : t ∈ total f log ↔ ∃ a ∈ log, t ∈ f a := by
  induction log with
  | nil => simp
  | cons a log ih => simp [ih]

/-- How often a ticket is counted, by the entries that count it. -/
theorem count_total [DecidableEq κ] {f : α → Multiset κ} {p : α → Bool}
    (h : ∀ a, (f a).count t = if p a then 1 else 0) : (total f log).count t = log.countP p := by
  induction log with
  | nil => simp
  | cons a log ih => rw [total_cons, Multiset.count_add, ih, h, List.countP_cons, add_comm]

/-- No ticket comes in twice. -/
def Once (came : α → Multiset κ) (log : List α) : Prop := (total came log).Nodup

/-- Every ticket that came in is held or has gone out. -/
theorem settled (h : held s + total went log = total came log) :
    t ∈ total came log ↔ t ∈ held s ∨ t ∈ total went log := by
  rw [← h, Multiset.mem_add]

/-- It goes out once. -/
theorem Once.out (ho : Once came log) (h : held s + total went log ≤ total came log) : (total went log).Nodup :=
  (Multiset.nodup_add.1 (Multiset.nodup_of_le h ho)).2.1

theorem Once.inside (ho : Once came log) (h : held s + total went log ≤ total came log) : (held s).Nodup :=
  (Multiset.nodup_add.1 (Multiset.nodup_of_le h ho)).1

/-- What has gone out is held no more. -/
theorem Once.gone (ho : Once came log) (h : held s + total went log ≤ total came log) (ht : t ∈ total went log) :
    t ∉ held s :=
  fun hs => Multiset.disjoint_left.1 (Multiset.nodup_add.1 (Multiset.nodup_of_le h ho)).2.2 hs ht

/-- It is held in one place. -/
theorem nodup_total (h : (total held slots).Nodup) {s s' : σ} (hi : slots[i]? = some s) (hj : slots[j]? = some s')
    (ht : t ∈ held s) (ht' : t ∈ held s') : i = j := by
  by_contra hne
  rw [total_of_getElem? hi, Multiset.nodup_add] at h
  refine Multiset.disjoint_left.1 h.2.2 ht (mem_total.2 ⟨s', ?_, ht'⟩)
  rcases Nat.lt_or_gt_of_ne hne with hlt | hgt
  · obtain ⟨d, hd⟩ := Nat.exists_eq_add_of_lt hlt
    refine List.mem_of_getElem? (i := i + d) ?_
    rw [List.getElem?_eraseIdx_of_ge (Nat.le_add_right i d), ← hd, hj]
  · refine List.mem_of_getElem? (i := j) ?_
    rw [List.getElem?_eraseIdx_of_lt hgt, hj]

end Lib.Balance
