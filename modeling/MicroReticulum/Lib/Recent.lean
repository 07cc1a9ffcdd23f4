import Mathlib.Tactic

/-!
# The most recent of what was put in

A set to look things up in, beside a list of them in the order they came. What
is in it already is not put in again; a cull takes from the front of the list.
`Keeps log` says that the two agree and are the end of the log of all that was
ever put in.
-/

namespace Lib

structure Recent (α : Type*) where
  known : Finset α := ∅
  order : List α := []

namespace Recent

variable {α : Type*} [DecidableEq α] {r : Recent α} {a : α} {log : List α} {max : Nat}

def remember (a : α) (r : Recent α) : Recent α :=
  if a ∈ r.known then r else ⟨insert a r.known, r.order ++ [a]⟩

/-- The loop of a cull, over the list. -/
def cullFrom (max : Nat) : List α → Finset α → Recent α
  | [], known => ⟨known, []⟩
  | a :: order, known => if known.card > max then cullFrom max order (known.erase a) else ⟨known, a :: order⟩

def cull (max : Nat) (r : Recent α) : Recent α := cullFrom max r.order r.known

-- ---------------------------------------------------------------------------
-- The invariant
-- ---------------------------------------------------------------------------

structure Keeps (log : List α) (r : Recent α) : Prop where
  nodup : r.order.Nodup
  known : r.known = r.order.toFinset
  recent : r.order <:+ log

theorem Keeps.card (h : Keeps log r) : r.known.card = r.order.length := by
  rw [h.known, List.toFinset_card_of_nodup h.nodup]

theorem Keeps.mem (h : Keeps log r) : a ∈ r.known ↔ a ∈ r.order := by rw [h.known, List.mem_toFinset]

theorem keeps_empty : Keeps ([] : List α) {} := ⟨.nil, rfl, List.suffix_rfl⟩

/-- The log with `a`, if it was not known. -/
def logged (a : α) (r : Recent α) (log : List α) : List α := if a ∈ r.known then log else log ++ [a]

theorem Keeps.remember (h : Keeps log r) (a : α) : Keeps (r.logged a log) (r.remember a) := by
  unfold Recent.remember logged
  split
  · exact h
  · next hnew =>
    rw [h.mem] at hnew
    refine ⟨List.nodup_append.2 ⟨h.nodup, List.nodup_singleton a, ?_⟩, ?_, ?_⟩
    · intro x hx y hy
      rw [List.mem_singleton] at hy
      rintro rfl
      exact hnew (hy ▸ hx)
    · rw [h.known]
      ext x
      simp
    · obtain ⟨before, rfl⟩ := h.recent
      exact ⟨before, (List.append_assoc ..).symm⟩

theorem Keeps.remember_order (h : Keeps log r) (a : α) :
    (r.remember a).order = if a ∈ r.order then r.order else r.order ++ [a] := by
  unfold Recent.remember
  simp only [h.mem]
  split <;> rfl

/-- As many go as are too many, from the front. -/
theorem cullFrom_eq {order : List α} (hn : order.Nodup) (max : Nat) :
    cullFrom max order order.toFinset =
      ⟨(order.drop (order.length - max)).toFinset, order.drop (order.length - max)⟩ := by
  induction order with
  | nil => simp [cullFrom]
  | cons a order ih =>
    rw [List.nodup_cons] at hn
    have hcard : (a :: order).toFinset.card = order.length + 1 := by
      rw [List.toFinset_card_of_nodup (List.nodup_cons.2 hn), List.length_cons]
    unfold cullFrom
    split
    · next hmany =>
      have herase : (a :: order).toFinset.erase a = order.toFinset := by
        rw [List.toFinset_cons, Finset.erase_insert (by simpa using hn.1)]
      rw [hcard] at hmany
      rw [herase, ih hn.2, List.length_cons, Nat.succ_sub (Nat.le_of_lt_succ hmany), List.drop_succ_cons]
    · next hfew =>
      rw [hcard, not_lt] at hfew
      rw [List.length_cons, Nat.sub_eq_zero_of_le hfew, List.drop_zero]

theorem Keeps.cull_eq (h : Keeps log r) (max : Nat) : r.cull max =
    ⟨(r.order.drop (r.order.length - max)).toFinset, r.order.drop (r.order.length - max)⟩ := by
  unfold cull
  rw [h.known, cullFrom_eq h.nodup]

theorem Keeps.cull (h : Keeps log r) (max : Nat) : Keeps log (r.cull max) := by
  rw [h.cull_eq max]
  exact ⟨h.nodup.sublist (List.drop_sublist _ _), rfl, (List.drop_suffix _ _).trans h.recent⟩

/-- What a cull leaves: the last `max` that were put in, if there were more. -/
theorem Keeps.survivors (h : Keeps log r) (max : Nat) :
    (r.cull max).order = log.drop (log.length - min max r.known.card) ∧
      (r.cull max).known.card = min max r.known.card := by
  obtain ⟨before, rfl⟩ := h.recent
  have hlen : (r.cull max).order.length = min max r.order.length := by
    rw [h.cull_eq max, List.length_drop]
    omega
  rw [(h.cull max).card, hlen, h.card]
  refine ⟨?_, rfl⟩
  have hbefore : before.drop (before.length + r.order.length - min max r.order.length) = [] :=
    List.drop_eq_nil_of_le (by omega)
  have hdrop : r.order.length - max = before.length + r.order.length - min max r.order.length - before.length := by
    omega
  rw [h.cull_eq max, List.length_append, List.drop_append, hbefore, List.nil_append, hdrop]

end Recent

end Lib
