import Mathlib.Tactic

/-!
# Shared storage

Handles into a store of cells, any number on one cell. An exclusive handle is
alone on its cell, so a write through it shows nowhere else. `Sound` is that
invariant; every operation keeps it, and each has one lemma on what the handles
read after it.
-/

namespace Lib.Sharing

structure Handle where
  cell : Option Nat := none
  exclusive : Bool := true
  deriving DecidableEq, Repr

/-- Cells that no handle refers to any more are not taken away. -/
structure Store (N C : Type*) where
  cells : List C := []
  handles : N → Handle := fun _ => {}

namespace Store

variable {N C : Type*} [DecidableEq N] {s : Store N C} {u v w : N} {c : C} {f : C → C} {k : Nat}

def content (s : Store N C) (v : N) : Option C := (s.handles v).cell.bind (s.cells[·]?)

-- ---------------------------------------------------------------------------
-- Operations
-- ---------------------------------------------------------------------------

/-- A new cell, for one handle. -/
def fresh (s : Store N C) (v : N) (c : C) : Store N C :=
  { cells := s.cells ++ [c], handles := Function.update s.handles v ⟨some s.cells.length, true⟩ }

def drop (s : Store N C) (v : N) : Store N C := { s with handles := Function.update s.handles v {} }

/-- `v` on the cell of `w`; neither is exclusive from then on. -/
def share (s : Store N C) (v w : N) : Store N C :=
  { s with
    handles := Function.update (Function.update s.handles w { s.handles w with exclusive := false }) v
      ⟨(s.handles w).cell, false⟩ }

/-- In place: every handle on the cell sees it. -/
def write (s : Store N C) (v : N) (f : C → C) : Store N C :=
  match (s.handles v).cell with
  | none => s
  | some k => { s with cells := s.cells.modify k f }

/-- `v` becomes what `w` was. -/
def move (s : Store N C) (v w : N) : Store N C :=
  { s with handles := Function.update (Function.update s.handles v (s.handles w)) w {} }

structure Sound (s : Store N C) : Prop where
  within : ∀ v k, (s.handles v).cell = some k → k < s.cells.length
  alone : ∀ v w k, (s.handles v).exclusive → (s.handles v).cell = some k → (s.handles w).cell = some k → w = v

-- ---------------------------------------------------------------------------
-- What the handles read
-- ---------------------------------------------------------------------------

omit [DecidableEq N] in
theorem content_none (h : s.Sound) : s.content v = none ↔ (s.handles v).cell = none := by
  rw [content, Option.bind_eq_none_iff]
  constructor
  · intro hall
    cases hv : (s.handles v).cell with
    | none => rfl
    | some k => simpa [h.within v k hv] using hall k hv
  · intro hv k hk
    rw [hv] at hk
    cases hk

theorem content_fresh (h : s.Sound) :
    (s.fresh v c).content u = if u = v then some c else s.content u := by
  by_cases hu : u = v
  · subst hu
    simp [content, fresh]
  · rw [if_neg hu, content, fresh]
    dsimp only
    rw [Function.update_of_ne hu, content]
    cases hc : (s.handles u).cell with
    | none => rfl
    | some k => exact List.getElem?_append_left (h.within u k hc)

theorem content_drop : (s.drop v).content u = if u = v then none else s.content u := by
  by_cases hu : u = v
  · subst hu
    simp [content, drop]
  · simp [content, drop, hu]

theorem share_cell : ((s.share v w).handles u).cell = if u = v then (s.handles w).cell else (s.handles u).cell := by
  by_cases hu : u = v
  · subst hu
    simp [share]
  · rw [if_neg hu, share]
    dsimp only
    rw [Function.update_of_ne hu]
    by_cases hw : u = w
    · subst hw
      simp
    · rw [Function.update_of_ne hw]

theorem content_share : (s.share v w).content u = if u = v then s.content w else s.content u := by
  have hcells : (s.share v w).cells = s.cells := rfl
  rw [content, share_cell, hcells]
  split <;> rfl

omit [DecidableEq N] in
theorem write_handles : (s.write v f).handles = s.handles := by
  unfold write
  split <;> rfl

/-- Through an exclusive handle only that handle's content changes. -/
theorem content_write (h : s.Sound) (he : (s.handles v).cell ≠ none → (s.handles v).exclusive) :
    (s.write v f).content u = if u = v then (s.content v).map f else s.content u := by
  cases hv : (s.handles v).cell with
  | none =>
    have hsame : s.write v f = s := by
      unfold write
      rw [hv]
    rw [hsame]
    split
    · next hu =>
      rw [hu, content, hv]
      rfl
    · rfl
  | some k =>
    have hcells : (s.write v f).cells = s.cells.modify k f := by
      unfold write
      rw [hv]
    rw [content, write_handles, hcells]
    split
    · next hu =>
      rw [hu, content, hv]
      simp
    · next hu =>
      rw [content]
      cases hc : (s.handles u).cell with
      | none => rfl
      | some j =>
        have hne : k ≠ j := by
          rintro rfl
          exact hu (h.alone v u k (he (by simp [hv])) hv hc)
        simp [List.getElem?_modify, hne]

theorem content_move (hne : v ≠ w) :
    (s.move v w).content u = if u = v then s.content w else if u = w then none else s.content u := by
  by_cases hw : u = w
  · subst hw
    simp [content, move, hne.symm]
  · by_cases hu : u = v
    · subst hu
      simp [content, move, hne]
    · simp [content, move, hu, hw]

-- ---------------------------------------------------------------------------
-- The invariant
-- ---------------------------------------------------------------------------

omit [DecidableEq N] in
theorem Sound.initial : Sound ({} : Store N C) where
  within _ _ h := by cases h
  alone _ _ _ _ h := by cases h

theorem Sound.fresh (h : s.Sound) : (s.fresh v c).Sound := by
  have hlen : (s.fresh v c).cells.length = s.cells.length + 1 := by simp [Store.fresh]
  have hcell : ∀ {u k}, ((s.fresh v c).handles u).cell = some k →
      u = v ∧ k = s.cells.length ∨ u ≠ v ∧ (s.handles u).cell = some k := by
    intro u k hk
    by_cases hu : u = v
    · subst hu
      have hkey : k = s.cells.length := by simpa [Store.fresh, eq_comm] using hk
      exact .inl ⟨rfl, hkey⟩
    · exact .inr ⟨hu, by simpa [Store.fresh, hu] using hk⟩
  constructor
  · intro u k hk
    rw [hlen]
    obtain ⟨-, rfl⟩ | ⟨-, hk⟩ := hcell hk
    · exact Nat.lt_succ_self _
    · exact (h.within u k hk).trans (Nat.lt_succ_self _)
  · intro u x k he hk hx
    obtain ⟨rfl, rfl⟩ | ⟨hu, huk⟩ := hcell hk
    · obtain ⟨rfl, -⟩ | ⟨-, hxk⟩ := hcell hx
      · rfl
      · exact absurd (h.within x _ hxk) (lt_irrefl _)
    · obtain ⟨rfl, rfl⟩ | ⟨-, hxk⟩ := hcell hx
      · exact absurd (h.within u _ huk) (lt_irrefl _)
      · exact h.alone u x k (by simpa [Store.fresh, hu] using he) huk hxk

theorem Sound.drop (h : s.Sound) : (s.drop v).Sound := by
  have hcell : ∀ {u k}, ((s.drop v).handles u).cell = some k → u ≠ v ∧ (s.handles u).cell = some k := by
    intro u k hk
    by_cases hu : u = v
    · subst hu
      simp [Store.drop] at hk
    · exact ⟨hu, by simpa [Store.drop, hu] using hk⟩
  refine ⟨fun u k hk => h.within u k (hcell hk).2, fun u x k he hk hx => ?_⟩
  obtain ⟨hu, hk⟩ := hcell hk
  exact h.alone u x k (by simpa [Store.drop, hu] using he) hk (hcell hx).2

/-- The handles that stay exclusive are on other cells. -/
theorem Sound.share (h : s.Sound) : (s.share v w).Sound := by
  have hex : ∀ {u}, ((s.share v w).handles u).exclusive → u ≠ v ∧ u ≠ w ∧ (s.handles u).exclusive := by
    intro u he
    by_cases hu : u = v
    · subst hu
      simp [Store.share] at he
    · by_cases hw : u = w
      · subst hw
        simp [Store.share, hu] at he
      · exact ⟨hu, hw, by simpa [Store.share, hu, hw] using he⟩
  constructor
  · intro u k hk
    rw [share_cell] at hk
    split at hk
    · exact h.within w k hk
    · exact h.within u k hk
  · intro u x k he hk hx
    obtain ⟨hu, hw, he⟩ := hex he
    rw [share_cell, if_neg hu] at hk
    rw [share_cell] at hx
    split at hx
    · exact absurd (h.alone u w k he hk hx).symm hw
    · exact h.alone u x k he hk hx

omit [DecidableEq N] in
theorem Sound.write (h : s.Sound) : (s.write v f).Sound := by
  have hlen : (s.write v f).cells.length = s.cells.length := by
    unfold Store.write
    split
    · rfl
    · exact List.length_modify ..
  constructor
  · intro u k hk
    rw [hlen]
    rw [write_handles] at hk
    exact h.within u k hk
  · rw [write_handles]
    exact h.alone

theorem Sound.move (h : s.Sound) (hne : v ≠ w) : (s.move v w).Sound := by
  have hcell : ∀ {u k}, ((s.move v w).handles u).cell = some k →
      u = v ∧ (s.handles w).cell = some k ∨ u ≠ v ∧ u ≠ w ∧ (s.handles u).cell = some k := by
    intro u k hk
    by_cases hw : u = w
    · subst hw
      simp [Store.move] at hk
    · by_cases hu : u = v
      · subst hu
        exact .inl ⟨rfl, by simpa [Store.move, hne] using hk⟩
      · exact .inr ⟨hu, hw, by simpa [Store.move, hu, hw] using hk⟩
  constructor
  · intro u k hk
    obtain ⟨-, hk⟩ | ⟨-, -, hk⟩ := hcell hk
    · exact h.within w k hk
    · exact h.within u k hk
  · intro u x k he hk hx
    obtain ⟨rfl, hwk⟩ | ⟨hu, hw, huk⟩ := hcell hk
    · have hew : (s.handles w).exclusive := by simpa [Store.move, hne] using he
      obtain ⟨rfl, -⟩ | ⟨-, hxw, hxk⟩ := hcell hx
      · rfl
      · exact absurd (h.alone w x k hew hwk hxk) hxw
    · have heu : (s.handles u).exclusive := by simpa [Store.move, hu, hw] using he
      obtain ⟨-, hxk⟩ | ⟨-, -, hxk⟩ := hcell hx
      · exact absurd (h.alone u w k heu huk hxk).symm hw
      · exact h.alone u x k heu huk hxk

theorem fresh_exclusive : ((s.fresh v c).handles v).exclusive = true := by simp [fresh]

end Store

end Lib.Sharing
