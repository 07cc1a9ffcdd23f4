import Mathlib.Data.Finset.Card
import Mathlib.Tactic

/-!
# Walking down by successive maxima

A list is listed in descending order without sorting it: each step scans all of
it for the greatest element below the last one. Cut short, the walk has listed
what is left when the others are dropped from below, one least element after
the other.
-/

namespace Lib.Descent

variable {ρ : Type*} [LinearOrder ρ] {keys : List ρ} {hi : Option ρ} {k x : ρ} {n : Nat}

/-- `x` is not above the bound. -/
def Below (hi : Option ρ) (x : ρ) : Prop := ∀ h, hi = some h → x < h

instance : DecidablePred (Below hi) := fun x =>
  decidable_of_iff (hi.all (x < ·) = true) (by cases hi <;> simp [Below])

/-- One element of the scan; `out` is the greatest one so far. -/
def greater (hi : Option ρ) (out : Option ρ) (x : ρ) : Option ρ :=
  if Below hi x then
    match out with
    | none => some x
    | some o => if o < x then some x else out
  else out

def nextBelow (hi : Option ρ) (keys : List ρ) : Option ρ := keys.foldl (greater hi) none

/-- At most `n` steps down from `hi`. -/
def descend (keys : List ρ) : Nat → Option ρ → List ρ
  | 0, _ => []
  | n + 1, hi =>
    match nextBelow hi keys with
    | none => []
    | some k => k :: descend keys n (some k)

-- ---------------------------------------------------------------------------
-- One step
-- ---------------------------------------------------------------------------

/-- The scan's result over the elements it has passed. -/
def Greatest (hi : Option ρ) (keys : List ρ) : Option ρ → Prop
  | none => ∀ x ∈ keys, ¬ Below hi x
  | some k => k ∈ keys ∧ Below hi k ∧ ∀ x ∈ keys, Below hi x → x ≤ k

theorem Greatest.greater {out : Option ρ} (h : Greatest hi keys out) (x : ρ) :
    Greatest hi (keys ++ [x]) (greater hi out x) := by
  unfold Descent.greater
  split
  · next hb =>
    cases out with
    | none =>
      refine ⟨by simp, hb, fun y hy hyb => ?_⟩
      obtain hy | rfl := by simpa using hy
      · exact absurd hyb (h y hy)
      · exact le_rfl
    | some o =>
      obtain ⟨hmem, hob, hmax⟩ := h
      simp only
      split
      · next hlt =>
        refine ⟨by simp, hb, fun y hy hyb => ?_⟩
        obtain hy | rfl := by simpa using hy
        · exact (hmax y hy hyb).trans hlt.le
        · exact le_rfl
      · next hle =>
        refine ⟨by simp [hmem], hob, fun y hy hyb => ?_⟩
        obtain hy | rfl := by simpa using hy
        · exact hmax y hy hyb
        · exact not_lt.1 hle
  · next hb =>
    cases out with
    | none =>
      intro y hy
      obtain hy | rfl := by simpa using hy
      · exact h y hy
      · exact hb
    | some o =>
      obtain ⟨hmem, hob, hmax⟩ := h
      refine ⟨by simp [hmem], hob, fun y hy hyb => ?_⟩
      obtain hy | rfl := by simpa using hy
      · exact hmax y hy hyb
      · exact absurd hyb hb

theorem greatest_nextBelow (hi : Option ρ) (keys : List ρ) : Greatest hi keys (nextBelow hi keys) := by
  have hfold : ∀ (rest pre : List ρ) (out : Option ρ), Greatest hi pre out →
      Greatest hi (pre ++ rest) (rest.foldl (greater hi) out) := by
    intro rest
    induction rest with
    | nil => intro pre out h; simpa using h
    | cons x rest ih => intro pre out h; simpa using ih (pre ++ [x]) _ (h.greater x)
  simpa [nextBelow] using hfold keys [] none (by simp [Greatest])

-- ---------------------------------------------------------------------------
-- The walk
-- ---------------------------------------------------------------------------

/-- The walk lists elements below the bound, each below the one before it. -/
theorem descend_spec (keys : List ρ) (n : Nat) (hi : Option ρ) :
    (∀ x ∈ descend keys n hi, x ∈ keys ∧ Below hi x) ∧ (descend keys n hi).Pairwise (· > ·) := by
  induction n generalizing hi with
  | zero => simp [descend]
  | succ n ih =>
    have hg := greatest_nextBelow hi keys
    unfold descend
    cases hk : nextBelow hi keys with
    | none => simp
    | some k =>
      rw [hk] at hg
      obtain ⟨hmem, hb, -⟩ := hg
      obtain ⟨hall, hpair⟩ := ih (some k)
      have hlt : ∀ x ∈ descend keys n (some k), x < k := fun x hx => (hall x hx).2 k rfl
      constructor
      · intro x hx
        obtain rfl | hx := List.mem_cons.1 hx
        · exact ⟨hmem, hb⟩
        · exact ⟨(hall x hx).1, fun h hh => (hlt x hx).trans (hb h hh)⟩
      · exact List.pairwise_cons.2 ⟨hlt, hpair⟩

/-- A walk that is long enough misses nothing below the bound. -/
theorem mem_descend (h : x ∈ keys) (hb : Below hi x)
    (hn : (keys.filter fun y => Below hi y).length ≤ n) : x ∈ descend keys n hi := by
  induction n generalizing hi with
  | zero =>
    have hnil := List.eq_nil_of_length_eq_zero (Nat.le_zero.1 hn)
    have hx : x ∈ keys.filter fun y => Below hi y := by simp [h, hb]
    simp [hnil] at hx
  | succ n ih =>
    have hg := greatest_nextBelow hi keys
    unfold descend
    cases hk : nextBelow hi keys with
    | none =>
      rw [hk] at hg
      exact absurd hb (hg x h)
    | some k =>
      rw [hk] at hg
      obtain ⟨hmem, hkb, hmax⟩ := hg
      obtain rfl | hlt := (hmax x h hb).eq_or_lt
      · exact List.mem_cons_self
      · refine List.mem_cons_of_mem _ (ih (fun y hy => by cases hy; exact hlt) ?_)
        -- `k` itself is no longer below the bound
        have hsub : (keys.filter fun y => Below (some k) y).Sublist
            ((keys.filter fun y => Below hi y).filter fun y => y ≠ k) := by
          rw [List.filter_filter]
          refine List.monotone_filter_right keys fun y hy => ?_
          have hyk : y < k := of_decide_eq_true hy k rfl
          simpa using ⟨hyk.ne, fun h hh => hyk.trans (hkb h hh)⟩
        have hkmem : k ∈ keys.filter fun y => Below hi y := by simp [hmem, hkb]
        have hdrop : ((keys.filter fun y => Below hi y).filter fun y => y ≠ k).length
            < (keys.filter fun y => Below hi y).length :=
          List.length_filter_lt_length_iff_exists.2 ⟨k, hkmem, by simp⟩
        have hle := hsub.length_le
        omega

theorem descend_nodup (keys : List ρ) (n : Nat) (hi : Option ρ) : (descend keys n hi).Nodup :=
  (descend_spec keys n hi).2.imp fun h => h.ne'

/-- No element is listed twice, and none that is not there. -/
theorem descend_subperm (keys : List ρ) (n : Nat) (hi : Option ρ) : (descend keys n hi).Subperm keys :=
  (descend_nodup keys n hi).subperm fun x hx => ((descend_spec keys n hi).1 x hx).1

/-- With room for all of them the walk from the top lists every element. -/
theorem descend_perm (hd : keys.Nodup) (hn : keys.length ≤ n) : (descend keys n none).Perm keys := by
  refine (List.perm_ext_iff_of_nodup (descend_nodup keys n none) hd).2 fun x => ?_
  refine ⟨fun hx => ((descend_spec keys n none).1 x hx).1, fun hx => mem_descend hx (by simp [Below]) ?_⟩
  exact (List.length_filter_le _ _).trans hn

theorem length_descend_le (keys : List ρ) (n : Nat) (hi : Option ρ) : (descend keys n hi).length ≤ n := by
  induction n generalizing hi with
  | zero => simp [descend]
  | succ n ih =>
    unfold descend
    split
    · simp
    · simpa using ih _

-- ---------------------------------------------------------------------------
-- A walk cut short
-- ---------------------------------------------------------------------------

/-- The elements still to be listed. -/
def under (hi : Option ρ) (keys : List ρ) : Finset ρ := keys.toFinset.filter (Below hi)

theorem mem_under : x ∈ under hi keys ↔ x ∈ keys ∧ Below hi x := by
  simp [under]

theorem under_none (keys : List ρ) : under none keys = keys.toFinset := by
  ext x
  simp [mem_under, Below]

theorem under_done (h : nextBelow hi keys = none) : under hi keys = ∅ := by
  have hg := greatest_nextBelow hi keys
  rw [h] at hg
  ext x
  simpa [mem_under] using hg x

/-- A step lists the greatest element, and the others remain. -/
theorem under_next (h : nextBelow hi keys = some k) :
    k ∈ under hi keys ∧ (∀ x ∈ under hi keys, x ≤ k) ∧ under (some k) keys = (under hi keys).erase k := by
  have hg := greatest_nextBelow hi keys
  rw [h] at hg
  obtain ⟨hmem, hb, hmax⟩ := hg
  refine ⟨mem_under.2 ⟨hmem, hb⟩, fun x hx => hmax x (mem_under.1 hx).1 (mem_under.1 hx).2, ?_⟩
  ext x
  rw [Finset.mem_erase, mem_under, mem_under]
  constructor
  · rintro ⟨hx, hlt⟩
    have hxk : x < k := hlt k rfl
    exact ⟨hxk.ne, hx, fun h hh => hxk.trans (hb h hh)⟩
  · rintro ⟨hne, hx, hxb⟩
    exact ⟨hx, fun h hh => Option.some.inj hh ▸ lt_of_le_of_ne (hmax x hx hxb) hne⟩

theorem length_descend (keys : List ρ) (n : Nat) (hi : Option ρ) :
    (descend keys n hi).length = min n (under hi keys).card := by
  induction n generalizing hi with
  | zero => simp [descend]
  | succ n ih =>
    unfold descend
    cases hk : nextBelow hi keys with
    | none => simp [under_done hk]
    | some k =>
      obtain ⟨hmem, -, hrest⟩ := under_next hk
      have hcard := Finset.card_erase_add_one hmem
      simp only [List.length_cons, ih, hrest]
      omega

/-- The walk lists those with fewer than `n` elements above them. -/
theorem mem_descend_iff : x ∈ descend keys n hi ↔
    x ∈ under hi keys ∧ ((under hi keys).filter (x < ·)).card < n := by
  induction n generalizing hi with
  | zero => simp [descend]
  | succ n ih =>
    unfold descend
    cases hk : nextBelow hi keys with
    | none => simp [under_done hk]
    | some k =>
      obtain ⟨hmem, hmax, hrest⟩ := under_next hk
      simp only [List.mem_cons, ih, hrest, Finset.mem_erase]
      by_cases hx : x = k
      · subst hx
        have hnone : (under hi keys).filter (x < ·) = ∅ := by
          refine Finset.filter_eq_empty_iff.2 fun y hy => ?_
          exact not_lt.2 (hmax y hy)
        simp [hmem, hnone]
      · rw [Finset.filter_erase]
        simp only [hx, ne_eq, not_false_eq_true, true_and, false_or]
        refine and_congr_right fun hu => ?_
        have habove : k ∈ (under hi keys).filter (x < ·) :=
          Finset.mem_filter.2 ⟨hmem, lt_of_le_of_ne (hmax x hu) hx⟩
        have hcard := Finset.card_erase_add_one habove
        omega

-- ---------------------------------------------------------------------------
-- Dropping from below
-- ---------------------------------------------------------------------------

/-- What is left of a set when its `m` least elements are dropped. -/
def shed (m : Nat) (s : Finset ρ) : Finset ρ := s.filter fun x => m ≤ (s.filter (· < x)).card

theorem shed_zero (s : Finset ρ) : shed 0 s = s := by
  simp [shed]

theorem shed_empty (m : Nat) : shed m (∅ : Finset ρ) = ∅ := by
  simp [shed]

/-- The least element dropped, and then the others. -/
theorem shed_erase {s : Finset ρ} (hk : k ∈ s) (hmin : ∀ x ∈ s, k ≤ x) (m : Nat) :
    shed m (s.erase k) = shed (m + 1) s := by
  ext x
  simp only [shed, Finset.mem_filter, Finset.mem_erase]
  by_cases hx : x = k
  · subst hx
    have hnone : s.filter (· < x) = ∅ := by
      refine Finset.filter_eq_empty_iff.2 fun y hy => ?_
      exact not_lt.2 (hmin y hy)
    simp [hnone]
  · rw [Finset.filter_erase]
    simp only [hx, ne_eq, not_false_eq_true, true_and]
    refine and_congr_right fun hs => ?_
    have hbelow : k ∈ s.filter (· < x) := Finset.mem_filter.2 ⟨hk, lt_of_le_of_ne (hmin x hs) (Ne.symm hx)⟩
    have hcard := Finset.card_erase_add_one hbelow
    omega

/-- Every other element is below or above. -/
theorem card_split {s : Finset ρ} (hx : x ∈ s) :
    (s.filter (· < x)).card + (s.filter (x < ·)).card + 1 = s.card := by
  have hpart := Finset.card_filter_add_card_filter_not (s := s.erase x) (· < x)
  rw [Finset.filter_erase, Finset.erase_eq_of_notMem (by simp)] at hpart
  have habove : (s.erase x).filter (fun y => ¬ y < x) = s.filter (x < ·) := by
    ext y
    simp only [Finset.mem_filter, Finset.mem_erase, not_lt]
    exact ⟨fun h => ⟨h.1.2, lt_of_le_of_ne h.2 (Ne.symm h.1.1)⟩, fun h => ⟨⟨h.2.ne', h.1⟩, h.2.le⟩⟩
  rw [habove] at hpart
  rw [hpart, Finset.card_erase_add_one hx]

/-- The first `n` of the walk are what is left when the others are shed. -/
theorem mem_descend_iff_shed : x ∈ descend keys n none ↔ x ∈ shed (keys.toFinset.card - n) keys.toFinset := by
  rw [mem_descend_iff, under_none, shed, Finset.mem_filter]
  refine and_congr_right fun hx => ?_
  have hsplit := card_split hx
  omega

end Lib.Descent
