import Mathlib.Tactic

/-!
# Pools of keyed slots

A pool is a list of slots, each used or free; a used slot has a key and a rank.
Lookup and allocation take the first slot that will do, and an eviction the
first one of least rank. `Distinct` is the invariant of such a pool: no two
used slots have the same key.
-/

namespace Lib.Slots

variable {α κ ρ : Type*} [DecidableEq κ] [LinearOrder ρ]
  {used : α → Bool} {key : α → κ} {rank : α → ρ} {slots : List α} {k : κ} {a b : α} {i j : Nat}

-- ---------------------------------------------------------------------------
-- Operations
-- ---------------------------------------------------------------------------

def find (used : α → Bool) (key : α → κ) (k : κ) (slots : List α) : Option Nat :=
  slots.findIdx? fun a => used a && key a = k

def free (used : α → Bool) (slots : List α) : Option Nat := slots.findIdx? fun a => !used a

/-- One slot of an eviction's scan; `best` is the victim so far. -/
def better (used : α → Bool) (rank : α → ρ) (best : Option (Nat × ρ)) (i : Nat) (a : α) :
    Option (Nat × ρ) :=
  if used a then
    match best with
    | none => some (i, rank a)
    | some (_, r) => if rank a < r then some (i, rank a) else best
  else best

def scan (used : α → Bool) (rank : α → ρ) : Option (Nat × ρ) → Nat → List α → Option (Nat × ρ)
  | best, _, [] => best
  | best, i, a :: rest => scan used rank (better used rank best i a) (i + 1) rest

def victim (used : α → Bool) (rank : α → ρ) (slots : List α) : Option Nat :=
  (scan used rank none 0 slots).map Prod.fst

/-- What the pool holds for a key. -/
def lookup (used : α → Bool) (key : α → κ) (k : κ) (slots : List α) : Option α :=
  (find used key k slots).bind (slots[·]?)

/-- Some used slot has the key. -/
def Has (used : α → Bool) (key : α → κ) (k : κ) (slots : List α) : Prop := ∃ a ∈ slots, used a ∧ key a = k

/-- No two used slots have the same key. -/
def Distinct (used : α → Bool) (key : α → κ) (slots : List α) : Prop :=
  ∀ (i j : Nat) (a b : α), slots[i]? = some a → slots[j]? = some b → used a → used b → key a = key b → i = j

-- ---------------------------------------------------------------------------
-- Lookup
-- ---------------------------------------------------------------------------

theorem find_eq_some (h : find used key k slots = some i) :
    ∃ a, slots[i]? = some a ∧ used a ∧ key a = k := by
  obtain ⟨hi, hp, -⟩ := List.findIdx?_eq_some_iff_getElem.1 h
  simp only [Bool.and_eq_true, decide_eq_true_eq] at hp
  exact ⟨slots[i], List.getElem?_eq_getElem hi, hp⟩

theorem find_eq_none : find used key k slots = none ↔ ∀ a ∈ slots, used a → key a ≠ k := by
  simp [find, List.findIdx?_eq_none_iff]

theorem free_eq_some (h : free used slots = some i) : ∃ a, slots[i]? = some a ∧ used a = false := by
  obtain ⟨hi, hp, -⟩ := List.findIdx?_eq_some_iff_getElem.1 h
  exact ⟨slots[i], List.getElem?_eq_getElem hi, by simpa using hp⟩

theorem free_eq_none : free used slots = none ↔ ∀ a ∈ slots, used a := by
  simp [free, List.findIdx?_eq_none_iff]

/-- Under distinct keys the slot that has the key is the one that is found. -/
theorem Distinct.find (hd : Distinct used key slots) (ha : slots[i]? = some a) (hu : used a) :
    find used key (key a) slots = some i := by
  cases hf : Slots.find used key (key a) slots with
  | none => exact absurd rfl (find_eq_none.1 hf a (List.mem_of_getElem? ha) hu)
  | some j =>
    obtain ⟨b, hb, hub, hk⟩ := find_eq_some hf
    rw [hd j i b a hb ha hub hu hk]

theorem lookup_eq_some : lookup used key k slots = some a ↔
    ∃ i, find used key k slots = some i ∧ slots[i]? = some a := by
  simp [lookup, Option.bind_eq_some_iff]

theorem lookup_eq_none : lookup used key k slots = none ↔ find used key k slots = none := by
  rw [lookup, Option.bind_eq_none_iff]
  refine ⟨fun h => ?_, fun h i hi => by simp [h] at hi⟩
  cases hf : find used key k slots with
  | none => rfl
  | some i =>
    obtain ⟨a, ha, -⟩ := find_eq_some hf
    exact absurd (h i hf) (by simp [ha])

theorem lookup_spec (h : lookup used key k slots = some a) : a ∈ slots ∧ used a ∧ key a = k := by
  obtain ⟨i, hf, ha⟩ := lookup_eq_some.1 h
  obtain ⟨b, hb, hub, hk⟩ := find_eq_some hf
  cases ha.symm.trans hb
  exact ⟨List.mem_of_getElem? ha, hub, hk⟩

-- ---------------------------------------------------------------------------
-- Eviction
-- ---------------------------------------------------------------------------

/-- What the scan has found once it has passed the slots. -/
def Best (used : α → Bool) (rank : α → ρ) (slots : List α) : Option (Nat × ρ) → Prop
  | none => ∀ a ∈ slots, used a = false
  | some (i, r) => ∃ a, slots[i]? = some a ∧ used a ∧ rank a = r ∧ ∀ b ∈ slots, used b → r ≤ rank b

theorem Best.better {best : Option (Nat × ρ)} (h : Best used rank slots best) (a : α) :
    Best used rank (slots ++ [a]) (better used rank best slots.length a) := by
  have hlast : (slots ++ [a])[slots.length]? = some a := by simp
  cases best with
  | none =>
    cases hu : used a with
    | false =>
      simp only [Slots.better, hu]
      intro b hb
      obtain hb | rfl := by simpa using hb
      · exact h b hb
      · exact hu
    | true =>
      simp only [Slots.better, hu, if_true]
      refine ⟨a, hlast, hu, rfl, fun b hb hub => ?_⟩
      obtain hb | rfl := by simpa using hb
      · exact absurd hub (by simp [h b hb])
      · exact le_rfl
  | some best =>
    obtain ⟨i, r⟩ := best
    obtain ⟨c, hc, huc, hr, hmin⟩ := h
    have hkeep : (slots ++ [a])[i]? = some c := by
      rw [List.getElem?_append_left (List.getElem?_eq_some_iff.1 hc).1, hc]
    cases hu : used a with
    | false =>
      simp only [Slots.better, hu]
      refine ⟨c, hkeep, huc, hr, fun b hb hub => ?_⟩
      obtain hb | rfl := by simpa using hb
      · exact hmin b hb hub
      · exact absurd hub (by simp [hu])
    | true =>
      simp only [Slots.better, hu, if_true]
      split
      · next hlt =>
        refine ⟨a, hlast, hu, rfl, fun b hb hub => ?_⟩
        obtain hb | rfl := by simpa using hb
        · exact hlt.le.trans (hmin b hb hub)
        · exact le_rfl
      · next hle =>
        refine ⟨c, hkeep, huc, hr, fun b hb hub => ?_⟩
        obtain hb | rfl := by simpa using hb
        · exact hmin b hb hub
        · exact not_lt.1 hle

theorem Best.scan {pre : List α} {best : Option (Nat × ρ)} (h : Best used rank pre best) :
    Best used rank (pre ++ slots) (scan used rank best pre.length slots) := by
  induction slots generalizing pre best with
  | nil => simpa [Slots.scan] using h
  | cons a rest ih => simpa [Slots.scan] using ih (h.better a)

theorem best_scan : Best used rank slots (scan used rank none 0 slots) :=
  have hnone : Best used rank [] none := by simp [Best]
  hnone.scan

/-- The victim is a used slot, and no used slot ranks below it. -/
theorem victim_eq_some (h : victim used rank slots = some i) :
    ∃ a, slots[i]? = some a ∧ used a ∧ ∀ b ∈ slots, used b → rank a ≤ rank b := by
  obtain ⟨⟨j, r⟩, hs, rfl⟩ := Option.map_eq_some_iff.1 h
  have hb : Best used rank slots (scan used rank none 0 slots) := best_scan
  rw [hs] at hb
  obtain ⟨a, ha, hu, rfl, hmin⟩ := hb
  exact ⟨a, ha, hu, hmin⟩

/-- The scan's victim is the first of the least. -/
def First (used : α → Bool) (rank : α → ρ) (slots : List α) (best : Option (Nat × ρ)) : Prop :=
  ∀ i r, best = some (i, r) → ∀ (j : Nat) (b : α), slots[j]? = some b → used b → j < i → r < rank b

theorem First.better {best : Option (Nat × ρ)} (h : First used rank slots best) (hb : Best used rank slots best)
    (a : α) : First used rank (slots ++ [a]) (Slots.better used rank best slots.length a) := by
  intro i r hbest j b hj hu hlt
  cases hua : used a with
  | false =>
    simp only [Slots.better, hua, Bool.false_eq_true, if_false] at hbest
    subst hbest
    obtain ⟨c, hc, -⟩ := hb
    have hjl : j < slots.length := hlt.trans (List.getElem?_eq_some_iff.1 hc).1
    rw [List.getElem?_append_left hjl] at hj
    exact h i r rfl j b hj hu hlt
  | true =>
    cases best with
    | none =>
      simp only [Slots.better, hua, if_true, Option.some.injEq, Prod.mk.injEq] at hbest
      obtain ⟨rfl, rfl⟩ := hbest
      rw [List.getElem?_append_left hlt] at hj
      simp [hb b (List.mem_of_getElem? hj)] at hu
    | some best =>
      obtain ⟨i₀, r₀⟩ := best
      obtain ⟨c, hc, -, -, hmin⟩ := hb
      simp only [Slots.better, hua, if_true] at hbest
      split at hbest
      · next hless =>
        cases hbest
        rw [List.getElem?_append_left hlt] at hj
        exact hless.trans_le (hmin b (List.mem_of_getElem? hj) hu)
      · cases hbest
        have hjl : j < slots.length := hlt.trans (List.getElem?_eq_some_iff.1 hc).1
        rw [List.getElem?_append_left hjl] at hj
        exact h _ _ rfl j b hj hu hlt

theorem First.scan {pre : List α} {best : Option (Nat × ρ)} (h : First used rank pre best)
    (hb : Best used rank pre best) : First used rank (pre ++ slots) (Slots.scan used rank best pre.length slots) := by
  induction slots generalizing pre best with
  | nil => simpa [Slots.scan] using h
  | cons a rest ih => simpa [Slots.scan] using ih (h.better hb a) (hb.better a)

/-- No used slot before the victim ranks as low. -/
theorem victim_first (h : victim used rank slots = some i) (ha : slots[i]? = some a) (hj : slots[j]? = some b)
    (hu : used b) (hlt : j < i) : rank a < rank b := by
  obtain ⟨⟨i, r⟩, hs, rfl⟩ := Option.map_eq_some_iff.1 h
  have hbest : Best used rank slots (scan used rank none 0 slots) := best_scan
  have hnone : First used rank [] none := by simp [First]
  have hfirst : First used rank slots (scan used rank none 0 slots) := hnone.scan (by simp [Best])
  rw [hs] at hbest
  obtain ⟨c, hc, -, rfl, -⟩ := hbest
  cases ha.symm.trans hc
  exact hfirst i _ hs j b hj hu hlt

theorem victim_eq_none : victim used rank slots = none ↔ ∀ a ∈ slots, used a = false := by
  have hb : Best used rank slots (scan used rank none 0 slots) := best_scan
  rw [victim, Option.map_eq_none_iff]
  cases hs : scan used rank none 0 slots with
  | none =>
    rw [hs] at hb
    simpa [Best] using hb
  | some best =>
    rw [hs] at hb
    obtain ⟨a, ha, hu, -⟩ := hb
    simp only [reduceCtorEq, false_iff, not_forall]
    exact ⟨a, List.mem_of_getElem? ha, by simp [hu]⟩

-- ---------------------------------------------------------------------------
-- Writing a slot
-- ---------------------------------------------------------------------------

theorem getElem?_set_cases {c : α} (h : (slots.set i b)[j]? = some c) :
    j = i ∧ c = b ∨ j ≠ i ∧ slots[j]? = some c := by
  rw [List.getElem?_set] at h
  split at h
  · next hj =>
    split at h
    · exact .inl ⟨hj.symm, (Option.some.inj h).symm⟩
    · cases h
  · next hj => exact .inr ⟨fun e => hj e.symm, h⟩

/-- The slot that was found is found again if it keeps its key. -/
theorem find_set_self (hf : Slots.find used key k slots = some i) (hu : used b) (hk : key b = k) :
    Slots.find used key k (slots.set i b) = some i := by
  obtain ⟨hi, hp, hlt⟩ := List.findIdx?_eq_some_iff_getElem.1 hf
  refine List.findIdx?_eq_some_iff_getElem.2 ⟨by simpa using hi, by simp [hu, hk], fun j hj => ?_⟩
  rw [List.getElem_set_ne (by omega)]
  exact hlt j hj

/-- A slot that neither had the key nor gets it does not matter to the search. -/
theorem find_set_other (ha : ∀ a, slots[i]? = some a → ¬ (used a ∧ key a = k))
    (hb : ¬ (used b ∧ key b = k)) : Slots.find used key k (slots.set i b) = Slots.find used key k slots := by
  have hsame : ∀ (n : Nat) (l : List α), (∀ a, l[n]? = some a → ¬ (used a ∧ key a = k)) →
      Slots.find used key k (l.set n b) = Slots.find used key k l := by
    intro n l
    induction l generalizing n with
    | nil => simp
    | cons a rest ih =>
      intro hl
      cases n with
      | zero =>
        have hl₀ : (used a && decide (key a = k)) = false := by simpa using hl a rfl
        have hb₀ : (used b && decide (key b = k)) = false := by simpa using hb
        simp [Slots.find, List.findIdx?_cons, hl₀, hb₀]
      | succ n =>
        have hrest := ih n fun c hc => hl c (by simpa using hc)
        simp only [Slots.find] at hrest
        simp [Slots.find, List.findIdx?_cons, hrest]
  exact hsame i slots ha

theorem lookup_set_self (hf : Slots.find used key k slots = some i) (hu : used b) (hk : key b = k) :
    lookup used key k (slots.set i b) = some b := by
  have hi := (List.findIdx?_eq_some_iff_getElem.1 hf).1
  exact lookup_eq_some.2 ⟨i, find_set_self hf hu hk, by simp [hi]⟩

theorem lookup_set_other (ha : ∀ a, slots[i]? = some a → ¬ (used a ∧ key a = k))
    (hb : ¬ (used b ∧ key b = k)) : lookup used key k (slots.set i b) = lookup used key k slots := by
  rw [lookup, find_set_other ha hb, lookup]
  cases hf : Slots.find used key k slots with
  | none => rfl
  | some j =>
    obtain ⟨a, hj, hua, hka⟩ := find_eq_some hf
    have hne : i ≠ j := by
      rintro rfl
      exact ha a hj ⟨hua, hka⟩
    simp [List.getElem?_set_ne hne]

/-- A key that was not there is found where it is written. -/
theorem lookup_set_new (hf : Slots.find used key (key b) slots = none) (hi : i < slots.length)
    (hu : used b) : lookup used key (key b) (slots.set i b) = some b := by
  refine lookup_eq_some.2 ⟨i, List.findIdx?_eq_some_iff_getElem.2 ⟨by simpa using hi, by simp [hu], ?_⟩,
    by simp [hi]⟩
  intro j hj
  rw [List.getElem_set_ne (by omega)]
  have hne := find_eq_none.1 hf slots[j] (List.getElem_mem _)
  cases hj : used slots[j] with
  | false => simp
  | true => simp [hne hj]

omit [DecidableEq κ] in
/-- Slots that are used only where, and for what, they were before. -/
theorem Distinct.sub {more : List α} (hd : Distinct used key slots)
    (h : ∀ (i : Nat) (b : α), more[i]? = some b → used b → ∃ a, slots[i]? = some a ∧ used a ∧ key a = key b) :
    Distinct used key more := by
  intro i j a b ha hb hua hub hk
  obtain ⟨a', ha', hua', hka⟩ := h i a ha hua
  obtain ⟨b', hb', hub', hkb⟩ := h j b hb hub
  exact hd i j a' b' ha' hb' hua' hub' (hka.trans (hk.trans hkb.symm))

omit [DecidableEq κ] in
/-- A slot may be freed, or written with a key no other used slot has. -/
theorem Distinct.set (hd : Distinct used key slots)
    (hb : used b → ∀ (j : Nat) (c : α), j ≠ i → slots[j]? = some c → used c → key c ≠ key b) :
    Distinct used key (slots.set i b) := by
  intro j₁ j₂ c₁ c₂ h₁ h₂ hu₁ hu₂ hk
  obtain ⟨rfl, rfl⟩ | ⟨hj₁, hs₁⟩ := getElem?_set_cases h₁ <;>
    obtain ⟨rfl, rfl⟩ | ⟨hj₂, hs₂⟩ := getElem?_set_cases h₂
  · rfl
  · exact absurd hk.symm (hb hu₁ j₂ c₂ hj₂ hs₂ hu₂)
  · exact absurd hk (hb hu₂ j₁ c₁ hj₁ hs₁ hu₁)
  · exact hd j₁ j₂ c₁ c₂ hs₁ hs₂ hu₁ hu₂ hk

omit [DecidableEq κ] in
/-- Freed, or overwritten by a record that keeps the key. -/
theorem Distinct.set_same (hd : Distinct used key slots) (ha : slots[i]? = some a) (hu : used a)
    (hk : used b → key b = key a) : Distinct used key (slots.set i b) :=
  hd.set fun hub j c hj hc huc he => hj (hd j i c a hc ha huc hu (he.trans (hk hub)))

omit [DecidableEq κ] in
theorem Distinct.set_free (hd : Distinct used key slots) (hu : used b = false) :
    Distinct used key (slots.set i b) :=
  hd.set fun hub => absurd hub (by simp [hu])

/-- A key that is not in the pool may be written anywhere. -/
theorem Distinct.set_new (hd : Distinct used key slots) (hf : Slots.find used key (key b) slots = none) :
    Distinct used key (slots.set i b) :=
  hd.set fun _ _ c _ hc huc => find_eq_none.1 hf c (List.mem_of_getElem? hc) huc

theorem mem_set_cases {c : α} (h : c ∈ slots.set i b) : c = b ∨ c ∈ slots := by
  obtain h | h := List.mem_or_eq_of_mem_set h
  · exact .inr h
  · exact .inl h

omit [DecidableEq κ] in
/-- A key is still there where the slot written did not have it, or keeps it. -/
theorem Has.set (h : Has used key k slots) (ha : slots[i]? = some a)
    (hb : used a → key a = k → used b ∧ key b = k) : Has used key k (slots.set i b) := by
  obtain ⟨c, hc, hu, hk⟩ := h
  obtain ⟨j, hj⟩ := List.mem_iff_getElem?.1 hc
  by_cases hij : i = j
  · subst hij
    cases ha.symm.trans hj
    have hlt := (List.getElem?_eq_some_iff.1 ha).1
    exact ⟨b, List.mem_iff_getElem?.2 ⟨i, by simp [hlt]⟩, hb hu hk⟩
  · exact ⟨c, List.mem_iff_getElem?.2 ⟨j, by rw [List.getElem?_set_ne hij, hj]⟩, hu, hk⟩

omit [DecidableEq κ] in
theorem has_set_self (hi : i < slots.length) (hu : used b) : Has used key (key b) (slots.set i b) :=
  ⟨b, List.mem_iff_getElem?.2 ⟨i, by simp [hi]⟩, hu, rfl⟩

omit [DecidableEq κ] in
/-- With distinct keys, a freed slot takes its key with it. -/
theorem Distinct.not_has_set (hd : Distinct used key slots) (ha : slots[i]? = some a) (hu : used a)
    (hb : used b = false) : ¬ Has used key (key a) (slots.set i b) := by
  rintro ⟨c, hc, huc, hk⟩
  obtain ⟨j, hj⟩ := List.mem_iff_getElem?.1 hc
  obtain ⟨rfl, rfl⟩ | ⟨hij, hj⟩ := getElem?_set_cases hj
  · simp [hb] at huc
  · exact hij (hd j i c a hj ha huc hu hk)

theorem not_has_iff : ¬ Has used key k slots ↔ find used key k slots = none := by
  rw [find_eq_none]
  simp [Has]

/-- With distinct keys, a change of the slot that is found is a change of every slot with the key. -/
theorem Distinct.set_eq_map {f : α → α} (hd : Distinct used key slots) (hf : Slots.find used key k slots = some i)
    (ha : slots[i]? = some a) : slots.set i (f a) = slots.map fun c => if used c ∧ key c = k then f c else c := by
  obtain ⟨a', ha', hu, hk⟩ := find_eq_some hf
  obtain rfl := Option.some.inj (ha.symm.trans ha')
  apply List.ext_getElem?
  intro j
  rw [List.getElem?_map]
  by_cases hij : i = j
  · subst hij
    rw [List.getElem?_set_self (List.getElem?_eq_some_iff.1 ha).1, ha, Option.map_some, if_pos ⟨hu, hk⟩]
  · rw [List.getElem?_set_ne hij]
    cases hc : slots[j]? with
    | none => rfl
    | some c =>
      have hne : ¬ (used c ∧ key c = k) := fun h => hij (hd i j a c ha hc hu h.1 (hk.trans h.2.symm))
      rw [Option.map_some, if_neg hne]

omit [DecidableEq κ] in
/-- A map over the slots that leaves use and keys alone. -/
theorem Distinct.map {f : α → α} (hd : Distinct used key slots)
    (hf : ∀ a, used (f a) = used a ∧ key (f a) = key a) : Distinct used key (slots.map f) := by
  intro i j c d hc hd' huc hud hk
  rw [List.getElem?_map, Option.map_eq_some_iff] at hc hd'
  obtain ⟨a, ha, rfl⟩ := hc
  obtain ⟨b, hb, rfl⟩ := hd'
  rw [(hf a).1] at huc
  rw [(hf b).1] at hud
  rw [(hf a).2, (hf b).2] at hk
  exact hd i j a b ha hb huc hud hk

omit [DecidableEq κ] in
theorem Has.map {f : α → α} (h : Has used key k slots)
    (hf : ∀ a, used (f a) = used a ∧ key (f a) = key a) : Has used key k (slots.map f) := by
  obtain ⟨a, ha, hu, hk⟩ := h
  exact ⟨f a, List.mem_map_of_mem ha, (hf a).1.trans hu, (hf a).2.trans hk⟩

omit [DecidableEq κ] in
/-- Without regard to where the slots are. -/
theorem distinct_iff_nodup : Distinct used key slots ↔ ((slots.filter used).map key).Nodup := by
  induction slots with
  | nil => simp [Distinct]
  | cons a slots ih =>
    have htail : Distinct used key (a :: slots) ↔
        Distinct used key slots ∧ (used a → ∀ b ∈ slots, used b → key b ≠ key a) := by
      constructor
      · intro h
        refine ⟨fun i j b c hb hc hub huc hk => ?_, fun hua b hb hub hk => ?_⟩
        · exact Nat.succ.inj (h (i + 1) (j + 1) b c hb hc hub huc hk)
        · obtain ⟨i, hi⟩ := List.mem_iff_getElem?.1 hb
          exact absurd (h (i + 1) 0 b a hi rfl hub hua hk) (by simp)
      · rintro ⟨h, ha⟩ i j b c hb hc hub huc hk
        cases i with
        | zero =>
          cases j with
          | zero => rfl
          | succ j =>
            cases hb
            exact absurd hk.symm (ha hub c (List.mem_of_getElem? (by simpa using hc)) huc)
        | succ i =>
          cases j with
          | zero =>
            cases hc
            exact absurd hk (ha huc b (List.mem_of_getElem? (by simpa using hb)) hub)
          | succ j => rw [h i j b c (by simpa using hb) (by simpa using hc) hub huc hk]
    rw [htail, ih]
    cases hu : used a with
    | false => simp [hu]
    | true =>
      simp only [List.filter_cons, hu, if_true, List.map_cons, List.nodup_cons, List.mem_map, List.mem_filter,
        forall_const, not_exists, not_and, and_imp]
      exact and_comm

theorem Distinct.lookup_eq_some (hd : Distinct used key slots) :
    lookup used key k slots = some a ↔ ∃ i : Nat, slots[i]? = some a ∧ used a ∧ key a = k := by
  constructor
  · intro h
    obtain ⟨hmem, hu, hk⟩ := lookup_spec h
    obtain ⟨i, hi⟩ := List.mem_iff_getElem?.1 hmem
    exact ⟨i, hi, hu, hk⟩
  · rintro ⟨i, hi, hu, rfl⟩
    exact Slots.lookup_eq_some.2 ⟨i, hd.find hi hu, hi⟩

/-- What a slot that is written does to every key. -/
theorem Distinct.lookup_set (hd : Distinct used key slots) (hd' : Distinct used key (slots.set i b))
    (ha : slots[i]? = some a) :
    lookup used key k (slots.set i b) =
      if used b ∧ key b = k then some b else if used a ∧ key a = k then none else lookup used key k slots := by
  have hi := (List.getElem?_eq_some_iff.1 ha).1
  split
  · next hb => exact hd'.lookup_eq_some.2 ⟨i, by simp [hi], hb⟩
  · next hb =>
    have hsame : ∀ c, lookup used key k (slots.set i b) = some c ↔
        ¬ (used a ∧ key a = k) ∧ lookup used key k slots = some c := by
      intro c
      rw [hd'.lookup_eq_some, hd.lookup_eq_some]
      constructor
      · rintro ⟨j, hj, hu, hk⟩
        obtain ⟨-, rfl⟩ | ⟨hne, hj⟩ := getElem?_set_cases hj
        · exact absurd ⟨hu, hk⟩ hb
        · refine ⟨fun hak => hne ?_, j, hj, hu, hk⟩
          exact hd j i c a hj ha hu hak.1 (hk.trans hak.2.symm)
      · rintro ⟨hak, j, hj, hu, hk⟩
        refine ⟨j, ?_, hu, hk⟩
        rw [List.getElem?_set_ne, hj]
        rintro rfl
        cases ha.symm.trans hj
        exact hak ⟨hu, hk⟩
    split
    · next hak =>
      cases h : lookup used key k (slots.set i b) with
      | none => rfl
      | some c => exact absurd hak ((hsame c).1 h).1
    · next hak =>
      cases h : lookup used key k slots with
      | none =>
        cases h' : lookup used key k (slots.set i b) with
        | none => rfl
        | some c => exact absurd ((hsame c).1 h').2 (by simp [h])
      | some c => exact (hsame c).2 ⟨hak, h⟩

/-- Slots that hold the same give the same answer under distinct keys. -/
theorem lookup_perm {more : List α} (hd : Distinct used key slots) (hd' : Distinct used key more)
    (hp : (slots.filter used).Perm (more.filter used)) : lookup used key k slots = lookup used key k more := by
  have hsome : ∀ {l l' : List α}, Distinct used key l' → (l.filter used).Perm (l'.filter used) →
      ∀ a, lookup used key k l = some a → lookup used key k l' = some a := by
    intro l l' hd hp a ha
    obtain ⟨hmem, hu, rfl⟩ := lookup_spec ha
    have hmem' := List.mem_of_mem_filter (hp.subset (List.mem_filter.2 ⟨hmem, hu⟩))
    obtain ⟨i, hi⟩ := List.mem_iff_getElem?.1 hmem'
    exact lookup_eq_some.2 ⟨i, hd.find hi hu, hi⟩
  cases h : lookup used key k slots with
  | some a => exact (hsome hd' hp a h).symm
  | none =>
    cases h' : lookup used key k more with
    | none => rfl
    | some a => exact absurd (hsome hd hp.symm a h') (by simp [h])

end Lib.Slots
