import MicroReticulum.Transport.Walk

/-!
# The life of an announce record

From the store that puts it in its slot a record is sent twice at most, a path
response once, whatever else happens to the table. One that has no tries left
is cleared by a walk that comes to it, unless it is held back by then or the
walk leaves it out.
-/

namespace MicroReticulum.AnnounceTable

open Lib Lib.Runs Lib.Circle

variable {ring ring' ring'' : Ring} {r b : AnnounceRec} {w : Walk} {scan : Scan Ring} {now cursor i j k n m x y : Nat}
  {d : Hash} {t : Table} {op : Op} {ops : List Op} {e : Entry} {h : Heard} {s : Pass} {tried : Nat}

-- ---------------------------------------------------------------------------
-- What a slot keeps
-- ---------------------------------------------------------------------------

/-- A record in a slot was there before, with no more tries behind it. -/
def Older (i : Nat) (ring ring' : Ring) : Prop :=
  ∀ b, ring'[i]? = some b → b.used = true → ∃ a, ring[i]? = some a ∧ a.used = true ∧ a.retries ≤ b.retries

theorem Older.refl (i : Nat) (ring : Ring) : Older i ring ring := fun b hb hu => ⟨b, hb, hu, le_rfl⟩

theorem Older.trans (h : Older i ring ring') (h' : Older i ring' ring'') : Older i ring ring'' := by
  intro c hc hu
  obtain ⟨b, hb, hub, hle⟩ := h' c hc hu
  obtain ⟨a, ha, hua, hle'⟩ := h b hb hub
  exact ⟨a, ha, hua, hle'.trans hle⟩

theorem older_set (hb : i = j → b.used = true → ∃ a, ring[j]? = some a ∧ a.used = true ∧ a.retries ≤ b.retries) :
    Older i ring (ring.set j b) := by
  intro c hc hu
  obtain ⟨rfl, rfl⟩ | ⟨-, hc⟩ := Slots.getElem?_set_cases hc
  · exact hb rfl hu
  · exact ⟨c, hc, hu, le_rfl⟩

theorem older_wipe : Older i ring (wipe j ring) := older_set fun _ hu => absurd hu (by simp [zero_used])

theorem older_modify {f : AnnounceRec → AnnounceRec} (hf : ∀ a, (f a).used = a.used ∧ (f a).retries = a.retries) :
    Older i ring (ring.modify j f) := by
  cases hj : ring[j]? with
  | none =>
    rw [List.modify_eq_self (List.getElem?_eq_none_iff.1 hj)]
    exact .refl i ring
  | some a =>
    rw [modify_eq_set f hj]
    exact older_set fun _ hu => ⟨a, hj, (hf a).1 ▸ hu, (hf a).2.ge⟩

theorem older_unhold : Older i ring (unhold d ring) := by
  unfold unhold
  split
  · exact .refl i ring
  · exact older_modify fun _ => ⟨rfl, rfl⟩

theorem older_emit : Older i ring (announceRecEmit now j ring) := by
  unfold announceRecEmit
  split
  · exact .refl i ring
  · next r hr =>
    split
    · exact older_wipe.trans older_unhold
    · exact older_set fun _ hu => ⟨r, hr, hu, Nat.le_succ _⟩

theorem older_dropOldest (m : Nat) : Older i ring (dropOldest m ring) := by
  induction m generalizing ring with
  | zero => exact .refl i ring
  | succ m ih =>
    rw [dropOldest]
    split
    · exact .refl i ring
    · exact older_wipe.trans ih

theorem older_alloc : Older i ring (announceAlloc ring).1 := by
  unfold announceAlloc
  split
  · exact .refl i ring
  · split
    · exact .refl i ring
    · exact older_wipe

theorem older_store {slot : Option Nat} (hs : slot ≠ some i) : Older i ring (announceStore slot b ring) := by
  cases slot with
  | none => exact .refl i ring
  | some j => exact older_set fun hij => absurd (by rw [hij]) hs

theorem older_slotFor : Older i ring (slotFor d ring).1 := by
  unfold slotFor
  split
  · exact .refl i ring
  · exact older_alloc

theorem older_hold : Older i ring (hold d ring) := by
  unfold hold
  split
  · exact .refl i ring
  · refine Older.trans ?_ (older_modify fun _ => ⟨rfl, rfl⟩)
    unfold dropStale
    split
    · exact .refl i ring
    · exact older_wipe

-- ---------------------------------------------------------------------------
-- What is sent of a slot
-- ---------------------------------------------------------------------------

/-- What a step of the timers' pass sends. -/
def timerSends (now : Nat) (s : Pass) (i : Nat) : Option (Nat × AnnounceRec) :=
  ((s.ring[i]?).filter fun r => r.timed && r.retransmitAt < now).map (i, ·)

def timerEmissions (now : Nat) : List Nat → Pass → List (Nat × AnnounceRec)
  | [], _ => []
  | i :: is, s => (timerSends now s i).toList ++ timerEmissions now is (timerSlot now s i)

theorem timerSlot_some {p : Nat × AnnounceRec} (h : timerSends now s i = some p) :
    p.1 = i ∧ s.ring[i]? = some p.2 ∧ p.2.timed = true ∧
      timerSlot now s i = ⟨announceRecEmit now i s.ring, s.outgoing ++ [p.2]⟩ := by
  obtain ⟨r, hr, rfl⟩ := Option.map_eq_some_iff.1 h
  obtain ⟨hr, hd⟩ := Option.filter_eq_some_iff.1 hr
  refine ⟨rfl, hr, (Bool.and_eq_true _ _ ▸ hd).1, ?_⟩
  simp only [timerSlot, hr, hd, if_true]

theorem timerSlot_none (h : timerSends now s i = none) : timerSlot now s i = s := by
  unfold timerSlot
  cases hr : s.ring[i]? with
  | none => rfl
  | some r =>
    refine if_neg fun hd => ?_
    simp [timerSends, hr, Option.filter_some, hd] at h

theorem timers_outgoing : (timers now ring).outgoing =
    (timerEmissions now (List.range ring.length) ⟨ring, []⟩).map Prod.snd := by
  have hfold : ∀ (is : List Nat) (s : Pass),
      (is.foldl (timerSlot now) s).outgoing = s.outgoing ++ (timerEmissions now is s).map Prod.snd := by
    intro is
    induction is with
    | nil => simp [timerEmissions]
    | cons i is ih =>
      intro s
      rw [List.foldl_cons, ih, timerEmissions]
      cases hs : timerSends now s i with
      | none => simp [timerSlot_none hs]
      | some p => simp [(timerSlot_some hs).2.2.2]
  exact hfold _ _

/-- The slots an operation sends. -/
def Op.sent (t : Table) : Op → List Nat
  | .jobs true now => AnnounceTable.emitted now t.cursor t.ring
  | .timers now => (timerEmissions now (List.range t.ring.length) ⟨t.ring, []⟩).map Prod.fst
  | _ => []

/-- The slots a run sends. -/
def sentOver : Table → List Op → List Nat
  | _, [] => []
  | t, op :: ops => op.sent t ++ sentOver (step t op) ops

/-- The slot an operation puts a new record in. -/
def Op.slot (t : Table) : Op → Option Nat
  | .accept e => (slotFor e.dest t.ring).2
  | .answer e => (announceAlloc (hold e.dest t.ring)).2
  | _ => none

/-- The tries a record has behind it when it is stored. -/
def Op.triesBehind : Op → Nat
  | .answer _ => PATHFINDER_R
  | _ => 0

-- ---------------------------------------------------------------------------
-- Tries
-- ---------------------------------------------------------------------------

/-- So often has the slot been sent since its record was stored. -/
structure Spends (tried i m : Nat) (ring : Ring) : Prop where
  few : tried + m ≤ PATHFINDER_R + 1
  counted : ∀ r, ring[i]? = some r → r.used = true → tried + m ≤ r.retries

theorem Spends.older (h : Spends tried i m ring) (ho : Older i ring ring') : Spends tried i m ring' := by
  refine ⟨h.few, fun r hr hu => ?_⟩
  obtain ⟨a, ha, hua, hle⟩ := ho r hr hu
  exact (h.counted a ha hua).trans hle

theorem Spends.emit (h : Spends tried i m ring) (hr : ring[i]? = some r) (hu : r.used = true)
    (hleft : r.retries ≤ PATHFINDER_R) : Spends tried i (m + 1) (announceRecEmit now i ring) := by
  have hcount := h.counted r hr hu
  refine ⟨by omega, ?_⟩
  simp only [announceRecEmit, hr]
  split
  · intro b hb hub
    obtain ⟨a, ha, hua, -⟩ := older_unhold b hb hub
    obtain ⟨-, rfl⟩ | ⟨hne, -⟩ := Slots.getElem?_set_cases ha
    · cases hua
    · exact absurd rfl hne
  · intro b hb _
    obtain ⟨-, rfl⟩ | ⟨hne, -⟩ := Slots.getElem?_set_cases hb
    · simp only
      omega
    · exact absurd rfl hne

theorem AnnounceRec.retries_of_due (hd : r.due now = true) : r.used = true ∧ r.retries ≤ PATHFINDER_R := by
  simp only [AnnounceRec.due, Bool.and_eq_true, Bool.not_eq_true', AnnounceRec.retired, Bool.or_eq_false_iff,
    decide_eq_false_iff_not] at hd
  exact ⟨hd.1.1.1, Nat.le_of_not_lt hd.1.2.2⟩

theorem AnnounceRec.retries_of_timed (ht : r.timed = true) : r.used = true ∧ r.retries ≤ PATHFINDER_R := by
  refine ⟨(AnnounceRec.timed_spec ht).1, ?_⟩
  rw [AnnounceRec.timed, Bool.and_eq_true] at ht
  cases hb : r.block with
  | true => simpa [hb] using (by simpa [hb] using ht.2 : _ ∧ r.retries ≤ PATHFINDER_R).2
  | false =>
    have hzero : r.radio = true ∧ r.retries = 0 := by simpa [hb] using ht.2
    rw [hzero.2]
    exact Nat.zero_le _

theorem Swept.older (h : Swept ring ring') : Older i ring ring' := by
  cases h with
  | kept => exact .refl i ring
  | wiped => exact older_wipe

theorem Spends.walkSlot (h : Spends tried i m w.ring) (k : Nat) :
    Spends tried i (m + (((sends now w k).toList).map Prod.fst).count i) (walkSlot now w k).ring := by
  cases hs : sends now w k with
  | none => exact h.older (walkSlot_none hs).2.2.2.older
  | some p =>
    obtain ⟨-, -, hr, hd, hw⟩ := walkSlot_some hs
    rw [hw]
    simp only [Option.toList_some, List.map_cons, List.map_nil]
    by_cases hp : p.1 = i
    · subst hp
      obtain ⟨hu, hleft⟩ := AnnounceRec.retries_of_due hd
      simpa using h.emit hr hu hleft
    · rw [List.count_singleton, if_neg (by simpa using hp)]
      exact h.older older_emit

theorem Spends.walk {ks : List Nat} (h : Spends tried i m w.ring) :
    Spends tried i (m + ((emissions now ks w).map Prod.fst).count i) (ks.foldl (AnnounceTable.walkSlot now) w).ring := by
  induction ks generalizing w m with
  | nil => exact h
  | cons k ks ih =>
    rw [emissions, List.map_append, List.count_append, ← Nat.add_assoc]
    exact ih (h.walkSlot k)

theorem Spends.timerSlot (h : Spends tried i m s.ring) (j : Nat) :
    Spends tried i (m + (((timerSends now s j).toList).map Prod.fst).count i) (timerSlot now s j).ring := by
  cases hs : timerSends now s j with
  | none =>
    rw [timerSlot_none hs]
    exact h
  | some p =>
    obtain ⟨rfl, hr, ht, hw⟩ := timerSlot_some hs
    rw [hw]
    simp only [Option.toList_some, List.map_cons, List.map_nil]
    by_cases hp : p.1 = i
    · subst hp
      obtain ⟨hu, hleft⟩ := AnnounceRec.retries_of_timed ht
      simpa using h.emit hr hu hleft
    · rw [List.count_singleton, if_neg (by simpa using hp)]
      exact h.older older_emit

theorem Spends.timers {is : List Nat} (h : Spends tried i m s.ring) :
    Spends tried i (m + ((timerEmissions now is s).map Prod.fst).count i)
      (is.foldl (AnnounceTable.timerSlot now) s).ring := by
  induction is generalizing s m with
  | nil => exact h
  | cons j is ih =>
    rw [timerEmissions, List.map_append, List.count_append, ← Nat.add_assoc]
    exact ih (h.timerSlot j)

theorem older_dropAnswered : Older i ring (dropAnswered h ring) := by
  unfold dropAnswered
  split
  · exact .refl i ring
  · split
    · exact older_wipe.trans older_unhold
    · exact .refl i ring

theorem older_dropRepeated : Older i ring (dropRepeated h ring) := by
  unfold dropRepeated
  split
  · split
    · exact .refl i ring
    · split
      · exact older_wipe
      · refine older_modify fun a => ?_
        unfold AnnounceRec.heardAgain
        split <;> exact ⟨rfl, rfl⟩
  · exact .refl i ring

/-- An operation that stores nothing in the slot sends what it sends of it. -/
theorem Spends.step (h : Spends tried i m t.ring) (hs : op.slot t ≠ some i) :
    Spends tried i (m + (op.sent t).count i) (step t op).ring := by
  cases op with
  | answerHeard heard => exact h.older older_dropAnswered
  | repeatHeard heard => exact h.older older_dropRepeated
  | accept e => exact h.older (older_slotFor.trans ((older_store hs).trans (older_dropOldest _)))
  | answer e => exact h.older (older_hold.trans (older_alloc.trans ((older_store hs).trans (older_dropOldest _))))
  | jobs transportEnabled now =>
    cases transportEnabled with
    | false =>
      refine h.older fun b hb hu => ?_
      obtain ⟨a, -, rfl⟩ := List.mem_map.1 (List.mem_of_getElem? hb)
      cases hu
    | true => exact Spends.walk (w := walkStart t.cursor t.ring) h
  | timers now => exact Spends.timers (s := ⟨t.ring, []⟩) h
  | resize maxsize => exact h

theorem Spends.run (h : Spends tried i m t.ring) (hops : Guarded AnnounceTable.step (fun t op => op.slot t ≠ some i) t ops) :
    tried + (m + (sentOver t ops).count i) ≤ PATHFINDER_R + 1 := by
  induction ops generalizing t m with
  | nil => exact h.few
  | cons op ops ih =>
    rw [sentOver, List.count_append, ← Nat.add_assoc m]
    exact ih (h.step hops.1) hops.2

/-- A record that has just been stored. -/
theorem spends_stored (hs : op.slot t = some i) : Spends op.triesBehind i 0 (step t op).ring := by
  cases op with
  | accept e => exact ⟨Nat.zero_le _, fun r _ _ => Nat.zero_le _⟩
  | answer e =>
    have hstored : Spends PATHFINDER_R i 0 (answerStored e t) := by
      refine ⟨by decide, fun r hr _ => ?_⟩
      have hslot : (announceAlloc (hold e.dest t.ring)).2 = some i := hs
      simp only [answerStored, hslot, announceStore] at hr
      obtain ⟨-, rfl⟩ | ⟨hne, -⟩ := Slots.getElem?_set_cases hr
      · exact le_rfl
      · exact absurd rfl hne
    exact hstored.older (older_dropOldest _)
  | _ => cases hs

-- ---------------------------------------------------------------------------
-- What all records have in common
-- ---------------------------------------------------------------------------

def All (P : AnnounceRec → Prop) (ring : Ring) : Prop := ∀ r ∈ ring, P r

variable {P Q : AnnounceRec → Prop}

theorem All.set (h : All P ring) (hb : P b) : All P (ring.set i b) := by
  intro r hr
  obtain rfl | hr := Slots.mem_set_cases hr
  · exact hb
  · exact h r hr

theorem All.modify {f : AnnounceRec → AnnounceRec} (h : All P ring) (hf : ∀ r, ring[i]? = some r → P r → P (f r)) :
    All P (ring.modify i f) := by
  cases hr : ring[i]? with
  | none => rwa [List.modify_eq_self (List.getElem?_eq_none_iff.1 hr)]
  | some r =>
    rw [modify_eq_set f hr]
    exact h.set (hf r hr (h r (List.mem_of_getElem? hr)))

theorem All.store {slot : Option Nat} (h : All P ring) (hb : P b) : All P (announceStore slot b ring) := by
  cases slot with
  | none => exact h
  | some i => exact h.set hb

/-- Kept by whatever happens to a record; one that is to be held back must meet `Q`. -/
structure Stable (P Q : AnnounceRec → Prop) : Prop where
  zero : P .zero
  stored : ∀ (e : Entry) (block : Bool) (nth : Nat), P (e.record block nth)
  sent : ∀ r now, r.held = false → P r →
    P { r with retransmitAt := now + PATHFINDER_G + PATHFINDER_RW, retries := r.retries + 1 }
  held : ∀ r, Q r → P r → P { r with held := true }
  unheld : ∀ r, P r → P { r with held := false }
  heard : ∀ r h, r.passedOn h = false → P r → P (r.heardAgain h)

/-- What is held back by an operation meets the condition. -/
def Holds (Q : AnnounceRec → Prop) (t : Table) (op : Op) : Prop :=
  ∀ e, op = .answer e → ∀ i r, announceFind e.dest false t.ring = some i → t.ring[i]? = some r → Q r

section Stable

variable (hP : Stable P Q)
include hP

theorem Stable.wipe (h : All P ring) : All P (wipe i ring) := h.set hP.zero

theorem Stable.unhold (h : All P ring) : All P (unhold d ring) := by
  unfold AnnounceTable.unhold
  split
  · exact h
  · exact h.modify fun r _ => hP.unheld r

theorem Stable.emit (h : All P ring) (hr : ring[i]? = some r) (hh : r.held = false) :
    All P (announceRecEmit now i ring) := by
  simp only [announceRecEmit, hr]
  split
  · exact hP.unhold (hP.wipe h)
  · exact h.set (hP.sent r now hh (h r (List.mem_of_getElem? hr)))

theorem Stable.dropOldest (h : All P ring) (m : Nat) : All P (dropOldest m ring) := by
  induction m generalizing ring with
  | zero => exact h
  | succ m ih =>
    rw [AnnounceTable.dropOldest]
    split
    · exact h
    · exact ih (hP.wipe h)

theorem Stable.alloc (h : All P ring) : All P (announceAlloc ring).1 := by
  unfold announceAlloc
  split
  · exact h
  · split
    · exact h
    · exact hP.wipe h

theorem Stable.slotFor (h : All P ring) : All P (slotFor d ring).1 := by
  unfold AnnounceTable.slotFor
  split
  · exact h
  · exact hP.alloc h

theorem Stable.hold (h : All P ring)
    (hq : ∀ i r, announceFind d false ring = some i → ring[i]? = some r → Q r) : All P (hold d ring) := by
  unfold AnnounceTable.hold
  split
  · exact h
  · next i hf =>
    obtain ⟨r, hr, -, -, -, hh⟩ := announceFind_eq_some hf
    unfold dropStale
    split
    · exact h.modify fun r' hr' => hP.held r' (hq i r' hf hr')
    · next j hj =>
      obtain ⟨q, hq', -, -, -, hheld⟩ := announceFind_eq_some hj
      have hne : j ≠ i := by
        rintro rfl
        cases hq'.symm.trans hr
        simp [hh] at hheld
      refine (hP.wipe h).modify fun r' hr' => hP.held r' (hq i r' hf ?_)
      rwa [AnnounceTable.wipe, List.getElem?_set_ne hne] at hr'

theorem Stable.walkSlot (h : All P w.ring) (k : Nat) : All P (walkSlot now w k).ring := by
  cases hs : sends now w k with
  | none =>
    have hswept := (walkSlot_none hs).2.2.2
    generalize (AnnounceTable.walkSlot now w k).ring = ring' at hswept ⊢
    cases hswept with
    | kept => exact h
    | wiped => exact hP.wipe h
  | some p =>
    obtain ⟨-, -, hr, hd, hw⟩ := walkSlot_some hs
    rw [hw]
    simp only [AnnounceRec.due, Bool.and_eq_true, Bool.not_eq_true'] at hd
    exact hP.emit h hr hd.1.1.2

theorem Stable.timerSlot (h : All P s.ring) (i : Nat) : All P (timerSlot now s i).ring := by
  unfold AnnounceTable.timerSlot
  split
  · exact h
  · next r hr =>
    split
    · next ht =>
      rw [Bool.and_eq_true] at ht
      exact hP.emit h hr (AnnounceRec.timed_spec ht.1).2
    · exact h

theorem Stable.step (h : All P t.ring) (hq : Holds Q t op) : All P (step t op).ring := by
  cases op with
  | answerHeard heard =>
    simp only [AnnounceTable.step, dropAnswered]
    split
    · exact h
    · split
      · exact hP.unhold (hP.wipe h)
      · exact h
  | repeatHeard heard =>
    simp only [AnnounceTable.step, dropRepeated]
    split
    · split
      · exact h
      · split
        · exact hP.wipe h
        · next hpass =>
          refine h.modify fun r hr hp => hP.heard r heard ?_ hp
          simpa [hr] using hpass
    · exact h
  | accept e => exact hP.dropOldest ((hP.slotFor h).store (hP.stored e _ _)) _
  | answer e => exact hP.dropOldest ((hP.alloc (hP.hold h (hq e rfl))).store (hP.stored _ _ _)) _
  | jobs transportEnabled now =>
    cases transportEnabled with
    | false =>
      intro r hr
      obtain ⟨a, -, rfl⟩ := List.mem_map.1 hr
      exact hP.zero
    | true =>
      exact @Runs.invariant _ _ (AnnounceTable.walkSlot now) (walkStart t.cursor t.ring) _ (fun w => All P w.ring)
        (fun _ k hw => hP.walkSlot hw k) h
  | timers now =>
    exact @Runs.invariant _ _ (AnnounceTable.timerSlot now) ⟨t.ring, []⟩ _ (fun s => All P s.ring)
      (fun _ i hs => hP.timerSlot hs i) h
  | resize maxsize => exact h

end Stable

/-- A record in the table waits for one more rebroadcast at least. -/
def AnnounceRec.unrepeated (r : AnnounceRec) : Prop := r.used = true → r.localRebroadcasts < r.enough

theorem enough_pos : 0 < r.enough := by
  unfold AnnounceRec.enough
  split <;> decide

theorem stable_unrepeated : Stable AnnounceRec.unrepeated fun _ => True where
  zero := nofun
  stored _ _ _ _ := enough_pos
  sent _ _ _ h := h
  held _ _ h := h
  unheld _ h := h
  heard r h hp hr hu := by
    unfold AnnounceRec.heardAgain at hu ⊢
    split
    · next hops =>
      simp only [AnnounceRec.passedOn, hops, Bool.or_eq_false_iff, Bool.and_eq_false_iff, decide_eq_false_iff_not] at hp
      have := hp.1
      simp only [AnnounceRec.enough] at this ⊢
      simpa using this
    · simpa [*] using hr (by simpa [*] using hu)

/-- What has no tries left is not held back. -/
def AnnounceRec.done (r : AnnounceRec) : Prop := r.used = true → r.retired = true → r.held = false

theorem stable_done : Stable AnnounceRec.done fun r => r.retired = false where
  zero := nofun
  stored _ _ _ _ _ := rfl
  sent _ _ hh _ _ _ := hh
  held r hr _ _ hret := absurd hret (by simpa [AnnounceRec.retired] using hr)
  unheld _ _ _ _ := rfl
  heard r h _ hr hu hret := by
    unfold AnnounceRec.heardAgain at hu hret ⊢
    split at hu <;> simp_all [AnnounceRec.retired, AnnounceRec.done]

-- ---------------------------------------------------------------------------
-- Retirement
-- ---------------------------------------------------------------------------

def Gone (i : Nat) (ring : Ring) : Prop := ∀ r, ring[i]? = some r → r.used = false

theorem gone_wipe : Gone i (wipe i ring) := by
  intro r hr
  obtain ⟨-, rfl⟩ | ⟨hne, -⟩ := Slots.getElem?_set_cases hr
  · rfl
  · exact absurd rfl hne

theorem Gone.older (h : Gone i ring) (ho : Older i ring ring') : Gone i ring' := by
  intro b hb
  by_contra hu
  obtain ⟨a, ha, hua, -⟩ := ho b hb (by simpa using hu)
  simp [h a ha] at hua

/-- A slot whose record has no tries left, and is not held. -/
def retiredAt (ring : Ring) (x : Nat) : Bool := (ring[x]?).any fun r => r.used && !r.held && r.retired

theorem retiredAt_eq_true : retiredAt ring x = true ↔
    ∃ r, ring[x]? = some r ∧ r.used = true ∧ r.held = false ∧ r.retired = true := by
  simp [retiredAt, Option.any_eq_true, and_assoc]

theorem retiredAt_emit (hx : retiredAt ring x = true) (hne : y ≠ x) :
    retiredAt (announceRecEmit now y ring) x = true := by
  obtain ⟨r, hr, hu, hh, hret⟩ := retiredAt_eq_true.1 hx
  exact retiredAt_eq_true.2 ⟨r, emit_getElem? hne.symm hr hh, hu, hh, hret⟩

theorem not_due_of_retiredAt (hx : retiredAt ring x = true) : dueAt now ring x = false := by
  obtain ⟨r, hr, -, -, hret⟩ := retiredAt_eq_true.1 hx
  simp [dueAt, hr, AnnounceRec.due, hret]

/-- A step of the walk clears a retired record it looks at. -/
theorem walkSlot_clears (hx : retiredAt w.ring x = true) (hb : w.budget ≠ 0) (hk : w.slot k = x) :
    Gone x (walkSlot now w k).ring := by
  obtain ⟨r, hr, hu, hh, hret⟩ := retiredAt_eq_true.1 hx
  have hslot : (w.cursor + k) % w.ring.length = x := hk
  have hw : walkSlot now w k = { w with ring := wipe x w.ring } := by
    simp [walkSlot, hb, hslot, hr, hu, hh, hret]
  rw [hw]
  exact gone_wipe

/-- And no step does anything else to one. -/
theorem walkSlot_retired (hx : retiredAt w.ring x = true) (k : Nat) :
    retiredAt (walkSlot now w k).ring x = true ∨ Gone x (walkSlot now w k).ring := by
  cases hs : sends now w k with
  | none =>
    have hswept := (walkSlot_none hs).2.2.2
    generalize (walkSlot now w k).ring = ring' at hswept ⊢
    cases hswept with
    | kept => exact .inl hx
    | wiped =>
      next i r hr hu hh hret =>
      by_cases hi : i = x
      · subst hi
        exact .inr gone_wipe
      · left
        rwa [retiredAt, wipe, List.getElem?_set_ne hi]
  | some p =>
    obtain ⟨-, -, hr, hd, hw⟩ := walkSlot_some hs
    rw [hw]
    refine .inl (retiredAt_emit hx ?_)
    rintro rfl
    have hdue : dueAt now w.ring p.1 = true := dueAt_eq_true.2 ⟨_, hr, hd⟩
    simp [not_due_of_retiredAt hx] at hdue

theorem walkSlot_older (w : Walk) (k : Nat) : Older x w.ring (walkSlot now w k).ring := by
  cases hs : sends now w k with
  | none => exact (walkSlot_none hs).2.2.2.older
  | some p =>
    obtain ⟨-, -, -, -, hw⟩ := walkSlot_some hs
    rw [hw]
    exact older_emit

theorem gone_foldl {ks : List Nat} (hg : Gone x w.ring) : Gone x (ks.foldl (walkSlot now) w).ring :=
  @Runs.invariant _ _ (walkSlot now) w ks (fun w => Gone x w.ring) (fun w k h => h.older (walkSlot_older w k)) hg

/-- A walk clears what it looks at and is retired. -/
theorem Like.clears (hl : Like n w scan) (hx : retiredAt w.ring x = true) {ks : List Nat}
    (hseen : x ∈ looks n (AnnounceTable.dueAt now) (announceRecEmit now) ks scan) :
    Gone x (ks.foldl (walkSlot now) w).ring := by
  induction ks generalizing w scan with
  | nil => cases hseen
  | cons k ks ih =>
    rw [List.foldl_cons]
    obtain hk | hrest := List.mem_append.1 hseen
    · rw [hl.look] at hk
      split at hk
      · cases hk
      · next hb => exact gone_foldl (walkSlot_clears hx hb (List.mem_singleton.1 hk).symm)
    · obtain hx' | hg := walkSlot_retired hx k
      · exact ih (hl.step k) hx' hrest
      · exact gone_foldl hg

/-- No slot whose record is retired is left out. -/
def Clearing (now cursor : Nat) (ring : Ring) : Prop :=
  InStride ring.length (dueAt now) (announceRecEmit now) retiredAt ANNOUNCE_EMITS_PER_PASS ring cursor 0

/-- A clearing walk clears a retired record, or comes nearer to it. -/
theorem Clearing.walk (hc : Clearing now cursor ring) (hx : retiredAt ring x = true) :
    Gone x (walk now cursor ring).ring ∨
      ahead ring.length (walk now cursor ring).cursor x < ahead ring.length cursor x := by
  have hlt : x < ring.length := by
    obtain ⟨r, hr, -⟩ := retiredAt_eq_true.1 hx
    exact (List.getElem?_eq_some_iff.1 hr).1
  by_cases hseen : x ∈ looks ring.length (dueAt now) (announceRecEmit now) (List.range ring.length)
      ⟨ring, cursor, ANNOUNCE_EMITS_PER_PASS⟩
  · exact .inl ((like_start cursor ring).clears hx hseen)
  · right
    obtain ⟨happ, hlen⟩ := approaches_of_stride ⟨ring, cursor, ANNOUNCE_EMITS_PER_PASS⟩
      (fun s y hx _ hne => retiredAt_emit hx hne) hlt hc hx hseen
    rw [← emitted_eq] at happ hlen
    rw [← ahead_mod, cursor_walk, ahead_mod]
    have hpos : 0 < (emitted now cursor ring).length := by
      rw [hlen]
      exact Nat.succ_pos 7
    obtain ⟨y, hy⟩ := List.exists_mem_of_length_pos hpos
    exact (happ.within y hy).1.trans_le (happ.within y hy).2

-- ---------------------------------------------------------------------------
-- Runs
-- ---------------------------------------------------------------------------

/-- Nothing that has no tries left is held back, and no walk leaves it out. -/
def Fair (t : Table) : Op → Prop
  | .answer e => ∀ i r, announceFind e.dest false t.ring = some i → t.ring[i]? = some r → r.retired = false
  | .jobs true now => Clearing now t.cursor t.ring
  | _ => True

theorem Fair.holds (h : Fair t op) : Holds (fun r => r.retired = false) t op := by
  rintro e rfl
  exact h

def Op.isPass : Op → Bool
  | .jobs .. => true
  | _ => false

theorem older_step (t : Table) (hs : op.slot t ≠ some x) : Older x t.ring (step t op).ring := by
  cases op with
  | answerHeard heard => exact older_dropAnswered
  | repeatHeard heard => exact older_dropRepeated
  | accept e => exact older_slotFor.trans ((older_store hs).trans (older_dropOldest _))
  | answer e => exact older_hold.trans (older_alloc.trans ((older_store hs).trans (older_dropOldest _)))
  | jobs transportEnabled now =>
    cases transportEnabled with
    | false =>
      intro b hb hu
      obtain ⟨a, -, rfl⟩ := List.mem_map.1 (List.mem_of_getElem? hb)
      cases hu
    | true =>
      exact @Runs.invariant _ _ (walkSlot now) (walkStart t.cursor t.ring) _ (fun w => Older x t.ring w.ring)
        (fun w k h => h.trans (walkSlot_older w k)) (.refl x t.ring)
  | timers now =>
    refine @Runs.invariant _ _ (timerSlot now) ⟨t.ring, []⟩ _ (fun s => Older x t.ring s.ring) (fun s i h => ?_)
      (.refl x t.ring)
    unfold timerSlot
    split
    · exact h
    · split
      · exact h.trans older_emit
      · exact h
  | resize maxsize => exact .refl x t.ring

theorem AnnounceRec.retired_iff : r.retired = true ↔ PATHFINDER_R < r.retries := by
  simp only [AnnounceRec.retired, Bool.or_eq_true, Bool.and_eq_true, decide_eq_true_eq]
  change 0 < r.retries ∧ 2 ≤ r.retries ∨ 1 < r.retries ↔ 1 < r.retries
  omega

/-- A retired record is cleared, or waits for a walk to come to it. -/
theorem retired_step (hd : All AnnounceRec.done t.ring) (hf : Fair t op) (hx : retiredAt t.ring x = true)
    (hs : op.slot t ≠ some x) :
    Gone x (step t op).ring ∨ retiredAt (step t op).ring x = true ∧
      ahead t.ring.length (step t op).cursor x + (if op.isPass then 1 else 0) ≤ ahead t.ring.length t.cursor x := by
  by_cases hg : Gone x (step t op).ring
  · exact .inl hg
  · obtain ⟨b, hb, hu⟩ : ∃ b, (step t op).ring[x]? = some b ∧ b.used = true := by simpa [Gone] using hg
    obtain ⟨a, ha, -, hle⟩ := older_step t hs b hb hu
    obtain ⟨r, hr, -, -, hret⟩ := retiredAt_eq_true.1 hx
    cases hr.symm.trans ha
    have hret' := AnnounceRec.retired_iff.2 ((AnnounceRec.retired_iff.1 hret).trans_le hle)
    have hheld := stable_done.step hd hf.holds b (List.mem_of_getElem? hb) hu hret'
    refine .inr ⟨retiredAt_eq_true.2 ⟨b, hb, hu, hheld, hret'⟩, ?_⟩
    cases op with
    | jobs transportEnabled now =>
      cases transportEnabled with
      | false =>
        obtain ⟨a, -, rfl⟩ := List.mem_map.1 (List.mem_of_getElem? hb)
        cases hu
      | true => exact (Clearing.walk hf hx).resolve_left hg
    | _ => exact le_rfl

/-- Where walks leave it out no more, a retired record is cleared by one of as
many as there are slots. -/
theorem retired_run (hd : All AnnounceRec.done t.ring) (hf : Guarded step Fair t ops) (hx : retiredAt t.ring x = true)
    (hs : Guarded step (fun t op => op.slot t ≠ some x) t ops)
    (hp : ahead t.ring.length t.cursor x < ops.countP Op.isPass) :
    ∃ pre, pre <+: ops ∧ Gone x (run step t pre).ring := by
  induction ops generalizing t with
  | nil => cases hp
  | cons op ops ih =>
    obtain hg | ⟨hx', hle⟩ := retired_step hd hf.1 hx hs.1
    · exact ⟨[op], List.cons_prefix_cons.2 ⟨rfl, List.nil_prefix⟩, hg⟩
    · rw [List.countP_cons] at hp
      obtain ⟨pre, hpre, hg⟩ := ih (stable_done.step hd hf.1.holds) hf.2 hx' hs.2 (by rw [length_step]; omega)
      exact ⟨op :: pre, List.cons_prefix_cons.2 ⟨rfl, hpre⟩, hg⟩

theorem length_run (t : Table) (ops : List Op) : (run step t ops).ring.length = t.ring.length :=
  @Runs.invariant _ _ step t ops (fun s => s.ring.length = t.ring.length) (fun s op h => (length_step s op).trans h) rfl

theorem all_started (hP : Stable P Q) (slots maxsize : Nat) : All P (started slots maxsize).ring := by
  intro r hr
  rw [List.eq_of_mem_replicate hr]
  exact hP.zero

/-- A rebroadcast that is enough clears the record. -/
theorem repeat_clears (hf : announceFind h.dest false t.ring = some i) (hr : t.ring[i]? = some r)
    (ht : h.transported = true) (hen : h.transportEnabled = true) (hh : h.hops = r.hops + 1)
    (hle : r.enough ≤ r.localRebroadcasts + 1) : Gone i (step t (.repeatHeard h)).ring := by
  have hpass : r.passedOn h = true := by simp [AnnounceRec.passedOn, hh, hle]
  simp only [step, dropRepeated, ht, hen, hf, hr, Option.any_some, hpass, Bool.and_self, if_true]
  exact gone_wipe

/-- From its store on a record is sent twice at most, a path response once. No
record in the table has been repeated often enough, as the rebroadcast that makes
it so clears it. And where steps are fair, a record with no tries left is cleared
by the time as many walks as there are slots have been made. -/
theorem emission_budget (slots maxsize : Nat) (pre ops : List Op) :
    (∀ (t : Table) (op : Op) (i : Nat), op.slot t = some i →
      Guarded step (fun t o => o.slot t ≠ some i) (step t op) ops →
        (sentOver (step t op) ops).count i ≤ PATHFINDER_R + 1 - op.triesBehind) ∧
    Throughout step (fun t => All AnnounceRec.unrepeated t.ring) (started slots maxsize) ops ∧
    (∀ (t : Table) (h : Heard) (i : Nat) (r : AnnounceRec), announceFind h.dest false t.ring = some i →
      t.ring[i]? = some r → h.transported = true → h.transportEnabled = true → h.hops = r.hops + 1 →
        r.enough ≤ r.localRebroadcasts + 1 → Gone i (step t (.repeatHeard h)).ring) ∧
    ∀ (x : Nat) (r : AnnounceRec), Guarded step Fair (started slots maxsize) (pre ++ ops) →
      (run step (started slots maxsize) pre).ring[x]? = some r → r.used = true → r.retired = true →
        Guarded step (fun t op => op.slot t ≠ some x) (run step (started slots maxsize) pre) ops →
          slots ≤ ops.countP Op.isPass →
            ∃ p, p <+: ops ∧ Gone x (run step (run step (started slots maxsize) pre) p).ring := by
  refine ⟨fun t op i hs hops => ?_, fun pre hp => ?_, fun t h i r => repeat_clears,
    fun x r hf hr hu hret hs hn => ?_⟩
  · have hspent := (spends_stored hs).run hops
    omega
  · refine @Runs.invariant _ _ step _ pre (fun t => All AnnounceRec.unrepeated t.ring) (fun t op h => ?_)
      (all_started stable_unrepeated slots maxsize)
    exact stable_unrepeated.step h fun _ _ _ _ _ _ => trivial
  · obtain ⟨hpre, hops⟩ := guarded_append.1 hf
    have hd : All AnnounceRec.done (run step (started slots maxsize) pre).ring :=
      @Guarded.invariant _ _ step _ pre Fair (fun t => All AnnounceRec.done t.ring)
        (fun t op h hfair => stable_done.step h hfair.holds) hpre (all_started stable_done slots maxsize)
    have hx : retiredAt (run step (started slots maxsize) pre).ring x = true :=
      retiredAt_eq_true.2 ⟨r, hr, hu, hd r (List.mem_of_getElem? hr) hu hret, hret⟩
    have hlen : (run step (started slots maxsize) pre).ring.length = slots := by
      rw [length_run, started, List.length_replicate]
    refine retired_run hd hops hx hs (lt_of_lt_of_le ?_ hn)
    rw [hlen]
    exact ahead_lt _ _ (hlen ▸ Nat.zero_lt_of_lt (List.getElem?_eq_some_iff.1 hr).1)

theorem emission_budget_walked :
    (sentOver (step (started 4 4) (.accept (entry 10))) [.jobs true 600, .jobs true 6200, .jobs true 7000]).count 0 ≤ 2 :=
  (emission_budget 4 4 [] [.jobs true 600, .jobs true 6200, .jobs true 7000]).1 (started 4 4) (.accept (entry 10)) 0
    (by decide) (by decide +kernel)

-- ---------------------------------------------------------------------------
-- A run
-- ---------------------------------------------------------------------------

/-- Where all records are held, no pass does anything. -/
theorem walkSlot_idle (hheld : ∀ r ∈ w.ring, r.used = true → r.held = true) (k : Nat) : walkSlot now w k = w := by
  unfold walkSlot
  split
  · rfl
  · simp only
    split
    · rfl
    · next r hr =>
      refine if_pos ?_
      cases hu : r.used with
      | false => rfl
      | true => simp [hheld r (List.mem_of_getElem? hr) hu]

theorem timerSlot_idle (hheld : ∀ r ∈ s.ring, r.used = true → r.held = true) (i : Nat) : timerSlot now s i = s := by
  unfold timerSlot
  split
  · rfl
  · next r hr =>
    refine if_neg fun ht => ?_
    rw [Bool.and_eq_true] at ht
    obtain ⟨hu, hh⟩ := AnnounceRec.timed_spec ht.1
    simp [hheld r (List.mem_of_getElem? hr) hu] at hh

def Op.runsTable : Op → Bool
  | .jobs true _ | .timers _ => true
  | _ => false

theorem step_idle (hheld : ∀ r ∈ t.ring, r.used = true → r.held = true) (hop : op.runsTable = true) :
    (step t op).ring = t.ring := by
  cases op with
  | jobs transportEnabled now =>
    cases transportEnabled with
    | false => cases hop
    | true =>
      have hwalk : walk now t.cursor t.ring = walkStart t.cursor t.ring :=
        @Runs.invariant _ _ (walkSlot now) (walkStart t.cursor t.ring) _ (fun w => w = walkStart t.cursor t.ring)
          (by
            rintro w k rfl
            exact walkSlot_idle hheld k) rfl
      simp [step, jobs, hwalk, walkStart]
  | timers now =>
    have hpass : timers now t.ring = ⟨t.ring, []⟩ :=
      @Runs.invariant _ _ (timerSlot now) ⟨t.ring, []⟩ _ (fun s => s = ⟨t.ring, []⟩)
        (by
          rintro s k rfl
          exact timerSlot_idle hheld k) rfl
    simp [step, timersPass, hpass]
  | _ => cases hop

theorem run_idle (hheld : ∀ r ∈ t.ring, r.used = true → r.held = true) (hops : ∀ op ∈ ops, op.runsTable = true) :
    (run step t ops).ring = t.ring := by
  induction ops generalizing t with
  | nil => rfl
  | cons op ops ih =>
    have hstep := step_idle hheld (hops op (by simp))
    rw [run_cons, ih (by rwa [hstep]) (fun o ho => hops o (by simp [ho])), hstep]

/-- An announce is sent twice, then held for a response, and the response is
repeated by others before it is sent. -/
def spent : List Op :=
  [.accept (entry 10), .jobs true 600, .jobs true 6200, .answer (entry 6300), .repeatHeard (relayed 6400),
    .repeatHeard (relayed 6500)]

/-- The announce has no tries left, and no pass ever clears it. -/
theorem spent_for_good :
    ((run step (started 4 4) spent).ring[0]?).any (fun r => r.used && r.held && r.retired) = true ∧
    ∀ ops : List Op, (∀ op ∈ ops, op.runsTable = true) →
      ¬ Gone 0 (run step (run step (started 4 4) spent) ops).ring := by
  have hheld : ∀ r ∈ (run step (started 4 4) spent).ring, r.used = true → r.held = true := by decide +kernel
  have hthere : ((run step (started 4 4) spent).ring[0]?).any (fun r => r.used && r.held && r.retired) = true := by
    decide +kernel
  refine ⟨hthere, fun ops hops hg => ?_⟩
  obtain ⟨r, hr, hused⟩ := (Option.any_eq_true _ _).1 hthere
  rw [run_idle hheld hops] at hg
  simp [hg r hr] at hused

end MicroReticulum.AnnounceTable
