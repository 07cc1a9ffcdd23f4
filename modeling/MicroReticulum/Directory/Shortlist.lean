import MicroReticulum.Directory.Eviction

/-!
# A snapshot cut short

The snapshot walks down the ranks, the eviction comes up from below; equal ranks
go by the slot, the eviction's victim being the first of them and the walk's
next record the last. So a buffer with room for some of the records gets those
an eviction to their number would leave.
-/

namespace MicroReticulum.Directory

open Lib

variable {p q : Pools} {now : UInt32} {cap m s n : Nat} {r : DirRec} {k : RankKey} {image : Bytes} {seqs : Nat → UInt16}

/-- The rank of a slot's record, ties broken by the slot. -/
def rankOf (now : UInt32) (e : Nat × DirRec) : RankKey := toLex (dirRank now e.2, e.1)

/-- The number of records a snapshot has room for. -/
def dirRoom (cap : Nat) (p : Pools) : Nat := min (dirUsed p) ((cap - IMG_HDR_SZ) / DIR_SLOT_SZ)

-- ---------------------------------------------------------------------------
-- The walk down
-- ---------------------------------------------------------------------------

theorem mem_rankKeys : k ∈ rankKeys now p ↔
    ∃ r, p.dirs[(ofLex k).2]? = some r ∧ r.used ∧ k = rankOf now ((ofLex k).2, r) := by
  simp only [rankKeys, List.mem_map, List.mem_filter, Prod.exists, List.mk_mem_zipIdx_iff_getElem?]
  constructor
  · rintro ⟨r, i, ⟨hr, hu⟩, rfl⟩
    exact ⟨r, hr, hu, rfl⟩
  · rintro ⟨r, hr, hu, hk⟩
    exact ⟨r, _, ⟨hr, hu⟩, hk.symm⟩

theorem rankOf_mem (hr : p.dirs[s]? = some r) : rankOf now (s, r) ∈ rankKeys now p ↔ r.used := by
  constructor
  · intro hk
    obtain ⟨c, hc, hu, -⟩ := mem_rankKeys.1 hk
    cases hr.symm.trans hc
    exact hu
  · intro hu
    exact mem_rankKeys.2 ⟨r, hr, hu, rfl⟩

/-- The entries of a snapshot are the walk's, slot by slot. -/
theorem snapshotDirs_ranks (now : UInt32) (cap : Nat) (p : Pools) :
    (snapshotDirs now cap p).map (rankOf now) =
      Descent.descend (rankKeys now p) ((cap - IMG_HDR_SZ) / DIR_SLOT_SZ) none := by
  have hself : ∀ k ∈ Descent.descend (rankKeys now p) ((cap - IMG_HDR_SZ) / DIR_SLOT_SZ) none,
      (slotOf p k).map (rankOf now) = some k := by
    intro k hk
    obtain ⟨r, hr, -, hkey⟩ := mem_rankKeys.1 ((Descent.descend_spec _ _ _).1 k hk).1
    rw [slotOf, hr]
    exact congrArg some hkey.symm
  rw [snapshotDirs, List.map_filterMap, List.filterMap_congr hself, List.filterMap_some]

theorem mem_snapshotDirs : (s, r) ∈ snapshotDirs now cap p ↔ p.dirs[s]? = some r ∧
    rankOf now (s, r) ∈ Descent.descend (rankKeys now p) ((cap - IMG_HDR_SZ) / DIR_SLOT_SZ) none := by
  constructor
  · intro h
    have hk : rankOf now (s, r) ∈ (snapshotDirs now cap p).map (rankOf now) := List.mem_map_of_mem h
    rw [snapshotDirs_ranks] at hk
    obtain ⟨k, -, hslot⟩ := List.mem_filterMap.1 h
    obtain ⟨c, hc, he⟩ := Option.map_eq_some_iff.1 hslot
    cases he
    exact ⟨hc, hk⟩
  · rintro ⟨hr, hk⟩
    refine List.mem_filterMap.2 ⟨_, hk, ?_⟩
    simp [slotOf, rankOf, hr]

theorem length_snapshotDirs (now : UInt32) (cap : Nat) (p : Pools) :
    (snapshotDirs now cap p).length = dirRoom cap p := by
  have hcard : (rankKeys now p).toFinset.card = dirUsed p := by
    rw [List.toFinset_card_of_nodup (rankKeys_nodup now p), length_rankKeys]
  calc (snapshotDirs now cap p).length
      = ((snapshotDirs now cap p).map (rankOf now)).length := (List.length_map _).symm
    _ = min ((cap - IMG_HDR_SZ) / DIR_SLOT_SZ) (Descent.under none (rankKeys now p)).card := by
        rw [snapshotDirs_ranks, Descent.length_descend]
    _ = dirRoom cap p := by
        rw [Descent.under_none, hcard, dirRoom, min_comm]

-- ---------------------------------------------------------------------------
-- The eviction
-- ---------------------------------------------------------------------------

/-- An eviction empties the slot at the bottom of the ranks. -/
theorem evictOneDir_least (h : evictOneDir now p = some q) :
    ∃ i victim, p.dirs[i]? = some victim ∧ victim.used ∧ (∀ k ∈ rankKeys now p, rankOf now (i, victim) ≤ k) ∧
      q.dirs = p.dirs.set i .zero := by
  obtain ⟨i, hv, rfl⟩ := Option.map_eq_some_iff.1 h
  obtain ⟨victim, hr, hu, hmin⟩ := Slots.victim_eq_some hv
  refine ⟨i, victim, hr, hu, fun k hk => ?_, ?_⟩
  · obtain ⟨r, hr', hu', hkey⟩ := mem_rankKeys.1 hk
    rw [hkey]
    refine Prod.Lex.toLex_le_toLex.2 ?_
    obtain hlt | heq := (hmin r (List.mem_of_getElem? hr') hu').lt_or_eq
    · exact .inl hlt
    · right
      refine ⟨heq, not_lt.1 fun hbefore => ?_⟩
      exact (Slots.victim_first hv hr hr' hu' hbefore).ne heq
  · have hr' : (freeBlobOf victim.dest p).dirs[i]? = some victim := by
      rw [(freeBlobOf_dirs victim.dest p).1, hr]
    rw [hr]
    show (setDir i (written recClear) (freeBlobOf victim.dest p)).dirs = p.dirs.set i .zero
    rw [setDir_eq hr', stored_written, stored_recClear, (freeBlobOf_dirs victim.dest p).1]

theorem evictOneDir_eq_none (h : evictOneDir now p = none) : rankKeys now p = [] := by
  have hnone := Slots.victim_eq_none.1 (Option.map_eq_none_iff.1 h)
  refine List.eq_nil_iff_forall_not_mem.2 fun k hk => ?_
  obtain ⟨r, hr, hu, -⟩ := mem_rankKeys.1 hk
  simp [hnone r (List.mem_of_getElem? hr)] at hu

/-- The used slots that are left are the ones there were. -/
theorem evictDown_slot (h : (evictDown (evictOneDir now) m p).dirs[s]? = some r) (hu : r.used) :
    p.dirs[s]? = some r := by
  induction m generalizing p with
  | zero => exact h
  | succ m ih =>
    unfold evictDown at h
    cases he : evictOneDir now p with
    | none =>
      rw [he] at h
      exact h
    | some q =>
      rw [he] at h
      obtain ⟨i, victim, -, -, -, hdirs⟩ := evictOneDir_least he
      have hq : q.dirs[s]? = some r := ih h
      rw [hdirs] at hq
      obtain ⟨-, rfl⟩ | ⟨-, hq⟩ := Slots.getElem?_set_cases hq
      · simp [dirZero_used] at hu
      · exact hq

/-- An eviction takes the least rank away. -/
theorem rankKeys_evicted (h : evictOneDir now p = some q) :
    ∃ k ∈ rankKeys now p, (∀ x ∈ rankKeys now p, k ≤ x) ∧
      (rankKeys now q).toFinset = (rankKeys now p).toFinset.erase k := by
  obtain ⟨i, victim, hr, hu, hleast, hdirs⟩ := evictOneDir_least h
  refine ⟨rankOf now (i, victim), (rankOf_mem hr).2 hu, hleast, ?_⟩
  ext x
  rw [List.mem_toFinset, Finset.mem_erase, List.mem_toFinset, mem_rankKeys, mem_rankKeys, hdirs]
  constructor
  · rintro ⟨r, hq, hur, hx⟩
    obtain ⟨-, rfl⟩ | ⟨hne, hq⟩ := Slots.getElem?_set_cases hq
    · simp [dirZero_used] at hur
    · refine ⟨?_, r, hq, hur, hx⟩
      rintro rfl
      exact hne rfl
  · rintro ⟨hne, r, hp, hur, hx⟩
    refine ⟨r, ?_, hur, hx⟩
    rw [List.getElem?_set_ne, hp]
    rintro rfl
    cases hr.symm.trans hp
    exact hne hx

theorem evictDown_ranks (now : UInt32) (m : Nat) (p : Pools) :
    (rankKeys now (evictDown (evictOneDir now) m p)).toFinset = Descent.shed m (rankKeys now p).toFinset := by
  induction m generalizing p with
  | zero => exact (Descent.shed_zero _).symm
  | succ m ih =>
    unfold evictDown
    cases he : evictOneDir now p with
    | none => simp [evictOneDir_eq_none he, Descent.shed_empty]
    | some q =>
      obtain ⟨k, hk, hmin, hq⟩ := rankKeys_evicted he
      have hmin' : ∀ x ∈ (rankKeys now p).toFinset, k ≤ x := fun x hx => hmin x (List.mem_toFinset.1 hx)
      rw [← Descent.shed_erase (List.mem_toFinset.2 hk) hmin', ← hq]
      exact ih q

theorem survives_iff : (evictDown (evictOneDir now) m p).dirs[s]? = some r ∧ r.used ↔
    p.dirs[s]? = some r ∧ r.used ∧ rankOf now (s, r) ∈ Descent.shed m (rankKeys now p).toFinset := by
  rw [← evictDown_ranks, List.mem_toFinset]
  constructor
  · rintro ⟨hr, hu⟩
    exact ⟨evictDown_slot hr hu, hu, (rankOf_mem hr).2 hu⟩
  · rintro ⟨hr, hu, hk⟩
    obtain ⟨c, hc, huc, -⟩ := mem_rankKeys.1 hk
    cases hr.symm.trans (evictDown_slot hc huc)
    exact ⟨hc, hu⟩

/-- The blobs' part of an eviction leaves the records. -/
theorem evictDown_blobs (now : UInt32) (m : Nat) (p : Pools) : (evictDown (evictOneBlob now) m p).dirs = p.dirs := by
  induction m generalizing p with
  | zero => rfl
  | succ m ih =>
    unfold evictDown
    cases he : evictOneBlob now p with
    | none => rfl
    | some q =>
      obtain ⟨i, b, -, -, -, rfl⟩ := evictOneBlob_eq_some he
      exact ih _

-- ---------------------------------------------------------------------------
-- Both ways
-- ---------------------------------------------------------------------------

/-- Records with their slots that are what an eviction to `k` of them leaves, best first. -/
structure Shortlist (now : UInt32) (p : Pools) (k : Nat) (entries : List (Nat × DirRec)) : Prop where
  count : entries.length = k
  taken : ∀ s r, (s, r) ∈ entries → p.dirs[s]? = some r ∧ r.used
  once : (entries.map Prod.fst).Nodup
  descending : (entries.map (rankOf now)).Pairwise (· > ·)
  survivors : ∀ blobTarget s r,
    (s, r) ∈ entries ↔ (rdirEvictTo now k blobTarget p).dirs[s]? = some r ∧ r.used

theorem snapshotDirs_survive (blobTarget : Nat) : (s, r) ∈ snapshotDirs now cap p ↔
    (rdirEvictTo now (dirRoom cap p) blobTarget p).dirs[s]? = some r ∧ r.used := by
  have hcard : (rankKeys now p).toFinset.card = dirUsed p := by
    rw [List.toFinset_card_of_nodup (rankKeys_nodup now p), length_rankKeys]
  have hdrop : dirUsed p - dirRoom cap p = (rankKeys now p).toFinset.card - (cap - IMG_HDR_SZ) / DIR_SLOT_SZ := by
    rw [hcard, dirRoom]
    omega
  have hdirs : (rdirEvictTo now (dirRoom cap p) blobTarget p).dirs =
      (evictDown (evictOneDir now) (dirUsed p - dirRoom cap p) p).dirs := evictDown_blobs _ _ _
  rw [mem_snapshotDirs, Descent.mem_descend_iff_shed, hdirs, survives_iff, hdrop]
  constructor
  · rintro ⟨hr, hk⟩
    exact ⟨hr, (rankOf_mem hr).1 (List.mem_toFinset.1 (Finset.mem_filter.1 hk).1), hk⟩
  · rintro ⟨hr, -, hk⟩
    exact ⟨hr, hk⟩

theorem snapshotDirs_shortlist (now : UInt32) (cap : Nat) (p : Pools) :
    Shortlist now p (dirRoom cap p) (snapshotDirs now cap p) where
  count := length_snapshotDirs now cap p
  taken s r h := by
    obtain ⟨hr, hk⟩ := mem_snapshotDirs.1 h
    exact ⟨hr, (rankOf_mem hr).1 ((Descent.descend_spec _ _ _).1 _ hk).1⟩
  once := by
    have hranks : ((snapshotDirs now cap p).map (rankOf now)).Nodup := by
      rw [snapshotDirs_ranks]
      exact Descent.descend_nodup _ _ _
    refine List.Nodup.map_on ?_ hranks.of_map
    rintro ⟨s, r⟩ hr ⟨t, c⟩ hc (rfl : s = t)
    cases (mem_snapshotDirs.1 hr).1.symm.trans (mem_snapshotDirs.1 hc).1
    rfl
  descending := by
    rw [snapshotDirs_ranks]
    exact (Descent.descend_spec _ _ _).2
  survivors blobTarget s r := snapshotDirs_survive blobTarget

/-- A snapshot of a reachable store has as many records as fit, those that an
eviction to their number would leave and in the order of their ranks, and blobs
of these records only. -/
theorem snapshot_is_shortlist (h : Reachable p) (now : UInt32) (cap : Nat) (seqs : Nat → UInt16)
    (hcap : IMG_HDR_SZ ≤ cap) :
    ∃ image entries, rdirSnapshot now cap seqs p = some image ∧ imageDirs image = entries.map Prod.snd ∧
      Shortlist now p (min (dirUsed p) ((cap - IMG_HDR_SZ) / DIR_SLOT_SZ)) entries ∧
      ∀ b ∈ imageBlobs p.blobSlotSize image, ∃ r ∈ imageDirs image, blobOf r.dest p = some b := by
  have hp := h.invariant.2
  cases hs : rdirSnapshot now cap seqs p with
  | none =>
    unfold rdirSnapshot at hs
    rw [if_neg (not_lt.2 hcap)] at hs
    cases hs
  | some image =>
    refine ⟨image, snapshotDirs now cap p, rfl, imageDirs_snapshot hs hp, snapshotDirs_shortlist now cap p, ?_⟩
    rw [imageBlobs_snapshot hs hp, imageDirs_snapshot hs hp]
    exact fun b hb => snapshotBlobs_mem hb

theorem snapshot_is_shortlist_full :
    ∃ image entries, rdirSnapshot 12 200 (fun _ => 0) fullStore = some image ∧
      imageDirs image = entries.map Prod.snd ∧
      Shortlist 12 fullStore (min (dirUsed fullStore) ((200 - IMG_HDR_SZ) / DIR_SLOT_SZ)) entries ∧
      ∀ b ∈ imageBlobs fullStore.blobSlotSize image, ∃ r ∈ imageDirs image, blobOf r.dest fullStore = some b :=
  snapshot_is_shortlist fullStore_reachable 12 200 (fun _ => 0) (by decide)

end MicroReticulum.Directory
