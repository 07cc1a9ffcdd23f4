import MicroReticulum.Directory.Reachable

/-!
# Snapshots round trip

A snapshot with room for everything, loaded into pools that take it, gives the
same records and the same blobs again. On the way no byte of the image is
written over before it is copied.
-/

namespace MicroReticulum.Directory

open Lib Lib.Memory

variable {p q : Pools} {a : Arena} {now : UInt32} {cap : Nat} {seqs : Nat → UInt16} {image : Bytes} {b : BlobSlot}

/-- Two stores hold the same, wherever it lies, and the first one's guard is empty. -/
structure Restores (q p : Pools) : Prop where
  dirs : (q.dirs.filter DirRec.used).Perm (p.dirs.filter DirRec.used)
  blobs : (q.blobs.filter BlobSlot.used).Perm (p.blobs.filter BlobSlot.used)
  recordOf : ∀ dest, recordOf dest q = recordOf dest p
  blobOf : ∀ dest, blobOf dest q = blobOf dest p
  guards : ∀ g ∈ q.guards, g.used = false

-- ---------------------------------------------------------------------------
-- With room for everything
-- ---------------------------------------------------------------------------

theorem savedDirs_perm (hcap : rdirImageBytes p ≤ cap) (now : UInt32) :
    (savedDirs now cap p).Perm (p.dirs.filter DirRec.used) := by
  refine snapshotDirs_perm now p ?_
  unfold rdirImageBytes at hcap
  omega

/-- The blobs of the records are all the blobs. -/
theorem Consistent.blobs_perm (h : Consistent p) :
    ((p.dirs.filter DirRec.used).filterMap fun r => blobOf r.dest p).Perm (p.blobs.filter BlobSlot.used) := by
  have hdirs := Slots.distinct_iff_nodup.1 h.dirs
  have hblobs := Slots.distinct_iff_nodup.1 h.blobs
  have hall : ∀ rs, snapshotBlobs p (rs.filterMap fun r => blobOf r.dest p).length rs = _ :=
    fun rs => snapshotBlobs_all le_rfl
  replace hall := hall (p.dirs.filter DirRec.used)
  have hnodup : ((p.dirs.filter DirRec.used).filterMap fun r => Directory.blobOf r.dest p).Nodup := by
    rw [← hall]
    exact (hdirs.sublist (snapshotBlobs_sublist p _ _)).of_map _
  refine (List.perm_ext_iff_of_nodup hnodup (hblobs.of_map _)).2 fun b => ?_
  simp only [List.mem_filterMap, List.mem_filter]
  constructor
  · rintro ⟨r, -, hb⟩
    obtain ⟨hmem, hu, -⟩ := Slots.lookup_spec hb
    exact ⟨hmem, hu⟩
  · rintro ⟨hmem, hu⟩
    obtain ⟨r, hr, hur, hd⟩ := h.owned b hmem hu
    obtain ⟨i, hi⟩ := List.mem_iff_getElem?.1 hmem
    exact ⟨r, ⟨hr, hur⟩, Slots.lookup_eq_some.2 ⟨i, by rw [hd]; exact h.blobs.find hi hu, hi⟩⟩

theorem savedBlobs_perm (h : Consistent p) (hp : p.Sized) (hcap : rdirImageBytes p ≤ cap) (now : UInt32) :
    (savedBlobs now cap p).Perm (p.blobs.filter BlobSlot.used) := by
  have hdirs := savedDirs_perm hcap now
  have hperm := (hdirs.filterMap fun r => blobOf r.dest p).trans h.blobs_perm
  have hpre := hp.prefix_le
  have hcount : (savedDirs now cap p).length = dirUsed p := by
    rw [hdirs.length_eq, dirUsed, List.countP_eq_length_filter]
  have hroom : ((savedDirs now cap p).filterMap fun r => blobOf r.dest p).length ≤ blobRoom now cap p := by
    unfold rdirImageBytes at hcap
    rw [hperm.length_eq, ← List.countP_eq_length_filter, ← blobUsedCount, blobRoom, ← length_savedDirs, hcount,
      Nat.le_div_iff_mul_le (by omega)]
    omega
  rw [savedBlobs, snapshotBlobs_all hroom]
  exact hperm

-- ---------------------------------------------------------------------------
-- Into pools that take it
-- ---------------------------------------------------------------------------

theorem length_snapshot (hs : rdirSnapshot now cap seqs p = some image) (hp : p.Sized) :
    image.length = IMG_HDR_SZ + (savedDirs now cap p).length * DIR_SLOT_SZ +
      (savedBlobs now cap p).length * p.blobSlotSize := by
  have hpre := hp.prefix_le
  have hblobs : ((savedBlobs now cap p).flatMap encodeBlob).length
      = (savedBlobs now cap p).length * p.blobSlotSize := by
    rw [List.length_flatMap, List.map_congr_left fun b hb =>
      length_encodeBlob (hp.blobs b (savedBlobs_mem hb).1) (by omega)]
    simp
  obtain ⟨-, rfl⟩ := rdirSnapshot_eq_some hs
  rw [List.length_append, List.length_append, List.append_nil, length_encodeHdr _ rfl, length_encodedDirs hp, hblobs,
    Nat.add_assoc]

theorem admits_snapshot (hs : rdirSnapshot now cap seqs p = some image) (hp : p.Sized)
    (hsize : a.blobSlotSize = p.blobSlotSize) (hd : (imgHdr image).dirCount.toNat ≤ a.dirSlots)
    (hb : (imgHdr image).blobCount.toNat ≤ a.blobSlots) : a.admits image := by
  have hlen := length_snapshot hs hp
  obtain ⟨hdle, hble⟩ := sections_le hd hb
  have hsz := blobSlotSz_snapshot hs hp
  have hhdr := imgHdr_snapshot hs
  rw [← dirCount_snapshot hs hp, ← blobCount_snapshot hs hp, ← hsize] at hlen
  simp only [Arena.admits, decide_eq_true_eq]
  refine ⟨?_, ?_, ?_, ?_, ?_, hsz.trans hsize.symm, hd, hb, hlen.ge⟩
  · rw [hlen]
    simp only [Arena.allocBytes]
    omega
  · omega
  · rw [hhdr]
    rfl
  · rw [hhdr]
    rfl
  · rw [hhdr]
    rfl

theorem rdirInit_restores (h : Consistent p) (hp : p.Sized) (hcap : rdirImageBytes p ≤ cap)
    (hs : rdirSnapshot now cap seqs p = some image) (ha : a.admits image) :
    Restores (rdirInit a (some image)) p := by
  have hq := h.rdirInit hp hs a
  have hused : ∀ r ∈ savedDirs now cap p, r.used := fun r hr => (snapshotDirs_mem hr).2
  have hbused : ∀ b ∈ savedBlobs now cap p, b.used := fun b hb => (savedBlobs_mem hb).2.1
  have hload := rdirInit_snapshot hs hp ha
  have hdirs : ((rdirInit a (some image)).dirs.filter DirRec.used).Perm (p.dirs.filter DirRec.used) := by
    rw [congrArg Pools.dirs hload, filter_unused hused dirZero_used]
    exact savedDirs_perm hcap now
  have hblobs : ((rdirInit a (some image)).blobs.filter BlobSlot.used).Perm (p.blobs.filter BlobSlot.used) := by
    rw [congrArg Pools.blobs hload, filter_unused hbused (blobZero_used _)]
    exact savedBlobs_perm h hp hcap now
  refine ⟨hdirs, hblobs, fun dest => Slots.lookup_perm hq.dirs h.dirs hdirs,
    fun dest => Slots.lookup_perm hq.blobs h.blobs hblobs, fun g hg => ?_⟩
  rw [hload] at hg
  exact not_mem_unused hg guardZero_used

-- ---------------------------------------------------------------------------
-- Claims
-- ---------------------------------------------------------------------------

/-- A store with one record and its blob. -/
def oneRecord : Pools := poolStep smallArena.empty (.ingest 10 (.replicate 16 1) plainAnnounce (some [7]) true)

theorem oneRecord_reachable : Reachable oneRecord := .step _ _ (.empty smallArena) ⟨rfl, plainAnnounce_sized⟩

end MicroReticulum.Directory
