import MicroReticulum.Directory.Expansion

/-!
# What a snapshot holds

The records of a snapshot are records in use, each once, and all of them where
the buffer has room; its blobs are those of its records. Loaded, it gives these
records and blobs and nothing else.
-/

namespace MicroReticulum.Directory

open Lib Lib.Memory

variable {p : Pools} {a : Arena} {now : UInt32} {cap room : Nat} {seqs : Nat → UInt16} {image : Bytes}
  {r : DirRec} {b : BlobSlot} {rs : List DirRec}

/-- Pools whose slots have the sizes an arena is laid out for. -/
structure Pools.Sized (p : Pools) : Prop where
  dirs : ∀ r ∈ p.dirs, r.Sized
  blobs : ∀ b ∈ p.blobs, b.Sized p.blobSlotSize
  prefix_le : BLOB_PREFIX + 64 ≤ p.blobSlotSize
  size_le : p.blobSlotSize ≤ 2048
  dirs_lt : p.dirs.length < 65536

-- ---------------------------------------------------------------------------
-- Records
-- ---------------------------------------------------------------------------

theorem usedSlots_fst (p : Pools) :
    (p.dirs.zipIdx.filter fun e => e.1.used).map Prod.fst = p.dirs.filter DirRec.used := by
  have hmap := List.filter_map (p := DirRec.used) (f := Prod.fst) (l := p.dirs.zipIdx)
  rw [List.zipIdx_map_fst] at hmap
  exact hmap.symm

/-- The used slots, each with its number. -/
theorem rankKeys_slotOf (now : UInt32) (p : Pools) :
    ((rankKeys now p).filterMap (slotOf p)).map Prod.snd = p.dirs.filter DirRec.used := by
  have hslot : ∀ e ∈ p.dirs.zipIdx.filter fun e => e.1.used,
      (slotOf p ∘ fun e => toLex (dirRank now e.1, e.2)) e = (some ∘ Prod.swap) e := by
    intro e he
    have hget := List.mem_zipIdx_iff_getElem?.1 (List.mem_of_mem_filter he)
    simp [slotOf, hget, Prod.swap]
  rw [rankKeys, List.filterMap_map, List.filterMap_congr hslot, List.filterMap_eq_map, List.map_map]
  exact usedSlots_fst p

theorem rankKeys_nodup (now : UInt32) (p : Pools) : (rankKeys now p).Nodup := by
  have hslots : ((rankKeys now p).map fun k => (ofLex k).2).Nodup := by
    have hnumbers : (p.dirs.zipIdx.map Prod.snd).Nodup := by
      rw [List.zipIdx_map_snd]
      exact List.nodup_range'
    rw [rankKeys, List.map_map]
    exact hnumbers.sublist (List.filter_sublist.map _)
  exact hslots.of_map _

theorem length_rankKeys (now : UInt32) (p : Pools) : (rankKeys now p).length = dirUsed p := by
  rw [rankKeys, List.length_map, dirUsed, List.countP_eq_length_filter]
  rw [← usedSlots_fst, List.length_map]

/-- The records of a snapshot are used ones, none of them twice. -/
theorem snapshotDirs_subperm (now : UInt32) (cap : Nat) (p : Pools) :
    ((snapshotDirs now cap p).map Prod.snd).Subperm (p.dirs.filter DirRec.used) := by
  obtain ⟨l, hp, hs⟩ := Descent.descend_subperm (rankKeys now p) ((cap - IMG_HDR_SZ) / DIR_SLOT_SZ) none
  rw [← rankKeys_slotOf now p]
  exact ⟨_, (hp.filterMap (slotOf p)).map Prod.snd, (hs.filterMap (slotOf p)).map Prod.snd⟩

/-- All of them, where there is room. -/
theorem snapshotDirs_perm (now : UInt32) (p : Pools) (h : IMG_HDR_SZ + dirUsed p * DIR_SLOT_SZ ≤ cap) :
    ((snapshotDirs now cap p).map Prod.snd).Perm (p.dirs.filter DirRec.used) := by
  have hroom : (rankKeys now p).length ≤ (cap - IMG_HDR_SZ) / DIR_SLOT_SZ := by
    rw [length_rankKeys, Nat.le_div_iff_mul_le (by decide)]
    omega
  have hperm := Descent.descend_perm (rankKeys_nodup now p) hroom
  rw [← rankKeys_slotOf now p]
  exact (hperm.filterMap (slotOf p)).map Prod.snd

theorem snapshotDirs_mem (h : r ∈ (snapshotDirs now cap p).map Prod.snd) : r ∈ p.dirs ∧ r.used :=
  List.mem_filter.1 ((snapshotDirs_subperm now cap p).subset h)

theorem length_snapshotDirs_le (now : UInt32) (cap : Nat) (p : Pools) :
    (snapshotDirs now cap p).length ≤ p.dirs.length := by
  have hle := (snapshotDirs_subperm now cap p).length_le
  rw [List.length_map] at hle
  exact hle.trans (List.length_filter_le _ _)

-- ---------------------------------------------------------------------------
-- Blobs
-- ---------------------------------------------------------------------------

theorem snapshotBlobs_mem (h : b ∈ snapshotBlobs p room rs) : ∃ r ∈ rs, blobOf r.dest p = some b := by
  induction rs generalizing room with
  | nil => simp [snapshotBlobs] at h
  | cons r rs ih =>
    cases room with
    | zero => simp [snapshotBlobs] at h
    | succ room =>
      unfold snapshotBlobs at h
      cases hb : blobOf r.dest p with
      | none =>
        rw [hb] at h
        obtain ⟨r', hr', hb'⟩ := ih h
        exact ⟨r', List.mem_cons_of_mem _ hr', hb'⟩
      | some b' =>
        rw [hb] at h
        obtain rfl | h := List.mem_cons.1 h
        · exact ⟨r, List.mem_cons_self, hb⟩
        · obtain ⟨r', hr', hb'⟩ := ih h
          exact ⟨r', List.mem_cons_of_mem _ hr', hb'⟩

/-- In the records' order. -/
theorem snapshotBlobs_sublist (p : Pools) (room : Nat) (rs : List DirRec) :
    ((snapshotBlobs p room rs).map BlobSlot.dest).Sublist (rs.map DirRec.dest) := by
  induction rs generalizing room with
  | nil => simp [snapshotBlobs]
  | cons r rs ih =>
    cases room with
    | zero => simp [snapshotBlobs]
    | succ room =>
      unfold snapshotBlobs
      cases hb : blobOf r.dest p with
      | none => exact (ih (room + 1)).cons _
      | some b =>
        obtain ⟨-, -, hd⟩ := Slots.lookup_spec hb
        simp only [List.map_cons, hd]
        exact (ih room).cons_cons _

/-- With room for every record's blob none is left out. -/
theorem snapshotBlobs_all (h : (rs.filterMap fun r => blobOf r.dest p).length ≤ room) :
    snapshotBlobs p room rs = rs.filterMap fun r => blobOf r.dest p := by
  induction rs generalizing room with
  | nil => cases room <;> rfl
  | cons r rs ih =>
    cases hb : blobOf r.dest p with
    | none =>
      simp only [List.filterMap_cons, hb] at h ⊢
      cases room with
      | zero =>
        rw [List.eq_nil_of_length_eq_zero (Nat.le_zero.1 h)]
        rfl
      | succ room =>
        unfold snapshotBlobs
        rw [hb]
        exact ih h
    | some b =>
      simp only [List.filterMap_cons, hb, List.length_cons] at h ⊢
      cases room with
      | zero => omega
      | succ room =>
        unfold snapshotBlobs
        rw [hb]
        exact congrArg (b :: ·) (ih (Nat.le_of_succ_le_succ h))

-- ---------------------------------------------------------------------------
-- The image read back
-- ---------------------------------------------------------------------------

/-- The room a snapshot has left for blobs. -/
def blobRoom (now : UInt32) (cap : Nat) (p : Pools) : Nat :=
  (cap - IMG_HDR_SZ - (snapshotDirs now cap p).length * DIR_SLOT_SZ) / p.blobSlotSize

/-- The records and the blobs of a snapshot. -/
def savedDirs (now : UInt32) (cap : Nat) (p : Pools) : List DirRec := (snapshotDirs now cap p).map Prod.snd

def savedBlobs (now : UInt32) (cap : Nat) (p : Pools) : List BlobSlot :=
  snapshotBlobs p (blobRoom now cap p) (savedDirs now cap p)

theorem length_savedDirs : (savedDirs now cap p).length = (snapshotDirs now cap p).length := List.length_map _

theorem length_savedBlobs_le : (savedBlobs now cap p).length ≤ (savedDirs now cap p).length := by
  have hle := (snapshotBlobs_sublist p (blobRoom now cap p) (savedDirs now cap p)).length_le
  rwa [List.length_map, List.length_map] at hle

theorem savedBlobs_mem (h : b ∈ savedBlobs now cap p) :
    b ∈ p.blobs ∧ b.used ∧ ∃ r ∈ savedDirs now cap p, r.dest = b.dest := by
  obtain ⟨r, hr, hb⟩ := snapshotBlobs_mem h
  obtain ⟨hmem, hu, hd⟩ := Slots.lookup_spec hb
  exact ⟨hmem, hu, r, hr, hd.symm⟩

/-- The header of a snapshot. -/
def snapshotHdr (now : UInt32) (cap : Nat) (p : Pools) : ImgHdr :=
  { magic := MAGIC, formatVer := FORMAT_VER, featureVer := FEATURE_VER, dirSlotSz := .ofNat DIR_SLOT_SZ,
    dirCount := .ofNat (snapshotDirs now cap p).length, blobSlotSz := .ofNat p.blobSlotSize,
    blobCount := .ofNat (savedBlobs now cap p).length }

theorem rdirSnapshot_eq_some (h : rdirSnapshot now cap seqs p = some image) :
    IMG_HDR_SZ ≤ cap ∧ image = encodeHdr (snapshotHdr now cap p) ++
      ((snapshotDirs now cap p).flatMap (fun e => encodeDir (seqs e.1) e.2) ++
        ((savedBlobs now cap p).flatMap encodeBlob ++ [])) := by
  unfold rdirSnapshot at h
  split at h
  · cases h
  · next hcap => exact ⟨not_lt.1 hcap, (Option.some.inj h).symm⟩

theorem length_encodeHdr (h : ImgHdr) (hm : h.magic.length = 4) : (encodeHdr h).length = IMG_HDR_SZ := by
  simp only [encodeHdr, List.length_append, Bytes.length_le, hm]
  rfl

theorem u16_toNat {n : Nat} (h : n < 65536) : (UInt16.ofNat n).toNat = n := UInt16.toNat_ofNat_of_lt' h

section Saved

variable (hs : rdirSnapshot now cap seqs p = some image) (hp : p.Sized)
include hs

theorem imgHdr_snapshot : imgHdr image = snapshotHdr now cap p := by
  obtain ⟨-, rfl⟩ := rdirSnapshot_eq_some hs
  exact imgHdr_encodeHdr _ rfl _

include hp

theorem dirCount_snapshot : (imgHdr image).dirCount.toNat = (savedDirs now cap p).length := by
  have hle := length_snapshotDirs_le now cap p
  have hlt := hp.dirs_lt
  rw [imgHdr_snapshot hs, length_savedDirs, snapshotHdr, u16_toNat (by omega)]

theorem blobCount_snapshot : (imgHdr image).blobCount.toNat = (savedBlobs now cap p).length := by
  have hle := length_snapshotDirs_le now cap p
  have hle' : (savedBlobs now cap p).length ≤ (savedDirs now cap p).length := length_savedBlobs_le
  have hlt := hp.dirs_lt
  rw [length_savedDirs] at hle'
  rw [imgHdr_snapshot hs, snapshotHdr, u16_toNat (by omega)]

theorem blobSlotSz_snapshot : (imgHdr image).blobSlotSz.toNat = p.blobSlotSize := by
  have hle := hp.size_le
  rw [imgHdr_snapshot hs, snapshotHdr, u16_toNat (by omega)]

omit hs in
theorem sized_saved (e : Nat × DirRec) (he : e ∈ snapshotDirs now cap p) : e.2.Sized :=
  hp.dirs e.2 (snapshotDirs_mem (List.mem_map_of_mem he)).1

omit hs in
theorem length_encodedDirs (seqs : Nat → UInt16) :
    ((snapshotDirs now cap p).flatMap fun e => encodeDir (seqs e.1) e.2).length
      = (savedDirs now cap p).length * DIR_SLOT_SZ := by
  rw [List.length_flatMap, List.map_congr_left fun e he => length_encodeDir (sized_saved hp e he) _,
    length_savedDirs]
  simp

theorem imageDirs_snapshot : imageDirs image = savedDirs now cap p := by
  rw [imageDirs, dirCount_snapshot hs hp, length_savedDirs]
  obtain ⟨-, rfl⟩ := rdirSnapshot_eq_some hs
  exact rows_flatMap (fun e he => length_encodeDir (sized_saved hp e he) _)
    (fun e he => decodeDir_encodeDir (sized_saved hp e he) _) (length_encodeHdr _ rfl)

theorem imageBlobs_snapshot : imageBlobs p.blobSlotSize image = savedBlobs now cap p := by
  have hpre := hp.prefix_le
  have hblob : ∀ b ∈ savedBlobs now cap p, b.Sized p.blobSlotSize := fun b hb => hp.blobs b (savedBlobs_mem hb).1
  rw [imageBlobs, blobCount_snapshot hs hp, dirCount_snapshot hs hp]
  obtain ⟨-, rfl⟩ := rdirSnapshot_eq_some hs
  rw [← List.append_assoc]
  calc rows (decodeBlob p.blobSlotSize) _ _ p.blobSlotSize (savedBlobs now cap p).length
      = (savedBlobs now cap p).map id :=
        rows_flatMap (fun b hb => length_encodeBlob (hblob b hb) (by omega))
          (fun b hb => decodeBlob_encodeBlob (hblob b hb))
          (by rw [List.length_append, length_encodeHdr _ rfl, length_encodedDirs hp])
    _ = savedBlobs now cap p := List.map_id _

end Saved

theorem blobSlotSize_admitted (hs : rdirSnapshot now cap seqs p = some image) (hp : p.Sized) (ha : a.admits image) :
    a.blobSlotSize = p.blobSlotSize := by
  have hsz := blobSlotSz_snapshot hs hp
  simp only [Arena.admits, decide_eq_true_eq] at ha
  rw [← hsz, ha.2.2.2.2.2.1]

/-- A snapshot loaded where it is admitted: its records and blobs, then free slots. -/
theorem rdirInit_snapshot (hs : rdirSnapshot now cap seqs p = some image) (hp : p.Sized) (ha : a.admits image) :
    rdirInit a (some image) =
      { a.empty with
        dirs := savedDirs now cap p ++ .replicate (a.dirSlots - (savedDirs now cap p).length) .zero
        blobs := savedBlobs now cap p ++
          .replicate (a.blobSlots - (savedBlobs now cap p).length) (.zero a.blobSlotSize) } := by
  rw [rdirInit, if_pos ha, pools_imageLoad ha, imageDirs_snapshot hs hp, blobSlotSize_admitted hs hp ha,
    imageBlobs_snapshot hs hp, dirCount_snapshot hs hp, blobCount_snapshot hs hp]

end MicroReticulum.Directory
