import MicroReticulum.Directory.Reachable

/-!
# What an image may hold

The checks of `imageLoad` are about the header. Whether the store is sound
after an admitted image depends on the records and the blobs in it, which are
taken over as they are.
-/

namespace MicroReticulum.Directory

open Lib

variable {p : Pools} {a : Arena} {image : Bytes} {size : Nat}

/-- How many bytes `rdirCopyBlob` copies out of the blob's slot, from behind its prefix on. -/
def rdirCopyBlob (dest : Bytes) (cap : Nat) (p : Pools) : Option Nat :=
  match blobOf dest p with
  | none => none
  | some b => if b.len = 0 ∨ cap < b.len.toNat then none else some b.len.toNat

/-- The pools have the arena's counts, no destination is stored twice, every blob
is a stored record's, and no blob is read outside its slot. -/
structure SoundStore (a : Arena) (p : Pools) : Prop where
  counts : p.guards.length = a.guardSlots ∧ p.dirs.length = a.dirSlots ∧ p.blobs.length = a.blobSlots
  guards : Slots.Distinct GuardRec.used GuardRec.dest4 p.guards
  dirs : Slots.Distinct DirRec.used DirRec.dest p.dirs
  blobs : Slots.Distinct BlobSlot.used BlobSlot.dest p.blobs
  owned : ∀ b ∈ p.blobs, b.used → Slots.Has DirRec.used DirRec.dest b.dest p.dirs
  blobLen : ∀ b ∈ p.blobs, b.used → BLOB_PREFIX + b.len.toNat ≤ p.blobSlotSize
  copies : ∀ dest cap n, rdirCopyBlob dest cap p = some n → BLOB_PREFIX + n ≤ p.blobSlotSize

/-- The same of the records and the blobs that lie in an image. -/
structure SoundImage (size : Nat) (image : Bytes) : Prop where
  dirs : (((imageDirs image).filter DirRec.used).map DirRec.dest).Nodup
  blobs : (((imageBlobs size image).filter BlobSlot.used).map BlobSlot.dest).Nodup
  owned : ∀ b ∈ imageBlobs size image, b.used → ∃ r ∈ imageDirs image, r.used ∧ r.dest = b.dest
  blobLen : ∀ b ∈ imageBlobs size image, b.used → BLOB_PREFIX + b.len.toNat ≤ size

theorem copies_of_blobLen (h : ∀ b ∈ p.blobs, b.used → BLOB_PREFIX + b.len.toNat ≤ p.blobSlotSize) {dest : Bytes}
    {cap n : Nat} (hc : rdirCopyBlob dest cap p = some n) : BLOB_PREFIX + n ≤ p.blobSlotSize := by
  unfold rdirCopyBlob at hc
  cases hb : blobOf dest p with
  | none => simp [hb] at hc
  | some b =>
    obtain ⟨hmem, hu, -⟩ := Slots.lookup_spec hb
    simp only [hb] at hc
    split at hc
    · cases hc
    · cases hc
      exact h b hmem hu

theorem SoundStore.empty (a : Arena) : SoundStore a a.empty := by
  have hc := Consistent.empty a
  have hlen : ∀ b ∈ a.empty.blobs, b.used → BLOB_PREFIX + b.len.toNat ≤ a.empty.blobSlotSize := by
    intro b hb hu
    simp [not_mem_unused hb (blobZero_used _)] at hu
  refine ⟨?_, hc.guards, hc.dirs, hc.blobs, hc.owned, hlen, fun _ _ _ => copies_of_blobLen hlen⟩
  simp [Arena.empty, Pools.empty]

/-- Free slots behind the sections change nothing. -/
theorem filter_section {α : Type*} {used : α → Bool} {l : List α} {z : α} {n : Nat} (hz : used z = false) :
    (l ++ .replicate n z).filter used = l.filter used := by
  rw [List.filter_append, List.filter_replicate_of_neg (by simp [hz]), List.append_nil]

theorem soundStore_admitted (h : a.admits image) :
    SoundStore a (rdirInit a (some image)) ↔ SoundImage a.blobSlotSize image := by
  obtain ⟨-, hdc, hbc, -⟩ := admits_spec h
  rw [rdirInit, if_pos h, pools_imageLoad h]
  constructor
  · rintro ⟨-, -, hdirs, hblobs, howned, hlen, -⟩
    rw [Slots.distinct_iff_nodup, filter_section dirZero_used] at hdirs
    rw [Slots.distinct_iff_nodup, filter_section (blobZero_used _)] at hblobs
    refine ⟨hdirs, hblobs, fun b hb hu => ?_, fun b hb hu => hlen b (List.mem_append_left _ hb) hu⟩
    obtain ⟨r, hr, hur, hd⟩ := howned b (List.mem_append_left _ hb) hu
    obtain hr | hr := List.mem_append.1 hr
    · exact ⟨r, hr, hur, hd⟩
    · simp [not_mem_unused hr dirZero_used] at hur
  · rintro ⟨hdirs, hblobs, howned, hlen⟩
    have hlen' : ∀ b ∈ imageBlobs a.blobSlotSize image ++
        .replicate (a.blobSlots - (imgHdr image).blobCount.toNat) (.zero a.blobSlotSize),
        b.used → BLOB_PREFIX + b.len.toNat ≤ a.blobSlotSize := by
      intro b hb hu
      obtain hb | hb := List.mem_append.1 hb
      · exact hlen b hb hu
      · simp [not_mem_unused hb (blobZero_used _)] at hu
    refine ⟨?_, (Consistent.empty a).guards, ?_, ?_, fun b hb hu => ?_, hlen', fun _ _ _ => copies_of_blobLen hlen'⟩
    · simp only [List.length_append, List.length_replicate, imageDirs, imageBlobs, Memory.length_rows]
      exact ⟨by simp [Arena.empty, Pools.empty], by omega, by omega⟩
    · rwa [Slots.distinct_iff_nodup, filter_section dirZero_used]
    · rwa [Slots.distinct_iff_nodup, filter_section (blobZero_used _)]
    · obtain hb | hb := List.mem_append.1 hb
      · obtain ⟨r, hr, hur, hd⟩ := howned b hb hu
        exact ⟨r, List.mem_append_left _ hr, hur, hd⟩
      · simp [not_mem_unused hb (blobZero_used _)] at hu

/-- Either the image is discarded or the store is sound, exactly where an image
that passes the header checks is sound itself. -/
theorem rdirInit_sound_iff (a : Arena) (image : Bytes) :
    (rdirInit a (some image) = a.empty ∨ SoundStore a (rdirInit a (some image))) ↔
      (a.admits image → SoundImage a.blobSlotSize image) := by
  have hempty : rdirInit a (some image) = a.empty → SoundStore a (rdirInit a (some image)) := by
    intro he
    rw [he]
    exact .empty a
  rw [or_iff_right_of_imp hempty]
  by_cases h : a.admits image
  · rw [soundStore_admitted h]
    exact ⟨fun hs _ => hs, fun hs => hs h⟩
  · rw [rdirInit, if_neg h]
    exact ⟨fun _ ha => absurd ha h, fun _ => .empty a⟩

/-- A snapshot of one record and its blob, the blob's length spoilt. -/
def spoiltImage : Bytes :=
  let hdr : ImgHdr :=
    { magic := MAGIC, formatVer := FORMAT_VER, featureVer := FEATURE_VER, dirSlotSz := 160, dirCount := 1,
      blobSlotSz := 84, blobCount := 1 }
  let r := { DirRec.zero with dest := .replicate 16 1, flags := F_USED, prio := CAT_UNCLAIMED }
  let b := { BlobSlot.holding 84 (.replicate 16 1) [7] with len := 0xffff }
  encodeHdr hdr ++ (encodeDir 0 r ++ encodeBlob b)

/-- Its blob is read beyond the slot. -/
theorem spoilt_blob_read :
    ¬ (rdirInit smallArena (some spoiltImage) = smallArena.empty ∨
      SoundStore smallArena (rdirInit smallArena (some spoiltImage))) := by
  have hadmits : smallArena.admits spoiltImage := by decide +kernel
  have hblob : (imageBlobs 84 spoiltImage).any fun b => b.used ∧ 84 < BLOB_PREFIX + b.len.toNat := by decide +kernel
  obtain ⟨b, hb, hbad⟩ := List.any_eq_true.1 hblob
  obtain ⟨hu, hlong⟩ := of_decide_eq_true hbad
  intro h
  have hsound : SoundStore smallArena (rdirInit smallArena (some spoiltImage)) := by
    obtain h | h := h
    · rw [h]
      exact .empty smallArena
    · exact h
  exact absurd (((soundStore_admitted hadmits).1 hsound).blobLen b hb hu) (not_le.2 hlong)

end MicroReticulum.Directory
