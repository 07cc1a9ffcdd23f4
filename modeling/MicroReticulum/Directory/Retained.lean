import MicroReticulum.Directory.Eviction
import MicroReticulum.Directory.ImageSafety

/-!
# The announce kept for a path question

A path question is answered with the stored announce itself. An announce that
fits a slot takes the place of the one before it, or leaves none where no slot
is to be had. One that does not fit leaves the blob as it was, so that the
question is answered with the announce before.
-/

namespace MicroReticulum.Directory

open Lib

variable {p q : Pools} {b : BlobSlot} {now : UInt32} {dest bytes : Bytes} {raw : Option Bytes} {cap : Nat} {a : Announce}

/-- The bytes `rdirCopyBlob` leaves in the buffer. -/
def copiedBlob (dest : Bytes) (cap : Nat) (p : Pools) : Option Bytes :=
  (rdirCopyBlob dest cap p).bind fun n => (blobOf dest p).map fun b => b.body.take n

/-- The announce has bytes, and a slot has room for them. -/
def Retains (size : Nat) (raw : Option Bytes) : Prop :=
  ∃ bytes, raw = some bytes ∧ bytes ≠ [] ∧ bytes.length + BLOB_PREFIX ≤ size

-- ---------------------------------------------------------------------------
-- Reading a blob
-- ---------------------------------------------------------------------------

theorem copiedBlob_none (h : blobOf dest p = none) : copiedBlob dest cap p = none := by
  simp [copiedBlob, rdirCopyBlob, h]

theorem copiedBlob_eq_some (h : copiedBlob dest cap p = some bytes) :
    ∃ b, blobOf dest p = some b ∧ b.len ≠ 0 ∧ bytes = b.body.take b.len.toNat := by
  obtain ⟨n, hn, hbytes⟩ := Option.bind_eq_some_iff.1 h
  obtain ⟨b, hb, rfl⟩ := Option.map_eq_some_iff.1 hbytes
  simp only [rdirCopyBlob, hb] at hn
  split at hn
  · cases hn
  · next hread =>
    cases hn
    exact ⟨b, hb, fun hz => hread (.inl hz), rfl⟩

theorem copiedBlob_congr (h : blobOf dest q = blobOf dest p) : copiedBlob dest cap q = copiedBlob dest cap p := by
  rw [copiedBlob, rdirCopyBlob, h, copiedBlob, rdirCopyBlob]

/-- What is read is never empty, and fits a slot. -/
theorem copiedBlob_retains (hp : p.Sized) (h : copiedBlob dest cap p = some bytes) :
    Retains p.blobSlotSize (some bytes) := by
  obtain ⟨b, hb, hlen, rfl⟩ := copiedBlob_eq_some h
  obtain ⟨hmem, -, -⟩ := Slots.lookup_spec hb
  have hbody := (hp.blobs b hmem).body
  have hpre := hp.prefix_le
  have hpos : b.len.toNat ≠ 0 := fun hz => hlen (UInt16.toNat_inj.1 hz)
  refine ⟨_, rfl, ?_, ?_⟩
  · intro hnil
    have hzero := congrArg List.length hnil
    rw [List.length_take, List.length_nil] at hzero
    omega
  · rw [List.length_take]
    omega

/-- A slot filled with an announce reads as the announce, where the buffer has room for it. -/
theorem copiedBlob_holding (hs : bytes.length + BLOB_PREFIX ≤ p.blobSlotSize) (hle : p.blobSlotSize ≤ 2048)
    (h : blobOf dest q = some (.holding p.blobSlotSize dest bytes)) :
    copiedBlob dest cap q = none ∨ copiedBlob dest cap q = some bytes := by
  cases hc : copiedBlob dest cap q with
  | none => exact .inl rfl
  | some read =>
    obtain ⟨b, hb, -, rfl⟩ := copiedBlob_eq_some hc
    cases h.symm.trans hb
    have hlen : (UInt16.ofNat bytes.length).toNat = bytes.length := u16_toNat (by omega)
    right
    simp [BlobSlot.holding, hlen]

-- ---------------------------------------------------------------------------
-- The two layers of an ingest
-- ---------------------------------------------------------------------------

/-- The record's layer, with room made for it or not, leaves the destination's blob alone. -/
theorem onDirOrNew_blob {fresh stores : Stores} (h : onDirOrNew now dest fresh stores p = some q) :
    blobOf dest q = blobOf dest p ∧ q.blobSlotSize = p.blobSlotSize := by
  have hset : ∀ i stores (s : Pools), blobOf dest (setDir i stores s) = blobOf dest s ∧
      (setDir i stores s).blobSlotSize = s.blobSlotSize := by
    intro i stores s
    unfold setDir
    split <;> exact ⟨rfl, rfl⟩
  unfold onDirOrNew at h
  cases hf : dirFind dest p with
  | some i =>
    rw [hf] at h
    cases h
    exact hset i stores p
  | none =>
    rw [hf] at h
    obtain ⟨⟨s, i⟩, hs, rfl⟩ := Option.map_eq_some_iff.1 h
    obtain ⟨-, rfl | ⟨-, hev⟩⟩ := dirAlloc_eq_some hs
    · exact hset i _ s
    · obtain ⟨j, victim, hr, hu, -, rfl⟩ := evictOneDir_eq_some hev
      -- the victim is a record, and the destination has none
      have hne : dest ≠ victim.dest := by
        rintro rfl
        exact Slots.find_eq_none.1 hf victim (List.mem_of_getElem? hr) hu rfl
      have hsize : (freeBlobOf victim.dest p).blobSlotSize = p.blobSlotSize := by
        unfold freeBlobOf
        split <;> rfl
      have hmid := hset j (written recClear) (freeBlobOf victim.dest p)
      have hend := hset i (recClear ++ fresh ++ stores) (setDir j (written recClear) (freeBlobOf victim.dest p))
      exact ⟨hend.1.trans (hmid.1.trans (blobOf_freeBlobOf hne)), hend.2.trans (hmid.2.trans hsize)⟩

theorem onDirOrNew_eq_none {fresh stores : Stores} (h : onDirOrNew now dest fresh stores p = none) :
    dirFind dest p = none := by
  unfold onDirOrNew at h
  cases hf : dirFind dest p with
  | none => rfl
  | some i => simp [hf] at h

theorem blobOf_new {s : Pools} {size i : Nat} (hf : blobFind dest s = none) (hi : i < s.blobs.length) :
    blobOf dest { s with blobs := s.blobs.set i (.holding size dest bytes) } = some (.holding size dest bytes) := by
  have hkey : (BlobSlot.holding size dest bytes).dest = dest := rfl
  have hf' : Slots.find BlobSlot.used BlobSlot.dest (BlobSlot.holding size dest bytes).dest s.blobs = none := hf
  have hset := Slots.lookup_set_new hf' hi (holding_used _ _ _)
  rwa [hkey] at hset

/-- An announce that fits is there afterwards, unless the destination had no blob and gets none. -/
theorem ingestBlob_fits (hne : bytes ≠ []) (hs : bytes.length + BLOB_PREFIX ≤ p.blobSlotSize) :
    blobOf dest (ingestBlob now dest bytes p) = some (.holding p.blobSlotSize dest bytes) ∨
      blobOf dest (ingestBlob now dest bytes p) = none := by
  have hfit : ¬ (bytes.length = 0 ∨ p.blobSlotSize < bytes.length + BLOB_PREFIX) := by
    rw [List.length_eq_zero_iff, not_or, not_lt]
    exact ⟨hne, hs⟩
  unfold ingestBlob
  rw [if_neg hfit]
  cases hf : blobFind dest p with
  | some i => exact .inl (Slots.lookup_set_self hf (holding_used _ _ _) rfl)
  | none =>
    cases ha : blobAlloc now p with
    | none => exact .inr (Slots.lookup_eq_none.2 hf)
    | some e =>
      obtain ⟨s, i⟩ := e
      obtain ⟨⟨b, hb, -⟩, hroom⟩ := blobAlloc_eq_some ha
      have hi : i < s.blobs.length := (List.getElem?_eq_some_iff.1 hb).1
      left
      obtain rfl | ⟨-, hev⟩ := hroom
      · exact blobOf_new hf hi
      · have hsize : s.blobSlotSize = p.blobSlotSize := by
          obtain ⟨j, c, -, -, -, rfl⟩ := evictOneBlob_eq_some hev
          rfl
        rw [← hsize]
        exact blobOf_new (blobFind_evicted hev hf) hi

theorem ingestBlob_unfit (h : ¬ Retains p.blobSlotSize (some bytes)) : ingestBlob now dest bytes p = p := by
  refine if_pos ?_
  by_contra hfit
  rw [List.length_eq_zero_iff, not_or, not_lt] at hfit
  exact h ⟨bytes, rfl, hfit⟩

-- ---------------------------------------------------------------------------
-- An ingest
-- ---------------------------------------------------------------------------

/-- An announce that is kept: afterwards the blob reads as it, or not at all. -/
theorem copiedBlob_kept (hc : Consistent p) (hp : p.Sized) (hr : Retains p.blobSlotSize raw)
    (h : copiedBlob dest cap (rdirIngest now dest a raw true true p) = some bytes) : raw = some bytes := by
  obtain ⟨sent, rfl, hne, hfit⟩ := hr
  unfold rdirIngest at h
  simp only [if_true] at h
  cases he : onDirOrNew now dest [] (ingestStores dest a now) p with
  | none =>
    -- no slot for the record, and without one there was no blob
    have hno : ¬ Slots.Has BlobSlot.used BlobSlot.dest dest p.blobs := by
      rintro ⟨b, hb, hu, rfl⟩
      exact Slots.not_has_iff.2 (onDirOrNew_eq_none he) (hc.owned b hb hu)
    rw [he] at h
    simp only at h
    rw [copiedBlob_none (Slots.lookup_eq_none.2 (Slots.not_has_iff.1 hno))] at h
    cases h
  | some q =>
    rw [he] at h
    obtain ⟨-, hsize⟩ := onDirOrNew_blob he
    rw [← hsize] at hfit
    have hblob := @ingestBlob_fits q now dest sent hne hfit
    obtain hb | hb := hblob
    · have hread : copiedBlob dest cap _ = none ∨ copiedBlob dest cap _ = some sent :=
        copiedBlob_holding hfit (hsize ▸ hp.size_le) hb
      obtain hread | hread := hread
      · cases hread.symm.trans h
      · exact hread.symm.trans h
    · cases (copiedBlob_none hb).symm.trans h

/-- One that is not kept leaves the blob before it. -/
theorem copiedBlob_left (hr : ¬ Retains p.blobSlotSize raw) :
    copiedBlob dest cap (rdirIngest now dest a raw true true p) = copiedBlob dest cap p := by
  unfold rdirIngest
  simp only [if_true]
  cases he : onDirOrNew now dest [] (ingestStores dest a now) p with
  | none => rfl
  | some q =>
    obtain ⟨hsame, hsize⟩ := onDirOrNew_blob he
    cases raw with
    | none => exact copiedBlob_congr hsame
    | some bytes =>
      rw [← hsize] at hr
      exact (congrArg (copiedBlob dest cap) (ingestBlob_unfit hr)).trans (copiedBlob_congr hsame)

/-- After an ingest the blob reads as the announce or not at all, exactly where
the announce is kept or there was nothing to read. -/
theorem blob_current_iff (h : Reachable p) (now : UInt32) (dest : Bytes) (a : Announce) (raw : Option Bytes)
    (cap : Nat) :
    (∀ bytes, copiedBlob dest cap (rdirIngest now dest a raw true true p) = some bytes → raw = some bytes) ↔
      Retains p.blobSlotSize raw ∨ copiedBlob dest cap p = none := by
  obtain ⟨hc, hp⟩ := h.invariant
  constructor
  · intro hcur
    by_cases hr : Retains p.blobSlotSize raw
    · exact .inl hr
    · rw [copiedBlob_left hr] at hcur
      right
      cases hold : copiedBlob dest cap p with
      | none => rfl
      | some bytes =>
        rw [hcur bytes hold] at hr
        exact absurd (copiedBlob_retains hp hold) hr
  · rintro (hr | hold) bytes hread
    · exact copiedBlob_kept hc hp hr hread
    · by_cases hr : Retains p.blobSlotSize raw
      · exact copiedBlob_kept hc hp hr hread
      · rw [copiedBlob_left hr, hold] at hread
        cases hread

/-- A record with a blob. -/
def storedOne : Pools := poolStep smallArena.empty (.ingest 10 (.replicate 16 1) plainAnnounce (some [7]) true)

theorem storedOne_reachable : Reachable storedOne := .step _ _ (.empty smallArena) ⟨rfl, plainAnnounce_sized⟩

theorem blob_current_iff_stored :
    (∀ bytes, copiedBlob (.replicate 16 1) 500
        (rdirIngest 11 (.replicate 16 1) plainAnnounce (some [8]) true true storedOne) = some bytes →
          some [8] = some bytes) ↔
      Retains storedOne.blobSlotSize (some [8]) ∨ copiedBlob (.replicate 16 1) 500 storedOne = none :=
  blob_current_iff storedOne_reachable 11 (.replicate 16 1) plainAnnounce (some [8]) 500

/-- Sent again at a slot's whole size, the record is heard anew and its blob
still the old one. -/
theorem old_blob_left :
    ¬ ∀ p, Reachable p → ∀ now dest a raw cap bytes,
      copiedBlob dest cap (rdirIngest now dest a raw true true p) = some bytes → raw = some bytes := by
  intro h
  have hread : copiedBlob (.replicate 16 1) 500
      (rdirIngest 11 (.replicate 16 1) plainAnnounce (some (.replicate 84 8)) true true storedOne) = some [7] := by
    decide
  have hold := h storedOne storedOne_reachable _ _ _ _ _ _ hread
  simp [List.replicate] at hold

end MicroReticulum.Directory
