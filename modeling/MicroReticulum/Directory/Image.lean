import MicroReticulum.Directory.Pools
import MicroReticulum.Lib.Descent
import MicroReticulum.Lib.Memory

/-!
# The image

`rdirSnapshot` writes the records in use, most valuable first, and after them
their blobs. `imageLoad` expands such an image inside the arena it was read
into. A record lies in the image as it does in memory.
-/

namespace MicroReticulum.Directory

open Lib Lib.Memory

def GUARD_SLOT_SZ : Nat := 28
def DIR_SLOT_SZ : Nat := 160
def IMG_HDR_SZ : Nat := 16

def FORMAT_VER : UInt16 := 2
def FEATURE_VER : UInt16 := 1

/-- `"RDIR"`. -/
def MAGIC : Bytes := [0x52, 0x44, 0x49, 0x52]

-- ---------------------------------------------------------------------------
-- Records in memory
-- ---------------------------------------------------------------------------

def readU16 (mem : Bytes) (off : Nat) : UInt16 := .ofNat (Bytes.ofLe (read mem off 2))

def readU32 (mem : Bytes) (off : Nat) : UInt32 := .ofNat (Bytes.ofLe (read mem off 4))

def readU8 (mem : Bytes) (off : Nat) : UInt8 := (read mem off 1).headD 0

/-- `seq` is the slot's counter, which is no part of the record. -/
def encodeDir (seq : UInt16) (r : DirRec) : Bytes :=
  r.dest ++ (r.pubkey ++ (r.nameHash ++ (Bytes.le 4 r.lastHeard.toNat ++ ([r.hops] ++ ([r.flags] ++
  (Bytes.le 4 r.claims.toNat ++ (r.receivedFrom ++ (r.ifaceHash ++ (Bytes.le 4 r.expires.toNat ++
  (Bytes.le 4 r.lastUsed.toNat ++ (Bytes.le 4 r.timestamp.toNat ++ (Bytes.le 2 seq.toNat ++ ([r.prio] ++
  ([0] ++ (Bytes.le 4 r.claimTouch.toNat ++ (Bytes.le 4 r.claimDecay.toNat ++
  (Bytes.le 4 r.lastAlive.toNat ++ [])))))))))))))))))

/-- By the offsets the source asserts. -/
def decodeDir (slot : Bytes) : DirRec where
  dest := read slot 0 DEST_LEN
  pubkey := read slot 16 PUBKEY_LEN
  nameHash := read slot 80 NAME_HASH_LEN
  lastHeard := readU32 slot 90
  hops := readU8 slot 94
  flags := readU8 slot 95
  claims := readU32 slot 96
  receivedFrom := read slot 100 DEST_LEN
  ifaceHash := read slot 116 DEST_LEN
  expires := readU32 slot 132
  lastUsed := readU32 slot 136
  timestamp := readU32 slot 140
  prio := readU8 slot 146
  claimTouch := readU32 slot 148
  claimDecay := readU32 slot 152
  lastAlive := readU32 slot 156

def encodeBlob (b : BlobSlot) : Bytes :=
  b.dest ++ (Bytes.le 2 b.len.toNat ++ (Bytes.le 2 b.flags.toNat ++ (b.body ++ [])))

def decodeBlob (size : Nat) (slot : Bytes) : BlobSlot where
  dest := read slot 0 DEST_LEN
  len := readU16 slot 16
  flags := readU16 slot 18
  body := read slot BLOB_PREFIX (size - BLOB_PREFIX)

structure ImgHdr where
  magic : Bytes
  formatVer : UInt16
  featureVer : UInt16
  dirSlotSz : UInt16
  dirCount : UInt16
  blobSlotSz : UInt16
  blobCount : UInt16
  deriving DecidableEq, Repr

def encodeHdr (h : ImgHdr) : Bytes :=
  h.magic ++ (Bytes.le 2 h.formatVer.toNat ++ (Bytes.le 2 h.featureVer.toNat ++ (Bytes.le 2 h.dirSlotSz.toNat ++
  (Bytes.le 2 h.dirCount.toNat ++ (Bytes.le 2 h.blobSlotSz.toNat ++ (Bytes.le 2 h.blobCount.toNat ++ []))))))

def imgHdr (image : Bytes) : ImgHdr where
  magic := read image 0 4
  formatVer := readU16 image 4
  featureVer := readU16 image 6
  dirSlotSz := readU16 image 8
  dirCount := readU16 image 10
  blobSlotSz := readU16 image 12
  blobCount := readU16 image 14

-- ---------------------------------------------------------------------------
-- The snapshot
-- ---------------------------------------------------------------------------

/-- `rdir_rank_t`: the eviction order, made total by the slot. -/
abbrev RankKey := Rank ×ₗ ℕ

def rankKeys (now : UInt32) (p : Pools) : List RankKey :=
  (p.dirs.zipIdx.filter fun e => e.1.used).map fun e => toLex (dirRank now e.1, e.2)

/-- Slot and record of a key. -/
def slotOf (p : Pools) (k : RankKey) : Option (Nat × DirRec) :=
  (p.dirs[(ofLex k).2]?).map fun r => ((ofLex k).2, r)

/-- The records that go out, while there is room. -/
def snapshotDirs (now : UInt32) (cap : Nat) (p : Pools) : List (Nat × DirRec) :=
  (Descent.descend (rankKeys now p) ((cap - IMG_HDR_SZ) / DIR_SLOT_SZ) none).filterMap (slotOf p)

/-- The blobs of these records, as far as `room` slots go. -/
def snapshotBlobs (p : Pools) : Nat → List DirRec → List BlobSlot
  | _, [] => []
  | 0, _ => []
  | room + 1, r :: rest =>
    match blobOf r.dest p with
    | none => snapshotBlobs p (room + 1) rest
    | some b => b :: snapshotBlobs p room rest

/-- Where `cap` cannot hold the header nothing is written. `seqs` are the slots'
counters. -/
def rdirSnapshot (now : UInt32) (cap : Nat) (seqs : Nat → UInt16) (p : Pools) : Option Bytes :=
  if cap < IMG_HDR_SZ then none
  else
    let dirs := snapshotDirs now cap p
    let room := (cap - IMG_HDR_SZ - dirs.length * DIR_SLOT_SZ) / p.blobSlotSize
    let blobs := snapshotBlobs p room (dirs.map Prod.snd)
    let hdr : ImgHdr :=
      { magic := MAGIC, formatVer := FORMAT_VER, featureVer := FEATURE_VER, dirSlotSz := .ofNat DIR_SLOT_SZ,
        dirCount := .ofNat dirs.length, blobSlotSz := .ofNat p.blobSlotSize, blobCount := .ofNat blobs.length }
    some (encodeHdr hdr ++ (dirs.flatMap (fun e => encodeDir (seqs e.1) e.2) ++ (blobs.flatMap encodeBlob ++ [])))

/-- What a full snapshot costs. -/
def rdirImageBytes (p : Pools) : Nat :=
  IMG_HDR_SZ + dirUsed p * DIR_SLOT_SZ + blobUsedCount p * p.blobSlotSize

-- ---------------------------------------------------------------------------
-- The arena
-- ---------------------------------------------------------------------------

/-- The pools an arena is laid out for; `rdirInit` and its setters keep the
numbers in these bounds. -/
structure Arena where
  blobSlotSize : Nat
  guardSlots : Nat
  dirSlots : Nat
  blobSlots : Nat
  prefix_le : BLOB_PREFIX + 64 ≤ blobSlotSize
  size_le : blobSlotSize ≤ 2048
  dirSlots_lt : dirSlots < 65536
  blobSlots_lt : blobSlots < 65536

namespace Arena

variable (a : Arena)

def guardBytes : Nat := a.guardSlots * GUARD_SLOT_SZ

def dirBytes : Nat := a.dirSlots * DIR_SLOT_SZ

def blobBytes : Nat := a.blobSlots * a.blobSlotSize

def allocBytes : Nat := a.guardBytes + a.dirBytes + a.blobBytes + IMG_HDR_SZ

def empty : Pools := .empty a.blobSlotSize a.guardSlots a.dirSlots a.blobSlots

/-- The pools in the arena's memory. The guard section is only ever looked at
cleared, and a cleared entry is a free one. -/
def pools (mem : Bytes) : Pools where
  blobSlotSize := a.blobSlotSize
  guards := .replicate a.guardSlots .zero
  dirs := rows decodeDir mem a.guardBytes DIR_SLOT_SZ a.dirSlots
  blobs := rows (decodeBlob a.blobSlotSize) mem (a.guardBytes + a.dirBytes) a.blobSlotSize a.blobSlots

/-- The image passes the checks; one longer than the arena is refused by the hook. -/
def admits (image : Bytes) : Bool :=
  let hdr := imgHdr image
  image.length ≤ a.allocBytes ∧ IMG_HDR_SZ ≤ image.length ∧ hdr.magic = MAGIC ∧ hdr.formatVer = FORMAT_VER ∧
    hdr.dirSlotSz.toNat = DIR_SLOT_SZ ∧ hdr.blobSlotSz.toNat = a.blobSlotSize ∧
    hdr.dirCount.toNat ≤ a.dirSlots ∧ hdr.blobCount.toNat ≤ a.blobSlots ∧
    IMG_HDR_SZ + hdr.dirCount.toNat * DIR_SLOT_SZ + hdr.blobCount.toNat * a.blobSlotSize ≤ image.length

end Arena

-- ---------------------------------------------------------------------------
-- The expansion
-- ---------------------------------------------------------------------------

inductive MemOp where
  | move (dst src n : Nat)
  | fill (off n : Nat)
  deriving DecidableEq, Repr

def MemOp.run (mem : Bytes) : MemOp → Bytes
  | .move dst src n => Memory.move mem dst src n
  | .fill off n => Memory.fill mem off n 0

/-- The cells an operation writes, in order, and for each the cell it is copied
from. Down, `memmove` goes from the first cell to the last. -/
def MemOp.cells : MemOp → List (Nat × Option Nat)
  | .move dst src n => (List.range n).map fun k => (dst + k, some (src + k))
  | .fill off n => (List.range n).map fun k => (off + k, none)

/-- The image slid to the back, then every section moved down into its place and
followed by zeroes. -/
def expansion (a : Arena) (dirCount blobCount : Nat) : List MemOp :=
  let dDisk := dirCount * DIR_SLOT_SZ
  let bDisk := blobCount * a.blobSlotSize
  let expect := IMG_HDR_SZ + dDisk + bDisk
  let tail := a.allocBytes - expect
  let src := tail + IMG_HDR_SZ
  let dir := a.guardBytes
  let blob := a.guardBytes + a.dirBytes
  [.move tail 0 expect, .fill 0 a.guardBytes,
   .move dir src dDisk, .fill (dir + dDisk) (a.dirBytes - dDisk),
   .move blob (src + dDisk) bDisk, .fill (blob + bDisk) (a.blobBytes - bDisk)]

/-- The image at the front of the cleared arena, expanded. -/
def imageLoad (a : Arena) (image : Bytes) : Bytes :=
  let hdr := imgHdr image
  (expansion a hdr.dirCount.toNat hdr.blobCount.toNat).foldl MemOp.run
    (write (.replicate a.allocBytes 0) 0 image)

/-- The store an arena starts with, given what the image hook returns. -/
def rdirInit (a : Arena) (image : Option Bytes) : Pools :=
  match image with
  | none => a.empty
  | some image => if a.admits image then a.pools (imageLoad a image) else a.empty

end MicroReticulum.Directory
