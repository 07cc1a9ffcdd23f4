import MicroReticulum.Directory.Guard
import MicroReticulum.Directory.Writer

/-!
# The store's three pools

Guard entries, directory records and blob slots, and the writer's operations on
all of them: find or allocate a slot, evict where there is none, and carry out
the stores of the operation on the record. Times are the caller's reading of
the clock; the counters of the statistics are left out.
-/

namespace MicroReticulum.Directory

open Lib

def CAT_EPH_LAPSED : UInt8 := 3
def CAT_IN_USE : UInt8 := 7

/-- `RDIR_DEFAULT_DECAY_S`. -/
def DEFAULT_DECAY : UInt32 := 24 * 60 * 60

def PATH_LAST_USED_STALE : UInt32 := 60 * 60 * 48

/-- `RDIR_BLOB_PREFIX`: destination, length and flags before the raw announce. -/
def BLOB_PREFIX : Nat := 20

structure BlobSlot where
  dest : Bytes
  len : UInt16
  flags : UInt16
  /-- The rest of the slot. -/
  body : Bytes
  deriving DecidableEq, Repr

def BlobSlot.used (b : BlobSlot) : Bool := b.flags &&& 1 ≠ 0

def BlobSlot.zero (size : Nat) : BlobSlot :=
  { dest := .replicate DEST_LEN 0, len := 0, flags := 0, body := .replicate (size - BLOB_PREFIX) 0 }

/-- A slot wiped and filled with a raw announce. -/
def BlobSlot.holding (size : Nat) (dest raw : Bytes) : BlobSlot :=
  { dest, len := .ofNat raw.length, flags := 1,
    body := raw ++ .replicate (size - BLOB_PREFIX - raw.length) 0 }

structure Pools where
  blobSlotSize : Nat
  guards : List GuardRec
  dirs : List DirRec
  blobs : List BlobSlot
  deriving DecidableEq

/-- An arena no image was loaded into. -/
def Pools.empty (blobSlotSize guardSlots dirSlots blobSlots : Nat) : Pools :=
  { blobSlotSize, guards := .replicate guardSlots .zero, dirs := .replicate dirSlots .zero,
    blobs := .replicate blobSlots (.zero blobSlotSize) }

-- ---------------------------------------------------------------------------
-- Lookup and ranks
-- ---------------------------------------------------------------------------

def dirFind (dest : Bytes) (p : Pools) : Option Nat := Slots.find DirRec.used DirRec.dest dest p.dirs

def blobFind (dest : Bytes) (p : Pools) : Option Nat := Slots.find BlobSlot.used BlobSlot.dest dest p.blobs

def recordOf (dest : Bytes) (p : Pools) : Option DirRec := Slots.lookup DirRec.used DirRec.dest dest p.dirs

def blobOf (dest : Bytes) (p : Pools) : Option BlobSlot := Slots.lookup BlobSlot.used BlobSlot.dest dest p.blobs

/-- A route that carried traffic lately. -/
def DirRec.inUse (now : UInt32) (r : DirRec) : Bool :=
  r.flags &&& F_ROUTE ≠ 0 ∧ r.lastUsed ≠ 0 ∧ now - r.lastUsed < PATH_LAST_USED_STALE

def dirCategory (now : UInt32) (r : DirRec) : UInt8 :=
  let cat := if r.prio ≠ 0 then r.prio else dirStaticPrio r
  let decay := if r.claimDecay ≠ 0 then r.claimDecay else DEFAULT_DECAY
  let cat := if cat = CAT_EPH_LIVE ∧ now - r.claimTouch > decay then CAT_EPH_LAPSED else cat
  if r.inUse now then CAT_IN_USE else cat

/-- Within a category the oldest goes first. -/
def dirOrder (r : DirRec) (cat : UInt8) : UInt32 :=
  if cat = CAT_IN_USE then r.lastUsed
  else if cat = CAT_EPH_LAPSED ∨ cat = CAT_EPH_LIVE then r.claimTouch
  else if cat = CAT_PERSIST then
    if r.claims &&& CLAIM_PRESENT_MASK ≠ 0 then r.claimTouch else r.lastHeard
  else r.lastHeard

/-- Categories first, then the order within one. -/
abbrev Rank := ℕ ×ₗ ℕ

def dirRank (now : UInt32) (r : DirRec) : Rank :=
  toLex ((dirCategory now r).toNat, (dirOrder r (dirCategory now r)).toNat)

/-- A blob ranks as its record does, and first where there is none. -/
def blobRank (now : UInt32) (p : Pools) (b : BlobSlot) : Rank :=
  match recordOf b.dest p with
  | some r => dirRank now r
  | none => toLex (0, 0)

-- ---------------------------------------------------------------------------
-- Eviction and allocation
-- ---------------------------------------------------------------------------

/-- A record once the stores are through. -/
def stored (stores : Stores) (r : DirRec) : DirRec :=
  stores.foldl (fun r s => match s with
    | .put f => f r
    | _ => r) r

def setDir (i : Nat) (stores : Stores) (p : Pools) : Pools :=
  match p.dirs[i]? with
  | none => p
  | some r => { p with dirs := p.dirs.set i (stored stores r) }

def blobFree (i : Nat) (p : Pools) : Pools := { p with blobs := p.blobs.set i (.zero p.blobSlotSize) }

/-- The blob of a destination, where it has one, freed. -/
def freeBlobOf (dest : Bytes) (p : Pools) : Pools :=
  match blobFind dest p with
  | none => p
  | some i => blobFree i p

def evictOneDir (now : UInt32) (p : Pools) : Option Pools :=
  (Slots.victim DirRec.used (dirRank now) p.dirs).map fun i =>
    match p.dirs[i]? with
    | none => p
    | some victim => setDir i (written recClear) (freeBlobOf victim.dest p)

def evictOneBlob (now : UInt32) (p : Pools) : Option Pools :=
  (Slots.victim BlobSlot.used (blobRank now p) p.blobs).map fun i => blobFree i p

/-- The pools after an eviction, if there was need of one, and a free slot. -/
def dirAlloc (now : UInt32) (p : Pools) : Option (Pools × Nat) :=
  match Slots.free DirRec.used p.dirs with
  | some i => some (p, i)
  | none => (evictOneDir now p).bind fun p => (Slots.free DirRec.used p.dirs).map (p, ·)

def blobAlloc (now : UInt32) (p : Pools) : Option (Pools × Nat) :=
  match Slots.free BlobSlot.used p.blobs with
  | some i => some (p, i)
  | none => (evictOneBlob now p).bind fun p => (Slots.free BlobSlot.used p.blobs).map (p, ·)

-- ---------------------------------------------------------------------------
-- Operations
-- ---------------------------------------------------------------------------

/-- An operation on a record that is there and meets the condition. -/
def onDir (dest : Bytes) (ok : DirRec → Bool) (stores : Stores) (p : Pools) : Pools :=
  match dirFind dest p with
  | none => p
  | some i => if (p.dirs[i]?).any ok then setDir i stores p else p

/-- An operation that allocates where the record is not there; `none` where no
slot is to be had. -/
def onDirOrNew (now : UInt32) (dest : Bytes) (fresh stores : Stores) (p : Pools) : Option Pools :=
  match dirFind dest p with
  | some i => some (setDir i stores p)
  | none => (dirAlloc now p).map fun (p, i) => setDir i (recClear ++ fresh ++ stores) p

/-- The blob layer of an ingest. An announce too long for a slot is not kept. -/
def ingestBlob (now : UInt32) (dest raw : Bytes) (p : Pools) : Pools :=
  if raw.length = 0 ∨ p.blobSlotSize < raw.length + BLOB_PREFIX then p
  else match blobFind dest p with
    | some i => { p with blobs := p.blobs.set i (.holding p.blobSlotSize dest raw) }
    | none =>
      match blobAlloc now p with
      | none => p
      | some (p, i) => { p with blobs := p.blobs.set i (.holding p.blobSlotSize dest raw) }

/-- With no slot for the record nothing is stored at all. -/
def rdirIngest (now : UInt32) (dest : Bytes) (a : Announce) (raw : Option Bytes) (dirLayer blobLayer : Bool)
    (p : Pools) : Pools :=
  match if dirLayer then onDirOrNew now dest [] (ingestStores dest a now) p else some p with
  | none => p
  | some p =>
    match raw with
    | some raw => if blobLayer then ingestBlob now dest raw p else p
    | none => p

def rdirTouchUsed (now : UInt32) (dest : Bytes) (expires : UInt32) : Pools → Pools :=
  onDir dest (fun _ => true)
    [.put fun r => { r with lastUsed := now },
     .put fun r => if expires > r.expires then { r with expires } else r]

def rdirMarkAlive (now : UInt32) (dest : Bytes) : Pools → Pools :=
  onDir dest (fun r => ¬ (r.lastAlive ≠ 0 ∧ now - r.lastAlive < ALIVE_RESOLUTION))
    [.put fun r => { r with lastAlive := now }]

def rdirClearRoute (dest : Bytes) : Pools → Pools :=
  onDir dest (fun r => r.flags &&& F_ROUTE ≠ 0) clearRouteStores

def rdirClearAllRoutes (p : Pools) : Pools :=
  { p with dirs := p.dirs.map fun r =>
      if r.used ∧ r.flags &&& F_ROUTE ≠ 0 then stored clearRouteStores r else r }

def rdirForget (dest : Bytes) (p : Pools) : Pools :=
  onDir dest (fun _ => true) memset (freeBlobOf dest p)

def rdirClaim (now : UInt32) (dest : Bytes) (c : Claim) (p : Pools) : Pools :=
  if CONSUMER_COUNT ≤ c.consumer then p
  else (onDirOrNew now dest
    [.put fun r => { r with dest }, setFlags F_USED, .put fun r => { r with lastHeard := now }]
    (claimStores c now) p).getD p

def rdirClaimTouch (now : UInt32) (dest : Bytes) (consumer : UInt32) (p : Pools) : Pools :=
  if CONSUMER_COUNT ≤ consumer then p
  else onDir dest (fun r => r.claims &&& consumerBit consumer ≠ 0) [.put fun r => { r with claimTouch := now }] p

def rdirClaimDrop (dest : Bytes) (consumer : UInt32) (p : Pools) : Pools :=
  if CONSUMER_COUNT ≤ consumer then p else onDir dest (fun _ => true) (claimDropStores consumer) p

def rdirSeedPubkey (now : UInt32) (dest pk : Bytes) (p : Pools) : Pools :=
  (onDirOrNew now dest
    [.put fun r => { r with dest }, .put fun r => { r with lastHeard := now }, setFlags F_USED, setPrio]
    [.put fun r => { r with pubkey := pk }, setFlags F_PUBKEY] p).getD p

/-- `while (n > target && evict()) n--`, from the number of slots in use. -/
def evictDown (evict : Pools → Option Pools) : Nat → Pools → Pools
  | 0, p => p
  | n + 1, p =>
    match evict p with
    | none => p
    | some p => evictDown evict n p

def dirUsed (p : Pools) : Nat := p.dirs.countP DirRec.used

def blobUsedCount (p : Pools) : Nat := p.blobs.countP BlobSlot.used

def rdirEvictTo (now : UInt32) (dirTarget blobTarget : Nat) (p : Pools) : Pools :=
  let p := evictDown (evictOneDir now) (dirUsed p - dirTarget) p
  evictDown (evictOneBlob now) (blobUsedCount p - blobTarget) p

inductive PoolOp where
  | ingest (now : UInt32) (dest : Bytes) (a : Announce) (raw : Option Bytes) (blobLayer : Bool)
  | touchUsed (now : UInt32) (dest : Bytes) (expires : UInt32)
  | markAlive (now : UInt32) (dest : Bytes)
  | clearRoute (dest : Bytes)
  | clearAllRoutes
  | forget (dest : Bytes)
  | claim (now : UInt32) (dest : Bytes) (c : Claim)
  | claimTouch (now : UInt32) (dest : Bytes) (consumer : UInt32)
  | claimDrop (dest : Bytes) (consumer : UInt32)
  | seedPubkey (now : UInt32) (dest pk : Bytes)
  | evictTo (now : UInt32) (dirTarget blobTarget : Nat)
  | guardFresh (c : Check)
  deriving DecidableEq, Repr

/-- Every ingest stores the record. -/
def poolStep (p : Pools) : PoolOp → Pools
  | .ingest now dest a raw blobLayer => rdirIngest now dest a raw true blobLayer p
  | .touchUsed now dest expires => rdirTouchUsed now dest expires p
  | .markAlive now dest => rdirMarkAlive now dest p
  | .clearRoute dest => rdirClearRoute dest p
  | .clearAllRoutes => rdirClearAllRoutes p
  | .forget dest => rdirForget dest p
  | .claim now dest c => rdirClaim now dest c p
  | .claimTouch now dest consumer => rdirClaimTouch now dest consumer p
  | .claimDrop dest consumer => rdirClaimDrop dest consumer p
  | .seedPubkey now dest pk => rdirSeedPubkey now dest pk p
  | .evictTo now dirTarget blobTarget => rdirEvictTo now dirTarget blobTarget p
  | .guardFresh c => { p with guards := (rdirGuardFresh c p.guards).1 }

end MicroReticulum.Directory
