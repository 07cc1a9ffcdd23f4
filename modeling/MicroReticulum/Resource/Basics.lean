import MicroReticulum.Lib.Blocks
import MicroReticulum.Lib.Outcome
import MicroReticulum.MsgPack.Advertisement

/-!
# What both ends of a resource transfer share

Constants, the packets of a transfer by their contexts, what a call finds
around it. An object's log is what it has
sent and which callbacks it has run, in order.
-/

namespace MicroReticulum.Resource

open Lib (Outcome)
open MsgPack (SIZE ResourceAdvertisement)

-- ---------------------------------------------------------------------------
-- Constants
-- ---------------------------------------------------------------------------

def WINDOW : Nat := 4
def WINDOW_MIN : Nat := 2
def WINDOW_MAX_SLOW : Nat := 10
def WINDOW_MAX_VERY_SLOW : Nat := 4
def WINDOW_MAX_FAST : Nat := 75
def FAST_RATE_THRESHOLD : Nat := WINDOW_MAX_SLOW - WINDOW - 2
def VERY_SLOW_RATE_THRESHOLD : Nat := 2
def RATE_FAST : ℚ := 50 * 1000 / 8
def RATE_VERY_SLOW : ℚ := 2 * 1000 / 8
def WINDOW_FLEXIBILITY : Nat := 4
def MAPHASH_LEN : Nat := 4
/-- What a packet holds. -/
def SDU : Nat := 464
def RANDOM_HASH_SIZE : Nat := 4
/-- The size of a resource's hash. -/
def HASH_SIZE : Nat := 32
def PART_TIMEOUT_FACTOR : ℚ := 4
def PART_TIMEOUT_FACTOR_AFTER_RTT : ℚ := 2
def PROOF_TIMEOUT_FACTOR : ℚ := 3
def HMU_WAIT_FACTOR : ℚ := 7 / 2
def MAX_RETRIES : Int := 16
def MAX_ADV_RETRIES : Int := 4
def SENDER_GRACE_TIME : ℚ := 10
def PROCESSING_GRACE : ℚ := 1
def RETRY_GRACE_TIME : ℚ := 1 / 4
def PER_RETRY_DELAY : ℚ := 1 / 2
def HASHMAP_IS_NOT_EXHAUSTED : UInt8 := 0x00
def HASHMAP_IS_EXHAUSTED : UInt8 := 0xFF
def ADVERTISEMENT_OVERHEAD : Nat := 134
def HASHMAP_MAX_LEN : Nat := (MsgPack.MDU - ADVERTISEMENT_OVERHEAD) / MAPHASH_LEN
def REQ_HASHLIST_MAX : Nat := 64

example : HASHMAP_MAX_LEN = 74 := by decide

-- ---------------------------------------------------------------------------
-- Data
-- ---------------------------------------------------------------------------

inductive Status where
  | none | queued | advertised | transferring | awaitingProof | assembling | complete | failed | corrupt
  deriving DecidableEq, Repr

structure ResourceFlags where
  encrypted : Bool := true
  compressed : Bool := false
  split : Bool := false
  isRequest : Bool := false
  isResponse : Bool := false
  hasMetadata : Bool := false
  deriving DecidableEq, Repr

namespace ResourceFlags

def toByte (f : ResourceFlags) : Nat :=
  (if f.encrypted then 0x01 else 0) ||| (if f.compressed then 0x02 else 0) ||| (if f.split then 0x04 else 0) |||
    (if f.isRequest then 0x08 else 0) ||| (if f.isResponse then 0x10 else 0) |||
    (if f.hasMetadata then 0x20 else 0)

def fromByte (b : Nat) : ResourceFlags where
  encrypted := b.testBit 0
  compressed := b.testBit 1
  split := b.testBit 2
  isRequest := b.testBit 3
  isResponse := b.testBit 4
  hasMetadata := b.testBit 5

@[simp] theorem fromByte_toByte (f : ResourceFlags) : fromByte f.toByte = f := by
  obtain ⟨e, c, s, u, p, x⟩ := f
  cases e <;> cases c <;> cases s <;> cases u <;> cases p <;> cases x <;> rfl

theorem toByte_lt (f : ResourceFlags) : f.toByte < 256 := by
  obtain ⟨e, c, s, u, p, x⟩ := f
  cases e <;> cases c <;> cases s <;> cases u <;> cases p <;> cases x <;> decide

end ResourceFlags

/-- A packet of a transfer, by its context: `RESOURCE_ADV`, `RESOURCE_REQ`,
`RESOURCE_HMU`, `RESOURCE`, `RESOURCE_PRF` and `RESOURCE_ICL`. -/
inductive Wire where
  | advertisement (packed : Bytes)
  | request (data : Bytes)
  | hashmapUpdate (data : Bytes)
  | part (data : Bytes)
  | proof (data : Bytes)
  | cancel (data : Bytes)
  deriving DecidableEq, Repr

inductive Event where
  | sent (w : Wire)
  | progress
  | assembled
  | concluded
  /-- "HMU sequencing error". -/
  | sequencingError
  deriving DecidableEq, Repr

/-- `full_hash` and `bz2_decompress`. -/
structure Codec where
  fullHash : Bytes → Bytes
  length_fullHash : ∀ b, (fullHash b).length = HASH_SIZE
  decompress : Bytes → Nat → Option Bytes

/-- The hash a part is asked for by: of its bytes and the advertised random hash. -/
def Codec.mapHash (c : Codec) (randomHash part : Bytes) : Bytes :=
  (c.fullHash (part ++ randomHash)).left MAPHASH_LEN

@[simp] theorem Codec.length_mapHash (c : Codec) (randomHash part : Bytes) :
    (c.mapHash randomHash part).length = MAPHASH_LEN := by
  rw [mapHash, Bytes.length_left, c.length_fullHash]
  rfl

/-- The hashes in a piece of the map, or in a request. -/
def hashesIn (b : Bytes) : List Bytes := Lib.Blocks.blocks MAPHASH_LEN b

/-- What a call finds around it: the clock, the link beneath, and callbacks. -/
structure Env where
  now : ℚ
  rtt : ℚ := 0
  trafficTimeoutFactor : ℚ := 6
  establishmentCost : Nat := 0
  linkActive : Bool := true
  /-- Packets can be sent over the link; else `send` throws. -/
  sends : Bool := true
  /-- The link's `decrypt`, which is empty where it fails. -/
  decrypt : Bytes → Bytes
  progressThrows : Bool := false
  concludedThrows : Bool := false

/-- Sizes wrap. -/
def sizeSub (a b : Nat) : Nat := (a + SIZE - b) % SIZE

end MicroReticulum.Resource
