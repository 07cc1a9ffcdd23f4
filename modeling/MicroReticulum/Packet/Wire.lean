import Mathlib.Tactic
import MicroReticulum.Bytes
import MicroReticulum.Link.Data

/-!
# Packets on the wire

`Packet::unpack`, the hashes taken of a packet, and every way Transport
rewrites one it passes on. A function here works on the bytes of a packet that
unpacks; the hash function is a parameter.
-/

namespace MicroReticulum.Wire

open Bytes (byte)

-- ---------------------------------------------------------------------------
-- The header
-- ---------------------------------------------------------------------------

/-- `TRUNCATED_HASHLENGTH / 8`, the length of a destination or a transport id. -/
def DESTINATION_LENGTH : Nat := 16

def HEADER_MAXSIZE : Nat := 35

/-- The flag bit of `HEADER_2`, and the transport type `TRANSPORT`. -/
def HEADER_2 : UInt8 := 0x40
def TRANSPORT : UInt8 := 0x10

def ANNOUNCE : UInt8 := 1
def LINKREQUEST : UInt8 := 2

/-- A destination hash or a transport id. -/
structure TruncatedHash where
  bytes : Bytes
  length_eq : bytes.length = DESTINATION_LENGTH

def flags (raw : Bytes) : UInt8 := raw.headD 0

def isHeader2 (raw : Bytes) : Bool := flags raw &&& HEADER_2 ≠ 0

def packetType (raw : Bytes) : UInt8 := flags raw &&& 3

/-- Where the destination stands: after flags and hops, and in `HEADER_2` after
the transport id. -/
def addressed (raw : Bytes) : Nat := if isHeader2 raw then DESTINATION_LENGTH + 2 else 2

/-- `Packet::unpack` returns `true`. -/
def unpacks (raw : Bytes) : Bool :=
  Reticulum.HEADER_MINSIZE ≤ raw.length ∧ (isHeader2 raw → HEADER_MAXSIZE ≤ raw.length)

def destinationHash (raw : Bytes) : Bytes := raw.mid (addressed raw) DESTINATION_LENGTH

def data (raw : Bytes) : Bytes := raw.drop (addressed raw + DESTINATION_LENGTH + 1)

-- ---------------------------------------------------------------------------
-- Hashes
-- ---------------------------------------------------------------------------

def hashablePart (raw : Bytes) : Bytes := (flags raw &&& 0x0F) :: raw.drop (addressed raw)

def packetHash (sha256 : Bytes → Bytes) (raw : Bytes) : Bytes := sha256 (hashablePart raw)

def truncatedHash (sha256 : Bytes → Bytes) (raw : Bytes) : Bytes :=
  (sha256 (hashablePart raw)).left DESTINATION_LENGTH

/-- The part of a link request that names the link: without its signalling. -/
def linkIdPart (raw : Bytes) : Bytes :=
  if Link.ECPUBSIZE < (data raw).length then
    (hashablePart raw).left ((hashablePart raw).length - ((data raw).length - Link.ECPUBSIZE))
  else hashablePart raw

def linkIdFromLrPacket (sha256 : Bytes → Bytes) (raw : Bytes) : Bytes :=
  (sha256 (linkIdPart raw)).left DESTINATION_LENGTH

-- ---------------------------------------------------------------------------
-- Link request signalling
-- ---------------------------------------------------------------------------

def mtuFromLrPacket (raw : Bytes) : UInt16 :=
  let d := data raw
  if d.length = Link.ECPUBSIZE + Link.LINK_MTU_SIZE then
    .ofNat (((d.byte Link.ECPUBSIZE <<< 16) + (d.byte (Link.ECPUBSIZE + 1) <<< 8)
      + d.byte (Link.ECPUBSIZE + 2)) &&& Link.MTU_BYTEMASK)
  else 0

def modeFromLrPacket (raw : Bytes) : Link.Mode :=
  if Link.ECPUBSIZE < (data raw).length then
    .ofBits (((data raw).byte Link.ECPUBSIZE &&& Link.MODE_BYTEMASK) >>> 5)
  else Link.MODE_DEFAULT

-- ---------------------------------------------------------------------------
-- What the hashes depend on
-- ---------------------------------------------------------------------------

variable {raw raw' : Bytes}

@[simp] theorem flags_cons (f : UInt8) (rest : Bytes) : flags (f :: rest) = f := rfl

theorem isHeader2_cons (f : UInt8) (rest : Bytes) : isHeader2 (f :: rest) = decide (f &&& HEADER_2 ≠ 0) :=
  rfl

theorem unpacks_header (h : unpacks raw) : ∃ f hops rest, raw = f :: hops :: rest := by
  match raw, h with
  | f :: hops :: rest, _ => exact ⟨f, hops, rest, rfl⟩

theorem addressed_pos : 0 < addressed raw := by
  unfold addressed
  split <;> simp

theorem hashablePart_length :
    (hashablePart raw).length = raw.length - addressed raw + 1 := by
  simp [hashablePart]

/-- A packet unpacks if the hashed part has room for destination and context. -/
theorem unpacks_iff : unpacks raw ↔ DESTINATION_LENGTH + 2 ≤ (hashablePart raw).length := by
  rw [hashablePart_length]
  cases h : isHeader2 raw <;>
    simp [unpacks, addressed, h, Reticulum.HEADER_MINSIZE, HEADER_MAXSIZE, DESTINATION_LENGTH] <;> omega

theorem packetType_eq : packetType raw = (hashablePart raw).headD 0 &&& 3 := by
  have h : (15 : UInt8) &&& 3 = 3 := rfl
  simp [packetType, hashablePart, UInt8.and_assoc, h]

theorem data_eq : data raw = (hashablePart raw).drop (DESTINATION_LENGTH + 2) := by
  simp [data, hashablePart, Nat.add_assoc]

/-- The link id is taken of the flags, the destination, the context and the keys. -/
theorem linkIdPart_eq : linkIdPart raw = (hashablePart raw).take (DESTINATION_LENGTH + 2 + Link.ECPUBSIZE) := by
  simp only [linkIdPart, data_eq, Bytes.left, List.length_drop]
  split
  · congr 1
    omega
  · rw [List.take_of_length_le]
    omega

theorem unpacks_congr (h : hashablePart raw' = hashablePart raw) : unpacks raw' ↔ unpacks raw := by
  rw [unpacks_iff, unpacks_iff, h]

theorem unpacks_iff_linkIdPart : unpacks raw ↔ DESTINATION_LENGTH + 2 ≤ (linkIdPart raw).length := by
  rw [unpacks_iff, linkIdPart_eq, List.length_take, le_min_iff]
  exact (and_iff_right (Nat.le_add_right _ _)).symm

/-- Bytes changed behind the address change the same bytes of the hashed part. -/
theorem hashablePart_take_append (n : Nat) (ext : Bytes) (ha : addressed raw ≤ n) (hn : n ≤ raw.length) :
    hashablePart (raw.take n ++ ext) = (hashablePart raw).take (n - addressed raw + 1) ++ ext := by
  have hflags : flags (raw.take n ++ ext) = flags raw := by
    have hpos : 0 < n := addressed_pos.trans_le ha
    cases raw with
    | nil => simp at hn; omega
    | cons f rest => obtain ⟨k, rfl⟩ := Nat.exists_eq_add_one.2 hpos; simp
  have haddr : addressed (raw.take n ++ ext) = addressed raw := by
    simp [addressed, isHeader2, hflags]
  rw [hashablePart, hashablePart, hflags, haddr, List.drop_append_of_le_length (by simp; omega),
    List.take_succ_cons, List.cons_append, List.drop_take]

theorem linkIdPart_congr (h : hashablePart raw' = hashablePart raw) : linkIdPart raw' = linkIdPart raw := by
  simp [linkIdPart_eq, h]

theorem packetType_congr (h : hashablePart raw' = hashablePart raw) : packetType raw' = packetType raw := by
  simp [packetType_eq, h]

end MicroReticulum.Wire
