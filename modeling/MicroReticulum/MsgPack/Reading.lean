import MicroReticulum.Lib.Cursor
import MicroReticulum.Bytes

/-!
# Reading MessagePack

The readers of `MsgPack::detail`. Each gets the bytes from the cursor to the
end of the buffer (`p` and `n`) and gives a value and the number of bytes it
consumed. Sizes are the target's 32-bit `size_t`.
-/

namespace MicroReticulum.MsgPack

open Lib.Cursor

/-- One more than the largest `size_t`. -/
abbrev SIZE : Nat := 4294967296

abbrev Reader (α : Type) := Bytes → Read (α × Nat)

/-- Bytes as a big-endian number, as `get_be16` and `get_be32` read it. -/
def be (b : Bytes) : Nat := b.foldl (fun r x => r * 256 + x.toNat) 0

/-- `p[pos]`, or the `k`-byte number there, behind its length test. -/
abbrev number (b : Bytes) (pos k : Nat) (short : String) : Read Nat := tested be b pos k short

/-- A blob of `len` bytes behind a header of `hdr`. -/
def payload (hdr len : Nat) (short : String) : Reader Bytes := fun b => do
  let total ← add SIZE hdr len
  if b.length < total then .fail short
  else pure (b.mid hdr len, total)

/-- The tags of the 8, 16 and 32-bit length forms, with their error texts. -/
structure LengthForms where
  tags8 : List Nat
  tags16 : List Nat
  tags32 : List Nat
  short8 : String
  short16 : String
  short32 : String
  apart : ∀ t ∈ tags32, t ∉ tags8 ∧ t ∉ tags16

/-- The blob behind one of the length forms, or what `other` makes of the tag. -/
def sized (f : LengthForms) (t : Nat) (short : String) (other : Reader Bytes) : Reader Bytes := fun b => do
  if t ∈ f.tags8 then payload 2 (← number b 1 1 f.short8) short b
  else if t ∈ f.tags16 then payload 3 (← number b 1 2 f.short16) short b
  else if t ∈ f.tags32 then payload 5 (← number b 1 4 f.short32) short b
  else other b

-- ---------------------------------------------------------------------------
-- Scalars
-- ---------------------------------------------------------------------------

def unpackUint : Reader Nat := fun b => do
  let t ← number b 0 1 "MsgPack: short uint"
  if t &&& 0x80 = 0 then pure (t, 1)
  else if t = 0xcc then pure (← number b 1 1 "MsgPack: short uint8", 2)
  else if t = 0xcd then pure (← number b 1 2 "MsgPack: short uint16", 3)
  else if t = 0xce then pure (← number b 1 4 "MsgPack: short uint32", 5)
  else if t = 0xcf then pure (← number b 1 8 "MsgPack: short uint64", 9)
  else .fail "MsgPack: expected uint"

def unpackBool : Reader Bool := fun b => do
  let t ← number b 0 1 "MsgPack: short bool"
  if t = 0xc2 then pure (false, 1)
  else if t = 0xc3 then pure (true, 1)
  else .fail "MsgPack: expected bool"

/-- The bits of a float64. -/
def unpackDouble : Reader Nat := fun b => do
  if b.length < 9 then .fail "MsgPack: expected float64"
  else if (← field be b 0 1) ≠ 0xcb then .fail "MsgPack: expected float64"
  else pure (← field be b 1 8, 9)

/-- A number before its conversion to `double`. -/
inductive Number where
  | int (v : Int)
  | float32 (bits : Nat)
  | float64 (bits : Nat)
  deriving DecidableEq, Repr

/-- An unsigned number of `bits` bits read as a signed one. -/
def signed (bits v : Nat) : Int := if v < 2 ^ (bits - 1) then v else (v : Int) - 2 ^ bits

def unpackNumber : Reader Number := fun b => do
  let t ← number b 0 1 "MsgPack: short number"
  if t = 0xcb then
    let (v, k) ← unpackDouble b
    pure (.float64 v, k)
  else if t = 0xca then pure (.float32 (← number b 1 4 "MsgPack: short float32"), 5)
  else if t &&& 0xe0 = 0xe0 then pure (.int (signed 8 t), 1)
  else if t = 0xd0 then pure (.int (signed 8 (← number b 1 1 "MsgPack: short int8")), 2)
  else if t = 0xd1 then pure (.int (signed 16 (← number b 1 2 "MsgPack: short int16")), 3)
  else if t = 0xd2 then pure (.int (signed 32 (← number b 1 4 "MsgPack: short int32")), 5)
  else if t = 0xd3 then pure (.int (signed 64 (← number b 1 8 "MsgPack: short int64")), 9)
  else
    let (v, k) ← unpackUint b
    pure (.int v, k)

-- ---------------------------------------------------------------------------
-- Headers and blobs
-- ---------------------------------------------------------------------------

/-- The element count of a map or an array: in the low half of the tags from
`fix` on, or in the 16 or the 32 bits behind the next two tags. -/
def containerHeader (fix tag16 : Nat) (short short16 short32 expected : String) : Reader Nat := fun b => do
  let t ← number b 0 1 short
  if t &&& 0xf0 = fix then pure (t &&& 0x0f, 1)
  else if t = tag16 then pure (← number b 1 2 short16, 3)
  else if t = tag16 + 1 then pure (← number b 1 4 short32, 5)
  else .fail expected

def unpackMapHeader : Reader Nat :=
  containerHeader 0x80 0xde "MsgPack: short map header" "MsgPack: short map16" "MsgPack: short map32"
    "MsgPack: expected map"

def unpackArrayHeader : Reader Nat :=
  containerHeader 0x90 0xdc "MsgPack: short array header" "MsgPack: short array16" "MsgPack: short array32"
    "MsgPack: expected array"

def strForms : LengthForms where
  tags8 := [0xd9]
  tags16 := [0xda]
  tags32 := [0xdb]
  short8 := "MsgPack: short str8"
  short16 := "MsgPack: short str16"
  short32 := "MsgPack: short str32"
  apart := by decide

def binForms : LengthForms where
  tags8 := [0xc4]
  tags16 := [0xc5]
  tags32 := [0xc6]
  short8 := "MsgPack: short bin8"
  short16 := "MsgPack: short bin16"
  short32 := "MsgPack: short bin32"
  apart := by decide

def blobForms : LengthForms where
  tags8 := [0xd9, 0xc4]
  tags16 := [0xda, 0xc5]
  tags32 := [0xdb, 0xc6]
  short8 := "MsgPack: short payload blob8"
  short16 := "MsgPack: short payload blob16"
  short32 := "MsgPack: short payload blob32"
  apart := by decide

def unpackStr : Reader Bytes := fun b => do
  let t ← number b 0 1 "MsgPack: short str"
  if t &&& 0xe0 = 0xa0 then payload 1 (t &&& 0x1f) "MsgPack: short str payload" b
  else sized strForms t "MsgPack: short str payload" (fun _ => .fail "MsgPack: expected str") b

def unpackBin : Reader Bytes := fun b => do
  let t ← number b 0 1 "MsgPack: short bin header"
  sized binForms t "MsgPack: short bin payload" (fun _ => .fail "MsgPack: expected bin") b

-- ---------------------------------------------------------------------------
-- Skipping
-- ---------------------------------------------------------------------------

/-- A blob the skipper steps over: its header is read, its bytes are not. -/
def pastBlob (b : Bytes) (k : Nat) (short : String) : Read (Unit × Nat) := do
  past b (← add SIZE (1 + k) (← number b 1 k short))

/-- `count` values in a row, by the skipper `skip`, from the cursor on. -/
def skipItems (skip : Reader Unit) (b : Bytes) (count off : Nat) : Read Nat :=
  perform (fun off (_ : Unit) => do
    let (_, off) ← consume SIZE b skip off
    pure off) (List.replicate count ()) off

/-- `skip_value`, its recursion bounded by `fuel`. -/
def skipWithin : Nat → Reader Unit
  | 0 => fun _ => .escaped
  | fuel + 1 => fun b => do
    let t ← number b 0 1 "MsgPack: short skip"
    if t = 0xc0 ∨ t = 0xc2 ∨ t = 0xc3 then past b 1
    else if t &&& 0x80 = 0 then past b 1
    else if t &&& 0xe0 = 0xe0 then past b 1
    else if t = 0xcc ∨ t = 0xd0 then past b 2
    else if t = 0xcd ∨ t = 0xd1 then past b 3
    else if t = 0xce ∨ t = 0xd2 ∨ t = 0xca then past b 5
    else if t = 0xcf ∨ t = 0xd3 ∨ t = 0xcb then past b 9
    else if t &&& 0xe0 = 0xa0 then past b (1 + (t &&& 0x1f))
    else if t = 0xd9 then pastBlob b 1 "MsgPack: short str8 skip"
    else if t = 0xda then pastBlob b 2 "MsgPack: short str16 skip"
    else if t = 0xdb then pastBlob b 4 "MsgPack: short str32 skip"
    else if t = 0xc4 then pastBlob b 1 "MsgPack: short bin8 skip"
    else if t = 0xc5 then pastBlob b 2 "MsgPack: short bin16 skip"
    else if t = 0xc6 then pastBlob b 4 "MsgPack: short bin32 skip"
    else if t &&& 0xf0 = 0x90 ∨ t = 0xdc ∨ t = 0xdd then
      let (count, off) ← unpackArrayHeader b
      let off ← skipItems (skipWithin fuel) b count off
      past b off
    else if t &&& 0xf0 = 0x80 ∨ t = 0xde ∨ t = 0xdf then
      let (count, off) ← unpackMapHeader b
      -- a key and a value each
      let off ← skipItems (skipWithin fuel) b (2 * count) off
      past b off
    else .fail "MsgPack: unknown tag in skip"

/-- Every nested value is shorter than the one around it, so the recursion is
no deeper than the buffer is long. -/
def skipValue : Reader Unit := fun b => skipWithin (b.length + 1) b

-- ---------------------------------------------------------------------------
-- Slots of a REQUEST or RESPONSE envelope
-- ---------------------------------------------------------------------------

/-- `unpack_one` of a bin slot: a nil counts as an empty one. -/
def unpackOne : Reader Bytes := fun b =>
  if 1 ≤ b.length ∧ b.byte 0 = 0xc0 then pure ([], 1) else unpackBin b

def unpackBlobOrObject : Reader Bytes := fun b => do
  let t ← number b 0 1 "MsgPack: short payload slot"
  if t = 0xc0 then pure ([], 1)
  else if t &&& 0xe0 = 0xa0 then payload 1 (t &&& 0x1f) "MsgPack: short payload blob" b
  else sized blobForms t "MsgPack: short payload blob" (fun b => do
    let (_, elem) ← skipValue b
    if elem > b.length then .fail "MsgPack: short payload object"
    else pure (b.left elem, elem)) b

end MicroReticulum.MsgPack
