import MicroReticulum.MsgPack.Reading

/-!
# Map and array readers, envelopes and advertisements

The readers built from the getters: `MapReader` and `ArrayReader`, whose
callers choose the operations, the two link envelopes of `Unpacker`, and
`ResourceAdvertisement::unpack`. An operation that throws ends the reading.
-/

namespace MicroReticulum.MsgPack

open Lib.Cursor

/-- What a reader reads, put where it belongs. -/
def into (r : Reader α) (set : α → β) : Reader β := fun b => do
  let (a, k) ← r b
  pure (set a, k)

-- ---------------------------------------------------------------------------
-- MapReader
-- ---------------------------------------------------------------------------

structure MapReader where
  off : Nat
  count : Nat
  seen : Nat := 0
  /-- Key read, value not yet consumed. -/
  pending : Bool := false
  key : Bytes := []
  deriving DecidableEq, Repr

namespace MapReader

def start (b : Bytes) : Read MapReader := do
  let (count, off) ← unpackMapHeader b
  pure { off, count }

def next (b : Bytes) (m : MapReader) : Read (Bool × MapReader) := do
  if m.count ≤ m.seen then pure (false, m)
  else
    let (key, off) ← consume SIZE b unpackStr m.off
    pure (true, { m with seen := m.seen + 1, off, key, pending := true })

/-- A getter at the cursor, and `take`. -/
def value (b : Bytes) (r : Reader α) (m : MapReader) : Read (α × MapReader) := do
  let (a, off) ← consume SIZE b r m.off
  pure (a, { m with off, pending := false })

def valueStr (b : Bytes) : MapReader → Read (Bytes × MapReader) := value b unpackStr
def valueBool (b : Bytes) : MapReader → Read (Bool × MapReader) := value b unpackBool
def valueNum (b : Bytes) : MapReader → Read (Number × MapReader) := value b unpackNumber
def valueBin (b : Bytes) : MapReader → Read (Bytes × MapReader) := value b unpackBin
def skipValue (b : Bytes) : MapReader → Read (Unit × MapReader) := value b MsgPack.skipValue

def valueIsNil (b : Bytes) (m : MapReader) : Read (Bool × MapReader) := do
  if m.off < b.length then pure ((← field be b m.off 1) = 0xc0, m)
  else pure (false, m)

/-- `value_ptr` and `value_len`: what is left of the buffer. -/
def valueSpan (b : Bytes) (m : MapReader) : Read (Bytes × MapReader) := do
  pure (← rest b m.off, m)

/-- Keys and values that are still to come, and the value of the key just read. -/
def left (m : MapReader) : Nat := (if m.pending then 1 else 0) + 2 * (m.count - m.seen)

def finish (b : Bytes) (m : MapReader) : Read (Nat × MapReader) := do
  let off ← skipItems MsgPack.skipValue b m.left m.off
  pure (off, { m with off, pending := false, seen := max m.seen m.count })

end MapReader

inductive MapOp where
  | next
  | valueStr
  | valueBool
  | valueNum
  | valueBin
  | skipValue
  | valueIsNil
  | valueSpan
  | finish
  deriving DecidableEq, Repr

/-- The state an operation leaves. -/
def state (r : Read (α × σ)) : Read σ := do
  let (_, s) ← r
  pure s

def MapReader.step (b : Bytes) (m : MapReader) : MapOp → Read MapReader
  | .next => state (m.next b)
  | .valueStr => state (m.valueStr b)
  | .valueBool => state (m.valueBool b)
  | .valueNum => state (m.valueNum b)
  | .valueBin => state (m.valueBin b)
  | .skipValue => state (m.skipValue b)
  | .valueIsNil => state (m.valueIsNil b)
  | .valueSpan => state (m.valueSpan b)
  | .finish => state (m.finish b)

-- ---------------------------------------------------------------------------
-- ArrayReader
-- ---------------------------------------------------------------------------

/-- The getters, as callers of an `ArrayReader` use them on its span. -/
inductive Getter where
  | uint
  | bool
  | double
  | number
  | str
  | bin
  | one
  | blobOrObject
  | mapHeader
  | arrayHeader
  deriving DecidableEq, Repr

/-- A reader whose value nobody asks for. -/
def discarding (r : Reader α) : Reader Unit := into r fun _ => ()

def Getter.run : Getter → Reader Unit
  | .uint => discarding unpackUint
  | .bool => discarding unpackBool
  | .double => discarding unpackDouble
  | .number => discarding unpackNumber
  | .str => discarding unpackStr
  | .bin => discarding unpackBin
  | .one => discarding unpackOne
  | .blobOrObject => discarding unpackBlobOrObject
  | .mapHeader => discarding unpackMapHeader
  | .arrayHeader => discarding unpackArrayHeader

structure ArrayReader where
  off : Nat
  count : Nat
  seen : Nat := 0
  deriving DecidableEq, Repr

namespace ArrayReader

def start (b : Bytes) : Read ArrayReader := do
  let (count, off) ← unpackArrayHeader b
  pure { off, count }

def next (a : ArrayReader) : Bool × ArrayReader :=
  if a.count ≤ a.seen then (false, a) else (true, { a with seen := a.seen + 1 })

def valueSpan (b : Bytes) (a : ArrayReader) : Read (Bytes × ArrayReader) := do
  pure (← rest b a.off, a)

/-- `value_ptr()[0]`, with which the request handlers look for a nil. -/
def valueTag (b : Bytes) (a : ArrayReader) : Read (Nat × ArrayReader) := do
  pure (← field be b a.off 1, a)

def advance (b : Bytes) (k : Nat) (a : ArrayReader) : Read (Unit × ArrayReader) := do
  let off ← add SIZE a.off k
  let ((), off) ← past b off
  pure ((), { a with off })

/-- A getter on the span, and `advance` by what it consumed. -/
def read (b : Bytes) (r : Reader Unit) (a : ArrayReader) : Read (Unit × ArrayReader) := do
  let ((), off) ← consume SIZE b r a.off
  pure ((), { a with off })

def skipValue (b : Bytes) : ArrayReader → Read (Unit × ArrayReader) := read b MsgPack.skipValue

end ArrayReader

inductive ArrayOp where
  | next
  | skipValue
  | valueSpan
  | valueTag
  | advance (k : Nat)
  | read (g : Getter)
  deriving DecidableEq, Repr

def ArrayReader.step (b : Bytes) (a : ArrayReader) : ArrayOp → Read ArrayReader
  | .next => pure a.next.2
  | .skipValue => state (a.skipValue b)
  | .valueSpan => state (a.valueSpan b)
  | .valueTag => state (a.valueTag b)
  | .advance k => state (a.advance b k)
  | .read g => state (a.read b g.run)

-- ---------------------------------------------------------------------------
-- Unpacker
-- ---------------------------------------------------------------------------

def openArray (raw : Bytes) (least off : Nat) : Read (Nat × Nat) := do
  if off > raw.length then .fail "MsgPack: cursor past end"
  else
    let (count, off) ← consume SIZE raw unpackArrayHeader off
    if count < least then .fail "MsgPack: array shorter than expected"
    else pure (count, off)

structure Request where
  requestedAt : Nat
  pathHash : Bytes
  payload : Bytes
  deriving DecidableEq, Repr

structure Response where
  requestId : Bytes
  payload : Bytes
  deriving DecidableEq, Repr

/-- Trailing members nobody asked for. -/
def skipRest (raw : Bytes) (taken count off : Nat) : Read Nat := skipItems skipValue raw (count - taken) off

def fromRequest (raw : Bytes) : Read Request := do
  let (count, off) ← openArray raw 3 0
  let (requestedAt, off) ← consume SIZE raw unpackDouble off
  let (pathHash, off) ← consume SIZE raw unpackOne off
  let (payload, off) ← consume SIZE raw unpackBlobOrObject off
  let _ ← skipRest raw 3 count off
  pure { requestedAt, pathHash, payload }

def fromResponse (raw : Bytes) : Read Response := do
  let (count, off) ← openArray raw 2 0
  let (requestId, off) ← consume SIZE raw unpackOne off
  let (payload, off) ← consume SIZE raw unpackBlobOrObject off
  let _ ← skipRest raw 2 count off
  pure { requestId, payload }

-- ---------------------------------------------------------------------------
-- ResourceAdvertisement
-- ---------------------------------------------------------------------------

structure ResourceAdvertisement where
  t : Nat := 0
  d : Nat := 0
  n : Nat := 0
  i : Nat := 1
  l : Nat := 1
  f : Nat := 0
  h : Bytes := []
  r : Bytes := []
  o : Bytes := []
  m : Bytes := []
  q : Bytes := []
  e : Bool := false
  c : Bool := false
  s : Bool := false
  u : Bool := false
  p : Bool := false
  x : Bool := false
  deriving DecidableEq, Repr

namespace ResourceAdvertisement

def readBinOrNil : Reader Bytes := fun b => do
  let t ← number b 0 1 "ResourceAdvertisement: short value"
  if t = 0xc0 then pure ([], 1) else unpackBin b

/-- The value behind `key`. -/
def readField (adv : ResourceAdvertisement) (key : Bytes) : Reader ResourceAdvertisement :=
  if key = ['t'.toUInt8] then into unpackUint fun v => { adv with t := v % 2 ^ 32 }
  else if key = ['d'.toUInt8] then into unpackUint fun v => { adv with d := v % 2 ^ 32 }
  else if key = ['n'.toUInt8] then into unpackUint fun v => { adv with n := v % 2 ^ 32 }
  else if key = ['i'.toUInt8] then into unpackUint fun v => { adv with i := v % 2 ^ 32 }
  else if key = ['l'.toUInt8] then into unpackUint fun v => { adv with l := v % 2 ^ 32 }
  else if key = ['f'.toUInt8] then into unpackUint fun v => { adv with f := v % 2 ^ 8 }
  else if key = ['h'.toUInt8] then into unpackBin fun v => { adv with h := v }
  else if key = ['r'.toUInt8] then into unpackBin fun v => { adv with r := v }
  else if key = ['o'.toUInt8] then into unpackBin fun v => { adv with o := v }
  else if key = ['m'.toUInt8] then into unpackBin fun v => { adv with m := v }
  else if key = ['q'.toUInt8] then into readBinOrNil fun v => { adv with q := v }
  -- a key of another length, or an unknown one: peers can extend the map
  else into skipValue fun _ => adv

/-- The flag bits, from the assembled byte. -/
def withFlags (adv : ResourceAdvertisement) : ResourceAdvertisement :=
  { adv with
    e := adv.f.testBit 0, c := adv.f.testBit 1, s := adv.f.testBit 2
    u := adv.f.testBit 3, p := adv.f.testBit 4, x := adv.f.testBit 5 }

def entry (b : Bytes) (s : ResourceAdvertisement × Nat) (_ : Unit) : Read (ResourceAdvertisement × Nat) := do
  let (key, off) ← consume SIZE b unpackStr s.2
  consume SIZE b (s.1.readField key) off

def unpack (b : Bytes) : Read ResourceAdvertisement := do
  let (count, off) ← unpackMapHeader b
  let (adv, _) ← perform (entry b) (List.replicate count ()) ({}, off)
  pure adv.withFlags

end ResourceAdvertisement

end MicroReticulum.MsgPack
