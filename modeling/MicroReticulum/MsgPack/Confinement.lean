import MicroReticulum.MsgPack.Envelopes
import MicroReticulum.MsgPack.Printing

/-!
# Every reader, on every buffer

The readers of the repository as their callers use them, and for each the
condition on the buffer under which it stays confined.
-/

namespace MicroReticulum.MsgPack

open Lib.Cursor

/-- A reader, with the operations its caller makes. -/
inductive Use where
  | get (g : Getter)
  | skip
  | map (ops : List MapOp)
  | array (ops : List ArrayOp)
  | request
  | response
  | advertisement
  | print (start stop : Nat)
  deriving DecidableEq, Repr

namespace Use

variable (fl : FloatText)

def confined (b : Bytes) : Use → Bool
  | get g => (g.run b).confined
  | skip => (skipValue b).confined
  | map ops => (MapReader.start b >>= perform (MapReader.step b) ops).confined
  | array ops => (ArrayReader.start b >>= perform (ArrayReader.step b) ops).confined
  | request => (fromRequest b).confined
  | response => (fromResponse b).confined
  | advertisement => (ResourceAdvertisement.unpack b).confined
  | print start stop => (appDataMsgPackRange fl b start stop).confined

/-- What the reader needs of the buffer: every value it skips is there, every
32-bit length fits a size with its header, every test of the printer adds up to
a size, and what its caller does to the cursor is within the buffer. -/
def Fits (b : Bytes) : Use → Prop
  | get g => g.Fits b
  | skip => walk 1 b ≠ .overruns
  | map ops => ∀ m, MapReader.start b = .ok true m → Along (MapReader.step b) (MapReader.Fits b) ops m
  | array ops => ∀ a, ArrayReader.start b = .ok true a → Along (ArrayReader.step b) (ArrayReader.Fits b) ops a
  | request => RequestFits b
  | response => ResponseFits b
  | advertisement => ResourceAdvertisement.UnpackFits b
  | print start stop => start < stop → stop ≤ b.length → Printable fl (b.left stop) 9 [] start

end Use

variable {fl : FloatText} {b : Bytes}

theorem appDataMsgPackRange_confined (hb : b.length < SIZE) :
    (appDataMsgPackRange fl b start stop).confined = true ↔
      (start < stop → stop ≤ b.length → Printable fl (b.left stop) 9 [] start) := by
  unfold appDataMsgPackRange
  split_ifs with h
  · simp only [Read.confined_pure, true_iff]
    omega
  · have hl : (b.left stop).length = stop := by
      rw [Bytes.length_left]
      omega
    have hs : (mpDecode fl (b.left stop) 9 [] start).confined = true ↔
        Printable fl (b.left stop) 9 [] start := (mpDecode_stays (by omega) (by omega)).1
    rw [forall_prop_of_true (show start < stop by omega), forall_prop_of_true (show stop ≤ b.length by omega),
      ← hs]
    cases mpDecode fl (b.left stop) 9 [] start <;> rfl

end MicroReticulum.MsgPack
