import MicroReticulum.MsgPack.Reading

/-!
# The announce pretty-printer

`mpDecode` of rnsd.cpp, which goes through the announce's app data by absolute
offsets and tests `i + k <= n` before it reads. What it has put out when it
gives up is thrown away by its only caller, so giving up is a failure without
a text. The text of a float is left to the C library.
-/

namespace MicroReticulum.MsgPack

open Lib.Cursor

abbrev Text := List Char

/-- `snprintf("%g")` of the bits of a float and of a double. -/
structure FloatText where
  float32 : Nat → Text
  float64 : Nat → Text

def giveUp : Read α := .fail ""

def decimal (v : Nat) : Text := Nat.toDigits 10 v

def signedDecimal (v : Int) : Text := if v < 0 then '-' :: decimal v.natAbs else decimal v.toNat

def printable (x : UInt8) : Text := if x < 0x20 ∨ 0x7f ≤ x then ['.'] else [Char.ofNat x.toNat]

def hex (x : UInt8) : Text := [Nat.digitChar (x.toNat / 16), Nat.digitChar (x.toNat % 16)]

def needN (d : Bytes) (i k : Nat) : Read Bool := do
  let s ← add SIZE i k
  pure (s ≤ d.length)

def readBe (d : Bytes) (i k : Nat) : Read (Nat × Nat) := do
  if ← needN d i k then pure (← field be d i k, i + k) else giveUp

/-- `L` bytes, each as `each` shows it, between `opening` and a quote. -/
def putBytes (opening : Text) (each : UInt8 → Text) (d : Bytes) (out : Text) (i L : Nat) : Read (Text × Nat) := do
  if ← needN d i L then
    let bytes ← field (fun b : Bytes => b) d i L
    pure (out ++ opening ++ bytes.flatMap each ++ ['"'], i + L)
  else giveUp

def putStr : Bytes → Text → Nat → Nat → Read (Text × Nat) := putBytes ['"'] printable

def putBin : Bytes → Text → Nat → Nat → Read (Text × Nat) := putBytes ['b', '"'] hex

def extHeader (etype L : Nat) : Text :=
  ['e', 'x', 't', '('] ++ signedDecimal (signed 8 etype) ++ [','] ++ decimal L ++ ['B', ')', '=']

/-- An extension's type byte and its `L` bytes of data. -/
def putExt (d : Bytes) (out : Text) (i L : Nat) : Read (Text × Nat) := do
  if ← needN d i (← add SIZE 1 L) then
    let etype ← field be d i 1
    putBin d (out ++ extHeader etype L) (i + 1) L
  else giveUp

/-- What stands before each element: a map's keys and values take turns. -/
def separators (pairs : Bool) (count : Nat) : List Text :=
  (List.range (if pairs then 2 * count else count)).map fun k =>
    if k = 0 then [] else if pairs ∧ k % 2 = 1 then [':', ' '] else [',', ' ']

def opening (pairs : Bool) : Text := if pairs then ['{'] else ['[']

def closing (pairs : Bool) : Text := if pairs then ['}'] else [']']

/-- The elements of an array or a map, each decoded by `next`. -/
def putItems (next : Text → Nat → Read (Text × Nat)) (pairs : Bool) (count : Nat) (out : Text) (i : Nat) :
    Read (Text × Nat) := do
  let (out, i) ← perform (fun s sep => next (s.1 ++ sep) s.2) (separators pairs count) (out ++ opening pairs, i)
  pure (out ++ closing pairs, i)

/-- A number of `k` bytes. -/
def putNumber (d : Bytes) (out : Text) (i k : Nat) (text : Nat → Text) : Read (Text × Nat) := do
  let (v, i) ← readBe d i k
  pure (out ++ text v, i)

/-- `mpDecode` at `depth`, with `9 - depth` levels left. -/
def mpDecode (fl : FloatText) (d : Bytes) : Nat → Text → Nat → Read (Text × Nat)
  | 0, _, _ => giveUp
  | levels + 1, out, i =>
    if d.length ≤ i then giveUp
    else if 800 < out.length then giveUp
    else do
      let b ← field be d i 1
      let i := i + 1
      let sized (k : Nat) (put : Bytes → Text → Nat → Nat → Read (Text × Nat)) : Read (Text × Nat) := do
        let (v, i) ← readBe d i k
        put d out i v
      let items (pairs : Bool) (k : Nat) : Read (Text × Nat) := do
        let (v, i) ← readBe d i k
        putItems (mpDecode fl d levels) pairs v out i
      if b ≤ 0x7f then pure (out ++ decimal b, i)
      else if 0xe0 ≤ b then pure (out ++ signedDecimal (signed 8 b), i)
      else if 0xa0 ≤ b ∧ b ≤ 0xbf then putStr d out i (b &&& 0x1f)
      else if 0x90 ≤ b ∧ b ≤ 0x9f then putItems (mpDecode fl d levels) false (b &&& 0x0f) out i
      else if 0x80 ≤ b ∧ b ≤ 0x8f then putItems (mpDecode fl d levels) true (b &&& 0x0f) out i
      else if b = 0xc0 then pure (out ++ ['n', 'i', 'l'], i)
      else if b = 0xc2 then pure (out ++ ['f', 'a', 'l', 's', 'e'], i)
      else if b = 0xc3 then pure (out ++ ['t', 'r', 'u', 'e'], i)
      else if b = 0xc4 then sized 1 putBin
      else if b = 0xc5 then sized 2 putBin
      else if b = 0xc6 then sized 4 putBin
      else if b = 0xcc then putNumber d out i 1 decimal
      else if b = 0xcd then putNumber d out i 2 decimal
      else if b = 0xce then putNumber d out i 4 decimal
      else if b = 0xcf then putNumber d out i 8 decimal
      else if b = 0xd0 then putNumber d out i 1 fun v => signedDecimal (signed 8 v)
      else if b = 0xd1 then putNumber d out i 2 fun v => signedDecimal (signed 16 v)
      else if b = 0xd2 then putNumber d out i 4 fun v => signedDecimal (signed 32 v)
      else if b = 0xd3 then putNumber d out i 8 fun v => signedDecimal (signed 64 v)
      else if b = 0xd9 then sized 1 putStr
      else if b = 0xda then sized 2 putStr
      else if b = 0xdb then sized 4 putStr
      else if b = 0xdc then items false 2
      else if b = 0xdd then items false 4
      else if b = 0xde then items true 2
      else if b = 0xdf then items true 4
      else if b = 0xca then putNumber d out i 4 fl.float32
      else if b = 0xcb then putNumber d out i 8 fl.float64
      else if 0xd4 ≤ b ∧ b ≤ 0xd8 then putExt d out i (2 ^ (b - 0xd4))
      else if b = 0xc7 then sized 1 putExt
      else if b = 0xc8 then sized 2 putExt
      else if b = 0xc9 then sized 4 putExt
      else giveUp

/-- The bytes from `start` to `stop` as text, when they are one value. -/
def appDataMsgPackRange (fl : FloatText) (appData : Bytes) (start stop : Nat) : Read Text :=
  if appData.length < stop ∨ stop ≤ start then pure []
  else match mpDecode fl (appData.left stop) 9 [] start with
    | .ok clean (out, i) => .ok clean (if i ≠ stop then [] else out)
    | .error clean _ => .ok clean []
    | .escaped => .escaped

end MicroReticulum.MsgPack
