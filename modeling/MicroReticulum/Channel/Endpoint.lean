import Mathlib.Tactic
import MicroReticulum.Bytes

/-!
# One end of a channel

`ChannelData` and the operations on it that need nothing but the object: the
sender window, the envelope bytes, and the receiving side with its stale-copy
guard, sorted insertion and contiguous delivery. Sequence numbers are the
16-bit ones of the wire.
-/

namespace MicroReticulum

namespace Channel

def WINDOW : Nat := 2
def WINDOW_MIN : Nat := 2
def WINDOW_MIN_LIMIT_MEDIUM : Nat := 5
def WINDOW_MIN_LIMIT_FAST : Nat := 16
def WINDOW_MAX_SLOW : Nat := 5
def WINDOW_MAX_MEDIUM : Nat := 12
def WINDOW_MAX_FAST : Nat := 48
def WINDOW_FLEXIBILITY : Nat := 4
def FAST_RATE_THRESHOLD : Nat := 10
def RTT_FAST : ℚ := 18 / 100
def RTT_MEDIUM : ℚ := 75 / 100
def WINDOW_MAX : Nat := WINDOW_MAX_FAST
def SEQ_MAX : Nat := 0xFFFF
def SEQ_MODULUS : Nat := 0x10000
def MAX_TRIES : Nat := 5

/-- What a consumer hands to `send` and is handed by its callback. -/
structure Message where
  msgtype : UInt16
  data : Bytes
  deriving DecidableEq, Repr

structure TxEnvelope where
  sequence : Nat
  raw : Bytes
  /-- The packet's `sent` flag. -/
  sent : Bool
  /-- The transmission whose receipt the packet holds: its latest. -/
  receipt : Option Nat
  tries : Nat
  deadline : ℚ
  /-- Ghost: how many messages `send` had accepted before this one. -/
  num : Nat
  deriving DecidableEq, Repr

structure RxEnvelope where
  sequence : Nat
  message : Message
  deriving DecidableEq, Repr

end Channel

structure Channel where
  /-- The link still holds this channel. -/
  held : Bool := true
  linkActive : Bool := true
  linkMdu : UInt16
  rtt : ℚ := 0
  txRing : List Channel.TxEnvelope := []
  rxRing : List Channel.RxEnvelope := []
  nextSequence : Nat := 0
  nextRxSequence : Nat := 0
  window : Nat := Channel.WINDOW
  windowMax : Nat := Channel.WINDOW_MAX_SLOW
  windowMin : Nat := Channel.WINDOW_MIN
  fastRateRounds : Nat := 0
  mediumRateRounds : Nat := 0
  /-- A receive callback is set. -/
  receiving : Bool := true
  /-- Everything the receive callback has been called with. -/
  handed : List Channel.Message := []
  deriving DecidableEq, Repr

namespace Channel

-- ---------------------------------------------------------------------------
-- The sender window
-- ---------------------------------------------------------------------------

def windowOpen (d : Channel) : Channel :=
  let d := { d with window := if d.window < d.windowMax then d.window + 1 else d.window }
  if d.rtt = 0 then d
  else if d.rtt > RTT_FAST then
    let d := { d with fastRateRounds := 0 }
    if d.rtt > RTT_MEDIUM then { d with mediumRateRounds := 0 }
    else
      let d := { d with mediumRateRounds := (d.mediumRateRounds + 1) % 65536 }
      if d.windowMax < WINDOW_MAX_MEDIUM ∧ d.mediumRateRounds = FAST_RATE_THRESHOLD then
        { d with windowMax := WINDOW_MAX_MEDIUM, windowMin := WINDOW_MIN_LIMIT_MEDIUM }
      else d
  else
    let d := { d with fastRateRounds := (d.fastRateRounds + 1) % 65536 }
    if d.windowMax < WINDOW_MAX_FAST ∧ d.fastRateRounds = FAST_RATE_THRESHOLD then
      { d with windowMax := WINDOW_MAX_FAST, windowMin := WINDOW_MIN_LIMIT_FAST }
    else d

def windowClose (d : Channel) : Channel :=
  if d.window ≤ d.windowMin then d
  else { d with
    window := d.window - 1
    windowMax := if d.windowMax > (d.windowMin + WINDOW_FLEXIBILITY) % 65536
      then d.windowMax - 1 else d.windowMax }

def timeoutTime (d : Channel) (tries : Nat) : ℚ :=
  (3 / 2) ^ (tries - 1) * max (d.rtt * (5 / 2)) (1 / 40) * (d.txRing.length + 3 / 2)

-- ---------------------------------------------------------------------------
-- Envelopes
-- ---------------------------------------------------------------------------

def pack (sequence : Nat) (m : Message) : Bytes :=
  let len := m.data.length % 65536
  [.ofNat (m.msgtype.toNat >>> 8), .ofNat m.msgtype.toNat, .ofNat (sequence >>> 8), .ofNat sequence,
    .ofNat (len >>> 8), .ofNat len] ++ m.data

def unpack (raw : Bytes) : Option RxEnvelope :=
  if raw.length < 6 then none
  else
    let msgtype := raw.byte 0 <<< 8 ||| raw.byte 1
    let seq := raw.byte 2 <<< 8 ||| raw.byte 3
    let len := raw.byte 4 <<< 8 ||| raw.byte 5
    let avail := raw.length - 6
    let len := if len > avail then avail % 65536 else len
    some ⟨seq, ⟨.ofNat msgtype, (raw.drop 6).take len⟩⟩

-- ---------------------------------------------------------------------------
-- Receiving
-- ---------------------------------------------------------------------------

/-- The out-of-window and stale-sequence guard. -/
def outOfWindow (seq nextRx : Nat) : Bool :=
  let overflow := (nextRx + WINDOW_MAX) % SEQ_MODULUS
  seq < nextRx && (if overflow < nextRx then seq > overflow else true)

/-- Sorted insertion; `none` for a sequence the scan meets on its way. -/
def rxEmplace (env : RxEnvelope) (nextRx : Nat) : List RxEnvelope → Option (List RxEnvelope)
  | [] => some [env]
  | e :: ring =>
    if env.sequence = e.sequence then none
    else if env.sequence < e.sequence ∧ ¬ ((nextRx : Int) - env.sequence > (SEQ_MAX / 2 : Nat)) then
      some (env :: e :: ring)
    else (rxEmplace env nextRx ring).map (e :: ·)

/-- One round of delivery: the awaited envelope goes from the ring to the
callback. -/
def handOver (env : RxEnvelope) (d : Channel) : Channel := { d with
  rxRing := d.rxRing.eraseP (·.sequence == d.nextRxSequence)
  nextRxSequence := (d.nextRxSequence + 1) % SEQ_MODULUS
  handed := if d.receiving then d.handed ++ [env.message] else d.handed }

/-- Hands over the contiguous run from the next awaited sequence on. Every
round takes one envelope off the ring, so its length is fuel enough. -/
def drain : Nat → Channel → Channel
  | 0, d => d
  | fuel + 1, d =>
    match d.rxRing.find? (·.sequence == d.nextRxSequence) with
    | none => d
    | some env => drain fuel (handOver env d)

def receive (raw : Bytes) (d : Channel) : Channel :=
  match unpack raw with
  | none => d
  | some env =>
    if outOfWindow env.sequence d.nextRxSequence then d
    else match rxEmplace env d.nextRxSequence d.rxRing with
    | none => d
    | some ring => drain ring.length { d with rxRing := ring }

/-- What becomes of a CHANNEL packet inside `_receive`. -/
inductive Verdict where
  | malformed | outOfWindow | duplicate | taken
  deriving DecidableEq, Repr

def verdict (raw : Bytes) (d : Channel) : Verdict :=
  match unpack raw with
  | none => .malformed
  | some env =>
    if outOfWindow env.sequence d.nextRxSequence then .outOfWindow
    else if (rxEmplace env d.nextRxSequence d.rxRing).isNone then .duplicate
    else .taken

/-- `_shutdown`, and the link letting go of the channel. -/
def shutdown (d : Channel) : Channel :=
  { d with receiving := false, txRing := [], rxRing := [], linkActive := false, held := false }

end Channel

end MicroReticulum
