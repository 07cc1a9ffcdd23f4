import Mathlib.Tactic
import MicroReticulum.Lib.Runs
import MicroReticulum.Channel.Endpoint

/-!
# Two channels and the air between them

One direction of a channel pair: `send` and `poll` at one end, the CHANNEL
branch of `Link::receive` at the other. Everything ever transmitted stays on
the wire and may arrive any number of times at any time, or never; so may the
proof of anything that was proved. A resend is encrypted anew, so each
transmission has its own receipt, and an envelope's packet holds its latest.
-/

namespace MicroReticulum.Channel

inductive ReceiptStatus where
  | sent | delivered | failed | culled
  deriving DecidableEq, Repr

structure Transmission where
  raw : Bytes
  /-- Ghost: the accepted message it carries. -/
  num : Nat
  deriving DecidableEq, Repr

structure Arrival where
  transmission : Nat
  verdict : Verdict
  proved : Bool
  deriving DecidableEq, Repr

structure Pair where
  sender : Channel
  receiver : Channel
  /-- Every CHANNEL packet put on the air, oldest first. -/
  wire : List Transmission := []
  /-- The sender's receipt for each. -/
  receipts : List ReceiptStatus := []
  /-- The transmissions the receiver has proved. -/
  proved : List Nat := []
  /-- The messages `send` returned true for. -/
  accepted : List Message := []
  /-- Ghost: messages whose envelope left the TX ring on a proof. -/
  acked : List Nat := []
  arrivals : List Arrival := []
  deriving DecidableEq, Repr

def Pair.init (senderMdu receiverMdu : UInt16) : Pair :=
  ⟨{ linkMdu := senderMdu }, { linkMdu := receiverMdu }, [], [], [], [], [], []⟩

-- ---------------------------------------------------------------------------
-- Sending
-- ---------------------------------------------------------------------------

/-- A packet without a receipt counts as failed. -/
def Pair.statusOf (s : Pair) (env : TxEnvelope) : ReceiptStatus :=
  match env.receipt with
  | some i => s.receipts.getD i .failed
  | none => .failed

def Pair.isReadyToSend (s : Pair) : Bool :=
  s.sender.linkActive &&
    s.sender.txRing.countP (fun env => s.statusOf env ≠ .delivered) < s.sender.window

/-- `Transport::outbound`, where `carried` says whether an interface took it. -/
def Pair.transmit (s : Pair) (carried : Bool) (raw : Bytes) (num : Nat) : Pair :=
  if carried then { s with wire := s.wire ++ [⟨raw, num⟩], receipts := s.receipts ++ [.sent] } else s

/-- The envelope `send` puts in the ring, its packet sent or not. -/
def Pair.newEnvelope (s : Pair) (m : Message) (now : ℚ) (carried : Bool) : TxEnvelope where
  sequence := s.sender.nextSequence
  raw := pack s.sender.nextSequence m
  sent := carried
  receipt := if carried then some s.wire.length else none
  tries := 1
  deadline := now + s.sender.timeoutTime 1
  num := s.accepted.length

def Pair.send (m : Message) (now : ℚ) (carried : Bool) (s : Pair) : Pair :=
  if !s.isReadyToSend then s
  else
    let d := s.sender
    let env := s.newEnvelope m now carried
    if d.linkMdu = 0 ∨ env.raw.length > d.linkMdu.toNat then s
    else { s.transmit carried env.raw env.num with
      sender := { d with
        nextSequence := (d.nextSequence + 1) % SEQ_MODULUS
        txRing := d.txRing ++ [env] }
      accepted := s.accepted ++ [m] }

/-- `poll`'s loop, with the envelopes it has passed and those still ahead;
`carried` says of each sequence whether an interface takes the resend. -/
def Pair.pollFrom (now : ℚ) (carried : Nat → Bool) :
    List TxEnvelope → List TxEnvelope → Pair → Pair
  | _, [], s => s
  | kept, env :: rest, s =>
    if s.statusOf env = .delivered then
      pollFrom now carried kept rest { s with
        sender := { windowOpen s.sender with txRing := kept ++ rest }
        acked := s.acked ++ [env.num] }
    else if now ≥ env.deadline ∨ s.statusOf env = .culled then
      if env.tries ≥ MAX_TRIES then { s with sender := s.sender.shutdown }
      else
        let d := windowClose s.sender
        let env := { env with tries := env.tries + 1 }
        let wait := d.timeoutTime env.tries
        if !env.sent then      -- "Packet was not sent yet": the throw ends the poll
          { s with sender := { d with txRing := kept ++ env :: rest } }
        else
          let ok := carried env.sequence
          let env := { env with
            sent := ok
            receipt := if ok then some s.wire.length else env.receipt
            deadline := now + wait }
          pollFrom now carried (kept ++ [env]) rest
            { s.transmit ok env.raw env.num with sender := { d with txRing := kept ++ env :: rest } }
    else pollFrom now carried (kept ++ [env]) rest s

def Pair.poll (now : ℚ) (carried : Nat → Bool) (s : Pair) : Pair :=
  s.pollFrom now carried [] s.sender.txRing

-- ---------------------------------------------------------------------------
-- Receiving
-- ---------------------------------------------------------------------------

/-- The CHANNEL branch of `Link::receive`: the packet is proved, then handed to
the channel. -/
def Pair.arrive (i : Nat) (s : Pair) : Pair :=
  match s.wire[i]? with
  | none => s
  | some t =>
    if s.receiver.held then { s with
      proved := s.proved ++ [i]
      receiver := s.receiver.receive t.raw
      arrivals := s.arrivals ++ [⟨i, verdict t.raw s.receiver, true⟩] }
    else s

-- ---------------------------------------------------------------------------
-- Steps
-- ---------------------------------------------------------------------------

inductive Op where
  | send (m : Message) (now : ℚ) (carried : Bool)
  | poll (now : ℚ) (carried : Nat → Bool)
  | arrive (i : Nat)
  | proofArrives (i : Nat)
  | receiptTimesOut (i : Nat)
  | receiptCulled (i : Nat)
  /-- The sender's link goes stale, or active again, with a round trip of `rtt`. -/
  | linkMoves (active : Bool) (rtt : ℚ)
  | closeSender
  | closeReceiver

/-- A receipt that has concluded has left Transport's list, and is past change. -/
def Pair.conclude (i : Nat) (status : ReceiptStatus) (s : Pair) : Pair :=
  if s.receipts[i]? = some .sent then { s with receipts := s.receipts.set i status } else s

def Pair.step (s : Pair) : Op → Pair
  | .send m now carried => s.send m now carried
  | .poll now carried => s.poll now carried
  | .arrive i => s.arrive i
  | .proofArrives i => if i ∈ s.proved then s.conclude i .delivered else s
  | .receiptTimesOut i => s.conclude i .failed
  | .receiptCulled i => s.conclude i .culled
  | .linkMoves active rtt =>
    { s with sender := { s.sender with linkActive := active && s.sender.held, rtt } }
  | .closeSender => { s with sender := s.sender.shutdown }
  | .closeReceiver => { s with receiver := s.receiver.shutdown }

end MicroReticulum.Channel
