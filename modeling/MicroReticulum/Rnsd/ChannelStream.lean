import MicroReticulum.Lib.Progress
import MicroReticulum.Channel.Receipts
import MicroReticulum.Channel.Window

/-!
# What a consumer sends through a channel

A consumer of `RNSD_PORT_CHANNEL` writes frames, a message type with its payload
behind it. A frame goes to the channel if that takes it now, and waits in the
slot's outbox if not. The other end frames what its own channel hands over and
passes it to the consumer there. The slots of the two ends stand on one channel
pair; a crash of the writer's node ends its part.
-/

namespace MicroReticulum.Rnsd.ChannelStream

open Channel (Pair Message TxEnvelope MAX_TRIES SEQ_MODULUS)
open Lib.Runs (run Guarded Throughout)

def RNSD_CHAN_MAX_OUTBOX : Nat := 16
def CHAN_MSGTYPE_PREFIX : Nat := 2

/-- `sizeof(buf)` of `onChannelRecv` and `sizeof(framed)` of `onChannelMsgCb`. -/
def FRAME_MAX : Nat := 2048

-- ---------------------------------------------------------------------------
-- Frames
-- ---------------------------------------------------------------------------

/-- `framed`. -/
def frame (m : Message) : Bytes := .ofNat (m.msgtype.toNat >>> 8) :: .ofNat m.msgtype.toNat :: m.data

/-- What `chanSendFramed` makes of a frame that has its message type. -/
def message (buf : Bytes) : Message :=
  ⟨.ofNat (buf.byte 0 <<< 8 ||| buf.byte 1), buf.drop CHAN_MSGTYPE_PREFIX⟩

-- ---------------------------------------------------------------------------
-- The state
-- ---------------------------------------------------------------------------

/-- `link_state_t`, with a slot that waits for its path or its link, one that is closed or has failed,
one that is not in use, and one whose node has gone down. -/
inductive Phase where
  | waiting | active | closed | free | dead
  deriving DecidableEq, Repr

/-- What a slot has as `last_error`. -/
inductive Error where
  | oversize | sendQueueFull | rxOversize | rxOverflow | noPath | establishTimeout | timeout | remoteClosed
  deriving DecidableEq, Repr

structure State where
  pair : Pair
  /-- Its link is one of its own making. -/
  out : Bool
  phase : Phase
  outbox : List Bytes := []
  txMsgs : Nat := 0
  /-- `pub_outstanding`. -/
  outstanding : Option Nat := none
  lastError : Option Error := none
  clock : ℚ
  /-- What the reader's consumer has been sent, and the keys of its slot. -/
  consumed : List Bytes := []
  rxMsgs : Nat := 0
  rxError : Option Error := none
  /-- Ghost: every frame that went to the channel or to the outbox. -/
  taken : List Bytes := []
  /-- Ghost: what was in the outbox when the slot was freed. -/
  cleared : List Bytes := []

/-- A slot that a link came in for has it from the start. -/
def boot (out : Bool) (mdu peer : UInt16) (t : ℚ) : State where
  pair := Pair.init mdu peer
  out
  phase := if out then .waiting else .active
  clock := t

-- ---------------------------------------------------------------------------
-- The writer's slot
-- ---------------------------------------------------------------------------

/-- `Channel::mdu`. -/
def mdu (linkMdu : UInt16) : Nat := if linkMdu.toNat ≤ 6 then 0 else linkMdu.toNat - 6

def chanSendFramed (buf : Bytes) (carried : Bool) (s : State) : Bool × State :=
  if buf.length < CHAN_MSGTYPE_PREFIX then (true, s)
  else
    let pair := s.pair.send (message buf) s.clock carried
    (decide (pair.accepted ≠ s.pair.accepted), { s with pair })

/-- The loop of `chanFlushOutbox` over the outbox. -/
def flush (carried : Nat → Bool) : List Bytes → State → State
  | [], s => s
  | m :: rest, s =>
    if s.pair.isReadyToSend then
      let sent := chanSendFramed m (carried s.pair.accepted.length) s
      if sent.1 then flush carried rest { sent.2 with outbox := rest, txMsgs := sent.2.txMsgs + 1 } else sent.2
    else s

def chanFlushOutbox (carried : Nat → Bool) (s : State) : State := flush carried s.outbox s

/-- The end of `onChannelRecv`. -/
def buffer (buf : Bytes) (s : State) : State :=
  if s.outbox.length < RNSD_CHAN_MAX_OUTBOX then
    { s with outbox := s.outbox ++ [buf], taken := s.taken ++ [buf] }
  else { s with lastError := some .sendQueueFull }

def onChannelRecv (data : Bytes) (carried : Bool) (s : State) : State :=
  if s.phase = .free ∨ s.phase = .dead then s
  else
    let buf := data.take FRAME_MAX
    if buf.length < CHAN_MSGTYPE_PREFIX then s
    else if s.phase = .active then
      let most := mdu s.pair.sender.linkMdu
      if most ≠ 0 ∧ buf.length - CHAN_MSGTYPE_PREFIX > most then { s with lastError := some .oversize }
      else if s.outbox = [] ∧ s.pair.isReadyToSend then
        let sent := chanSendFramed buf carried s
        if sent.1 then { sent.2 with txMsgs := sent.2.txMsgs + 1, taken := sent.2.taken ++ [buf] }
        else buffer buf sent.2
      else buffer buf s
    else buffer buf s

def onChanLinkEstablishedCb (carried : Nat → Bool) (s : State) : State :=
  if s.phase = .waiting then chanFlushOutbox carried { s with phase := .active, lastError := none } else s

/-- `onChanLinkClosedCb`, and `channelTick` where the link does not come up. -/
def onChanLinkClosedCb (error : Option Error) (s : State) : State :=
  if s.phase = .waiting ∨ s.phase = .active then { s with
    pair := s.pair.step .closeSender
    phase := .closed
    lastError := error <|> s.lastError }
  else s

def chanFreeSlot (s : State) : State :=
  if s.phase = .free ∨ s.phase = .dead then s
  else { s with
    pair := s.pair.step .closeSender
    phase := .free
    outbox := []
    txMsgs := 0
    outstanding := none
    lastError := none
    cleared := s.outbox }

/-- `Channel::poll` does something about the envelope other than dropping it. -/
def Due (pair : Pair) (now : ℚ) (env : TxEnvelope) : Prop :=
  pair.statusOf env ≠ .delivered ∧ (now ≥ env.deadline ∨ pair.statusOf env = .culled)

instance (pair : Pair) (now : ℚ) : DecidablePred (Due pair now) := fun _ => inferInstanceAs (Decidable (_ ∧ _))

/-- The envelope at which the loop of `Channel::poll` ends early, with a teardown or a throw. -/
def pollEnd (pair : Pair) (now : ℚ) : Option TxEnvelope :=
  pair.sender.txRing.find? fun env => Due pair now env && (decide (MAX_TRIES ≤ env.tries) || !env.sent)

def pollThrows (pair : Pair) (now : ℚ) : Bool := (pollEnd pair now).any fun env => env.tries < MAX_TRIES

/-- Nothing catches what `Channel::poll` throws here, and the node goes down. -/
def channelPollAll (resent carried : Nat → Bool) (s : State) : State :=
  if s.phase = .active then
    let polled := { s with pair := s.pair.poll s.clock resent }
    if pollThrows s.pair s.clock then { polled with phase := .dead }
    else if polled.pair.sender.held then
      let flushed := chanFlushOutbox carried polled
      { flushed with outstanding := some flushed.pair.sender.txRing.length }
    else { polled with phase := .closed, lastError := if s.out then s.lastError else some .remoteClosed }
  else s

-- ---------------------------------------------------------------------------
-- The reader's slot
-- ---------------------------------------------------------------------------

/-- `room` says whether `itsSend` finds room in the consumer's pipe. -/
def onChannelMsgCb (room : Bool) (m : Message) (s : State) : State :=
  if m.data.length + CHAN_MSGTYPE_PREFIX > FRAME_MAX then { s with rxError := some .rxOversize }
  else if room then { s with consumed := s.consumed ++ [frame m], rxMsgs := s.rxMsgs + 1 }
  else { s with rxError := some .rxOverflow }

/-- The calls of one arrival, the message number `n` the first. -/
def handOver (room : Nat → Bool) : Nat → List Message → State → State
  | _, [], s => s
  | n, m :: ms, s => handOver room (n + 1) ms (onChannelMsgCb (room n) m s)

def arrive (i : Nat) (room : Nat → Bool) (s : State) : State :=
  let pair := s.pair.step (.arrive i)
  let had := s.pair.receiver.handed.length
  handOver room had (pair.receiver.handed.drop had) { s with pair }

-- ---------------------------------------------------------------------------
-- Steps
-- ---------------------------------------------------------------------------

/-- `carried` and `resent` say of a message, and of a sequence number, whether an interface takes it. -/
inductive Op where
  | wait (d : ℚ≥0)
  | write (data : Bytes) (carried : Bool)
  | established (carried : Nat → Bool)
  | pollAll (resent carried : Nat → Bool)
  | closed (error : Option Error)
  | free
  | arrive (i : Nat) (room : Nat → Bool)
  | proofArrives (i : Nat)
  | receiptTimesOut (i : Nat)
  | receiptCulled (i : Nat)
  | linkMoves (active : Bool) (rtt : ℚ)
  | closeReader

def step (s : State) : Op → State
  | .wait d => { s with clock := s.clock + d }
  | .write data carried => onChannelRecv data carried s
  | .established carried => onChanLinkEstablishedCb carried s
  | .pollAll resent carried => channelPollAll resent carried s
  | .closed error => onChanLinkClosedCb error s
  | .free => chanFreeSlot s
  | .arrive i room => arrive i room s
  | .proofArrives i => { s with pair := s.pair.step (.proofArrives i) }
  | .receiptTimesOut i => { s with pair := s.pair.step (.receiptTimesOut i) }
  | .receiptCulled i => { s with pair := s.pair.step (.receiptCulled i) }
  | .linkMoves active rtt => { s with pair := s.pair.step (.linkMoves active rtt) }
  | .closeReader => { s with pair := s.pair.step .closeReceiver }

end MicroReticulum.Rnsd.ChannelStream
