import MicroReticulum.Lib.Machine
import MicroReticulum.Lib.Slots
import MicroReticulum.MsgPack.Packing
import MicroReticulum.Rnsd.Hosted
import MicroReticulum.Rnsd.ProofCounters
import MicroReticulum.Rnsd.Tables

/-!
# Opportunistic sends

A consumer of `RNSD_PORT_DEST` hands a packet in. It goes out when its path is
known and waits for one otherwise, and once it is out its receipt is kept until
the proof comes or the window is over. The receipts are shared with the
transport, which looks through its own list of them. The numbers `no` are not in
the source: they tell one send from the next.
-/

namespace MicroReticulum.Rnsd.Opportunistic

open Lib Lib.Log Lib.Log.Transition
open MicroReticulum.MsgPack (putBe be)
open Hosted (RNSD_MAX_OUR_DESTS)
open ProofCounters (PacketReceipt ReceiptStatus proofWindow)

def RNSD_OUR_DEST_MAX_PENDING : Nat := 4
def RNSD_OUR_DEST_INBOUND_MAX : Nat := 600
def RNSD_MAX_PENDING_RECEIPTS : Nat := 8
def RNSD_OUR_DEST_PATH_GIVEUP_S : ℚ := 6 * 3600
def MAX_RECEIPTS : Nat := 64

/-- Of a packet: the MTU less header and IFAC, then less token and key, in whole blocks less one. -/
def ENCRYPTED_MDU : Nat := (500 - 35 - 1 - 48 - 512 / 16) / 16 * 16 - 1

def ourDestRetryDelay (attempts : Nat) : ℚ := ([5, 30, 60, 120, 240, 480, 960] : List ℚ)[attempts]?.getD 1800

-- ---------------------------------------------------------------------------
-- Frames
-- ---------------------------------------------------------------------------

inductive Status where
  | sent | delivered | cancelled | evicted | failed | proofTimeout | tooLarge
  deriving DecidableEq, Repr

/-- The statuses of `OUT_STATUS` that have no tail. -/
inductive Aux where
  | requestingPath | egressQueued | queueFull
  deriving DecidableEq, Repr

/-- A frame to the consumer. -/
inductive Frame where
  | result (sendId : UInt16) (status : Status) (rttMs : UInt32) (hops : UInt8)
  | bare (sendId : UInt16) (type : Aux)
  | retry (sendId : UInt16) (attempt : UInt8)
  deriving DecidableEq, Repr

def Status.code : Status → UInt8
  | .sent => 0
  | .delivered => 1
  | .cancelled => 2
  | .evicted => 3
  | .failed => 4
  | .proofTimeout => 5
  | .tooLarge => 6

def Aux.code : Aux → UInt8
  | .requestingPath => 0x01
  | .egressQueued => 0x03
  | .queueFull => 0x08

def OUT_PACKET : UInt8 := 0x01
def OUT_RESULT : UInt8 := 0x02
def OUT_CANCEL : UInt8 := 0x03
def OUT_STATUS : UInt8 := 0x05
def AUX_RETRY : UInt8 := 0x06
def RETRY_REASON_PATH_TIMEOUT : UInt8 := 0x01

def Frame.sendId : Frame → UInt16
  | .result sendId .. | .bare sendId _ | .retry sendId _ => sendId

/-- `f` of `ourDestSendOutResult`, `ourDestSendOutStatusBare` and `ourDestSendOutStatusRetry`. -/
def Frame.bytes : Frame → Bytes
  | .result sendId status rttMs hops =>
    OUT_RESULT :: putBe 2 sendId.toNat ++ status.code :: putBe 4 rttMs.toNat ++ [hops]
  | .bare sendId type => OUT_STATUS :: putBe 2 sendId.toNat ++ [type.code]
  | .retry sendId attempt =>
    OUT_STATUS :: putBe 2 sendId.toNat ++ [AUX_RETRY, attempt, RETRY_REASON_PATH_TIMEOUT]

-- ---------------------------------------------------------------------------
-- The state
-- ---------------------------------------------------------------------------

/-- A slot of `s_our_dests`, and who had it. -/
structure Conn where
  idx : Nat
  handle : Handle
  deriving DecidableEq, Repr

/-- `our_dest_pending_t` in use. -/
structure Pending where
  no : Nat
  sendId : UInt16
  bytes : Bytes
  firstSeenAt : ℚ
  lastRequestPathAt : ℚ
  attempts : Nat := 0
  deriving DecidableEq

/-- What `our_dest_t` in use has of sends. -/
structure OurDest where
  handle : Handle
  pending : List (Option Pending) := .replicate RNSD_OUR_DEST_MAX_PENDING none

/-- `our_dest_receipt_t` in use; `receipt` is the object its receipt shares. -/
structure Awaited where
  no : Nat
  conn : Conn
  sendId : UInt16
  hops : UInt8
  sentAt : ℚ
  deadline : ℚ
  receipt : Nat
  deriving DecidableEq

/-- A receipt, and whether its delivery callback is rnsd's. -/
structure Receipt where
  packet : PacketReceipt
  hash : Bytes
  hooked : Bool := false

structure State where
  ourDests : List (Option OurDest) := .replicate RNSD_MAX_OUR_DESTS none
  awaited : List (Option Awaited) := .replicate RNSD_MAX_PENDING_RECEIPTS none
  /-- Every receipt there has been. -/
  receipts : List Receipt := []
  /-- The transport's `_receipts`, oldest first. -/
  outstanding : List Nat := []
  clock : ℚ
  serial : Nat := 0

inductive Event where
  | handed (no : Nat) (conn : Conn) (sendId : UInt16) (bytes : Bytes) (time : ℚ)
  /-- `Transport::request_path`. -/
  | asked (no : Nat) (dest : Bytes) (time : ℚ)
  /-- The transport took the packet and made a receipt. -/
  | aired (no : Nat) (payload hash : Bytes) (deadline : ℚ)
  /-- A frame goes to a consumer, about a send that is still open or about none. -/
  | told (no : Option Nat) (handle : Handle) (frame : Frame)
  /-- A receipt gives way to another in a full table. -/
  | ousted (no : Nat)
  | proved (hash : Bytes)
  | culled (hash : Bytes)
  /-- The consumer went while the send waited for its path, or for its proof. -/
  | dropped (no : Nat)
  | forgotten (no : Nat)
  /-- Taken up because its path was there, and put nowhere because it no longer was. -/
  | lost (no : Nat)
  deriving DecidableEq

/-- What `pkt.send()` comes to, the constructor of the packet before it included. -/
inductive Sends where
  | threw
  | noReceipt
  | sent (hash : Bytes) (hops : UInt8)
  deriving DecidableEq, Repr

/-- What one call of `ourDestTrySend` meets. -/
structure Look where
  hasPath : Bool
  recalls : Bool
  /-- The constructor of the destination returns. -/
  builds : Bool
  sends : Sends
  /-- `s.rnsd.proof_timeout_s`. -/
  window : Int
  deriving DecidableEq, Repr

/-- The walker looks for path and identity itself, before the call does. -/
structure Turn extends Look where
  found : Bool
  deriving DecidableEq, Repr

inductive Op where
  | wait (d : ℚ≥0)
  | connect (handle : Handle)
  | disconnect (ref : Nat)
  | recv (handle : Handle) (buf : Bytes) (look : Look)
  | tickPending (turns : Nat → Nat → Turn)
  | tickReceipts
  /-- Somebody else sends a packet with a receipt. -/
  | other (r : Receipt)
  /-- A proof comes in: the hash it names, and the receipts whose destination signed it. -/
  | proof (hash : Option Bytes) (signed : Nat → Bool)
  /-- The transport looks through `_receipts`. -/
  | jobs

namespace State

variable (s : State)

def dest (j : Nat) : Option OurDest := s.ourDests[j]?.join

def parked (j i : Nat) : Option Pending := (s.dest j).bind fun c => c.pending[i]?.join

def slot (j : Nat) : Option Awaited := s.awaited[j]?.join

def park (j i : Nat) (o : Option Pending) : State := { s with
  ourDests := s.ourDests.modify j (Option.map fun c => { c with pending := c.pending.set i o }) }

/-- `ourDestClearPendingSlot`. -/
def unpark (j i : Nat) : State := s.park j i none

/-- `ourDestFindByHandle`. -/
def findByHandle (h : Handle) : Option Nat := Slots.find Option.isSome (Option.map OurDest.handle) (some h) s.ourDests

def ourDestReceiptFree (j : Nat) : State :=
  match s.slot j with
  | none => s
  | some a => { s with
      receipts := s.receipts.modify a.receipt fun r => { r with hooked := false }
      awaited := s.awaited.set j none }

/-- The transport takes the packet. -/
def air (hash : Bytes) : State := { s with
  receipts := s.receipts ++ [{ packet := { sentAt := s.clock, timeout := 0 }, hash }]
  outstanding := s.outstanding ++ [s.receipts.length] }

/-- The tail of `ourDestReceiptTrack`. -/
def adopt (j no : Nat) (conn : Conn) (sendId : UInt16) (hops : UInt8) (receipt : Nat) (window : Int) : State := { s with
  awaited := s.awaited.set j (some {
    no, conn, sendId, hops, receipt
    sentAt := s.clock
    deadline := s.clock + window })
  receipts := s.receipts.modify receipt fun r => { r with packet := { r.packet with timeout := window }, hooked := true } }

end State

-- ---------------------------------------------------------------------------
-- Receipts
-- ---------------------------------------------------------------------------

def tell (no : Option Nat) (h : Handle) (f : Frame) : Transition State Event := act id (.told no h f)

def ourDestReceiptSettle (j : Nat) (status : Status) (rttMs : UInt32) : Transition State Event := fun s =>
  match s.slot j with
  | none => skip s
  | some a =>
    match s.dest a.conn.idx with
    | some c =>
      if c.handle = a.conn.handle then
        tell (some a.no) c.handle (.result a.sendId status rttMs a.hops) (s.ourDestReceiptFree j)
      else skip (s.ourDestReceiptFree j)
    | none => skip (s.ourDestReceiptFree j)

def rttMs (s : State) (receipt : Nat) : UInt32 :=
  match s.receipts[receipt]? with
  | some r => .ofInt r.packet.rttMs
  | none => 0

def hashOf (s : State) (o : Option Awaited) : Option Bytes :=
  o.bind fun a => s.receipts[a.receipt]?.map (·.hash)

def onOurDestReceiptDelivery (hash : Bytes) : Transition State Event := fun s =>
  match Slots.find Option.isSome (hashOf s) (some hash) s.awaited with
  | none => skip s
  | some j =>
    match s.slot j with
    | none => skip s
    | some a => ourDestReceiptSettle j .delivered (rttMs s a.receipt) s

def ourDestReceiptTrack (no : Nat) (conn : Conn) (sendId : UInt16) (hops : UInt8) (receipt : Nat) (window : Int) :
    Transition State Event := fun s =>
  match Slots.free Option.isSome s.awaited with
  | some j => quiet (fun s => s.adopt j no conn sendId hops receipt window) s
  | none =>
    match Slots.victim Option.isSome (fun o : Option Awaited => (o.map (·.deadline)).getD 0) s.awaited with
    | none => skip s
    | some j =>
      match s.slot j with
      | none => skip s
      | some a =>
        ((act id (.ousted a.no)).andThen <| (ourDestReceiptSettle j .proofTimeout 0).andThen <|
          quiet fun s => s.adopt j no conn sendId hops receipt window) s

def receiptTurn (j : Nat) : Transition State Event := fun s =>
  match s.slot j with
  | none => skip s
  | some a =>
    let status := (s.receipts[a.receipt]?.map (·.packet.status)).getD .failed
    if status = .delivered then ourDestReceiptSettle j .delivered (rttMs s a.receipt) s
    else if status ≠ .sent ∨ a.deadline ≤ s.clock then ourDestReceiptSettle j .proofTimeout 0 s
    else skip s

def ourDestReceiptTick : Transition State Event := all ((List.range RNSD_MAX_PENDING_RECEIPTS).map receiptTurn)

def purgeTurn (ref j : Nat) : Transition State Event := fun s =>
  match s.slot j with
  | none => skip s
  | some a => if a.conn.idx = ref then act (·.ourDestReceiptFree j) (.forgotten a.no) s else skip s

def ourDestReceiptPurgeConn (ref : Nat) : Transition State Event :=
  all ((List.range RNSD_MAX_PENDING_RECEIPTS).map (purgeTurn ref))

-- ---------------------------------------------------------------------------
-- Sending
-- ---------------------------------------------------------------------------

/-- What `ourDestTrySend` returns: 1, 0 or -1. -/
inductive Tried where
  | sent | pending | failed
  deriving DecidableEq, Repr

def target (bytes : Bytes) : Bytes := bytes.take 16

def payload (bytes : Bytes) : Bytes := bytes.drop 16

/-- The path is asked for, and the consumer is told. -/
def requestPath (conn : Conn) (no : Nat) (sendId : UInt16) (bytes : Bytes) : Transition State Event := fun s =>
  (s, [.asked no (target bytes) s.clock, .told (some no) conn.handle (.bare sendId .requestingPath)])

def sendOut (conn : Conn) (no : Nat) (sendId : UInt16) (bytes hash : Bytes) (hops : UInt8) (setting : Int) :
    Transition State Event := fun s =>
  ((act (·.air hash) (.aired no (payload bytes) hash (s.clock + proofWindow setting))).andThen <|
    (tell (some no) conn.handle (.bare sendId .egressQueued)).andThen <|
    (tell (some no) conn.handle (.result sendId .sent 0 hops)).andThen <|
    ourDestReceiptTrack no conn sendId hops s.receipts.length (proofWindow setting)) s

def ourDestTrySend (conn : Conn) (no : Nat) (sendId : UInt16) (bytes : Bytes) (look : Look) :
    Tried × Transition State Event :=
  let ends (status : Status) := tell (some no) conn.handle (.result sendId status 0 0)
  if bytes.length < 16 then (.failed, ends .evicted)
  else if !look.hasPath then (.pending, requestPath conn no sendId bytes)
  else if !look.recalls then (.pending, requestPath conn no sendId bytes)
  else if !look.builds then (.failed, ends .evicted)
  else if (payload bytes).length > ENCRYPTED_MDU then (.failed, ends .tooLarge)
  else
    match look.sends with
    | .threw => (.failed, ends .evicted)
    | .noReceipt => (.failed, ends .evicted)
    | .sent hash hops => (.sent, sendOut conn no sendId bytes hash hops look.window)

/-- What `OUT_PACKET` does with a send whose path is not there. -/
def hold (conn : Conn) (no : Nat) (sendId : UInt16) (bytes : Bytes) : Transition State Event := fun s =>
  match (s.dest conn.idx).bind fun c => Slots.free Option.isSome c.pending with
  | none => tell (some no) conn.handle (.bare sendId .queueFull) s
  | some i =>
    skip (s.park conn.idx i (some { no, sendId, bytes, firstSeenAt := s.clock, lastRequestPathAt := s.clock }))

def outPacket (conn : Conn) (sendId : UInt16) (bytes : Bytes) (look : Look) : Transition State Event := fun s =>
  let tried := ourDestTrySend conn s.serial sendId bytes look
  ((act (fun s => { s with serial := s.serial + 1 }) (.handed s.serial conn sendId bytes s.clock)).andThen <|
    tried.2.andThen <|
    if tried.1 = .pending then hold conn s.serial sendId bytes else skip) s

def outCancel (conn : Conn) (sendId : UInt16) : Transition State Event := fun s =>
  match (s.dest conn.idx).bind fun c =>
      Slots.find Option.isSome (Option.map Pending.sendId) (some sendId) c.pending with
  | none => tell none conn.handle (.result sendId .cancelled 0 0) s
  | some i =>
    match s.parked conn.idx i with
    | none => skip s
    | some p => tell (some p.no) conn.handle (.result sendId .cancelled 0 0) (s.unpark conn.idx i)

/-- The frames about sends. -/
def onOurDestRecv (h : Handle) (buf : Bytes) (look : Look) : Transition State Event := fun s =>
  match s.findByHandle h with
  | none => skip s
  | some j =>
    match buf.take (1 + RNSD_OUR_DEST_INBOUND_MAX) with
    | op :: hi :: lo :: rest =>
      if op = OUT_PACKET then
        if rest.length < 16 then skip s else outPacket ⟨j, h⟩ (.ofNat (be [hi, lo])) rest look s
      else if op = OUT_CANCEL then outCancel ⟨j, h⟩ (.ofNat (be [hi, lo])) s
      else skip s
    | _ => skip s

def pendingTurn (j i : Nat) (turn : Turn) : Transition State Event := fun s =>
  match s.dest j, s.parked j i with
  | some c, some p =>
    if turn.found then
      let tried := ourDestTrySend ⟨j, c.handle⟩ p.no p.sendId p.bytes turn.toLook
      (tried.2.andThen (if tried.1 = .pending then act id (.lost p.no) else skip)) (s.unpark j i)
    else if s.clock - p.firstSeenAt ≥ RNSD_OUR_DEST_PATH_GIVEUP_S then
      tell (some p.no) c.handle (.result p.sendId .failed 0 0) (s.unpark j i)
    else if s.clock - p.lastRequestPathAt ≥ ourDestRetryDelay p.attempts then
      (s.park j i (some { p with attempts := p.attempts + 1, lastRequestPathAt := s.clock }),
        [.asked p.no (target p.bytes) s.clock,
          .told (some p.no) c.handle (.retry p.sendId (.ofNat (min (p.attempts + 1) 255)))])
    else skip s
  | _, _ => skip s

def ourDestTickPending (turns : Nat → Nat → Turn) : Transition State Event :=
  all ((List.range RNSD_MAX_OUR_DESTS).map fun j =>
    all ((List.range RNSD_OUR_DEST_MAX_PENDING).map fun i => pendingTurn j i (turns j i)))

def onOurDestConnect (h : Handle) : Transition State Event := quiet fun s =>
  match Slots.free Option.isSome s.ourDests with
  | none => s
  | some j => { s with ourDests := s.ourDests.set j (some { handle := h }) }

def close (ref : Nat) : Transition State Event := fun s =>
  match s.dest ref with
  | none => skip s
  | some c => ({ s with ourDests := s.ourDests.set ref none }, c.pending.filterMap (Option.map fun p => .dropped p.no))

def onOurDestDisconnect (ref : Nat) : Transition State Event := fun s =>
  match s.dest ref with
  | none => skip s
  | some _ => ((ourDestReceiptPurgeConn ref).andThen (close ref)) s

-- ---------------------------------------------------------------------------
-- The transport's half
-- ---------------------------------------------------------------------------

/-- `PacketReceipt::validate_proof`, of a proof that is signed. -/
def validateProof (i : Nat) : Transition State Event := fun s =>
  match s.receipts[i]? with
  | none => skip s
  | some r =>
    let s' := { s with receipts := s.receipts.set i { r with packet := r.packet.deliver s.clock } }
    ((act id (.proved r.hash)).andThen (if r.hooked then onOurDestReceiptDelivery r.hash else skip)) s'

def Matches (s : State) (hash : Option Bytes) (signed : Nat → Bool) (i : Nat) : Bool :=
  signed i && (hash.isNone || hash = s.receipts[i]?.map (·.hash))

def inboundProof (hash : Option Bytes) (signed : Nat → Bool) : Transition State Event := fun s =>
  let ours := s.outstanding.filter (Matches s hash signed)
  ((all (ours.map validateProof)).andThen
    (quiet fun s => { s with outstanding := s.outstanding.filter (· ∉ ours) })) s

/-- The oldest go where there are too many. -/
def cullReceipts : Transition State Event := fun s =>
  let out := s.outstanding.take (s.outstanding.length - MAX_RECEIPTS)
  ({ s with
    outstanding := s.outstanding.drop (s.outstanding.length - MAX_RECEIPTS)
    receipts := s.receipts.mapIdx fun i r =>
      if i ∈ out then { r with packet := { r.packet with timeout := -1 }.checkTimeout s.clock } else r },
    out.filterMap fun i => s.receipts[i]?.map fun r => .culled r.hash)

def checkReceipts (s : State) : State :=
  let receipts := s.receipts.mapIdx fun i r =>
    if i ∈ s.outstanding then { r with packet := r.packet.checkTimeout s.clock } else r
  { s with receipts, outstanding := s.outstanding.filter fun i => (receipts[i]?.map (·.packet.status)) = some .sent }

def jobs : Transition State Event := cullReceipts.andThen (quiet checkReceipts)

def other (r : Receipt) (s : State) : State := { s with
  receipts := s.receipts ++ [{ r with hooked := false }]
  outstanding := s.outstanding ++ [s.receipts.length] }

def step : Op → Transition State Event
  | .wait d => quiet fun s => { s with clock := s.clock + d }
  | .connect h => onOurDestConnect h
  | .disconnect ref => onOurDestDisconnect ref
  | .recv h buf look => onOurDestRecv h buf look
  | .tickPending turns => ourDestTickPending turns
  | .tickReceipts => ourDestReceiptTick
  | .other r => quiet (other r)
  | .proof hash signed => inboundProof hash signed
  | .jobs => jobs

def boot (t : ℚ) : State := { clock := t }

end MicroReticulum.Rnsd.Opportunistic
