import MicroReticulum.Lib.Log
import MicroReticulum.Lib.Slots
import MicroReticulum.Link.Listeners
import MicroReticulum.MsgPack.Printer
import MicroReticulum.Resource.Basics

/-!
# The consumer tables of rnsd

`link_conn_t` and `chan_conn_t`, which the two tables of rnsd are made of, as
one record: the fields of requests, identifies, packets and attempts belong to
the link table alone, `inbound` to the channel table. What rnsd does to one
slot is a transition of that record which logs what leaves rnsd on the way. The
numbers `opening`, `reqNo` and `resNo` are not in the source: they tell one
use of a slot, one request and one send from the next, and `resOn` is the link
that the Resource in flight runs on.
-/

namespace MicroReticulum.Rnsd

open Lib.Log Lib.Log.Transition
open MicroReticulum.Link (ConnState RNSD_MAX_LINK_CONNS RNSD_MAX_CHAN_CONNS)
open MicroReticulum.MsgPack (Text hex ResourceAdvertisement)

def RNSD_LINK_ATTEMPTS : Nat := 3
def RNSD_PATH_REASK_S : ℚ := 30
def ESTABLISHMENT_TIMEOUT_PER_HOP : ℚ≥0 := 6
/-- How long a dead slot stays for its subscribers to see. -/
def GRACE_S : ℚ := 3

abbrev Task := Nat
abbrev Handle := Nat

inductive Kind where
  | link | channel
  deriving DecidableEq, Repr

/-- A `RNS::Link` object, and the table whose callbacks are wired on it. -/
structure LinkRef where
  kind : Kind
  id : Nat
  deriving DecidableEq, Repr

-- ---------------------------------------------------------------------------
-- What consumers hand in and get back
-- ---------------------------------------------------------------------------

/-- A `SEND_RESOURCE` frame; `buf` is its buffer, by address. -/
structure Send where
  no : Nat
  buf : Option Nat
  len : Nat
  opaqueId : Nat
  deriving DecidableEq, Repr

/-- A `REQUEST` frame, and who sent it. -/
structure Request where
  no : Nat
  task : Task
  port : Nat
  cid : Nat
  path : Bytes
  data : Bytes
  packed : Bool
  deriving DecidableEq, Repr

inductive ResOp where
  | inboundDone | outboundDone | failed
  deriving DecidableEq, Repr

inductive ReqOp where
  | response | failed
  deriving DecidableEq, Repr

/-- `rnsd_link_resource_done_t` on its way to a consumer; `send` is the send it ends. -/
structure ResAux where
  task : Task
  op : ResOp
  link : Option LinkRef
  resHash : Bytes
  destHash : Bytes
  data : Bytes
  opaqueId : Nat
  send : Option Nat
  deriving DecidableEq, Repr

/-- The same frame on its way to a requester. -/
structure ReqAux where
  task : Task
  port : Nat
  op : ReqOp
  link : Option LinkRef
  mrid : Bytes
  destHash : Bytes
  data : Bytes
  cid : Nat
  no : Nat
  deriving DecidableEq, Repr

/-- What waits in a slot for the link to come up, in the order it goes out. -/
inductive Item where
  | identify | packet | resource | request
  deriving DecidableEq, Repr

/-- A Resource the engine has registered on a link and not concluded. -/
structure Transfer where
  link : LinkRef
  hash : Bytes
  outbound : Bool
  deriving DecidableEq, Repr

inductive Event where
  /-- An establishment is started for a use of a slot. -/
  | started (opening : Nat) (l : LinkRef)
  /-- A waiting item is issued. -/
  | flushed (opening : Nat) (item : Item)
  | identified (l : Option LinkRef) (key : String)
  | packet (l : Option LinkRef) (bytes : Bytes)
  | began (t : Transfer)
  | asked (r : Request)
  | issued (no : Nat) (mrid : Bytes)
  | reqAux (a : ReqAux)
  | handed (s : Send)
  | freed (buf : Nat)
  | resAux (a : ResAux)
  /-- A send goes with its slot, whether or not a consumer is still there. -/
  | lost (no : Nat) (attached : Bool)
  | disconnected (h : Handle)
  deriving DecidableEq

/-- An identify that the peer has yet to prove. -/
structure Identify where
  deadline : ℚ
  window : ℚ
  resent : Bool
  deriving DecidableEq

-- ---------------------------------------------------------------------------
-- Slots
-- ---------------------------------------------------------------------------

structure Conn where
  used : Bool := false
  handle : Option Handle := none
  tag : Text := []
  destHash : Bytes := []
  aspect : Text := []
  identityKey : String := ""
  inbound : Bool := false
  state : ConnState := .free
  link : Option LinkRef := none
  lastActivity : ℚ := 0
  pathDeadline : ℚ := 0
  pathAskedAt : ℚ := 0
  estabDeadline : ℚ := 0
  attempts : Nat := 0
  linkTimeoutMs : Nat := 0
  deadAt : ℚ := 0
  pendPacket : Option Bytes := none
  noProofs : Bool := false
  consumerTask : Option Task := none
  resHash : Bytes := []
  resOutbound : Bool := false
  resOpaque : Nat := 0
  pendRes : Option Send := none
  reqMrid : Bytes := []
  reqCid : Nat := 0
  reqPort : Nat := 0
  reqTask : Option Task := none
  reqDeadline : ℚ := 0
  pendIdentify : Option String := none
  ident : Option Identify := none
  pendReq : Option Request := none
  opening : Nat := 0
  reqNo : Nat := 0
  resNo : Nat := 0
  resOn : Option LinkRef := none
  deriving DecidableEq

-- ---------------------------------------------------------------------------
-- Resources
-- ---------------------------------------------------------------------------

def free (buf : Option Nat) : List Event := buf.toList.map .freed

/-- `resSendAux` and `chanResSendAux`. -/
def resSendAux (c : Conn) (op : ResOp) (data : Bytes) (send : Option Nat) : List Event :=
  match c.consumerTask with
  | none => []
  | some task => [.resAux ⟨task, op, c.link, c.resHash, c.destHash, data, c.resOpaque, send⟩]

/-- What came of the Resource constructor. It throws, before or after the object
is registered, or makes an object; that has no hash, and is not registered, where
the link would not encrypt. -/
inductive Made where
  | threw (registered : Option Bytes)
  | made (hash : Bytes)
  deriving DecidableEq, Repr

def Made.registered : Made → Option Bytes
  | .threw h => h
  | .made h => if h ≠ [] then some h else none

def began (l : Option LinkRef) (hash : Option Bytes) (outbound : Bool) : List Event :=
  match l, hash with
  | some l, some h => [.began ⟨l, h, outbound⟩]
  | _, _ => []

/-- `linkStartOutboundResource` and `chanStartOutboundResource`. -/
def startOutboundResource (m : Made) (s : Send) : Transition Conn Event := fun c =>
  if c.resHash ≠ [] then (c, free s.buf)
  else match m with
    | .threw _ => (c, began c.link m.registered true ++ free s.buf ++ resSendAux c .failed [] (some s.no))
    | .made h =>
      ({ c with resHash := h, resOutbound := true, resOpaque := s.opaqueId, resNo := s.no, resOn := c.link },
        began c.link m.registered true ++ free s.buf)

/-- `SEND_RESOURCE` once its tag is found, in `onLinkAux` and `onChannelAux`. -/
def sendResource (m : Made) (s : Send) : Transition Conn Event := fun c =>
  if c.pendRes.isSome ∨ c.resHash ≠ [] then (c, free s.buf)
  else if c.link = none ∨ c.state ≠ .active then ({ c with pendRes := some s }, [])
  else startOutboundResource m s c

/-- A Resource waiting for the link goes out. -/
def flushResource (m : Made) : Transition Conn Event := fun c =>
  match c.pendRes with
  | none => (c, [])
  | some s =>
    let r := startOutboundResource m s { c with pendRes := none }
    (r.1, .flushed c.opening .resource :: r.2)

/-- How a Resource ended; `data` is what a complete one holds, and is missing
where rnsd has no memory for a copy. -/
structure Conclusion where
  complete : Bool
  data : Option Bytes
  deriving DecidableEq, Repr

def Conclusion.failed : Conclusion := ⟨false, none⟩

/-- `onResConcluded` and `chanResConcluded` once the slot is found. -/
def concludeResource (out : Conclusion) : Transition Conn Event := fun c =>
  ({ c with resHash := [], resOutbound := false, resOpaque := 0 },
    if c.resOutbound then
      resSendAux c (if out.complete then .outboundDone else .failed) [] (some c.resNo)
    else match out.complete, out.data with
      | true, some data => resSendAux c .inboundDone data none
      | _, _ => resSendAux c .failed [] none)

/-- The sends that go with a slot. -/
def lose (c : Conn) : List Event :=
  (if c.resHash ≠ [] ∧ c.resOutbound then [.lost c.resNo c.handle.isSome] else []) ++
    c.pendRes.elim [] fun s => .lost s.no c.handle.isSome :: free s.buf

/-- What the gate of an advertisement reads beside the tables. -/
structure Gate where
  /-- The destination is hosted here and does not accept. -/
  refuses : Bytes → Bool
  maxInboundTotal : Int
  maxSize : Nat

/-- The part of `onResAdvertised` and of `chanResAdvertised` that reads the slot. -/
def admits (g : Gate) (k : Kind) (inflight : Nat) (adv : ResourceAdvertisement) (c : Conn) : Bool :=
  !((k = .link ∨ c.inbound) ∧ g.refuses c.destHash) && (c.resHash = []) &&
    !(k = .link ∧ g.maxInboundTotal ≤ inflight) && decide (adv.d ≤ g.maxSize)

/-- What `Resource::accept` registers; it throws before that where memory is out. -/
def accept (memory : Bool) (adv : ResourceAdvertisement) : Option Bytes :=
  if adv.h.length < 32 ∨ adv.r.length < Resource.RANDOM_HASH_SIZE ∨ !memory then none else some (adv.h.take 32)

/-- The gate marks the slot, then the engine accepts or does not. -/
def markResource (memory : Bool) (adv : ResourceAdvertisement) : Transition Conn Event := fun c =>
  ({ c with resHash := adv.h, resOutbound := false, resOpaque := 0, resOn := c.link },
    began c.link (accept memory adv) false)

end MicroReticulum.Rnsd
