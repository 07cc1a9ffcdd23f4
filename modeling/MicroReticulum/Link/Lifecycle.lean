import MicroReticulum.Link.Proof

/-!
# How a link comes to be closed

Everything that changes a link's status behind its establishment: teardown,
received packets, the watchdog, and `link_closed`, which cleans up. Consumer
callbacks may call back into the link, so a call that has handed control to one
waits on a stack, and `ret` returns from the innermost. Parts of `LinkData` that
only establishment uses are in `Link`.
-/

namespace MicroReticulum.Link

open Lib (Outcome)

def KEEPALIVE_TIMEOUT_FACTOR : Nat := 4
def STALE_GRACE : Nat := 5
/-- The size of what a `LINKIDENTIFY` packet carries. -/
def IDENTIFY_SIZE : Nat := 64 + SIGLENGTH

inductive TeardownReason where
  | none | timeout | initiatorClosed | destinationClosed
  deriving DecidableEq, Repr

/-- Contexts of packets over a link; `other` is any that is decrypted and handed on. -/
inductive Context where
  | none | keepalive | resource | lrrtt | linkclose | linkidentify | other
  deriving DecidableEq, Repr

/-- A packet received over the link. -/
structure Received where
  isData : Bool := true
  context : Context
  data : Bytes
  receivingInterface : Nat
  /-- The identity in it has signed it. -/
  identifies : Bool := false
  /-- What the link sends in answer to it throws. -/
  sendFails : Bool := false
  deriving DecidableEq, Repr

/-- What reading a link's packets takes: `openSealed` of a key and a ciphertext is
empty where it fails, and `readRtt` throws for what is no number. -/
structure Reader where
  openSealed : Bytes → Bytes → Bytes
  readRtt : Bytes → Option ℚ

/-- A call that waits for a callback to return. -/
inductive Frame where
  | cancelIncoming (left : List Nat)
  | cancelOutgoing (left : List Nat)
  | closedCallback
  | establishedCallback
  | consumer
  deriving DecidableEq, Repr

/-- What `link_closed` does, in order. -/
inductive ClosingStep where
  | linkClosed (incoming : List Nat)
  | cancelled (resource : Nat)
  | outgoing (outgoing : List Nat)
  | finished (calledBack : Bool)
  deriving DecidableEq, Repr

structure Life where
  link : Link
  sigPrv : Option Bytes
  teardownReason : TeardownReason := .none
  packetCallback : Bool := false
  closedCallback : Bool := false
  incoming : List Nat := []
  outgoing : List Nat := []
  channel : Bool := false
  /-- The link's destination is one of our own, and lists it. -/
  listed : Bool := false
  lastInbound : ℚ := 0
  lastKeepalive : ℚ := 0
  staleDeadline : ℚ := 0
  stack : List Frame := []
  log : List ClosingStep := []
  /-- An assertion has failed. -/
  down : Bool := false

namespace Life

variable (l : Life)

def status : Status := l.link.status

def setStatus (s : Status) : Life := { l with link := { l.link with status := s } }

def call (f : Frame) : Life := { l with stack := f :: l.stack }

def note (s : ClosingStep) : Life := { l with log := l.log ++ [s] }

-- ---------------------------------------------------------------------------
-- link_closed
-- ---------------------------------------------------------------------------

/-- From the channel to the closed callback. -/
def finish : Life :=
  let l := { l.note (.finished l.closedCallback) with
    channel := false
    link := { l.link with prv := none, sharedKey := [], derivedKey := [] }
    listed := false }
  if l.closedCallback then l.call .closedCallback else l

/-- `cancel()` runs the consumer's concluded callback, whose throws go nowhere. -/
def cancelOutgoing : List Nat → Life → Life
  | r :: rs, l => (l.note (.cancelled r)).call (.cancelOutgoing rs)
  | [], l => l.finish

def cancelIncoming : List Nat → Life → Life
  | r :: rs, l => (l.note (.cancelled r)).call (.cancelIncoming rs)
  | [], l => cancelOutgoing l.outgoing (l.note (.outgoing l.outgoing))

def linkClosed : Life := cancelIncoming l.incoming (l.note (.linkClosed l.incoming))

/-- The status is assigned first, and `link_closed` called behind it. -/
def close (reason : TeardownReason) : Life :=
  { l.setStatus .closed with teardownReason := reason }.linkClosed

-- ---------------------------------------------------------------------------
-- Keys
-- ---------------------------------------------------------------------------

/-- `encrypt` and `decrypt` leave the token behind they made. -/
def withToken : Life :=
  match l.link.withToken with
  | .done k => { l with link := k }
  | _ => l

def decrypt (r : Reader) (data : Bytes) : Bytes :=
  match l.link.withToken with
  | .done k => r.openSealed (k.token.getD []) data
  | _ => []

/-- Whether `encrypt` and `decrypt` have a key to work with. -/
def canSeal : Bool := l.link.token.isSome || tokenKeyOk l.link.derivedKey

/-- Whether `sign` has one. -/
def canSign : Bool := l.sigPrv.isSome

-- ---------------------------------------------------------------------------
-- Teardown and the watchdog
-- ---------------------------------------------------------------------------

/-- A link past its request says goodbye first; a throw there leaves it open. -/
def teardown (now : ℚ) (sendFails : Bool) : Life :=
  let reason := if l.link.initiator then TeardownReason.initiatorClosed else .destinationClosed
  if l.status ≠ .pending ∧ l.status ≠ .closed then
    if !l.canSeal then l
    else if sendFails then l.withToken
    else { l.withToken with link := hadOutbound now l.withToken.link }.close reason
  else l.close reason

/-- `teardown_packet`. -/
def teardownPacket (r : Reader) (data : Bytes) : Life :=
  if l.decrypt r data ≠ l.link.linkId then l.withToken
  else l.withToken.close (if l.link.initiator then .destinationClosed else .initiatorClosed)

def sendKeepalive (sends : Bool) (now : ℚ) : Life :=
  if sends then { l with link := { l.link with lastOutbound := now }, lastKeepalive := now } else l

def goStale (now : ℚ) : Life :=
  { l.setStatus .stale with
    staleDeadline := now + l.link.rtt * KEEPALIVE_TIMEOUT_FACTOR + STALE_GRACE }

def linkWatchdog (now : ℚ) : Life :=
  match l.status with
  | .active =>
    let lastInbound := max (max l.lastInbound l.link.lastProof) l.link.activatedAt
    let ka : ℚ := l.link.keepalive
    if now ≥ lastInbound + ka ∨ now ≥ l.link.lastOutbound + ka then
      let inboundDue : Bool := now ≥ lastInbound + ka ∧
        (l.lastKeepalive < lastInbound + ka ∨ now ≥ l.lastKeepalive + ka / 4)
      let outboundDue : Bool := now ≥ l.link.lastOutbound + ka
      let sent := l.link.initiator && (inboundDue || outboundDue)
      if now ≥ lastInbound + l.link.staleTime then
        ((l.sendKeepalive sent now).sendKeepalive (l.link.initiator && !sent) now).goStale now
      else l.sendKeepalive sent now
    else l
  | .stale => if now ≥ l.staleDeadline then l.close .timeout else l
  | _ => l

-- ---------------------------------------------------------------------------
-- Received packets
-- ---------------------------------------------------------------------------

/-- The responder's side comes up; the owner's callback follows. -/
def activate (now rtt : ℚ) : Life :=
  let link := updateKeepalive { l.link with status := .active, activatedAt := now, rtt }
  { l with link := { link with establishmentRate :=
    if link.rtt > 0 ∧ link.establishmentCost > 0 then link.establishmentCost / link.rtt
    else link.establishmentRate } }

def activateWithoutRtt (now : ℚ) : Life := l.activate now (now - l.link.requestTime)

def rttPacket (r : Reader) (now : ℚ) (p : Received) : Life :=
  if l.decrypt r p.data = [] then l.withToken
  else match r.readRtt (l.decrypt r p.data) with
  | none => l.withToken.teardown now p.sendFails
  | some rtt => (l.withToken.activate now (max (now - l.link.requestTime) rtt)).call .consumer

/-- A packet over another interface moves the link there if it decrypts. -/
def repin (r : Reader) (p : Received) : Life :=
  if some p.receivingInterface = l.link.attachedInterface then l
  else if p.isData ∧ p.context ≠ .keepalive ∧ p.context ≠ .resource then
    if l.decrypt r p.data = [] then l.withToken
    else { l.withToken with link := { l.withToken.link with attachedInterface := some p.receivingInterface } }
  else l

def stamp (now : ℚ) (p : Received) : Life :=
  { l with
    lastInbound := now
    link := { l.link with lastData := if p.context = .keepalive then l.link.lastData else now } }

/-- Whatever is heard on a stale link makes it active again. -/
def revive : Life := if l.status = .stale then l.setStatus .active else l

def dispatch (r : Reader) (now : ℚ) (p : Received) : Life :=
  if !p.isData then l.call .consumer
  else match p.context with
  | .none =>
    if l.decrypt r p.data = [] then l.withToken
    else if !l.packetCallback ∧ !l.link.initiator then (l.withToken.activateWithoutRtt now).call .consumer
    else l.withToken.call .consumer
  | .linkidentify =>
    if !l.link.initiator ∧ (l.decrypt r p.data).length = IDENTIFY_SIZE ∧ p.identifies then
      if l.status = .handshake then (l.withToken.activateWithoutRtt now).call .consumer
      else l.withToken.call .consumer
    else l.withToken
  | .lrrtt => if !l.link.initiator ∧ l.status = .handshake then l.rttPacket r now p else l
  | .linkclose => l.teardownPacket r p.data
  | .keepalive =>
    if !l.link.initiator ∧ p.data = [0xFF] then { l with link := { l.link with lastOutbound := now } } else l
  | .resource => l.call .consumer
  | .other => if l.decrypt r p.data = [] then l.withToken else l.withToken.call .consumer

def receive (r : Reader) (now : ℚ) (p : Received) : Life :=
  if l.status = .closed ∨ l.link.initiator ∧ p.context = .keepalive ∧ p.data = [0xFF] then l
  else ((l.repin r p).stamp now p).revive.dispatch r now p

-- ---------------------------------------------------------------------------
-- Steps
-- ---------------------------------------------------------------------------

/-- An inbound link proof; the established callback is its last act. -/
def proof (c : Crypto) (now : ℚ) (p : Packet) : Life :=
  match inboundLrproof c now p { l.link with events := [] } with
  | .done k | .threw k =>
    let l := { l with link := k }
    if .established ∈ k.events then l.call .establishedCallback else l
  | .aborted => { l with down := true }

/-- The innermost callback returns, or throws, and its caller goes on. -/
def ret (throws : Bool) : Life :=
  match l.stack with
  | .cancelIncoming rs :: stack => cancelIncoming rs { l with stack }
  | .cancelOutgoing rs :: stack => cancelOutgoing rs { l with stack }
  | .establishedCallback :: stack =>
    if throws then { l with stack }.setStatus .closed else { l with stack }
  | _ :: stack => { l with stack }
  | [] => l

inductive Op where
  | teardown (now : ℚ) (sendFails : Bool)
  /-- `Transport::jobs` found the link half open for too long. -/
  | reap (now : ℚ) (sendFails : Bool)
  | receive (now : ℚ) (p : Received)
  | proof (now : ℚ) (p : Packet)
  | watchdog (now : ℚ)
  | ret (throws : Bool)
  | useToken
  | resources (incoming outgoing : List Nat)
  | getChannel
  | setClosedCallback (set : Bool)
  deriving DecidableEq

def act (c : Crypto) (r : Reader) : Life → Op → Life
  | l, .teardown now sendFails => l.teardown now sendFails
  | l, .reap now sendFails =>
    if l.status = .pending ∨ l.status = .handshake then
      { l with link := { l.link with registry := .none } }.teardown now sendFails
    else l
  | l, .receive now p => l.receive r now p
  | l, .proof now p => l.proof c now p
  | l, .watchdog now => l.linkWatchdog now
  | l, .ret throws => l.ret throws
  | l, .useToken => l.withToken
  | l, .resources incoming outgoing => { l with incoming, outgoing }
  | l, .getChannel => { l with channel := true }
  | l, .setClosedCallback set => { l with closedCallback := set }

def step (c : Crypto) (r : Reader) (l : Life) (op : Op) : Life := if l.down then l else l.act c r op

end Life

end MicroReticulum.Link
