import MicroReticulum.Link.Closing

/-!
# Links that peers open to us

What stands behind a link this node has accepted: the `link_established`
callback of its destination, which runs when the link comes up, and the tables
that callback seats the link's consumer in. A destination listens for links or
for channels; the two callbacks differ in what they wire on the link. All other
use of the tables (connections going out, consumers that leave, the tick that
reclaims slots) is one operation that rewrites a table.
-/

namespace MicroReticulum.Link

def RNSD_MAX_LINK_CONNS : Nat := 32
def RNSD_MAX_CHAN_CONNS : Nat := 8

namespace Life

variable (l : Life)

/-- Sends the link proof; `none` is a send that throws, else the size of what went out. -/
def prove (now : ℚ) (sent : Option Nat) : Life :=
  match sent with
  | some size =>
    { l with link := hadOutbound now { l.link with
      establishmentCost := (l.link.establishmentCost + size) % 65536 } }
  | none => l

/-- `validate_request` of a request whose link is there already. -/
def requestedAgain (now : ℚ) (sent : Option Nat) : Life :=
  if l.status = .active then l else l.prove now sent

/-- The proof is sent once more where no RTT packet has answered it. -/
def repairProof (now : ℚ) (sent : Option Nat) : Life :=
  if !l.link.initiator ∧ l.status = .handshake then l.prove now sent else l

/-- Whether `dispatch` goes through `rtt_packet` or `activate_without_rtt` to the
owner's callback. -/
def announces (r : Reader) (p : Received) : Bool :=
  p.isData && !l.link.initiator && match p.context with
  | .none => decide (l.decrypt r p.data ≠ []) && !l.packetCallback
  | .linkidentify =>
    decide ((l.decrypt r p.data).length = IDENTIFY_SIZE) && p.identifies && decide (l.status = .handshake)
  | .lrrtt =>
    decide (l.status = .handshake) && decide (l.decrypt r p.data ≠ []) &&
      (r.readRtt (l.decrypt r p.data)).isSome
  | _ => false

end Life

-- ---------------------------------------------------------------------------
-- Accepted links
-- ---------------------------------------------------------------------------

/-- The `link_established` callback of a destination: `onIncomingLinkEstablished`,
`onIncomingChannelEstablished`, or none. -/
inductive Listener where
  | none | links | channels
  deriving DecidableEq, Repr

structure Accepted where
  life : Life
  listener : Listener
  /-- The packets that callback has run for. -/
  announcements : List Received := []

namespace Accepted

variable (a : Accepted)

/-- The packet gets past `receive` to a handler that brings the link up. -/
def brings (r : Reader) (now : ℚ) (p : Received) : Bool :=
  decide (a.life.status ≠ .closed) && (a.life.prepared r now p).announces r p

/-- The owner's callback runs, where there is one. -/
def calls (r : Reader) (now : ℚ) (p : Received) : Bool :=
  decide (a.listener ≠ .none) && a.brings r now p

def act (f : Life → Life) : Accepted := { a with life := f a.life }

def receive (r : Reader) (now : ℚ) (p : Received) : Accepted :=
  { a.act (·.receive r now p) with
    announcements := a.announcements ++ if a.calls r now p then [p] else [] }

end Accepted

-- ---------------------------------------------------------------------------
-- Tables
-- ---------------------------------------------------------------------------

inductive ConnState where
  | free | awaitingPath | establishing | active | closing | closed | failed
  deriving DecidableEq, Repr

/-- `link_conn_t` and `chan_conn_t`, as far as a place for a link depends on them. -/
structure Conn where
  used : Bool := false
  link : Option Nat := none
  state : ConnState := .free
  lastActivity : ℚ := 0
  deriving DecidableEq

/-- The earliest of those idle for longest, from the `j`-th on. -/
def longestIdle : List Conn → Nat → Option (Nat × Conn) → Option (Nat × Conn)
  | [], _, victim => victim
  | conn :: conns, j, none => longestIdle conns (j + 1) (some (j, conn))
  | conn :: conns, j, some (v, victim) =>
    longestIdle conns (j + 1) (if conn.lastActivity < victim.lastActivity then some (j, conn) else some (v, victim))

/-- The slot a new connection gets, and the connection it takes it from. -/
structure Place where
  slot : Nat
  evicted : Option Conn
  deriving DecidableEq

/-- `linkAlloc` and `chanAlloc`: an unused slot, else the one idle for longest. -/
def place (conns : List Conn) : Option Place :=
  match conns.findIdx? (!·.used) with
  | some j => some ⟨j, none⟩
  | none => (longestIdle conns 0 none).map fun v => ⟨v.1, some v.2⟩

/-- A link that was given a slot. -/
structure Seat where
  link : Nat
  place : Place
  deriving DecidableEq

structure Node where
  links : Nat → Accepted
  linkConns : List Conn := .replicate RNSD_MAX_LINK_CONNS {}
  chanConns : List Conn := .replicate RNSD_MAX_CHAN_CONNS {}
  seats : List Seat := []

/-- How things stand when a destination's callback runs. -/
structure Reaction where
  now : ℚ
  /-- A task listens on the destination, and has an inbox. -/
  listened : Bool := true
  /-- That task takes the connection. -/
  reached : Bool := true
  /-- A goodbye on the link throws, or one on the link that is evicted. -/
  sendFails : Bool := false
  evictFails : Bool := false
  deriving DecidableEq

namespace Node

variable (n : Node)

def conns : Listener → List Conn
  | .channels => n.chanConns
  | _ => n.linkConns

def setConn (listener : Listener) (slot : Nat) (conn : Conn) : Node :=
  match listener with
  | .channels => { n with chanConns := n.chanConns.set slot conn }
  | _ => { n with linkConns := n.linkConns.set slot conn }

def act (i : Nat) (f : Life → Life) : Node := { n with links := Function.update n.links i ((n.links i).act f) }

/-- The link of an evicted connection is torn down, and its slot cleared. -/
def evict (listener : Listener) (pl : Place) (w : Reaction) : Node :=
  match pl.evicted with
  | none => n
  | some victim =>
    match victim.link with
    | none => n.setConn listener pl.slot {}
    | some v => (n.act v (·.teardown w.now w.evictFails)).setConn listener pl.slot {}

/-- What the callback wires on the link: a packet callback for links only. -/
def wire (i : Nat) (listener : Listener) : Node :=
  n.act i fun l => { l with
    packetCallback := l.packetCallback || listener = .links
    closedCallback := true }

/-- The link gets the slot found for it, and the callback's wiring. -/
def seat (i : Nat) (listener : Listener) (pl : Place) (w : Reaction) : Node :=
  let n := (n.evict listener pl w).setConn listener pl.slot ⟨true, some i, .active, w.now⟩
  { n.wire i listener with seats := n.seats ++ [⟨i, pl⟩] }

/-- `onIncomingLinkEstablished` and `onIncomingChannelEstablished`. -/
def onEstablished (i : Nat) (listener : Listener) (w : Reaction) : Node :=
  if !w.listened then n.act i (·.teardown w.now w.sendFails)
  else match place (n.conns listener) with
  | none => n.act i (·.teardown w.now w.sendFails)
  | some pl =>
    let n := n.seat i listener pl w
    if !w.reached then
      (n.act i (·.teardown w.now w.sendFails)).setConn listener pl.slot ⟨true, none, .failed, w.now⟩
    else if listener = .channels then n.act i fun l => { l with channel := true }
    else n

/-- A packet for a link, and the owner's callback if it runs. -/
def receive (r : Reader) (i : Nat) (now : ℚ) (p : Received) (w : Reaction) : Node :=
  let a := n.links i
  let n := { n with links := Function.update n.links i (a.receive r now p) }
  if a.calls r now p then n.onEstablished i a.listener w else n

end Node

namespace Node

inductive Op where
  /-- `w` is for a packet that brings the link up. -/
  | life (i : Nat) (op : Life.Op) (w : Reaction)
  | requestedAgain (i : Nat) (now : ℚ) (sent : Option Nat)
  | repair (i : Nat) (now : ℚ) (sent : Option Nat)
  | setPacketCallback (i : Nat) (set : Bool)
  | setConns (listener : Listener) (conns : List Conn)

def step (c : Crypto) (r : Reader) (n : Node) : Op → Node
  | .life i (.receive now p) w => n.receive r i now p w
  | .life i op _ => n.act i (·.step c r op)
  | .requestedAgain i now sent => n.act i (·.requestedAgain now sent)
  | .repair i now sent => n.act i (·.repairProof now sent)
  | .setPacketCallback i set => n.act i fun l => { l with packetCallback := set }
  | .setConns .channels conns => { n with chanConns := conns }
  | .setConns _ conns => { n with linkConns := conns }

end Node

end MicroReticulum.Link
