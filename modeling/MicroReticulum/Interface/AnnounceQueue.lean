import MicroReticulum.Lib.Pacing
import MicroReticulum.Transport.Echoes

/-!
# The announces an interface holds back

The part of `Transport::outbound` that puts forwarded announces under an
interface's announce cap, and `Interface::process_announce_queue`, which lets
them go one by one. Both share the time of the next release. The time is exact.
-/

namespace MicroReticulum.Interfaces

open Transport (announceEmitted)

def MAX_QUEUED_ANNOUNCES : Nat := 20
def QUEUED_ANNOUNCE_LIFE : ℚ := 60 * 60 * 3

inductive Mode
  | none
  | full
  | pointToPoint
  | accessPoint
  | roaming
  | boundary
  | gateway
  deriving DecidableEq, Repr

structure Interface where
  hash : Bytes
  mode : Mode
  out : Bool
  bitrate : UInt32
  /-- The share of the bitrate that announces may take. -/
  announceCap : ℚ
  communityRadius : UInt8
  pointToPoint : Bool

/-- An announce packet on its way out. -/
structure Announce where
  destinationHash : Bytes
  hops : UInt8
  data : Bytes
  raw : Bytes
  attachedInterface : Option Bytes
  receivingInterface : Option Bytes
  /-- The destination is one of this node's own. -/
  ours : Bool

/-- The random blob is behind the keys and the name hash. -/
def Announce.emitted (p : Announce) : Nat := announceEmitted (p.data.mid (64 + 10) 10)

structure AnnounceEntry where
  destination : Bytes
  time : ℚ
  hops : UInt8
  emitted : Nat
  raw : Bytes
  /-- The node of the list it is in. -/
  node : Nat
  deriving DecidableEq, Repr

/-- A frame that went out under the cap, from a node of the queue or past it. -/
structure Release where
  time : ℚ
  raw : Bytes
  node : Option Nat
  deriving DecidableEq, Repr

structure State where
  announceAllowedAt : ℚ := 0
  announceQueue : List AnnounceEntry := []
  /-- The nodes made so far. -/
  nodes : Nat := 0
  /-- The newest first. -/
  released : List Release := []
  deriving DecidableEq, Repr

-- ---------------------------------------------------------------------------
-- Airtime
-- ---------------------------------------------------------------------------

/-- `tx_time` of so many bytes. -/
def Interface.txTime (i : Interface) (size : Nat) : ℚ := (size * 8 : Nat) / (i.bitrate.toNat : ℚ)

def Interface.waitTime (i : Interface) (size : Nat) : ℚ :=
  if 0 < i.bitrate ∧ 0 < i.announceCap then i.txTime size / i.announceCap else 0

-- ---------------------------------------------------------------------------
-- Transport::outbound, on one interface
-- ---------------------------------------------------------------------------

/-- What comes before the cap on this interface. -/
def Interface.forwards (i : Interface) (p : Announce) : Bool :=
  i.out ∧ p.attachedInterface = none ∧ (p.ours ∨ p.hops ≤ i.communityRadius) ∧ i.mode ≠ .roaming ∧
    i.mode ≠ .boundary ∧ 0 < p.hops ∧ ¬ (i.pointToPoint ∧ p.receivingInterface = some i.hash)

/-- The entry when a newer emission of its destination is folded in. -/
def AnnounceEntry.refresh (e : AnnounceEntry) (now : ℚ) (p : Announce) : AnnounceEntry :=
  { e with time := now, hops := p.hops, emitted := p.emitted, raw := p.raw }

/-- The walk over the queue, up to the first entry of the destination. -/
def fold (now : ℚ) (p : Announce) : List AnnounceEntry → Option (List AnnounceEntry)
  | [] => none
  | e :: q =>
    if e.destination = p.destinationHash then
      some ((if e.emitted < p.emitted then e.refresh now p else e) :: q)
    else (fold now p q).map (e :: ·)

def Announce.entry (p : Announce) (now : ℚ) (node : Nat) : AnnounceEntry :=
  { destination := p.destinationHash, time := now, hops := p.hops, emitted := p.emitted, raw := p.raw, node }

def outbound (i : Interface) (now : ℚ) (p : Announce) (s : State) : State :=
  if ¬ i.forwards p then s
  else if s.announceQueue = [] ∧ s.announceAllowedAt < now then
    { s with
      announceAllowedAt := now + i.waitTime p.raw.length
      released := { time := now, raw := p.raw, node := none } :: s.released }
  else if s.announceQueue.length < MAX_QUEUED_ANNOUNCES then
    match fold now p s.announceQueue with
    | some q => { s with announceQueue := q }
    | none => { s with announceQueue := s.announceQueue ++ [p.entry now s.nodes], nodes := s.nodes + 1 }
  -- full: dropped
  else s

-- ---------------------------------------------------------------------------
-- Interface::process_announce_queue
-- ---------------------------------------------------------------------------

def alive (now : ℚ) (e : AnnounceEntry) : Bool := now ≤ e.time + QUEUED_ANNOUNCE_LIFE

/-- Fewer hops come first, then the older entry. -/
def AnnounceEntry.rank (e : AnnounceEntry) : ℕ ×ₗ ℚ := toLex (e.hops.toNat, e.time)

def processAnnounceQueue (i : Interface) (now : ℚ) (s : State) : State :=
  let queue := s.announceQueue.filter (alive now)
  match queue.argmin AnnounceEntry.rank with
  | none => { s with announceQueue := queue }
  | some selected =>
    { s with
      announceAllowedAt := now + i.waitTime selected.raw.length
      announceQueue := queue.filter (·.node ≠ selected.node)
      released := { time := now, raw := selected.raw, node := some selected.node } :: s.released }

/-- What `Transport::jobs` asks before it. -/
def due (now : ℚ) (s : State) : Bool := s.announceQueue ≠ [] ∧ s.announceAllowedAt < now

-- ---------------------------------------------------------------------------
-- All that touches the queue
-- ---------------------------------------------------------------------------

inductive Event
  | outbound (now : ℚ) (p : Announce)
  /-- `Transport::jobs`. The clock is read again in `process_announce_queue`, so much later. -/
  | jobs (now : ℚ) (later : ℚ≥0)
  /-- Somebody else's rebroadcast of an announce. -/
  | heardRepeat (destination : Bytes) (emitted : Nat) (hops : UInt8)
  | dropAnnounceQueues
  /-- `Transport::request_path` for somebody else, with so long a frame. -/
  | requestPath (now : ℚ) (size : Nat)

def heardRepeat (destination : Bytes) (emitted : Nat) (hops : UInt8) (s : State) : State :=
  { s with announceQueue := s.announceQueue.filter fun e =>
      ¬ (e.destination = destination ∧ e.emitted ≤ emitted ∧ e.hops + 1 ≤ hops) }

def requestPath (i : Interface) (now : ℚ) (size : Nat) (s : State) : State :=
  if s.announceQueue ≠ [] ∨ now < s.announceAllowedAt then s
  else { s with announceAllowedAt := now + i.waitTime size }

def step (i : Interface) (s : State) : Event → State
  | .outbound now p => outbound i now p s
  | .jobs now later => if due now s then processAnnounceQueue i (now + later) s else s
  | .heardRepeat destination emitted hops => heardRepeat destination emitted hops s
  | .dropAnnounceQueues => { s with announceQueue := [] }
  | .requestPath now size => requestPath i now size s

end MicroReticulum.Interfaces
