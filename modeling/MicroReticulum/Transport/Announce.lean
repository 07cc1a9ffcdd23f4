import MicroReticulum.Bytes

/-!
# Inbound hops and announces

What `Transport::inbound` does with a packet's hop byte: the increment, the
packet filter, and for an announce the tests that decide whether a route is
stored and the announce passed on. The hop count is a `uint8_t` throughout.
The guard pool that knows which announces are new is a parameter, and so is
what the signature check and the announce rate say. No interface of this build
belongs to a shared instance, so the branches for those are left out.
-/

namespace MicroReticulum.Transport

def PATHFINDER_M : Nat := 128
def PATH_LAST_USED_STALE : Nat := 60 * 60 * 48
def RANDOM_HASH_BYTES : Nat := 10

inductive PacketType where
  | data
  | announce
  | linkrequest
  | proof
  deriving DecidableEq, Repr

inductive DestType where
  | single
  | group
  | plain
  | link
  deriving DecidableEq, Repr

inductive Context where
  | none
  | keepalive
  | resourceReq
  | resourcePrf
  | resource
  | cacheRequest
  | channel
  | pathResponse
  | lrproof
  | other
  deriving DecidableEq, Repr

structure Packet where
  wireHops : UInt8
  type : PacketType
  context : Context
  destType : DestType
  transportId : Option Bytes
  dest : Bytes
  hash : Bytes
  /-- An announce's random blob, and the time of emission in it. -/
  blob : Bytes
  emitted : Nat
  deriving DecidableEq, Repr

structure Interface where
  hash : Bytes
  out : Bool
  communityRadius : UInt8
  pointToPoint : Bool
  deriving DecidableEq, Repr

/-- What the directory holds for a destination. -/
structure Record where
  hops : UInt8 := 0
  route : Bool := false
  expires : Nat := 0
  lastUsed : Nat := 0
  claimed : Bool := false
  edge : Bool := false
  answerFor : Bool := false
  deriving DecidableEq, Repr

/-- The tables, by destination; `γ` is the guard pool. -/
structure Node (γ : Type) where
  identity : Bytes
  transportEnabled : Bool
  interfaces : List Interface
  destinations : List Bytes
  links : List Bytes
  seen : List Bytes
  records : Bytes → Option Record
  /-- The emission of the announce kept in a blob slot. -/
  heldEmitted : Bytes → Option Nat
  requests : Bytes → Bool
  /-- Path requests passed on for others, and whether they were answered. -/
  discovery : Bytes → Option Bool
  /-- The hops of announces waiting to be rebroadcast. -/
  announces : Bytes → Option UInt8
  guard : γ

/-- What else an inbound packet meets. -/
structure Arrival where
  now : Nat
  interface : Option Interface
  appAccepts : Bool := true
  /-- `Identity::validate_announce`. -/
  valid : Bool := true
  rateBlocked : Bool := false
  /-- The announce repeats one of ours still waiting, or answers for it. -/
  repeatHeard : Bool := false
  /-- The sender is the node that asked for the path. -/
  fromAsker : Bool := false
  deriving DecidableEq, Repr

/-- `rdirGuardFresh`: the pool, whether the announce is fresh, and whether it
is a new emission. -/
abbrev GuardFresh (γ : Type) := γ → Bytes → Bytes → Nat → Bool → γ × Bool × Bool

variable {γ : Type}

def update {α : Type} (f : Bytes → α) (dest : Bytes) (v : α) : Bytes → α :=
  fun d => if d = dest then v else f d

-- ---------------------------------------------------------------------------
-- Every packet
-- ---------------------------------------------------------------------------

/-- `packet.hops(packet.hops() + 1)`, into a `uint8_t`. -/
def Packet.hops (p : Packet) : UInt8 := p.wireHops + 1

def packetFilter (n : Node γ) (p : Packet) : Bool :=
  if p.transportId.isSome ∧ p.type ≠ .announce ∧ p.transportId ≠ some n.identity then false
  else if p.context ∈ [.keepalive, .resourceReq, .resourcePrf, .resource, .cacheRequest, .channel] then true
  else if p.destType = .plain ∨ p.destType = .group then p.type ≠ .announce ∧ p.hops ≤ 1
  else if p.hash ∉ n.seen then true
  else p.type = .announce ∧ p.destType = .single

def accepts (n : Node γ) (a : Arrival) (p : Packet) : Bool := a.appAccepts && packetFilter n p

/-- The hop count the node goes on with, if it goes on. -/
def inboundHops (n : Node γ) (a : Arrival) (p : Packet) : Option UInt8 :=
  if accepts n a p then some p.hops else none

def remember (n : Node γ) (p : Packet) : Node γ :=
  if p.dest ∈ n.links ∨ p.type = .proof ∧ p.context = .lrproof then n
  else { n with seen := p.hash :: n.seen }

/-- `rdirPeekRoute`. -/
def peekRoute (n : Node γ) (dest : Bytes) : Option Record := (n.records dest).filter (·.route)

/-- A packet is for a local client where the route to its destination has no hops. -/
def forLocalClient (n : Node γ) (p : Packet) : Bool :=
  p.type ≠ .announce ∧ (peekRoute n p.dest).any (·.hops = 0)

-- ---------------------------------------------------------------------------
-- Announces
-- ---------------------------------------------------------------------------

def Record.inUse (r : Record) (now : Nat) : Bool :=
  r.route ∧ r.lastUsed ≠ 0 ∧ (now + 2 ^ 32 - r.lastUsed) % 2 ^ 32 < PATH_LAST_USED_STALE

def inCommunity (a : Arrival) (hops : UInt8) : Bool := a.interface.any (hops ≤ ·.communityRadius)

/-- `announce_relay_possible`. -/
def relayPossible (n : Node γ) (a : Arrival) (dest : Bytes) (hops : UInt8) : Bool :=
  dest ∈ n.destinations ∨ n.interfaces.any fun i =>
    i.out ∧ hops ≤ i.communityRadius ∧ ¬ (i.pointToPoint ∧ a.interface.any (·.hash = i.hash))

/-- What `rdirIngest` makes of the record. -/
def ingest (a : Arrival) (hops : UInt8) (expires : Nat) (r : Option Record) : Record :=
  let r := r.getD {}
  { r with
    hops
    expires
    route := r.route || a.interface.isSome
    edge := r.edge || inCommunity a hops
    answerFor := inCommunity a hops }

/-- The tests on a validated announce, in the source's terms. -/
structure Verdict (γ : Type) where
  guard : γ
  fresh : Bool
  retain : Bool

def judge (guardFresh : GuardFresh γ) (n : Node γ) (a : Arrival) (p : Packet) : Verdict γ :=
  let known := peekRoute n p.dest
  let pathResponse : Bool := p.context = .pathResponse
  let requested := pathResponse && n.requests p.dest
  let relayWaiting := pathResponse && n.discovery p.dest = some false
  let shorter := known.any (p.hops < ·.hops) && !(n.heldEmitted p.dest).any (p.emitted < ·)
  let bypass := (shorter && pathResponse) || ((requested || relayWaiting) && known.all (p.hops ≤ ·.hops))
  let (guard, fresh, novel) :=
    if p.blob.length = RANDOM_HASH_BYTES then guardFresh n.guard p.dest p.blob p.emitted bypass
    else (n.guard, false, false)
  let routeBetter := known.all fun r => p.hops ≤ r.hops || novel || (r.expires ≠ 0 && r.expires ≤ a.now)
  let record := n.records p.dest
  { guard, fresh
    retain := routeBetter && (fresh || record.isNone || shorter) &&
      (requested || relayWaiting || shorter || p.hops = 1 || inCommunity a p.hops ||
        record.any (·.claimed) || record.any (·.inUse a.now)) }

/-- An announce within range: the node behind it, and the hops of the answer to
a path request somebody else is waiting for. `pathTtl` is the route's lifetime. -/
def take (guardFresh : GuardFresh γ) (pathTtl : Nat) (n : Node γ) (a : Arrival) (p : Packet) :
    Node γ × Option UInt8 :=
  let v := judge guardFresh n a p
  let queues := v.fresh && n.transportEnabled && p.context ≠ .pathResponse && !a.rateBlocked &&
    relayPossible n a p.dest p.hops
  let answers := v.fresh && n.discovery p.dest = some false && !a.fromAsker
  ({ n with
      guard := v.guard
      announces := if queues then update n.announces p.dest (some p.hops) else n.announces
      discovery := if answers then update n.discovery p.dest (some true) else n.discovery
      records :=
        if v.retain then update n.records p.dest (some (ingest a p.hops (a.now + pathTtl) (n.records p.dest)))
        else n.records
      heldEmitted := if v.retain then update n.heldEmitted p.dest (some p.emitted) else n.heldEmitted },
    if answers then some p.hops else none)

/-- Our own announce waiting for the same destination may be superfluous now. -/
def dropRepeated (n : Node γ) (a : Arrival) (dest : Bytes) : Node γ :=
  if a.repeatHeard then { n with announces := update n.announces dest none } else n

def announce (guardFresh : GuardFresh γ) (pathTtl : Nat) (n : Node γ) (a : Arrival) (p : Packet) :
    Node γ × Option UInt8 :=
  if p.dest ∈ n.destinations ∨ a.valid = false then (n, none)
  else if p.hops.toNat < PATHFINDER_M + 1 then take guardFresh pathTtl (dropRepeated n a p.dest) a p
  else (dropRepeated n a p.dest, none)

def inbound (guardFresh : GuardFresh γ) (pathTtl : Nat) (n : Node γ) (a : Arrival) (p : Packet) :
    Node γ × Option UInt8 :=
  if accepts n a p then
    let n := remember n p
    if p.type = .announce then announce guardFresh pathTtl n a p else (n, none)
  else (n, none)

-- ---------------------------------------------------------------------------
-- The directory's other operations
-- ---------------------------------------------------------------------------

/-- `rdirClearRoute`. -/
def clearRoute (n : Node γ) (dest : Bytes) : Node γ :=
  match peekRoute n dest with
  | none => n
  | some r => { n with
      records := update n.records dest (some { r with route := false, expires := 0, lastUsed := 0, hops := 0 }) }

/-- `rdirForget`, and the eviction of a record or of a blob slot. -/
def forget (n : Node γ) (dest : Bytes) : Node γ :=
  { n with records := update n.records dest none, heldEmitted := update n.heldEmitted dest none }

/-- `rdirClaim`. -/
def claim (n : Node γ) (dest : Bytes) : Node γ :=
  { n with records := update n.records dest (some { (n.records dest).getD {} with claimed := true }) }

/-- `rdirTouchUsed`. -/
def touchUsed (n : Node γ) (dest : Bytes) (now expires : Nat) : Node γ :=
  match n.records dest with
  | none => n
  | some r => { n with
      records := update n.records dest (some { r with lastUsed := now, expires := max r.expires expires }) }

end MicroReticulum.Transport
