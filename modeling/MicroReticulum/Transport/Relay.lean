import MicroReticulum.Lib.Log
import MicroReticulum.Transport.Announce
import MicroReticulum.Link.ProofRelay

/-!
# What a relay keeps of the packets it passes on

The transport side of `Transport::inbound`: the packet filter with its
hashlist, forwarding along a route, link transport, and the two kinds of
proofs that travel back. With it go the tables those use, the reverse table,
the link table and the slots for handshake repair, and the parts of
`Transport::jobs` that clear them. Local delivery is left out, and so are the
branches for local clients of a shared instance.

Every transition logs what it does to the tables and what it transmits.
-/

namespace MicroReticulum.Relay

open Wire
open Transport (Outbound PATHFINDER_M readdress clampMtu passOn)
open Lib.Log Lib.Log.Transition

-- ---------------------------------------------------------------------------
-- Packets
-- ---------------------------------------------------------------------------

def PROOF : UInt8 := 3

def GROUP : UInt8 := 1
def PLAIN : UInt8 := 2

def RESOURCE : UInt8 := 0x01
def RESOURCE_REQ : UInt8 := 0x03
def RESOURCE_PRF : UInt8 := 0x05
def CACHE_REQUEST : UInt8 := 0x08
def CHANNEL : UInt8 := 0x0E
def KEEPALIVE : UInt8 := 0xFA
def LRPROOF : UInt8 := 0xFF

/-- `packet.hops(packet.hops() + 1)`, into a `uint8_t`. -/
def hops (raw : Bytes) : UInt8 := .ofNat (raw.byte 1 + 1)

def context (raw : Bytes) : UInt8 := .ofNat (raw.byte (addressed raw + DESTINATION_LENGTH))

def destinationType (raw : Bytes) : UInt8 := flags raw >>> 2 &&& 3

-- ---------------------------------------------------------------------------
-- The node
-- ---------------------------------------------------------------------------

/-- What a relay reads of an interface. -/
structure Port where
  out : Outbound
  bitrate : Nat

structure Config where
  sha256 : Bytes → Bytes
  crypto : Crypto
  identity : TruncatedHash
  transportEnabled : Bool
  port : Nat → Port
  hashlistMaxsize : Nat

/-- `rdir_route_t`. No stored route is longer than an announce travels. -/
structure Route where
  interface : Nat
  nextHop : TruncatedHash
  hops : UInt8
  hops_le : hops.toNat ≤ PATHFINDER_M

/-- What an inbound packet meets, besides the tables. -/
structure Arrival where
  now : ℚ
  interface : Nat
  appAccepts : Bool := true
  /-- A cache request is answered from the cache; the replay is an arrival of
  its own. -/
  cached : Bool := false
  /-- `rdirPeekRoute` for the packet's destination. -/
  peeked : Option Route := none
  /-- `peek_live_route` finds the peeked route alive. -/
  live : Bool := true
  /-- `Identity::recall`. -/
  recalled : Bytes → Option Identity := fun _ => none

def Arrival.route (a : Arrival) : Option Route := if a.live then a.peeked else none

structure ReverseEntry where
  receivingInterface : Nat
  outboundInterface : Nat
  timestamp : ℚ

/-- A time that may never come: `proof_timeout` on an interface of no bitrate
is infinite. -/
abbrev Deadline := WithTop ℚ

structure LinkEntry where
  timestamp : ℚ
  nextHop : TruncatedHash
  outboundInterface : Nat
  remainingHops : UInt8
  receivingInterface : Nat
  hops : UInt8
  destinationHash : Bytes
  validated : Bool
  proofTimeout : Deadline
  proofKept : Bool := false
  remaining_le : remainingHops.toNat ≤ PATHFINDER_M

inductive HandshakeRepairKind where
  | none
  | linkrequest
  | linkproof
  deriving DecidableEq, Repr

structure HandshakeRepair where
  kind : HandshakeRepairKind := .none
  linkId : Bytes := []
  raw : Bytes := []
  interface : Option Nat := none
  wait : ℚ := 0
  due : ℚ := 0
  resent : Bool := false
  deriving DecidableEq

def HANDSHAKE_REPAIR_SLOTS : Nat := 8

abbrev Slot := Fin HANDSHAKE_REPAIR_SLOTS

structure Tables where
  /-- Oldest first. -/
  hashlist : List Bytes := []
  reverseTable : Bytes → Option ReverseEntry := fun _ => none
  linkTable : Bytes → Option LinkEntry := fun _ => none
  repairs : Slot → HandshakeRepair := fun _ => {}

inductive Act where
  /-- A packet in transport goes on along its route. -/
  | sent (interface : Nat) (raw : Bytes)
  /-- A packet heard goes on over the link. -/
  | carried (linkId : Bytes) (interface : Nat) (raw : Bytes)
  /-- A proof goes back along the reverse table. -/
  | returned (hash : Bytes) (interface : Nat) (raw : Bytes)
  /-- A link entry is made, and removed. -/
  | entered (linkId : Bytes)
  | gone (linkId : Bytes)
  /-- A link proof goes back along the link table. -/
  | proved (linkId : Bytes) (interface : Nat) (raw : Bytes)
  | kept (i : Slot) (repair : HandshakeRepair)
  | freed (i : Slot)
  | resent (i : Slot) (repair : HandshakeRepair)
  deriving DecidableEq

abbrev Step := Transition Tables Act

-- ---------------------------------------------------------------------------
-- Handshake repair
-- ---------------------------------------------------------------------------

def ESTABLISHMENT_TIMEOUT_PER_HOP : ℚ := 6

def extraLinkProofTimeout (p : Port) : Deadline :=
  if p.bitrate = 0 then ⊤ else ((1 / p.bitrate * 8 * 500 : ℚ) : Deadline)

def perHopTimeout (p : Port) : ℚ :=
  if 0 < p.bitrate then max ESTABLISHMENT_TIMEOUT_PER_HOP (ESTABLISHMENT_TIMEOUT_PER_HOP + 1 / p.bitrate * 8 * 500)
  else ESTABLISHMENT_TIMEOUT_PER_HOP

def handshakeRepairWait (hops : UInt8) (p : Port) : ℚ :=
  max (2 * ESTABLISHMENT_TIMEOUT_PER_HOP * (max 1 hops).toNat) (perHopTimeout p)

def setRepair (i : Slot) (repair : HandshakeRepair) (r : Tables) : Tables :=
  { r with repairs := Function.update r.repairs i repair }

@[simp] theorem setRepair_self (i : Slot) (repair : HandshakeRepair) (r : Tables) :
    (setRepair i repair r).repairs i = repair := Function.update_self _ _ _

theorem setRepair_of_ne {i j : Slot} (h : j ≠ i) (repair : HandshakeRepair) (r : Tables) :
    (setRepair i repair r).repairs j = r.repairs j := Function.update_of_ne h _ _

@[simp] theorem setRepair_linkTable (i : Slot) (repair : HandshakeRepair) (r : Tables) :
    (setRepair i repair r).linkTable = r.linkTable := rfl

@[simp] theorem setRepair_same (i : Slot) (r : Tables) : setRepair i (r.repairs i) r = r := by
  simp [setRepair]

/-- The loops over the slots visit one after the other. -/
def atSlot (f : Tables → Slot → HandshakeRepair × List Act) (i : Slot) : Step := fun r =>
  (setRepair i (f r i).1 r, (f r i).2)

def eachSlot (f : Tables → Slot → HandshakeRepair × List Act) : Step :=
  all ((List.finRange HANDSHAKE_REPAIR_SLOTS).map (atSlot f))

def keepForRepair (now : ℚ) (kind : HandshakeRepairKind) (linkId raw : Bytes) (interface : Nat) (wait : ℚ) :
    Step := fun r =>
  match (List.finRange HANDSHAKE_REPAIR_SLOTS).find? fun i => (r.repairs i).kind = .none with
  | none => (r, [])
  | some i =>
    let repair := { kind, linkId, raw, interface, wait, due := now + wait, resent := false }
    act (setRepair i repair) (.kept i repair) r

def clearAnswered (kind : HandshakeRepairKind) (linkId : Bytes) (r : Tables) (i : Slot) :
    HandshakeRepair × List Act :=
  if (r.repairs i).kind = kind ∧ (r.repairs i).linkId = linkId then ({}, [.freed i]) else (r.repairs i, [])

def repairAnswered (kind : HandshakeRepairKind) (linkId : Bytes) : Step := eachSlot (clearAnswered kind linkId)

/-- One slot of the timer in `jobs`. What comes due is transmitted at the end
of the same pass. -/
def checkRepair (now : ℚ) (r : Tables) (i : Slot) : HandshakeRepair × List Act :=
  let repair := r.repairs i
  if repair.kind = .none ∨ now < repair.due then (repair, [])
  else if repair.resent ∨ (r.linkTable repair.linkId).isNone then ({}, [.freed i])
  else ({ repair with resent := true, raw := [], due := now + repair.wait }, [.resent i repair])

def checkRepairs (now : ℚ) : Step := eachSlot (checkRepair now)

-- ---------------------------------------------------------------------------
-- The packet filter
-- ---------------------------------------------------------------------------

def forLocalClient (a : Arrival) (raw : Bytes) : Bool :=
  packetType raw ≠ ANNOUNCE ∧ a.peeked.any (·.hops = 0)

def packetFilter (c : Config) (hashlist : List Bytes) (raw : Bytes) : Bool :=
  if isHeader2 raw ∧ packetType raw ≠ ANNOUNCE ∧ raw.mid 2 DESTINATION_LENGTH ≠ c.identity.bytes then false
  else if context raw ∈ [KEEPALIVE, RESOURCE_REQ, RESOURCE_PRF, RESOURCE, CACHE_REQUEST, CHANNEL] then true
  else if destinationType raw = PLAIN ∨ destinationType raw = GROUP then
    packetType raw ≠ ANNOUNCE ∧ hops raw ≤ 1
  else if packetHash c.sha256 raw ∉ hashlist then true
  else packetType raw = ANNOUNCE ∧ destinationType raw = 0

def accepts (c : Config) (hashlist : List Bytes) (a : Arrival) (raw : Bytes) : Bool :=
  unpacks raw && a.appAccepts && packetFilter c hashlist raw

def rememberHash (hash : Bytes) (r : Tables) : Tables :=
  if hash ∈ r.hashlist then r else { r with hashlist := r.hashlist ++ [hash] }

def remember (c : Config) (raw : Bytes) (r : Tables) : Tables :=
  if (r.linkTable (destinationHash raw)).isSome ∨ packetType raw = PROOF ∧ context raw = LRPROOF then r
  else rememberHash (packetHash c.sha256 raw) r

-- ---------------------------------------------------------------------------
-- Forwarding
-- ---------------------------------------------------------------------------

/-- The transport id, which is put back for a destination no hops away. -/
def transportId (c : Config) (a : Arrival) (raw : Bytes) : Option Bytes :=
  if isHeader2 raw then some (raw.mid 2 DESTINATION_LENGTH)
  else if forLocalClient a raw then some c.identity.bytes
  else none

/-- The route a packet in transport is forwarded along. -/
def nextHopRoute (c : Config) (a : Arrival) (raw : Bytes) : Option Route :=
  if packetType raw ≠ ANNOUNCE ∧ transportId c a raw = some c.identity.bytes then a.route else none

def linkEntry (c : Config) (a : Arrival) (route : Route) (raw : Bytes) : LinkEntry where
  timestamp := a.now
  nextHop := route.nextHop
  outboundInterface := route.interface
  remainingHops := route.hops
  receivingInterface := a.interface
  hops := hops raw
  destinationHash := destinationHash raw
  validated := false
  proofTimeout := extraLinkProofTimeout (c.port a.interface) +
    ((a.now + ESTABLISHMENT_TIMEOUT_PER_HOP * (max 1 route.hops).toNat : ℚ) : Deadline)
  remaining_le := route.hops_le

def setLink (linkId : Bytes) (entry : Option LinkEntry) (r : Tables) : Tables :=
  { r with linkTable := Function.update r.linkTable linkId entry }

@[simp] theorem setLink_self (linkId : Bytes) (entry : Option LinkEntry) (r : Tables) :
    (setLink linkId entry r).linkTable linkId = entry := Function.update_self _ _ _

theorem setLink_of_ne {linkId l : Bytes} (h : l ≠ linkId) (entry : Option LinkEntry) (r : Tables) :
    (setLink linkId entry r).linkTable l = r.linkTable l := Function.update_of_ne h _ _

/-- `std::map::insert`: an entry that is there stays. -/
def enterLink (linkId : Bytes) (entry : LinkEntry) : Step := fun r =>
  match r.linkTable linkId with
  | some _ => (r, [])
  | none => act (setLink linkId (some entry)) (.entered linkId) r

def recordReverse (hash : Bytes) (entry : ReverseEntry) : Step := fun r =>
  match r.reverseTable hash with
  | some _ => (r, [])
  | none => ({ r with reverseTable := Function.update r.reverseTable hash entry }, [])

def forwardLinkrequest (c : Config) (a : Arrival) (route : Route) (raw newRaw : Bytes) : Step :=
  match clampMtu (c.port a.interface).out.hwMtu (c.port route.interface).out raw newRaw with
  | none => skip
  | some newRaw =>
    let linkId := linkIdFromLrPacket c.sha256 raw
    ((enterLink linkId (linkEntry c a route raw)).andThen (act id (.sent route.interface newRaw))).andThen
      (keepForRepair a.now .linkrequest linkId newRaw route.interface
        (handshakeRepairWait route.hops (c.port route.interface)))

def forwardOther (c : Config) (a : Arrival) (route : Route) (raw newRaw : Bytes) : Step :=
  (recordReverse (truncatedHash c.sha256 raw) ⟨a.interface, route.interface, a.now⟩).andThen
    (act id (.sent route.interface newRaw))

def forward (c : Config) (a : Arrival) (raw : Bytes) : Step :=
  match nextHopRoute c a raw with
  | none => skip
  | some route =>
    let newRaw := readdress (hops raw) route.nextHop route.hops raw
    if packetType raw = LINKREQUEST then forwardLinkrequest c a route raw newRaw
    else forwardOther c a route raw newRaw

-- ---------------------------------------------------------------------------
-- Link transport
-- ---------------------------------------------------------------------------

/-- The interface a packet over the link goes on to, if it came from where it
should. -/
def LinkEntry.onward (e : LinkEntry) (interface : Nat) (hops : UInt8) : Option Nat :=
  if e.outboundInterface = e.receivingInterface then
    if hops = e.remainingHops ∨ hops = e.hops then some e.outboundInterface else none
  else if interface = e.outboundInterface then
    if hops = e.remainingHops then some e.receivingInterface else none
  else if interface = e.receivingInterface then
    if hops = e.hops then some e.outboundInterface else none
  else none

/-- Any packet but a proof says that the initiator holds the link proof. -/
def carry (c : Config) (a : Arrival) (e : LinkEntry) (interface : Nat) (raw : Bytes) : Step :=
  ((act id (.carried (destinationHash raw) interface raw)).andThen
    (quiet (rememberHash (packetHash c.sha256 raw) ∘
      setLink (destinationHash raw) (some { e with timestamp := a.now })))).andThen
    (if packetType raw ≠ PROOF then repairAnswered .linkproof (destinationHash raw) else skip)

def linkTransport (c : Config) (a : Arrival) (raw : Bytes) : Step := fun r =>
  if packetType raw ≠ ANNOUNCE ∧ packetType raw ≠ LINKREQUEST ∧ context raw ≠ LRPROOF then
    match r.linkTable (destinationHash raw) with
    | none => (r, [])
    | some e =>
      match e.onward a.interface (hops raw) with
      | none => (r, [])
      | some interface => carry c a e interface raw r
  else (r, [])

-- ---------------------------------------------------------------------------
-- Proofs
-- ---------------------------------------------------------------------------

/-- The size is that of a link proof, and the signature is the destination's. -/
def provable (c : Config) (a : Arrival) (e : LinkEntry) (raw : Bytes) : Bool :=
  match a.recalled e.destinationHash with
  | none => false
  | some identity =>
    (Link.relaySignedData (Link.received a.interface raw) identity).bind
      (identity.validate c.crypto ((data raw).left SIGLENGTH)) = some true

def LinkEntry.expects (e : LinkEntry) (a : Arrival) (raw : Bytes) : Bool :=
  Relay.hops raw = e.remainingHops ∧ a.interface = e.outboundInterface

def keepProof (c : Config) (a : Arrival) (e : LinkEntry) (linkId newRaw : Bytes) : Step :=
  if e.proofKept then skip
  else (quiet (setLink linkId (some { e with validated := true, proofKept := true }))).andThen
    (keepForRepair a.now .linkproof linkId newRaw e.receivingInterface
      (handshakeRepairWait e.hops (c.port e.receivingInterface)))

/-- The proof goes back: the request it answers needs no repair. -/
def passBack (e : LinkEntry) (linkId newRaw : Bytes) : Step :=
  ((quiet (setLink linkId (some { e with validated := true }))).andThen
    (act id (.proved linkId e.receivingInterface newRaw))).andThen (repairAnswered .linkrequest linkId)

def linkProof (c : Config) (a : Arrival) (raw : Bytes) : Step := fun r =>
  match r.linkTable (destinationHash raw) with
  | none => (r, [])
  | some e =>
    if e.expects a raw ∧ provable c a e raw then
      let newRaw := passOn (hops raw) raw
      ((passBack e (destinationHash raw) newRaw).andThen (keepProof c a e (destinationHash raw) newRaw)) r
    else (r, [])

/-- The entry goes before the interface is looked at. -/
def regularProof (a : Arrival) (raw : Bytes) : Step := fun r =>
  let hash := destinationHash raw
  match r.reverseTable hash with
  | none => (r, [])
  | some e =>
    let r := { r with reverseTable := Function.update r.reverseTable hash none }
    if a.interface = e.outboundInterface then
      (r, [.returned hash e.receivingInterface (passOn (hops raw) raw)])
    else (r, [])

def proofs (c : Config) (a : Arrival) (raw : Bytes) : Step :=
  if packetType raw = PROOF ∧ c.transportEnabled then
    if context raw = LRPROOF then linkProof c a raw
    else if context raw = RESOURCE_PRF then skip
    else regularProof a raw
  else skip

-- ---------------------------------------------------------------------------
-- Inbound, and the jobs
-- ---------------------------------------------------------------------------

/-- Transport handling applies. -/
def handles (c : Config) (a : Arrival) (raw : Bytes) : Bool := c.transportEnabled || forLocalClient a raw

/-- The packet is a cache request that ends here. -/
def answeredFromCache (c : Config) (a : Arrival) (raw : Bytes) : Bool :=
  handles c a raw ∧ context raw = CACHE_REQUEST ∧ a.cached

def handle (c : Config) (a : Arrival) (raw : Bytes) : Step :=
  (if handles c a raw then (forward c a raw).andThen (linkTransport c a raw) else skip).andThen (proofs c a raw)

def inbound (c : Config) (a : Arrival) (raw : Bytes) : Step := fun r =>
  if accepts c r.hashlist a raw then
    ((quiet (remember c raw)).andThen (if answeredFromCache c a raw then skip else handle c a raw)) r
  else (r, [])

def REVERSE_TIMEOUT : ℚ := 8 * 60
def LINK_TIMEOUT : ℚ := 720 * 5 / 4

def ReverseEntry.stale (e : ReverseEntry) (now : ℚ) : Bool := now > e.timestamp + REVERSE_TIMEOUT

def LinkEntry.stale (e : LinkEntry) (now : ℚ) : Bool :=
  if e.validated then now > e.timestamp + LINK_TIMEOUT else (now : Deadline) > e.proofTimeout

def cullReverse (now : ℚ) (hash : Bytes) (r : Tables) : Tables :=
  if (r.reverseTable hash).any (·.stale now) then
    { r with reverseTable := Function.update r.reverseTable hash none }
  else r

def cullLink (now : ℚ) (linkId : Bytes) : Step := fun r =>
  if (r.linkTable linkId).any (·.stale now) then
    act (setLink linkId none) (.gone linkId) r
  else (r, [])

def cullHashlist (c : Config) (r : Tables) : Tables :=
  { r with hashlist := r.hashlist.drop (r.hashlist.length - c.hashlistMaxsize) }

/-- A cull pass is one step for each key its table has. -/
inductive Op where
  | inbound (a : Arrival) (raw : Bytes)
  /-- This node sends a packet of its own. -/
  | outbound (hash : Bytes)
  | checkRepairs (now : ℚ)
  | cullHashlist
  | cullReverse (now : ℚ) (hash : Bytes)
  | cullLink (now : ℚ) (linkId : Bytes)

def step (c : Config) : Op → Step
  | .inbound a raw => inbound c a raw
  | .outbound hash => quiet (rememberHash hash)
  | .checkRepairs now => checkRepairs now
  | .cullHashlist => quiet (cullHashlist c)
  | .cullReverse now hash => quiet (cullReverse now hash)
  | .cullLink now linkId => cullLink now linkId

-- ---------------------------------------------------------------------------
-- What a step is made of
-- ---------------------------------------------------------------------------

section Parts

variable {c : Config} {r : Tables} {a : Arrival} {raw linkId : Bytes} {e : LinkEntry} {kind : HandshakeRepairKind}
  {R : Tables → Tables → List Act → Prop}

/-- What is done to a slot depends on that slot and on the link table alone. -/
def Local (f : Tables → Slot → HandshakeRepair × List Act) : Prop :=
  ∀ r r' i, r'.repairs i = r.repairs i → r'.linkTable = r.linkTable → f r' i = f r i

theorem clearAnswered_local (kind : HandshakeRepairKind) (linkId : Bytes) : Local (clearAnswered kind linkId) := by
  intro r r' i h _
  rw [clearAnswered, h, clearAnswered]

theorem checkRepair_local (now : ℚ) : Local (checkRepair now) := by
  intro r r' i h ht
  simp only [checkRepair, h, ht]

theorem all_atSlot {f : Tables → Slot → HandshakeRepair × List Act} (hf : Local f) (slots : List Slot)
    (hd : slots.Nodup) (r : Tables) :
    all (slots.map (atSlot f)) r =
      ({ r with repairs := fun i => if i ∈ slots then (f r i).1 else r.repairs i },
        slots.flatMap fun i => (f r i).2) := by
  induction slots generalizing r with
  | nil => rfl
  | cons i slots ih =>
    obtain ⟨hi, hd⟩ := List.nodup_cons.1 hd
    have hlater : ∀ j ∈ slots, f (atSlot f i r).1 j = f r j := fun j hj =>
      hf _ _ j (setRepair_of_ne (ne_of_mem_of_not_mem hj hi) _ _) rfl
    have hlog : slots.flatMap (fun j => (f (atSlot f i r).1 j).2) = slots.flatMap fun j => (f r j).2 :=
      List.flatMap_congr fun j hj => by rw [hlater j hj]
    rw [List.map_cons, all, andThen_apply, ih hd, List.flatMap_cons, hlog]
    refine Prod.ext ?_ rfl
    refine congrArg (Tables.mk _ _ _) (funext fun j => ?_)
    by_cases hj : j ∈ slots
    · simp [hj, hlater j hj]
    · by_cases hji : j = i
      · subst hji
        simp [hj, atSlot]
      · simp [hj, hji, atSlot, setRepair_of_ne]

theorem eachSlot_eq {f : Tables → Slot → HandshakeRepair × List Act} (hf : Local f) (r : Tables) :
    eachSlot f r = ({ r with repairs := fun i => (f r i).1 },
      (List.finRange HANDSHAKE_REPAIR_SLOTS).flatMap fun i => (f r i).2) := by
  rw [eachSlot, all_atSlot hf _ (List.nodup_finRange _)]
  simp

theorem repairAnswered_eq (kind : HandshakeRepairKind) (linkId : Bytes) (r : Tables) :
    repairAnswered kind linkId r = ({ r with repairs := fun i => (clearAnswered kind linkId r i).1 },
      (List.finRange HANDSHAKE_REPAIR_SLOTS).flatMap fun i => (clearAnswered kind linkId r i).2) :=
  eachSlot_eq (clearAnswered_local kind linkId) r

theorem rememberHash_eq (hash : Bytes) (r : Tables) : ∃ hashlist, rememberHash hash r = { r with hashlist } := by
  unfold rememberHash
  split
  · exact ⟨r.hashlist, rfl⟩
  · exact ⟨_, rfl⟩

theorem eachSlot_meets (hR : Composes R) {f : Tables → Slot → HandshakeRepair × List Act}
    (h : ∀ i, Meets R (atSlot f i)) : Meets R (eachSlot f) := by
  refine hR.all fun t ht => ?_
  obtain ⟨i, -, rfl⟩ := List.mem_map.1 ht
  exact h i

theorem keepForRepair_meets (hR : Composes R) {now wait : ℚ} {interface : Nat}
    (h : ∀ r i repair, (r.repairs i).kind = .none → repair.kind = kind → repair.linkId = linkId →
      repair.resent = false → R r (setRepair i repair r) [.kept i repair]) :
    Meets R (keepForRepair now kind linkId raw interface wait) := by
  intro r
  unfold keepForRepair
  split
  · exact hR.refl r
  · next i hi =>
    have hfree : (r.repairs i).kind = .none := by simpa using List.find?_some hi
    exact h r i _ hfree rfl rfl rfl

theorem forward_meets (hR : Composes R)
    (hlink : ∀ route newRaw, packetType raw = LINKREQUEST → Meets R (forwardLinkrequest c a route raw newRaw))
    (hother : ∀ route newRaw, nextHopRoute c a raw = some route → Meets R (forwardOther c a route raw newRaw)) :
    Meets R (forward c a raw) := by
  unfold forward
  split
  · exact hR.skip
  · next route hroute =>
    dsimp only
    split
    · next hl => exact hlink route _ hl
    · exact hother route _ hroute

theorem forwardLinkrequest_meets (hR : Composes R) {route : Route} {newRaw : Bytes}
    (hsent : ∀ interface raw, Meets R (act id (.sent interface raw)))
    (henter : Meets R (enterLink (linkIdFromLrPacket c.sha256 raw) (linkEntry c a route raw)))
    (hkeep : ∀ raw' interface wait, Meets R
      (keepForRepair a.now .linkrequest (linkIdFromLrPacket c.sha256 raw) raw' interface wait)) :
    Meets R (forwardLinkrequest c a route raw newRaw) := by
  unfold forwardLinkrequest
  split
  · exact hR.skip
  · exact hR.andThen (hR.andThen henter (hsent _ _)) (hkeep _ _ _)

theorem linkTransport_meets (hR : Composes R)
    (hcarry : ∀ r e interface, r.linkTable (destinationHash raw) = some e → context raw ≠ LRPROOF →
      R r (carry c a e interface raw r).1 (carry c a e interface raw r).2) :
    Meets R (linkTransport c a raw) := by
  intro r
  unfold linkTransport
  split
  · next hp =>
    split
    · exact hR.refl r
    · next e he =>
      split
      · exact hR.refl r
      · exact hcarry r e _ he hp.2.2
  · exact hR.refl r

theorem passBack_linkTable (newRaw : Bytes) (r : Tables) :
    (passBack e linkId newRaw r).1.linkTable linkId = some { e with validated := true } := by
  rw [passBack, andThen_apply, repairAnswered_eq]
  exact setLink_self _ _ _

theorem linkProof_meets (hR : Composes R)
    (hpass : ∀ r e, r.linkTable (destinationHash raw) = some e → e.expects a raw = true →
      R r (passBack e (destinationHash raw) (passOn (hops raw) raw) r).1
        (passBack e (destinationHash raw) (passOn (hops raw) raw) r).2)
    (hkeep : ∀ r e raw', r.linkTable (destinationHash raw) = some { e with validated := true } →
      R r (keepProof c a e (destinationHash raw) raw' r).1 (keepProof c a e (destinationHash raw) raw' r).2) :
    Meets R (linkProof c a raw) := by
  intro r
  unfold linkProof
  split
  · exact hR.refl r
  · next e he =>
    split
    · next hx => exact hR.andThen_at (hpass r e he hx.1) (hkeep _ e _ (passBack_linkTable _ _))
    · exact hR.refl r

theorem proofs_meets (hR : Composes R) (hlink : Meets R (linkProof c a raw)) (hregular : Meets R (regularProof a raw)) :
    Meets R (proofs c a raw) := by
  unfold proofs
  split
  · split
    · exact hlink
    · split
      · exact hR.skip
      · exact hregular
  · exact hR.skip

theorem inbound_meets (hR : Composes R) (hhash : ∀ r hashlist, R r { r with hashlist } [])
    (hforward : Meets R (forward c a raw)) (htransport : Meets R (linkTransport c a raw))
    (hproofs : Meets R (proofs c a raw)) : Meets R (inbound c a raw) := by
  have hremember : Meets R (quiet (remember c raw)) := by
    intro r
    rw [quiet_apply, remember]
    split
    · exact hR.refl r
    · obtain ⟨hashlist, heq⟩ := rememberHash_eq (packetHash c.sha256 raw) r
      rw [heq]
      exact hhash r hashlist
  intro r
  unfold inbound
  split
  · refine hR.andThen hremember ?_ r
    split
    · exact hR.skip
    · refine hR.andThen ?_ hproofs
      split
      · exact hR.andThen hforward htransport
      · exact hR.skip
  · exact hR.refl r

end Parts

-- ---------------------------------------------------------------------------
-- A small node
-- ---------------------------------------------------------------------------

def filled (b : UInt8) : TruncatedHash := ⟨.replicate 16 b, by simp [DESTINATION_LENGTH]⟩

/-- A route to a direct neighbour. -/
def oneHop (interface : Nat) (neighbour : UInt8) : Route := ⟨interface, filled neighbour, 1, by decide⟩

/-- A transport node with hashes one can read. -/
def smallNode (bitrate : Nat) : Config where
  sha256 := id
  crypto := ⟨fun _ _ => none, fun _ _ _ _ => none, fun _ _ _ => false⟩
  identity := filled 9
  transportEnabled := true
  port _ := ⟨⟨500, false, false⟩, bitrate⟩
  hashlistMaxsize := 100

end MicroReticulum.Relay
