import MicroReticulum.Bytes
import MicroReticulum.Lib.Slots
import MicroReticulum.MsgPack.Printer

/-!
# The neighbourhood

The tables of `rnsd_peers`: the nodes interfaces declare, and the destinations
that were heard directly, each filed under the node it was heard from. What an
aspect's hash and an announce's data are called is left to functions of them.
-/

namespace MicroReticulum.Peers

open Lib
open MicroReticulum.MsgPack (Text)

def RNSD_PEERS_MAX : Nat := 32
def RNSD_NODES_MAX : Nat := 32
def RNSD_PEER_IFACE_MAX : Nat := 24
def RNSD_NODE_LABEL_MAX : Nat := 48
def RNSD_NODE_KEY_LEN : Nat := 16

/-- The registered name of an interface, which a row holds whole. -/
abbrev Name := { s : Text // s.length < RNSD_PEER_IFACE_MAX }

abbrev Key := Bytes

def kNoKey : Key := .replicate RNSD_NODE_KEY_LEN 0

def Name.none : Name := ⟨[], by decide⟩

structure Peer where
  used : Bool := false
  dest : Bytes := []
  nameHash : Bytes := []
  iface : Name := .none
  aspect : Text := []
  name : Text := []
  heard : Nat := 0
  announces : UInt32 := 0
  hops : Nat := 0
  /-- The index of the node it is filed under. -/
  node : Option Nat := Option.none
  /-- `rssi` and `snr10`, where the medium measures them. -/
  signal : Option (Int × Int) := Option.none
  deriving DecidableEq

structure Node where
  used : Bool := false
  iface : Name := .none
  key : Key := []
  label : Text := []
  transport : Bool := false
  heard : Nat := 0
  /-- The destinations filed under it. -/
  peers : Nat := 0
  deriving DecidableEq

/-- `s_peers`, `s_nodes` and `s_gen`; rows of a table not allocated yet count as unused. -/
structure Table where
  allocated : Bool := false
  peers : List Peer := .replicate RNSD_PEERS_MAX {}
  nodes : List Node := .replicate RNSD_NODES_MAX {}
  gen : UInt32 := 0
  deriving DecidableEq

/-- `rnsdAspectLabel` and `rnsdAnnounceName`. -/
structure Labels where
  aspect : Bytes → Option Text
  announceName : Bytes → Text

/-- What an announce is observed by. -/
structure Announce where
  communityRadius : Nat
  hops : Nat
  origin : Option Key
  dest : Bytes
  nameHash : Bytes
  appData : Bytes
  signal : Option (Int × Int)

-- ---------------------------------------------------------------------------
-- Nodes
-- ---------------------------------------------------------------------------

def nodeFind (iface : Name) (key : Option Key) (nodes : List Node) : Option Nat :=
  key.bind fun k => Slots.find (·.used) (fun n : Node => (n.iface, n.key)) (iface, k) nodes

/-- A node's destinations go with it. -/
def unfile (k : Nat) (p : Peer) : Peer := if p.used ∧ p.node = some k then { p with used := false } else p

def rnsdNodeDeclare (iface : Name) (key : Option Key) (label : Text) (up : Bool) (s : Table) : Table :=
  if iface.val = [] then s
  else match nodeFind iface (some (key.getD kNoKey)) s.nodes, up with
  | some k, false =>
    { s with
      nodes := s.nodes.modify k ({ · with used := false }), peers := s.peers.map (unfile k), gen := s.gen + 1 }
  | none, false => s
  | some k, true =>
    { s with nodes := s.nodes.modify k ({ · with label := label.take (RNSD_NODE_LABEL_MAX - 1) }), gen := s.gen + 1 }
  | none, true =>
    match Slots.free (·.used) s.nodes with
    | none => s
    | some k =>
      let n : Node :=
        { used := true, iface := iface, key := key.getD kNoKey, label := label.take (RNSD_NODE_LABEL_MAX - 1) }
      { s with nodes := s.nodes.set k n, gen := s.gen + 1 }

-- ---------------------------------------------------------------------------
-- Peers
-- ---------------------------------------------------------------------------

/-- The row an announce takes: its own, a free one, or the one heard longest ago. -/
def slotFor (iface : Name) (dest : Bytes) (peers : List Peer) : Option Nat :=
  (Slots.find (·.used) (fun p : Peer => (p.iface, p.dest)) (iface, dest) peers).orElse fun _ =>
    (Slots.free (·.used) peers).orElse fun _ => Slots.victim (·.used) (·.heard) peers

/-- The destinations filed under a node. -/
def filed (k : Nat) (peers : List Peer) : Nat := peers.countP fun p => p.used && decide (p.node = some k)

def noted (labels : Labels) (now : Nat) (iface : Name) (a : Announce) (node : Option Nat) (p : Peer) : Peer :=
  let fresh : Bool := !p.used ∨ p.dest ≠ a.dest ∨ p.iface ≠ iface
  let p : Peer := if fresh then { used := true, dest := a.dest, iface := iface } else p
  let name := labels.announceName a.appData
  { p with
    node := node, nameHash := a.nameHash, aspect := (labels.aspect a.nameHash).getD []
    name := if name ≠ [] ∨ fresh then name else p.name
    hops := a.hops, heard := now, announces := p.announces + 1, signal := a.signal.orElse fun _ => p.signal }

/-- An announce that came through a node from further away: the node forwards. -/
def forwarded (iface : Name) (a : Announce) (s : Table) : Table :=
  match nodeFind iface a.origin s.nodes with
  | none => s
  | some k =>
    if (s.nodes[k]?.map (·.transport)).getD true then s
    else { s with nodes := s.nodes.modify k ({ · with transport := true }), gen := s.gen + 1 }

/-- The node an announce was heard from, with its destinations counted anew. -/
def heardFrom (now : Nat) (node : Option Nat) (peers : List Peer) (nodes : List Node) : List Node :=
  match node with
  | none => nodes
  | some k => nodes.modify k ({ · with heard := now, peers := filed k peers })

/-- An announce heard from the node that made it. -/
def heardDirectly (labels : Labels) (now : Nat) (iface : Name) (a : Announce) (s : Table) : Table :=
  let node := nodeFind iface a.origin s.nodes
  match slotFor iface a.dest s.peers with
  | none => s
  | some i =>
    let peers := s.peers.modify i (noted labels now iface a node)
    { s with peers := peers, nodes := heardFrom now node peers s.nodes, gen := s.gen + 1 }

/-- Whether the announce is a neighbour's own, on an interface that has a community. -/
def direct (iface : Name) (a : Announce) : Bool := iface.val ≠ [] ∧ a.hops ≤ 1 ∧ a.communityRadius ≠ 0

/-- `room`: the table is there, or can be allocated. -/
def rnsdPeersObserve (labels : Labels) (now : Nat) (room : Bool) (iface : Name) (a : Announce) (s : Table) : Table :=
  if iface.val = [] then s
  else if 1 < a.hops then forwarded iface a s
  else if a.communityRadius = 0 then s
  else if !s.allocated ∧ !room then s
  else heardDirectly labels now iface a { s with allocated := true }

-- ---------------------------------------------------------------------------
-- Departures
-- ---------------------------------------------------------------------------

def peerOf (iface : Name) (p : Peer) : Bool := p.used && decide (p.iface = iface)

def nodeOf (iface : Name) (n : Node) : Bool := n.used && decide (n.iface = iface)

def rnsdPeersIfaceGone (iface : Name) (s : Table) : Table :=
  if iface.val = [] then s
  else { s with
    peers := s.peers.map fun p => if peerOf iface p then { p with used := false } else p
    nodes := s.nodes.map fun n => if nodeOf iface n then { n with used := false } else n
    gen := s.gen + UInt32.ofNat (s.peers.countP (peerOf iface) + s.nodes.countP (nodeOf iface)) }

def expired (ttl now : Nat) (p : Peer) : Bool := p.used ∧ p.heard < now ∧ ttl < now - p.heard

def recount (peers : List Peer) (k : Nat) (n : Node) : Node := if n.used then { n with peers := filed k peers } else n

/-- The first part of `rnsdPeersTick`, under one lock. -/
def age (ttl now : Nat) (s : Table) : Table :=
  let dropped := s.peers.countP (expired ttl now)
  let peers := s.peers.map fun p => if expired ttl now p then { p with used := false } else p
  { s with
    peers := peers, gen := s.gen + UInt32.ofNat dropped
    nodes := if dropped ≠ 0 then s.nodes.mapIdx (recount peers) else s.nodes }

inductive Op
  | declare (iface : Name) (key : Option Key) (label : Text) (up : Bool)
  | observe (now : Nat) (room : Bool) (iface : Name) (a : Announce)
  | ifaceGone (iface : Name)
  | tick (ttl now : Nat)

def Table.step (labels : Labels) (s : Table) : Op → Table
  | .declare iface key label up => rnsdNodeDeclare iface key label up s
  | .observe now room iface a => rnsdPeersObserve labels now room iface a s
  | .ifaceGone iface => rnsdPeersIfaceGone iface s
  | .tick ttl now => age ttl now s

end MicroReticulum.Peers
