import MicroReticulum.Peers.Table
import MicroReticulum.Rnsd.ChannelTable

/-!
# Publishing the neighbourhood

`rnsdPeersTick` and `publishPeers`, one step for each time the table's lock is
held. What other tasks do to the table falls between two of these steps.
-/

namespace MicroReticulum.Peers

open Lib
open MicroReticulum.MsgPack (Text)
open MicroReticulum.Rnsd (toHex)

/-- What is stored under `rnsd.peers.<i>`. -/
structure PeerRow where
  iface : Text
  node : Option Nat
  dest : Bytes
  aspect : Text
  name : Text
  hops : Nat
  heard : Nat
  announces : UInt32
  signal : Option (Int × Int)
  deriving DecidableEq

/-- What is stored under `rnsd.nodes.<i>`. -/
structure NodeRow where
  iface : Text
  key : Key
  label : Text
  transport : Bool
  heard : Nat
  peers : Nat
  deriving DecidableEq

def publishPeer (p : Peer) : PeerRow where
  iface := p.iface
  node := p.node
  dest := p.dest
  aspect := if p.aspect ≠ [] then p.aspect else toHex p.nameHash
  name := p.name
  hops := p.hops
  heard := p.heard
  announces := p.announces
  signal := p.signal

def publishNode (n : Node) : NodeRow where
  iface := n.iface
  key := n.key
  label := n.label
  transport := n.transport
  heard := n.heard
  peers := n.peers

/-- The ephemerals; a key that was never written or is deleted reads as none, or as 0. -/
structure Published where
  peers : Nat → Option PeerRow := fun _ => none
  nodes : Nat → Option NodeRow := fun _ => none
  count : Nat := 0
  ifacePeers : Name → Nat := fun _ => 0
  ifaceNodes : Name → Nat := fun _ => 0

/-- Where in its pass the publishing task is; `used`, `i` and `n` are its locals. -/
inductive Phase
  | idle
  | compare (wanted : Bool)
  | count
  | dropNode (i used : Nat)
  | putNode (i used : Nat)
  | putPeer (i n used : Nat)
  | putIface (rest : List (Name × Nat))
  | putIfaceNodes (iface : Name × Nat) (rest : List (Name × Nat))
  | finish
  deriving DecidableEq

structure World where
  table : Table := {}
  pub : Published := {}
  pubGen : UInt32 := 0
  pubCount : Nat := 0
  pubNodes : Nat → Bool := fun _ => false
  phase : Phase := .idle

inductive Event
  | other (op : Op)
  | tick (ttl now : Nat) (wanted : Bool)
  | advance

-- ---------------------------------------------------------------------------
-- What is published
-- ---------------------------------------------------------------------------

def usedCount (t : Table) : Nat := t.peers.countP (·.used)

def nodeRow (t : Table) (k : Nat) : Option NodeRow :=
  t.nodes[k]?.bind fun n => if n.used then some (publishNode n) else none

/-- Every name that begins with the prefix counts. -/
def rnsdPeersCount (ifacePrefix : Name) (t : Table) : Nat :=
  t.peers.countP fun p => p.used && ifacePrefix.val.isPrefixOf p.iface.val

def rnsdNodesCount (ifacePrefix : Name) (t : Table) : Nat :=
  t.nodes.countP fun n => n.used && ifacePrefix.val.isPrefixOf n.iface.val

variable (labels : Labels) (ifaces : List (Name × Nat))

namespace World

def dropNode (i : Nat) (w : World) : World :=
  if (nodeRow w.table i).isSome ∨ !w.pubNodes i then w
  else { w with
    pub := { w.pub with nodes := Function.update w.pub.nodes i none }
    pubNodes := Function.update w.pubNodes i false }

def putNode (i : Nat) (w : World) : World :=
  match nodeRow w.table i with
  | none => w
  | some row => { w with
    pub := { w.pub with nodes := Function.update w.pub.nodes i (some row) }
    pubNodes := Function.update w.pubNodes i true }

/-- The task runs on to the next time it lets go of the lock. -/
def advance (w : World) : World :=
  match w.phase with
  | .idle => w
  | .compare wanted => { w with phase := if w.table.gen = w.pubGen ∨ !wanted then .idle else .count }
  | .count =>
    let used := usedCount w.table
    { w with
      pub := { w.pub with peers := fun i => if used ≤ i ∧ i < w.pubCount then none else w.pub.peers i }
      pubCount := used, phase := .dropNode 0 used }
  | .dropNode i used =>
    if i < RNSD_NODES_MAX then { w.dropNode i with phase := .dropNode (i + 1) used }
    else { w with phase := .putNode 0 used }
  | .putNode i used =>
    if i < RNSD_NODES_MAX then { w.putNode i with phase := .putNode (i + 1) used }
    else { w with phase := .putPeer 0 0 used }
  | .putPeer i n used =>
    if i < RNSD_PEERS_MAX ∧ n < used then
      match w.table.peers[i]?.filter (·.used) with
      | none => { w with phase := .putPeer (i + 1) n used }
      | some p => { w with
        pub := { w.pub with peers := Function.update w.pub.peers n (some (publishPeer p)) }
        phase := .putPeer (i + 1) (n + 1) used }
    else { w with pub := { w.pub with count := n }, phase := .putIface ifaces }
  | .putIface [] => { w with phase := .finish }
  | .putIface (x :: rest) =>
    let n := if x.2 ≠ 0 then rnsdPeersCount x.1 w.table else 0
    { w with
      pub := { w.pub with ifacePeers := Function.update w.pub.ifacePeers x.1 n }, phase := .putIfaceNodes x rest }
  | .putIfaceNodes x rest =>
    let n := if x.2 ≠ 0 then rnsdNodesCount x.1 w.table else 0
    { w with
      pub := { w.pub with ifaceNodes := Function.update w.pub.ifaceNodes x.1 n }, phase := .putIface rest }
  | .finish => { w with pubGen := w.table.gen, phase := .idle }

def step (w : World) : Event → World
  | .other op => { w with table := w.table.step labels op }
  | .tick ttl now wanted =>
    if w.phase = .idle then { w with table := age ttl now w.table, phase := .compare wanted } else w
  | .advance => w.advance ifaces

end World

end MicroReticulum.Peers
