import MicroReticulum.Lib.Runs
import MicroReticulum.Resource.Incoming
import MicroReticulum.Resource.Outgoing

/-!
# A resource on its way

One sending object and the object one advertisement of it makes at the other
end. Whatever either has sent may reach the other at any time, any number of
times and in any order, or never. The link hands a packet on by the hash in it.
-/

namespace MicroReticulum.Resource

open Lib (Outcome)
open Lib.Runs
open MsgPack (ResourceAdvertisement)

structure Transfer where
  sender : Outgoing
  receiver : Option Incoming := none
  /-- A read has left its buffer. -/
  down : Bool := false

namespace Transfer

inductive Op where
  /-- An advertisement arrives where there is no object for it yet. -/
  | accept (env : Env) (packed requestId : Bytes) (concludedCallback progressCallback : Bool)
  /-- A packet arrives; the packet hash is looked at for requests only. -/
  | deliver (env : Env) (packetHash : Bytes) (w : Wire)
  | advertise (env : Env)
  | senderWatchdog (env : Env)
  | receiverWatchdog (env : Env)
  | cancelSender (env : Env)
  | cancelReceiver (env : Env)

variable (s : Transfer)

def setSender (o : Outcome Outgoing) : Transfer :=
  match o.state? with
  | some sender => { s with sender }
  | none => { s with down := true }

def setReceiver (o : Outcome Incoming) : Transfer :=
  match o.state? with
  | some receiver => { s with receiver := some receiver }
  | none => { s with down := true }

def onReceiver (f : Incoming → Outcome Incoming) : Transfer :=
  match s.receiver with
  | some r => s.setReceiver (f r)
  | none => s

/-- The resource a request is for. -/
def requested (data : Bytes) : Bytes :=
  if data.byte 0 = HASHMAP_IS_EXHAUSTED.toNat then data.mid (1 + MAPHASH_LEN) HASH_SIZE else data.mid 1 HASH_SIZE

/-- The sender's link gets a packet. A request that was answered is not answered again. -/
def toSender (c : Codec) (env : Env) (packetHash : Bytes) : Wire → Transfer
  | .request data =>
    if data.length ≥ 1 + HASH_SIZE ∧ requested data = s.sender.hash ∧ !s.sender.hasRequestHash packetHash then
      s.setSender ((s.sender.noteRequestHash packetHash).request c env data)
    else s
  | .proof data => if data.left HASH_SIZE = s.sender.hash then s.setSender (s.sender.validateProof env data) else s
  | _ => s

/-- The receiver's link gets a packet. -/
def toReceiver (c : Codec) (env : Env) : Wire → Transfer
  | .hashmapUpdate data => s.onReceiver fun r =>
    if data.length ≥ HASH_SIZE ∧ data.left HASH_SIZE = r.hash then r.hashmapUpdatePacket env data else .done r
  | .part data => s.onReceiver fun r => (r.receivePart c env data).1
  | .cancel data => s.onReceiver fun r =>
    if data.length ≥ HASH_SIZE ∧ data.left HASH_SIZE = r.hash then r.cancel env else .done r
  | _ => s

/-- What the receiver has sent, if it is there. -/
def receiverLog : List Event := (s.receiver.map (·.log)).getD []

def accept (env : Env) (packed requestId : Bytes) (concludedCallback progressCallback : Bool) : Transfer :=
  match s.receiver, ResourceAdvertisement.unpack packed with
  | none, .ok _ adv =>
    match Incoming.accept env adv requestId concludedCallback progressCallback with
    | some o => s.setReceiver o
    | none => s
  | none, .escaped => { s with down := true }
  | _, _ => s

def act (c : Codec) (s : Transfer) : Op → Transfer
  | .accept env packed requestId concludedCallback progressCallback =>
    if .sent (.advertisement packed) ∈ s.sender.log then
      s.accept env packed requestId concludedCallback progressCallback
    else s
  | .deliver env packetHash w =>
    if .sent w ∈ s.receiverLog then s.toSender c env packetHash w
    else if .sent w ∈ s.sender.log then s.toReceiver c env w
    else s
  | .advertise env => s.setSender (s.sender.advertise env)
  | .senderWatchdog env => s.setSender (s.sender.watchdog env)
  | .receiverWatchdog env => s.onReceiver (·.watchdog env)
  | .cancelSender env => s.setSender (s.sender.cancel env)
  | .cancelReceiver env => s.onReceiver (·.cancel env)

def step (c : Codec) (s : Transfer) (op : Op) : Transfer := if s.down then s else s.act c op

/-- A resource nobody has heard of. -/
def start (c : Codec) (env : Env) (src : Outgoing.Source) : Transfer := { sender := .ofSource c env src }

end Transfer

end MicroReticulum.Resource
