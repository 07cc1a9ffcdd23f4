import MicroReticulum.Rnsd.ChannelTable
import MicroReticulum.Lib.Runs

/-!
# The rnsd task

Both tables, what the engine keeps of the links in them, and everything that
happens to them: frames of consumers, callbacks of the engine, the 1 Hz ticks.
rnsd is one task, so one operation runs to its end before the next, with one
reading of the clock. `serial` numbers whatever an operation creates.
-/

namespace MicroReticulum.Rnsd

open Lib Lib.Log Lib.Log.Transition
open MicroReticulum.Link (RNSD_MAX_LINK_CONNS RNSD_MAX_CHAN_CONNS)
open MicroReticulum.MsgPack (Text ResourceAdvertisement)

def capacity : Kind → Nat
  | .link => RNSD_MAX_LINK_CONNS
  | .channel => RNSD_MAX_CHAN_CONNS

def Event.registers? : Event → Option Transfer
  | .began t => some t
  | _ => none

structure Node where
  table : Kind → List Conn := fun k => .replicate (capacity k) {}
  clock : ℚ
  serial : Nat := 0
  /-- `Transport::_active_links`. -/
  actives : List LinkRef := []
  /-- The Resources registered on any link, with rnsd's callback, and not concluded. -/
  resources : List Transfer := []
  log : List Event := []

/-- How a goodbye goes: the packet throws and the link stays, or the link is
closed but cancelling some of its Resources throws. -/
structure Teardown where
  throws : Bool := false
  skips : Transfer → Bool := fun _ => false

namespace Node

variable (n : Node)

-- ---------------------------------------------------------------------------
-- Slots
-- ---------------------------------------------------------------------------

def slot (k : Kind) (i : Nat) : Option Conn := (n.table k)[i]?

/-- A slot's new contents, and what was logged on the way. -/
def put (k : Kind) (i : Nat) (r : Conn × List Event) : Node :=
  { n with
    table := Function.update n.table k ((n.table k).set i r.1)
    serial := n.serial + 1
    resources := n.resources ++ r.2.filterMap Event.registers?
    log := n.log ++ r.2 }

def act (k : Kind) (i : Nat) (t : Transition Conn Event) : Node :=
  match n.slot k i with
  | none => n
  | some c => n.put k i (t c)

def say (evs : List Event) : Node := { n with serial := n.serial + 1, log := n.log ++ evs }

/-- `linkFindByTag`, `chanFindByTag`. -/
def findTag (k : Kind) (tag : Text) : Option Nat := Slots.find (·.used) (·.tag) tag (n.table k)

/-- `linkFindByHandle`. -/
def findHandle (k : Kind) (h : Handle) : Option Nat :=
  Slots.find (fun c => c.used && c.handle.isSome) (·.handle) (some h) (n.table k)

/-- `linkFindByLink`, `chanFindByLink`. -/
def findLink (k : Kind) (l : LinkRef) : Option Nat :=
  Slots.find (fun c => c.used && c.link.isSome) (·.link) (some l) (n.table k)

/-- `linkFindByResHash`, `chanFindByResHash`. -/
def findRes (k : Kind) (h : Bytes) : Option Nat :=
  if h = [] then none else Slots.find (fun c => c.used && c.resHash ≠ []) (·.resHash) h (n.table k)

/-- `linkFindByReqMrid`. -/
def findReqMrid (mrid : Bytes) : Option Nat :=
  if mrid = [] then none else Slots.find (fun c => c.used && c.reqMrid ≠ []) (·.reqMrid) mrid (n.table .link)

-- ---------------------------------------------------------------------------
-- The engine's side of a link
-- ---------------------------------------------------------------------------

/-- `onResConcluded`, and `chanResConcluded` where the link table does not know the hash. -/
def onResConcluded (h : Bytes) (out : Conclusion) : Node :=
  match n.findRes .link h with
  | some i => n.act .link i (concludeResource out)
  | none =>
    match n.findRes .channel h with
    | some i => n.act .channel i (concludeResource out)
    | none => n

def unregister (t : Transfer) : Node := { n with resources := n.resources.erase t }

def conclude (t : Transfer) (out : Conclusion) : Node := (n.unregister t).onResConcluded t.hash out

def linkEnds (k : Kind) (now : ℚ) : Transition Conn Event :=
  match k with
  | .link => linkClosed now
  | .channel => chanClosed now

/-- `onLinkClosedCb`, `onChanLinkClosedCb`. -/
def onClosed (l : LinkRef) : Node :=
  match n.findLink l.kind l with
  | none => n
  | some i => n.act l.kind i (linkEnds l.kind n.clock)

/-- The Resources `link_closed` cancels, in its order. -/
def registered (l : LinkRef) : List Transfer :=
  n.resources.filter (fun t => t.link = l ∧ !t.outbound) ++ n.resources.filter (fun t => t.link = l ∧ t.outbound)

/-- One of them: its callback runs, unless the cancel throws before that. -/
def cancel (skips : Transfer → Bool) (n : Node) (t : Transfer) : Node :=
  if skips t then n.unregister t else n.conclude t .failed

/-- `Link::link_closed`. -/
def closeLink (l : LinkRef) (skips : Transfer → Bool) : Node :=
  let n := (n.registered l).foldl (cancel skips) n
  ({ n with actives := n.actives.filter (· ≠ l) } : Node).onClosed l

/-- `Link::teardown` of what a slot has for a link; its callers catch what it throws. -/
def teardown (l : Option LinkRef) (td : Teardown) : Node :=
  match l with
  | none => n
  | some l => if td.throws then n else n.closeLink l td.skips

-- ---------------------------------------------------------------------------
-- Allocation
-- ---------------------------------------------------------------------------

def chanFreeSlot (i : Nat) (td : Teardown) : Node :=
  match n.slot .channel i with
  | none => n
  | some c => (n.teardown c.link td).act .channel i chanReset

def freeSlot (k : Kind) (i : Nat) (td : Teardown) : Node :=
  match k with
  | .link => n.act .link i linkFreeSlot
  | .channel => n.chanFreeSlot i td

/-- An eviction tears the link down first. -/
def evict (k : Kind) (i : Nat) (td : Teardown) : Node :=
  match k with
  | .link =>
    match n.slot .link i with
    | none => n
    | some c => (n.teardown c.link td).act .link i ((quiet ({ · with link := none })).andThen linkFreeSlot)
  | .channel => n.chanFreeSlot i td

/-- `linkAlloc`, `chanAlloc`: an unused slot, else the one idle for longest, evicted. -/
def alloc (k : Kind) (td : Teardown) : Option (Nat × Node) :=
  match Slots.free (·.used) (n.table k) with
  | some i => some (i, n)
  | none => (Slots.victim (·.used) (·.lastActivity) (n.table k)).map fun i => (i, n.evict k i td)

/-- The slot that has the tag is reclaimed, unless a consumer still holds it. -/
def reclaim (k : Kind) (tag : Text) (td : Teardown) : Option Node :=
  match n.findTag k tag with
  | none => some n
  | some i => if (n.slot k i).any (·.handle.isSome) then none else some (n.freeSlot k i td)

-- ---------------------------------------------------------------------------
-- Consumers
-- ---------------------------------------------------------------------------

/-- How things stand when a consumer connects. -/
structure Opening where
  task : Option Task
  pathBudgetS : Int := 30
  env : Env
  /-- The goodbyes on a slot with the same tag and on one evicted. -/
  reclaimed : Teardown := {}
  evicted : Teardown := {}

def fill (k : Kind) (now : ℚ) (h : Handle) (o : Opening) (req : Connect) (opening : Nat) : Transition Conn Event :=
  match k with
  | .link => linkFill now h o.task req o.pathBudgetS opening
  | .channel => chanFill now h o.task req o.pathBudgetS opening

def openWith (k : Kind) (env : Env) (now : ℚ) (l : LinkRef) : Transition Conn Event :=
  match k with
  | .link => linkOpen env now l
  | .channel => chanOpen env now l

def connect (k : Kind) (h : Handle) (req : Connect) (o : Opening) : Node :=
  if req.tag = [] then n
  else match n.reclaim k req.tag o.reclaimed with
  | none => n
  | some n =>
    match n.alloc k o.evicted with
    | none => n
    | some (i, n) =>
      n.act k i ((fill k n.clock h o req n.serial).andThen (openWith k o.env n.clock ⟨k, n.serial⟩))

def onLinkConnect (h : Handle) (req : Connect) (o : Opening) : Node := n.connect .link h req o
def onChannelConnect (h : Handle) (req : Connect) (o : Opening) : Node := n.connect .channel h req o

def onLinkDisconnect (ref : Nat) (td : Teardown) : Node :=
  match n.slot .link ref with
  | none => n
  | some c =>
    if !c.used then n
    else
      let n := (n.act .link ref (quiet ({ · with handle := none }))).teardown c.link td
      n.act .link ref ((quiet ({ · with link := none, state := .closed })).andThen linkFreeSlot)

def onChannelDisconnect (ref : Nat) (td : Teardown) : Node :=
  match n.slot .channel ref with
  | none => n
  | some c =>
    if !c.used then n else (n.act .channel ref (quiet ({ · with handle := none }))).chanFreeSlot ref td

/-- `onLinkRecv`, one packet. -/
def onLinkRecv (h : Handle) (mdu : Nat) (throws : Bool) (bytes : Bytes) : Node :=
  match n.findHandle .link h with
  | none => n
  | some i => n.act .link i (linkConsumerSend n.clock mdu throws bytes)

/-- `SEND_RESOURCE` of `onLinkAux` and of `onChannelAux`. -/
def onSendResource (k : Kind) (tag : Text) (buf : Option Nat) (len opaqueId : Nat) (m : Made) : Node :=
  let s : Send := ⟨n.serial, buf, len, opaqueId⟩
  match n.findTag k tag with
  | none => n.say (.handed s :: free buf)
  | some i => n.act k i ((Transition.act id (.handed s)).andThen (sendResource m s))

/-- `IDENTIFY` of `onLinkAux`. -/
def onIdentify (tag : Text) (how : Identifying) (key : String) : Node :=
  match n.findTag .link tag with
  | none => n
  | some i => n.act .link i (linkIdentify n.clock how key)

/-- `PROOFS` of `onLinkAux`. -/
def onProofs (tag : Text) (expect : Bool) : Node :=
  match n.findTag .link tag with
  | none => n
  | some i => n.act .link i (linkProofs expect)

/-- A `REQUEST` frame: its header, what follows it, and whether that is cut short. -/
structure RequestFrame where
  tag : Text
  port : Nat
  cid : Nat
  path : Bytes
  data : Bytes
  packed : Bool
  truncated : Bool

/-- `REQUEST` of `onLinkAux`. -/
def onRequest (sender : Task) (f : RequestFrame) (a : Asking) : Node :=
  let r : Request := ⟨n.serial, sender, f.port, f.cid, f.path, f.data, f.packed⟩
  match if f.truncated then none else n.findTag .link f.tag with
  | none => n.say (.asked r :: reqFailDirect r)
  | some i => n.act .link i ((Transition.act id (.asked r)).andThen (linkRequest n.clock a r))

-- ---------------------------------------------------------------------------
-- Callbacks of the engine
-- ---------------------------------------------------------------------------

def established (k : Kind) (now : ℚ) (f : Flush) : Transition Conn Event :=
  match k with
  | .link => linkEstablished now f
  | .channel => chanEstablished now f

/-- `onLinkEstablishedCb` or `onChanLinkEstablishedCb`; the link is active with it. -/
def onEstablished (l : LinkRef) (f : Flush) : Node :=
  let n := match n.findLink l.kind l with
    | none => n
    | some i => n.act l.kind i (established l.kind n.clock f)
  { n with actives := l :: n.actives }

/-- How many slots of the link table have a Resource in flight. -/
def inflight : Nat := (n.table .link).countP fun c => c.used && c.resHash ≠ []

/-- The slot whose gate lets the advertisement through: `onResAdvertised`, and
`chanResAdvertised` where the link table does not know the link. -/
def onResAdvertised (l : LinkRef) (adv : ResourceAdvertisement) (g : Gate) : Option (Kind × Nat) :=
  match n.findLink .link l with
  | some i => if (n.slot .link i).any (admits g .link n.inflight adv) then some (.link, i) else none
  | none =>
    match n.findLink .channel l with
    | some i => if (n.slot .channel i).any (admits g .channel n.inflight adv) then some (.channel, i) else none
    | none => none

/-- `RESOURCE_ADV` of `Link::receive`. Requests and responses do not come to the gate. -/
def receiveAdv (l : LinkRef) (adv : ResourceAdvertisement) (g : Gate) (memory : Bool) : Node :=
  if l ∉ n.actives ∨ adv.q ≠ [] ∧ (adv.u ∨ adv.p) then n
  else match n.onResAdvertised l adv g with
  | none => n
  | some (k, i) => n.act k i (markResource memory adv)

def onTouched (l : LinkRef) : Node :=
  match n.findLink l.kind l with
  | none => n
  | some i => n.act l.kind i (quiet ({ · with lastActivity := n.clock }))

def onReqResponseCb (mrid data : Bytes) (memory : Bool) : Node :=
  match n.findReqMrid mrid with
  | none => n
  | some i => n.act .link i (reqResponse n.clock data memory)

def onReqFailedCb (mrid : Bytes) : Node :=
  match n.findReqMrid mrid with
  | none => n
  | some i => n.act .link i reqFailed

/-- How things stand when a link opened by a peer comes up. -/
structure Incoming where
  linkId : Bytes
  localHash : Bytes
  owner : Option Listener
  /-- The handle, where the consumer takes the link. -/
  taken : Option Handle
  evicted : Teardown := {}
  goodbye : Teardown := {}

/-- The slot is filled, and gets its handle once the consumer has taken the link. -/
def seat (k : Kind) (now : ℚ) (w : Incoming) (owner : Listener) (l : LinkRef) (opening : Nat) : Transition Conn Event :=
  (match k with
    | .link => linkSeat now (inboundTag k w.linkId) w.localHash owner l opening
    | .channel => chanSeat now (inboundTag k w.linkId) w.localHash owner l opening).andThen
      (quiet ({ · with handle := w.taken }))

/-- A link that no task listens for, or that finds no slot, is torn down before
anything is kept of it. -/
def incoming (k : Kind) (w : Incoming) : Node :=
  match w.owner with
  | none => n
  | some owner =>
    match n.alloc k w.evicted with
    | none => n
    | some (i, n) =>
      let l : LinkRef := ⟨k, n.serial⟩
      let n := n.act k i (seat k n.clock w owner l n.serial)
      let n : Node := { n with actives := l :: n.actives }
      if w.taken.isSome then n else (n.teardown (some l) w.goodbye).act k i (unreached n.clock)

def onIncomingLinkEstablished (w : Incoming) : Node := n.incoming .link w
def onIncomingChannelEstablished (w : Incoming) : Node := n.incoming .channel w

-- ---------------------------------------------------------------------------
-- Ticks
-- ---------------------------------------------------------------------------

/-- How one slot's turn finds things. -/
structure Turn where
  env : Env
  identify : IdentifyStatus := {}
  goodbye : Teardown := {}

def linkTickSlot (w : Turn) (i : Nat) : Node :=
  match n.slot .link i with
  | none => n
  | some c =>
    if !c.used then n
    else
      let n := n.act .link i ((linkIdentifyTick n.clock w.identify).andThen (requestTick n.clock))
      match c.state with
      | .awaitingPath => n.act .link i (linkAwaitTick w.env n.clock ⟨.link, n.serial⟩)
      | .establishing =>
        if c.estabDeadline ≠ 0 ∧ c.estabDeadline ≤ n.clock then
          let n := (n.act .link i (quiet ({ · with link := none }))).teardown c.link w.goodbye
          n.act .link i (linkTimedOut w.env n.clock ⟨.link, n.serial⟩)
        else n
      | .closed | .failed => n.act .link i (linkDeadTick n.clock)
      | _ => n

def chanTickSlot (w : Turn) (i : Nat) : Node :=
  match n.slot .channel i with
  | none => n
  | some c =>
    if !c.used then n
    else match c.state with
    | .awaitingPath => n.act .channel i (chanAwaitTick w.env n.clock ⟨.channel, n.serial⟩)
    | .establishing =>
      if c.estabDeadline ≤ n.clock then (n.teardown c.link w.goodbye).act .channel i (chanTimedOut n.clock) else n
    | .closed | .failed =>
      if c.deadAt = 0 then n.act .channel i (quiet ({ · with deadAt := n.clock }))
      else if GRACE_S ≤ n.clock - c.deadAt then n.chanFreeSlot i w.goodbye
      else n
    | _ => n

def tickSlot (k : Kind) (w : Turn) (i : Nat) : Node :=
  match k with
  | .link => n.linkTickSlot w i
  | .channel => n.chanTickSlot w i

/-- `linkTick`, `channelTick`. -/
def tick (k : Kind) (turns : Nat → Turn) : Node :=
  (List.range (capacity k)).foldl (fun n i => n.tickSlot k (turns i) i) n

end Node

-- ---------------------------------------------------------------------------
-- Operations
-- ---------------------------------------------------------------------------

inductive Op where
  | wait (dt : ℚ≥0)
  | connect (k : Kind) (h : Handle) (req : Connect) (o : Node.Opening)
  | incoming (k : Kind) (w : Node.Incoming)
  /-- The consumer closes its handle; ITS gives back the slot's number. -/
  | detach (k : Kind) (ref : Nat) (td : Teardown)
  | consumerSend (h : Handle) (mdu : Nat) (throws : Bool) (bytes : Bytes)
  | sendResource (k : Kind) (tag : Text) (buf : Option Nat) (len opaqueId : Nat) (m : Made)
  | identify (tag : Text) (how : Identifying) (key : String)
  | proofs (tag : Text) (expect : Bool)
  | request (sender : Task) (f : Node.RequestFrame) (a : Asking)
  | established (l : LinkRef) (f : Flush)
  | closed (l : LinkRef) (skips : Transfer → Bool)
  | advertised (l : LinkRef) (adv : ResourceAdvertisement) (g : Gate) (memory : Bool)
  | concluded (t : Transfer) (out : Conclusion)
  /-- The engine lets go of a Resource without its callback. -/
  | dropped (t : Transfer)
  /-- It runs the callback of one that it still has, or has had. -/
  | concludedAgain (t : Transfer) (out : Conclusion)
  | response (mrid data : Bytes) (memory : Bool)
  | reqFailed (mrid : Bytes)
  /-- A packet or a channel message restamps its slot. -/
  | touched (l : LinkRef)
  | tick (k : Kind) (turns : Nat → Node.Turn)

def step (n : Node) : Op → Node
  | .wait dt => { n with clock := n.clock + dt }
  | .connect k h req o => n.connect k h req o
  | .incoming k w => n.incoming k w
  | .detach .link ref td => n.onLinkDisconnect ref td
  | .detach .channel ref td => n.onChannelDisconnect ref td
  | .consumerSend h mdu throws bytes => n.onLinkRecv h mdu throws bytes
  | .sendResource k tag buf len opaqueId m => n.onSendResource k tag buf len opaqueId m
  | .identify tag how key => n.onIdentify tag how key
  | .proofs tag expect => n.onProofs tag expect
  | .request sender f a => n.onRequest sender f a
  -- the engine has no link that has not been made
  | .established l f => if l.id < n.serial then n.onEstablished l f else n
  | .closed l skips => n.closeLink l skips
  | .advertised l adv g memory => n.receiveAdv l adv g memory
  | .concluded t out => if t ∈ n.resources then n.conclude t out else n
  | .dropped t => n.unregister t
  | .concludedAgain t out => if Event.began t ∈ n.log then n.onResConcluded t.hash out else n
  | .response mrid data memory => n.onReqResponseCb mrid data memory
  | .reqFailed mrid => n.onReqFailedCb mrid
  | .touched l => n.onTouched l
  | .tick k turns => n.tick k turns

end MicroReticulum.Rnsd
