import MicroReticulum.Rnsd.Tables

/-!
# One slot of the link table

The functions of the link table, each as far as it acts on the slot it has
found: opening, the callbacks of the link, the consumer's frames, requests and
the pieces of the 1 Hz tick.
-/

namespace MicroReticulum.Rnsd

open Lib.Log Lib.Log.Transition
open MicroReticulum.MsgPack (Text hex)

-- ---------------------------------------------------------------------------
-- Requests
-- ---------------------------------------------------------------------------

def reqSendAux (c : Conn) (op : ReqOp) (data : Bytes) : List Event :=
  match c.reqTask with
  | none => []
  | some task =>
    if c.reqPort = 0 then []
    else [.reqAux ⟨task, c.reqPort, op, c.link, c.reqMrid, c.destHash, data, c.reqCid, c.reqNo⟩]

def reqFailDirect (r : Request) : List Event :=
  if r.port = 0 then [] else [.reqAux ⟨r.task, r.port, .failed, none, [], [], [], r.cid, r.no⟩]

/-- `s.rnsd.link.request_timeout_s`, as `linkStartRequest` reads it. -/
def requestTimeout (setting : Int) : ℚ := if setting < 1 then 15 else setting

/-- A truncated hash. -/
abbrev RequestId := { b : Bytes // b.length = 16 }

/-- What `Link::request` gives, and the timeout it is given: the id of the request, none
where it throws or sends nothing. -/
structure Asking where
  id : Option RequestId
  timeoutS : Int

def linkStartRequest (now : ℚ) (a : Asking) (r : Request) : Transition Conn Event := fun c =>
  if c.reqMrid ≠ [] then (c, reqFailDirect r)
  else match a.id with
  | none => (c, reqFailDirect r)
  | some mrid =>
    ({ c with
        reqMrid := mrid.val, reqCid := r.cid, reqPort := r.port, reqTask := some r.task, reqNo := r.no
        reqDeadline := now + requestTimeout a.timeoutS + 5
        lastActivity := now },
      [.issued r.no mrid.val])

/-- `REQUEST` once its tag is found, in `onLinkAux`. -/
def linkRequest (now : ℚ) (a : Asking) (r : Request) : Transition Conn Event := fun c =>
  if c.state ≠ .active ∨ c.link = none then
    if c.pendReq.isSome ∨ c.reqMrid ≠ [] then (c, reqFailDirect r)
    else ({ c with pendReq := some r }, [])
  else linkStartRequest now a r c

/-- `onReqResponseCb` once the slot is found; `memory` is room for a copy of the response. -/
def reqResponse (now : ℚ) (data : Bytes) (memory : Bool) : Transition Conn Event := fun c =>
  ({ c with lastActivity := now, reqMrid := [], reqDeadline := 0 },
    if data ≠ [] ∧ !memory then reqSendAux c .failed [] else reqSendAux c .response data)

/-- `onReqFailedCb` once the slot is found. -/
def reqFailed : Transition Conn Event := fun c =>
  ({ c with reqMrid := [], reqDeadline := 0 }, reqSendAux c .failed [])

/-- The request timeout of `linkTick`. -/
def requestTick (now : ℚ) : Transition Conn Event := fun c =>
  if c.reqMrid ≠ [] ∧ c.reqDeadline ≠ 0 ∧ c.reqDeadline ≤ now then reqFailed c else (c, [])

-- ---------------------------------------------------------------------------
-- Identify
-- ---------------------------------------------------------------------------

/-- How `linkIdentifyNow` goes: no identity or a throw, no packet on a link
opened by the peer, or a packet to be proved within a window. -/
inductive Identifying where
  | fails
  | silent
  | sent (window : ℚ)

def identifyKey (c : Conn) (key : String) : String :=
  if key ≠ "" then key else if c.identityKey ≠ "" then c.identityKey else "secrets.rnsd.identity"

def linkIdentifyNow (now : ℚ) (how : Identifying) (key : String) : Transition Conn Event := fun c =>
  match how with
  | .fails => (c, [])
  | .silent => (c, [])
  | .sent window => ({ c with ident := some ⟨now + window, window, false⟩ }, [.identified c.link (identifyKey c key)])

/-- `IDENTIFY` once its tag is found, in `onLinkAux`. -/
def linkIdentify (now : ℚ) (how : Identifying) (key : String) : Transition Conn Event := fun c =>
  if c.link = none ∨ c.state ≠ .active then
    if c.state = .awaitingPath ∨ c.state = .establishing then ({ c with pendIdentify := some key }, []) else (c, [])
  else linkIdentifyNow now how key c

/-- What `linkIdentifyTick` reads of the receipts, and whether the resend throws. -/
structure IdentifyStatus where
  proven : Bool := false
  throws : Bool := false

def linkIdentifyTick (now : ℚ) (st : IdentifyStatus) : Transition Conn Event := fun c =>
  match c.ident with
  | none => (c, [])
  | some d =>
    if c.noProofs ∨ st.proven then ({ c with ident := none }, [])
    else if now < d.deadline then (c, [])
    else if !d.resent ∧ c.link ≠ none ∧ c.state = .active ∧ !st.throws then
      ({ c with ident := some ⟨now + d.window, d.window, true⟩ }, [])
    else ({ c with ident := none }, [])

/-- `PROOFS` once its tag is found. -/
def linkProofs (expect : Bool) : Transition Conn Event := quiet ({ · with noProofs := !expect })

-- ---------------------------------------------------------------------------
-- Establishment
-- ---------------------------------------------------------------------------

/-- What one slot's establishment depends on outside the tables, at one moment. -/
structure Env where
  hasPath : Bool
  /-- `Identity::recall` of the slot's destination. -/
  recalls : Bool
  /-- `linkLoadIdentity` finds a key. -/
  identity : Bool := true
  /-- The hash the recalled identity derives with the slot's aspect. -/
  derived : Bytes
  /-- The new link's own establishment timeout, or its constructor throws. -/
  construct : Option ℚ≥0
  hops : Nat := 1
  /-- `linkPeerAlive`. -/
  alive : Bool := false
  pathBudgetS : Int := 30

def establishTimeout (env : Env) (linkTimeoutMs : Nat) (own : ℚ≥0) : ℚ≥0 :=
  if linkTimeoutMs ≠ 0 then (linkTimeoutMs : ℚ≥0) / 1000
  else own + ESTABLISHMENT_TIMEOUT_PER_HOP * ((max 1 (if PATHFINDER_M ≤ env.hops then 1 else env.hops) : Nat) : ℚ≥0)

def linkKickoff (env : Env) (now : ℚ) (l : LinkRef) : Transition Conn Event := fun c =>
  if !env.recalls then (c, [])
  else if !env.identity then ({ c with state := .failed }, [])
  else if env.derived ≠ c.destHash then ({ c with state := .failed }, [])
  else match env.construct with
  | none => ({ c with state := .failed }, [])
  | some own =>
    ({ c with
        link := some l, state := .establishing
        estabDeadline := now + establishTimeout env c.linkTimeoutMs own
        attempts := if c.attempts < 255 then c.attempts + 1 else c.attempts },
      [.started c.opening l])

/-- The path wait from `now` on: `path_timeout_s`, else half a minute. -/
def pathWait (budgetS : Int) : ℚ := if 0 < budgetS then budgetS else 30

structure Connect where
  tag : Text
  destHash : Bytes
  aspect : Text
  identityKey : String
  pathTimeoutMs : Nat := 0
  linkTimeoutMs : Nat := 0

def Connect.pathBudgetS (req : Connect) (setting : Int) : Int :=
  if req.pathTimeoutMs ≠ 0 then (req.pathTimeoutMs / 1000 : Nat) else setting

/-- The fields `onLinkConnect` fills a slot with. -/
def linkFill (now : ℚ) (handle : Handle) (task : Option Task) (req : Connect) (setting : Int) (opening : Nat) :
    Transition Conn Event := quiet fun c => { c with
  used := true, handle := some handle, tag := req.tag, destHash := req.destHash, aspect := req.aspect
  identityKey := req.identityKey, lastActivity := now, deadAt := 0, estabDeadline := 0
  pendPacket := none, pendRes := none, consumerTask := task, resHash := [], resOutbound := false, resOpaque := 0
  reqMrid := [], reqCid := 0, reqPort := 0, reqTask := none, reqDeadline := 0, pendReq := none
  pendIdentify := none, ident := none, attempts := 0
  pathDeadline := now + pathWait (req.pathBudgetS setting), pathAskedAt := now
  linkTimeoutMs := req.linkTimeoutMs, opening := opening }

/-- The end of `onLinkConnect`: establish at once, or wait for a path. -/
def linkOpen (env : Env) (now : ℚ) (l : LinkRef) : Transition Conn Event := fun c =>
  if env.hasPath ∧ env.recalls then linkKickoff env now l { c with state := .establishing }
  else ({ c with state := .awaitingPath }, [])

def linkRetry (env : Env) (now : ℚ) (l : LinkRef) : Transition Conn Event := fun c =>
  if env.hasPath ∧ env.recalls then linkKickoff env now l { c with state := .establishing }
  else
    ({ c with
        state := .awaitingPath, estabDeadline := 0
        pathDeadline := now + pathWait env.pathBudgetS, pathAskedAt := now }, [])

-- ---------------------------------------------------------------------------
-- Callbacks of the link
-- ---------------------------------------------------------------------------

/-- What comes of each of the items that waited for the link. -/
structure Flush where
  identify : Identifying := .silent
  packetThrows : Bool := false
  made : Made := .threw none
  asking : Asking := ⟨none, 15⟩

def flushIdentify (now : ℚ) (how : Identifying) : Transition Conn Event := fun c =>
  match c.pendIdentify with
  | none => (c, [])
  | some key =>
    let r := linkIdentifyNow now how key { c with pendIdentify := none }
    (r.1, .flushed c.opening .identify :: r.2)

def flushPacket (throws : Bool) : Transition Conn Event := fun c =>
  match c.pendPacket with
  | none => (c, [])
  | some bytes =>
    ({ c with pendPacket := none }, .flushed c.opening .packet :: if throws then [] else [.packet c.link bytes])

def flushRequest (now : ℚ) (a : Asking) : Transition Conn Event := fun c =>
  match c.pendReq with
  | none => (c, [])
  | some r =>
    let s := linkStartRequest now a r { c with pendReq := none }
    (s.1, .flushed c.opening .request :: s.2)

def activate (now : ℚ) : Transition Conn Event :=
  quiet ({ · with state := .active, estabDeadline := 0, lastActivity := now })

/-- `onLinkEstablishedCb` once the slot is found. -/
def linkEstablished (now : ℚ) (f : Flush) : Transition Conn Event :=
  .all [activate now, flushIdentify now f.identify, flushPacket f.packetThrows, flushResource f.made,
    flushRequest now f.asking]

/-- `onLinkClosedCb` once the slot is found. -/
def linkClosed (now : ℚ) : Transition Conn Event := quiet fun c =>
  if c.state = .establishing then { c with link := none, estabDeadline := now }
  else { c with state := .closed, deadAt := now, link := none }

-- ---------------------------------------------------------------------------
-- The consumer's packets
-- ---------------------------------------------------------------------------

def linkConsumerSend (now : ℚ) (mdu : Nat) (throws : Bool) (bytes : Bytes) : Transition Conn Event := fun c =>
  if c.state = .active ∧ c.link ≠ none then
    if mdu < bytes.length ∨ throws then (c, []) else ({ c with lastActivity := now }, [.packet c.link bytes])
  else if c.pendPacket.isSome then (c, [])
  else ({ c with pendPacket := some bytes }, [])

-- ---------------------------------------------------------------------------
-- The end of a slot
-- ---------------------------------------------------------------------------

def disconnect (handle : Option Handle) : List Event := handle.toList.map .disconnected

def linkFreeSlot : Transition Conn Event := fun c =>
  ({ tag := c.tag, pathDeadline := c.pathDeadline, pathAskedAt := c.pathAskedAt, estabDeadline := c.estabDeadline
     linkTimeoutMs := c.linkTimeoutMs, deadAt := c.deadAt },
    (if c.reqMrid ≠ [] then reqSendAux c .failed [] else []) ++ (c.pendReq.elim [] reqFailDirect) ++
      disconnect c.handle ++ lose c)

/-- `linkTick` of a slot that waits for a path. -/
def linkAwaitTick (env : Env) (now : ℚ) (l : LinkRef) : Transition Conn Event := fun c =>
  if env.hasPath ∧ env.recalls then linkKickoff env now l c
  else if RNSD_PATH_REASK_S ≤ now - c.pathAskedAt ∧ now < c.pathDeadline then ({ c with pathAskedAt := now }, [])
  else if c.pathDeadline ≤ now then ({ c with state := .failed, deadAt := now }, [])
  else (c, [])

/-- The rest of `linkTick` for an establishment that ran out, its link gone from the slot. -/
def linkTimedOut (env : Env) (now : ℚ) (l : LinkRef) : Transition Conn Event := fun c =>
  if env.alive ∧ c.attempts < RNSD_LINK_ATTEMPTS then linkRetry env now l c
  else ({ c with state := .failed, deadAt := now }, [])

/-- `linkTick` of a dead slot. -/
def linkDeadTick (now : ℚ) : Transition Conn Event := fun c =>
  let c := if c.deadAt = 0 then { c with deadAt := now } else c
  if GRACE_S ≤ now - c.deadAt then linkFreeSlot c else (c, [])

end MicroReticulum.Rnsd
