import MicroReticulum.Rnsd.LinkTable

/-!
# One slot of the channel table, and links that peers open

The functions of the channel table on the slot they have found, where they are
not those of the link table, and how either table seats a link opened by a
peer. What a channel carries is left to the channel itself.
-/

namespace MicroReticulum.Rnsd

open Lib.Log Lib.Log.Transition
open MicroReticulum.MsgPack (Text hex)

-- ---------------------------------------------------------------------------
-- Establishment
-- ---------------------------------------------------------------------------

def chanKickoff (env : Env) (now : ℚ) (l : LinkRef) : Transition Conn Event := fun c =>
  if !env.recalls then (c, [])
  else if !env.identity then ({ c with state := .failed }, [])
  else if env.derived ≠ c.destHash then ({ c with state := .failed }, [])
  else match env.construct with
  | none => ({ c with state := .failed }, [])
  | some own =>
    ({ c with
        link := some l, state := .establishing
        estabDeadline := now + establishTimeout env c.linkTimeoutMs own }, [])

/-- The fields `onChannelConnect` fills a slot with. -/
def chanFill (now : ℚ) (handle : Handle) (task : Option Task) (req : Connect) (setting : Int) (opening : Nat) :
    Transition Conn Event := quiet fun c => { c with
  used := true, handle := some handle, tag := req.tag, destHash := req.destHash, aspect := req.aspect
  identityKey := req.identityKey, inbound := false, lastActivity := now, deadAt := 0, estabDeadline := 0
  linkTimeoutMs := req.linkTimeoutMs, consumerTask := task
  pathDeadline := now + req.pathBudgetS setting, pathAskedAt := now, opening := opening }

/-- The end of `onChannelConnect`. -/
def chanOpen (env : Env) (now : ℚ) (l : LinkRef) : Transition Conn Event := fun c =>
  if env.hasPath ∧ env.recalls then chanKickoff env now l { c with state := .establishing }
  else ({ c with state := .awaitingPath }, [])

-- ---------------------------------------------------------------------------
-- Callbacks of the link
-- ---------------------------------------------------------------------------

/-- The channel's consumer is revealed where it was opened with an identity. -/
def chanIdentify (how : Identifying) : Transition Conn Event := fun c =>
  match how with
  | .fails => (c, [])
  | .silent => (c, [])
  | .sent _ => (c, if c.identityKey = "" then [] else [.identified c.link c.identityKey])

/-- `onChanLinkEstablishedCb` once the slot is found. -/
def chanEstablished (now : ℚ) (f : Flush) : Transition Conn Event :=
  .all [activate now, chanIdentify f.identify, flushResource f.made]

/-- `onChanLinkClosedCb` once the slot is found. -/
def chanClosed (now : ℚ) : Transition Conn Event :=
  quiet ({ · with state := .closed, deadAt := now, link := none })

-- ---------------------------------------------------------------------------
-- The end of a slot
-- ---------------------------------------------------------------------------

/-- `chanFreeSlot` once the link is torn down. -/
def chanReset : Transition Conn Event := fun c =>
  ({ pathAskedAt := c.pathAskedAt }, disconnect c.handle ++ lose c)

/-- `channelTick` of a slot that waits for a path. -/
def chanAwaitTick (env : Env) (now : ℚ) (l : LinkRef) : Transition Conn Event := fun c =>
  if env.hasPath ∧ env.recalls then chanKickoff env now l c
  else if c.pathDeadline ≤ now then ({ c with state := .failed, deadAt := now }, [])
  else if RNSD_PATH_REASK_S ≤ now - c.pathAskedAt then ({ c with pathAskedAt := now }, [])
  else (c, [])

def chanTimedOut (now : ℚ) : Transition Conn Event := quiet ({ · with state := .failed, deadAt := now })

-- ---------------------------------------------------------------------------
-- Links that peers open
-- ---------------------------------------------------------------------------

def toHex (b : Bytes) : Text := b.flatMap hex

/-- The tag of a link opened by a peer: its table's prefix and eight digits of the link's id. -/
def inboundTag (k : Kind) (linkId : Bytes) : Text :=
  (match k with | .link => ['i', 'n', '.'] | .channel => ['c', 'i', 'n', '.']) ++ (toHex linkId).take 8

/-- A destination that listens, and the task that does. -/
structure Listener where
  task : Task
  aspect : Text

/-- The fields `onIncomingChannelEstablished` fills a slot with. -/
def chanSeat (now : ℚ) (tag : Text) (localHash : Bytes) (owner : Listener) (l : LinkRef) (opening : Nat) :
    Transition Conn Event := quiet fun c => { c with
  used := true, handle := none, tag := tag, destHash := localHash, aspect := owner.aspect, identityKey := ""
  inbound := true, state := .active, link := some l, lastActivity := now, deadAt := 0, estabDeadline := 0
  consumerTask := some owner.task, opening := opening }

/-- The fields `onIncomingLinkEstablished` fills a slot with. -/
def linkSeat (now : ℚ) (tag : Text) (localHash : Bytes) (owner : Listener) (l : LinkRef) (opening : Nat) :
    Transition Conn Event :=
  (chanSeat now tag localHash owner l opening).andThen (quiet ({ · with
    pendPacket := none, pendRes := none, resHash := [], resOutbound := false, resOpaque := 0 }))

/-- The consumer did not take the link, which is torn down. -/
def unreached (now : ℚ) : Transition Conn Event := quiet ({ · with link := none, state := .failed, deadAt := now })

end MicroReticulum.Rnsd
