import MicroReticulum.Bytes
import MicroReticulum.Lib.Runs
import MicroReticulum.Lib.Slots

/-!
# The announce table

Announces waiting to be rebroadcast, and path responses waiting to be sent, in a
ring of fixed slots. A path request for a destination whose announce is waiting
holds that announce back until the response is out. Times are in milliseconds.
No interface of this build belongs to a local client, so an answer is never sent
at once.
-/

namespace MicroReticulum.AnnounceTable

open Lib

def PATHFINDER_R : Nat := 1
def PATHFINDER_G : Nat := 5000
def PATHFINDER_RW : Nat := 500
def LOCAL_REBROADCASTS_MAX : Nat := 2
def ANNOUNCE_EMITS_PER_PASS : Nat := 8

/-- `DESTINATION_LENGTH` bytes: a destination, or the start of an interface's hash. -/
abbrev Hash := Vector UInt8 16

structure AnnounceRec where
  dest : Hash
  attachedIface : Option Hash
  timestamp : Nat
  retransmitAt : Nat
  retries : Nat
  hops : Nat
  localRebroadcasts : Nat
  used : Bool
  /-- `ANNOUNCE_F_BLOCK`: sent as a path response. -/
  block : Bool
  held : Bool
  radio : Bool
  data : Bytes
  /-- Not in the source: how many announces of the destination had been stored
  when this was. -/
  nth : Nat
  deriving DecidableEq

def AnnounceRec.zero : AnnounceRec :=
  { dest := .replicate 16 0, attachedIface := none, timestamp := 0, retransmitAt := 0, retries := 0, hops := 0,
    localRebroadcasts := 0, used := false, block := false, held := false, radio := false, data := [], nth := 0 }

abbrev Ring := List AnnounceRec

-- ---------------------------------------------------------------------------
-- Slots
-- ---------------------------------------------------------------------------

def AnnounceRec.key (r : AnnounceRec) : Hash × Bool := (r.dest, r.held)

def announceFind (dest : Hash) (held : Bool) (ring : Ring) : Option Nat :=
  Slots.find AnnounceRec.used AnnounceRec.key (dest, held) ring

/-- The first of the oldest records. -/
def oldest (ring : Ring) : Option Nat := Slots.victim AnnounceRec.used AnnounceRec.timestamp ring

def wipe (i : Nat) (ring : Ring) : Ring := ring.set i .zero

/-- A free slot, or else the oldest record's, wiped. -/
def announceAlloc (ring : Ring) : Ring × Option Nat :=
  match Slots.free AnnounceRec.used ring with
  | some i => (ring, some i)
  | none =>
    match oldest ring with
    | none => (ring, none)
    | some i => (wipe i ring, some i)

def announceStore (slot : Option Nat) (r : AnnounceRec) (ring : Ring) : Ring :=
  match slot with
  | none => ring
  | some i => ring.set i r

def dropOldest : Nat → Ring → Ring
  | 0, ring => ring
  | n + 1, ring =>
    match oldest ring with
    | none => ring
    | some i => dropOldest n (wipe i ring)

def cullAnnounceTable (maxsize : Nat) (ring : Ring) : Ring :=
  dropOldest (ring.countP AnnounceRec.used - maxsize) ring

-- ---------------------------------------------------------------------------
-- Announces heard
-- ---------------------------------------------------------------------------

/-- What an announce heard has to do with the records of its destination. -/
structure Heard where
  now : Nat
  dest : Hash
  hops : Nat
  pathResponse : Bool
  iface : Option Hash
  transported : Bool
  transportEnabled : Bool

/-- The announce is another node's answer, on the medium ours was going out on. -/
def AnnounceRec.answered (h : Heard) (mine : AnnounceRec) : Bool :=
  mine.block && mine.retries = PATHFINDER_R && h.hops ≤ mine.hops + 1 && h.iface.isSome &&
    (mine.attachedIface.isNone || mine.attachedIface = h.iface)

def unhold (dest : Hash) (ring : Ring) : Ring :=
  match announceFind dest true ring with
  | none => ring
  | some j => ring.modify j fun held => { held with held := false }

/-- Somebody else's answer makes ours a duplicate. -/
def dropAnswered (h : Heard) (ring : Ring) : Ring :=
  match announceFind h.dest false ring with
  | none => ring
  | some i =>
    if h.pathResponse && (ring[i]?).any (AnnounceRec.answered h) then unhold h.dest (wipe i ring) else ring

def AnnounceRec.enough (q : AnnounceRec) : Nat := if q.radio then 1 else LOCAL_REBROADCASTS_MAX

/-- A rebroadcast that makes the record superfluous: one more than enough of it,
or one by a node further on. -/
def AnnounceRec.passedOn (h : Heard) (q : AnnounceRec) : Bool :=
  (h.hops = q.hops + 1 && q.enough ≤ q.localRebroadcasts + 1) ||
    (h.hops = q.hops + 2 && 0 < q.retries && h.now < q.timestamp)

def AnnounceRec.heardAgain (h : Heard) (q : AnnounceRec) : AnnounceRec :=
  if h.hops = q.hops + 1 then { q with localRebroadcasts := q.localRebroadcasts + 1 } else q

def dropRepeated (h : Heard) (ring : Ring) : Ring :=
  if h.transported && h.transportEnabled then
    match announceFind h.dest false ring with
    | none => ring
    | some i =>
      if (ring[i]?).any (AnnounceRec.passedOn h) then wipe i ring
      else ring.modify i (AnnounceRec.heardAgain h)
  else ring

-- ---------------------------------------------------------------------------
-- Emission
-- ---------------------------------------------------------------------------

/-- The record goes out; one held back by it is released, and takes its place. -/
def announceRecEmit (now i : Nat) (ring : Ring) : Ring :=
  match ring[i]? with
  | none => ring
  | some r =>
    match announceFind r.dest true ring with
    | some _ => unhold r.dest (wipe i ring)
    | none => ring.set i { r with retransmitAt := now + PATHFINDER_G + PATHFINDER_RW, retries := r.retries + 1 }

/-- `announce_rec_timed` -/
def AnnounceRec.timed (r : AnnounceRec) : Bool :=
  r.used && !r.held &&
    if r.block then !(0 < r.retries && LOCAL_REBROADCASTS_MAX ≤ r.retries) && r.retries ≤ PATHFINDER_R
    else r.radio && r.retries = 0

/-- What a pass over the slots leaves behind, and what it sends. -/
structure Pass where
  ring : Ring
  outgoing : List AnnounceRec := []

def timerSlot (now : Nat) (s : Pass) (i : Nat) : Pass :=
  match s.ring[i]? with
  | none => s
  | some r =>
    if r.timed && r.retransmitAt < now then ⟨announceRecEmit now i s.ring, s.outgoing ++ [r]⟩ else s

def timers (now : Nat) (ring : Ring) : Pass := (List.range ring.length).foldl (timerSlot now) ⟨ring, []⟩

/-- No more tries are left. -/
def AnnounceRec.retired (r : AnnounceRec) : Bool :=
  0 < r.retries && LOCAL_REBROADCASTS_MAX ≤ r.retries || PATHFINDER_R < r.retries

structure Walk extends Pass where
  cursor : Nat
  budget : Nat

/-- The cursor moves while the walk counts from it. -/
def walkSlot (now : Nat) (w : Walk) (step : Nat) : Walk :=
  if w.budget = 0 then w
  else
    let slot := (w.cursor + step) % w.ring.length
    match w.ring[slot]? with
    | none => w
    | some r =>
      if !r.used || r.held then w
      else if r.retired then { w with ring := wipe slot w.ring }
      else if now ≤ r.retransmitAt then w
      else { ring := announceRecEmit now slot w.ring, outgoing := w.outgoing ++ [r],
             cursor := (slot + 1) % w.ring.length, budget := w.budget - 1 }

def walk (now cursor : Nat) (ring : Ring) : Walk :=
  (List.range ring.length).foldl (walkSlot now)
    { ring, outgoing := [], cursor, budget := ANNOUNCE_EMITS_PER_PASS }

-- ---------------------------------------------------------------------------
-- The table
-- ---------------------------------------------------------------------------

/-- `sent` logs every emission with the number of announces of its destination
stored by then. -/
structure Table where
  ring : Ring
  cursor : Nat
  maxsize : Nat
  accepted : Hash → Nat
  sent : List (AnnounceRec × Nat)

/-- An announce to pass on, or the answer to a path request. -/
structure Entry where
  now : Nat
  dest : Hash
  retransmitAt : Nat
  retries : Nat
  hops : Nat
  attachedIface : Option Hash
  radio : Bool
  data : Bytes

/-- What `announce_store` writes. -/
def Entry.record (e : Entry) (block : Bool) (nth : Nat) : AnnounceRec :=
  { dest := e.dest, attachedIface := e.attachedIface, timestamp := e.now, retransmitAt := e.retransmitAt,
    retries := e.retries, hops := e.hops, localRebroadcasts := 0, used := true, block, held := false,
    radio := e.radio, data := e.data, nth }

def slotFor (dest : Hash) (ring : Ring) : Ring × Option Nat :=
  match announceFind dest false ring with
  | some i => (ring, some i)
  | none => announceAlloc ring

/-- A fresh announce takes the place of what waits for its destination. -/
def acceptStored (e : Entry) (t : Table) : Ring :=
  let (ring, slot) := slotFor e.dest t.ring
  announceStore slot (e.record false (t.accepted e.dest + 1)) ring

def accept (e : Entry) (t : Table) : Table :=
  { t with
    ring := cullAnnounceTable t.maxsize (acceptStored e t)
    accepted := Function.update t.accepted e.dest (t.accepted e.dest + 1) }

/-- Only one announce can be held back. -/
def dropStale (dest : Hash) (ring : Ring) : Ring :=
  match announceFind dest true ring with
  | none => ring
  | some j => wipe j ring

def hold (dest : Hash) (ring : Ring) : Ring :=
  match announceFind dest false ring with
  | none => ring
  | some i => (dropStale dest ring).modify i fun pending => { pending with held := true }

/-- A path request that is answered out of the directory. -/
def answerStored (e : Entry) (t : Table) : Ring :=
  let (ring, slot) := announceAlloc (hold e.dest t.ring)
  announceStore slot ({ e with retries := PATHFINDER_R, radio := false }.record true (t.accepted e.dest)) ring

def answer (e : Entry) (t : Table) : Table :=
  { t with ring := cullAnnounceTable t.maxsize (answerStored e t) }

def Table.log (t : Table) (outgoing : List AnnounceRec) : List (AnnounceRec × Nat) :=
  t.sent ++ outgoing.map fun r => (r, t.accepted r.dest)

def jobs (transportEnabled : Bool) (now : Nat) (t : Table) : Table :=
  if transportEnabled then
    let w := walk now t.cursor t.ring
    { t with ring := w.ring, cursor := w.cursor, sent := t.log w.outgoing }
  else { t with ring := t.ring.map fun _ => .zero }

def timersPass (now : Nat) (t : Table) : Table :=
  let s := timers now t.ring
  { t with ring := s.ring, sent := t.log s.outgoing }

/-- An announce heard is looked at twice, and accepted if it is fresh and can be
passed on. -/
inductive Op where
  | answerHeard (h : Heard)
  | repeatHeard (h : Heard)
  | accept (e : Entry)
  | answer (e : Entry)
  | jobs (transportEnabled : Bool) (now : Nat)
  | timers (now : Nat)
  | resize (maxsize : Nat)

/-- What `inbound` does to the table for one announce. -/
def inboundOps (h : Heard) (e : Option Entry) : List Op :=
  [.answerHeard h, .repeatHeard h] ++ e.elim [] fun e => [.accept { e with attachedIface := none }]

def step (t : Table) : Op → Table
  | .answerHeard h => { t with ring := dropAnswered h t.ring }
  | .repeatHeard h => { t with ring := dropRepeated h t.ring }
  | .accept e => accept e t
  | .answer e => answer e t
  | .jobs transportEnabled now => jobs transportEnabled now t
  | .timers now => timersPass now t
  | .resize maxsize => { t with maxsize }

def started (slots maxsize : Nat) : Table :=
  { ring := .replicate slots .zero, cursor := 0, maxsize, accepted := fun _ => 0, sent := [] }

end MicroReticulum.AnnounceTable
