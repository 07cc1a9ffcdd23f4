import MicroReticulum.Resource.Basics

/-!
# The receiving end of a resource

`Resource::accept`, `_request_window`, `hashmap_update_packet`, `receive_part`,
`cancel` and `watchdog` on an object with `_outbound` false. A slot of the map
is `none` until its hash is known, a slot of `parts` empty until its part is in.
-/

namespace MicroReticulum.Resource

open Lib (Outcome)
open Lib.Cursor
open MsgPack (SIZE ResourceAdvertisement)

/-- What the advertisement says of a resource. -/
structure Advertised where
  hash : Bytes
  randomHash : Bytes
  requestId : Bytes
  flags : ResourceFlags
  /-- The size on the wire, and of the payload. -/
  transferSize : Nat
  totalSize : Nat
  totalParts : Nat

structure Incoming extends Advertised where
  data : Bytes := []
  status : Status := .transferring
  mapHashes : List (Option Bytes)
  hashmapHeight : Nat
  parts : List Bytes
  received : Nat := 0
  consec : Int := -1
  waitingHmu : Bool := false
  outstandingParts : Nat := 0
  window : Nat := WINDOW
  windowMax : Nat := WINDOW_MAX_SLOW
  windowMin : Nat := WINDOW_MIN
  windowFlexibility : Nat := WINDOW_FLEXIBILITY
  fastRateRounds : Nat := 0
  verySlowRateRounds : Nat := 0
  retriesLeft : Int := MAX_RETRIES
  lastActivity : ℚ
  reqSent : ℚ := 0
  /-- Negative until a part has answered the last request. -/
  reqResp : ℚ := -1
  rtt : ℚ := 0
  partTimeoutFactor : ℚ := PART_TIMEOUT_FACTOR
  reqSentBytes : Nat := 0
  rttRxdBytes : Nat := 0
  rttRxdBytesAtPartReq : Nat := 0
  reqRespRttRate : ℚ := 0
  reqDataRttRate : ℚ := 0
  eifr : ℚ := 0
  concludedCallback : Bool := false
  progressCallback : Bool := false
  log : List Event := []

namespace Incoming

variable (d : Incoming)

def note (e : Event) : Incoming := { d with log := d.log ++ [e] }

def transmit (env : Env) (w : Wire) : Outcome Incoming := if env.sends then .done (d.note (.sent w)) else .threw d

/-- The concluded callback, where there is one. -/
def conclude (env : Env) : Outcome Incoming :=
  if !d.concludedCallback then .done d
  else if env.concludedThrows then .threw (d.note .concluded) else .done (d.note .concluded)

-- ---------------------------------------------------------------------------
-- _request_window
-- ---------------------------------------------------------------------------

/-- The hashes of missing parts in a window from `pn` on, up to one not known yet. -/
def wanted : Nat → Nat → List Bytes × Bool
  | 0, _ => ([], false)
  | left + 1, pn =>
    if pn ≥ d.totalParts then ([], false)
    else if d.parts.getD pn [] ≠ [] then wanted left (pn + 1)
    else match d.mapHashes.getD pn none with
    | none => ([], true)
    | some mh => (mh :: (wanted left (pn + 1)).1, (wanted left (pn + 1)).2)

/-- What the sender is to continue the map behind. -/
def lastKnown : Bytes :=
  if d.hashmapHeight > 0 then (d.mapHashes.getD (d.hashmapHeight - 1) none).getD (List.replicate MAPHASH_LEN 0)
  else d.hash.left MAPHASH_LEN

def packRequest (requested : List Bytes) (exhausted : Bool) : Bytes :=
  (if exhausted then HASHMAP_IS_EXHAUSTED :: d.lastKnown else [HASHMAP_IS_NOT_EXHAUSTED]) ++
    (d.hash ++ requested.flatten)

def requestWindow (env : Env) : Outcome Incoming :=
  if d.waitingHmu ∨ d.status ≠ .transferring then .done d
  else
    let (requested, exhausted) := d.wanted d.window (d.consec + 1).toNat
    let d := { d with outstandingParts := requested.length }
    if requested = [] ∧ !exhausted then .done d
    else
      let req := d.packRequest requested exhausted
      let d := { d with waitingHmu := exhausted }
      (d.transmit env (.request req)).andThen fun d => .done { d with
        lastActivity := env.now
        reqSent := env.now
        reqSentBytes := req.length
        rttRxdBytesAtPartReq := d.rttRxdBytes
        reqResp := -1 }

-- ---------------------------------------------------------------------------
-- accept
-- ---------------------------------------------------------------------------

/-- A new object for an advertisement. -/
def ofAdvertisement (env : Env) (adv : ResourceAdvertisement) (requestId : Bytes)
    (concludedCallback progressCallback : Bool) : Incoming where
  hash := adv.h.left HASH_SIZE
  randomHash := adv.r.left RANDOM_HASH_SIZE
  requestId := if requestId ≠ [] then requestId else adv.q
  flags := .fromByte adv.f
  transferSize := adv.t
  totalSize := adv.d
  totalParts := adv.n
  mapHashes := ((hashesIn adv.m).take adv.n).map some ++ List.replicate (adv.n - (hashesIn adv.m).length) none
  hashmapHeight := min (hashesIn adv.m).length adv.n
  parts := List.replicate adv.n []
  lastActivity := env.now
  concludedCallback
  progressCallback

/-- The object is registered with the link before its first request goes out. -/
def accept (env : Env) (adv : ResourceAdvertisement) (requestId : Bytes)
    (concludedCallback progressCallback : Bool) : Option (Outcome Incoming) :=
  if adv.h.length < HASH_SIZE ∨ adv.r.length < RANDOM_HASH_SIZE then none
  else some ((ofAdvertisement env adv requestId concludedCallback progressCallback).requestWindow env)

-- ---------------------------------------------------------------------------
-- hashmap_update_packet
-- ---------------------------------------------------------------------------

/-- A segment's number and its hashes; `none` for too short an array. -/
def readHmu (b : Bytes) : Read (Option (Nat × Bytes)) := do
  let (count, off) ← MsgPack.unpackArrayHeader b
  if count < 2 then pure none
  else
    let (segment, off) ← consume SIZE b MsgPack.unpackUint off
    let (hm, _) ← consume SIZE b MsgPack.unpackBin off
    pure (some (segment, hm))

/-- Hashes from `idx` on; what is known already stays. -/
def store (d : Incoming) : List Bytes → Nat → Incoming
  | [], _ => d
  | mh :: mhs, idx =>
    if idx ≥ d.totalParts then d
    else if (d.mapHashes.getD idx none).isSome then store d mhs (idx + 1)
    else store { d with
      mapHashes := d.mapHashes.set idx (some mh)
      hashmapHeight := max d.hashmapHeight (idx + 1) } mhs (idx + 1)

def hashmapUpdatePacket (env : Env) (plaintext : Bytes) : Outcome Incoming :=
  if d.status = .failed ∨ plaintext.length ≤ HASH_SIZE then .done d
  else
    let d := { d with lastActivity := env.now }
    match readHmu (plaintext.drop HASH_SIZE) with
    | .ok _ (some (segment, hm)) =>
      { d.store (hashesIn hm) (segment % SIZE * HASHMAP_MAX_LEN % SIZE) with waitingHmu := false }.requestWindow env
    | .ok _ none | .error _ _ => .done d
    | .escaped => .aborted

-- ---------------------------------------------------------------------------
-- receive_part
-- ---------------------------------------------------------------------------

/-- A round as fast as the fast rate; enough of them open the window wide. -/
def countFast (rate : ℚ) : Incoming :=
  if rate > RATE_FAST ∧ d.fastRateRounds < FAST_RATE_THRESHOLD then
    { d with
      fastRateRounds := d.fastRateRounds + 1
      windowMax := if d.fastRateRounds + 1 = FAST_RATE_THRESHOLD then WINDOW_MAX_FAST else d.windowMax }
  else d

def countVerySlow (rate : ℚ) : Incoming :=
  if d.fastRateRounds = 0 ∧ rate < RATE_VERY_SLOW ∧ d.verySlowRateRounds < VERY_SLOW_RATE_THRESHOLD then
    { d with
      verySlowRateRounds := d.verySlowRateRounds + 1
      windowMax :=
        if d.verySlowRateRounds + 1 = VERY_SLOW_RATE_THRESHOLD then WINDOW_MAX_VERY_SLOW else d.windowMax }
  else d

/-- The measured round trip, moved towards the sample by a twentieth at most. -/
def smoothedRtt (env : Env) (sample : ℚ) : ℚ :=
  if d.rtt ≤ 0 then env.rtt
  else if sample < d.rtt then max (d.rtt - d.rtt * (1 / 20)) sample
  else if sample > d.rtt then min (d.rtt + d.rtt * (1 / 20)) sample
  else d.rtt

/-- What the arrival of a part, wanted or not, leaves. -/
def heard (env : Env) (part : Bytes) : Incoming :=
  let d := { d with lastActivity := env.now, retriesLeft := MAX_RETRIES }
  if d.reqResp < 0 then
    let sample := env.now - d.reqSent
    let d := { d with
      reqResp := env.now
      partTimeoutFactor := PART_TIMEOUT_FACTOR_AFTER_RTT
      rtt := d.smoothedRtt env sample }
    if sample > 0 then
      let rate := (part.length + d.reqSentBytes : ℚ) / sample
      { d with reqRespRttRate := rate }.countFast rate
    else d
  else d

/-- The first slot that waits for a part with this hash. -/
def findSlot (mh : Bytes) : Option Nat :=
  (List.range d.totalParts).find? fun i => d.mapHashes.getD i none = some mh ∧ d.parts.getD i [] = []

/-- The part goes into its slot, and `_consec` up over what is there. -/
def fill (i : Nat) (part : Bytes) : Incoming :=
  let parts := d.parts.set i part
  { d with
    parts
    received := d.received + 1
    rttRxdBytes := d.rttRxdBytes + part.length
    outstandingParts := d.outstandingParts - 1
    consec := d.consec + ((parts.drop (d.consec + 1).toNat).takeWhile (· ≠ [])).length }

def notify (env : Env) : Outcome Incoming :=
  if !d.progressCallback then .done d
  else if env.progressThrows then .threw (d.note .progress) else .done (d.note .progress)

def updateEifr (env : Env) : Incoming :=
  let rtt := if d.rtt > 0 then d.rtt else env.rtt
  { d with eifr :=
      if d.reqDataRttRate ≠ 0 then d.reqDataRttRate * 8
      else if rtt > 0 then (env.establishmentCost : ℚ) * 8 / rtt
      else 0 }

/-- The window after a round that brought all it asked for. -/
def adapt (env : Env) : Incoming :=
  let d :=
    if d.window < d.windowMax then
      { d with
        window := d.window + 1
        windowMin :=
          if sizeSub (d.window + 1) d.windowMin > d.windowFlexibility - 1 then d.windowMin + 1 else d.windowMin }
    else d
  let roundRtt := env.now - d.reqSent
  if d.reqSent > 0 ∧ roundRtt > 0 then
    let rate := (sizeSub d.rttRxdBytes d.rttRxdBytesAtPartReq : ℚ) / roundRtt
    let d := { { d with reqDataRttRate := rate }.updateEifr env with rttRxdBytesAtPartReq := d.rttRxdBytes }
    (d.countFast rate).countVerySlow rate
  else d

/-- The payload of a full set of parts, if they are what was advertised. -/
def payload (c : Codec) (env : Env) : Option Bytes := do
  guard (∀ i < d.totalParts, d.parts.getD i [] ≠ [])
  let decrypted := env.decrypt (d.parts.take d.totalParts).flatten
  guard (decrypted.length > RANDOM_HASH_SIZE)
  let onwire := decrypted.drop RANDOM_HASH_SIZE
  let data ← if d.flags.compressed then c.decompress onwire d.totalSize else pure onwire
  guard (c.fullHash (data ++ d.randomHash) = d.hash)
  pure data

/-- Complete, which is proved, or corrupt. -/
def judge (c : Codec) (env : Env) : Outcome Incoming :=
  match d.payload c env with
  | none => .done { d with status := .corrupt }
  | some data =>
    { d with data, status := .complete }.transmit env (.proof (d.hash ++ c.fullHash (data ++ d.hash)))

/-- The last part is in. -/
def assemble (c : Codec) (env : Env) : Outcome Incoming :=
  ((d.note .assembled).judge c env).andThen (·.conclude env)

/-- The next window, once this one has drained. -/
def requestNext (env : Env) : Outcome Incoming :=
  if d.received < d.totalParts ∧ !d.waitingHmu ∧ d.outstandingParts = 0 then (d.adapt env).requestWindow env
  else .done d

def assembleFull (c : Codec) (env : Env) : Outcome Incoming :=
  if d.totalParts > 0 ∧ d.received ≥ d.totalParts then d.assemble c env else .done d

/-- The source returns whether the part went into a slot. -/
def receivePart (c : Codec) (env : Env) (part : Bytes) : Outcome Incoming × Bool :=
  let d := d.heard env part
  match d.findSlot (c.mapHash d.randomHash part) with
  | none => (.done d, false)
  | some i =>
    ((((d.fill i part).notify env).andThen (·.requestNext env)).andThen (·.assembleFull c env), true)

-- ---------------------------------------------------------------------------
-- cancel and the watchdog
-- ---------------------------------------------------------------------------

def cancel (env : Env) : Outcome Incoming :=
  (if d.status ≠ .complete then { d with status := .failed } else d).conclude env

/-- When the watchdog stops waiting for what was asked for. -/
def deadline : ℚ :=
  let extraWait := ((MAX_RETRIES - d.retriesLeft : Int) : ℚ) * PER_RETRY_DELAY
  let sduBits : ℚ := SDU * 8
  if d.reqRespRttRate ≠ 0 then
    d.lastActivity + d.partTimeoutFactor * (d.outstandingParts * sduBits / d.eifr) +
      (if d.waitingHmu ∨ d.outstandingParts = 0 then sduBits * HMU_WAIT_FACTOR / d.eifr else 0) +
      RETRY_GRACE_TIME + extraWait
  else d.lastActivity + d.partTimeoutFactor * (3 * SDU / d.eifr) + RETRY_GRACE_TIME + extraWait

/-- The window of a round that timed out. -/
def narrow : Incoming :=
  if d.window > d.windowMin then
    let window := d.window - 1
    if d.windowMax > d.windowMin then
      let windowMax := d.windowMax - 1
      { d with
        window
        windowMax := if sizeSub windowMax window > d.windowFlexibility - 1 then windowMax - 1 else windowMax }
    else { d with window }
  else d

def watchdog (env : Env) : Outcome Incoming :=
  if d.status ≠ .transferring then .done d
  else
    let d := d.updateEifr env
    if d.eifr ≤ 0 ∨ env.now ≤ d.deadline then .done d
    else if d.retriesLeft > 0 then
      { d.narrow with retriesLeft := d.retriesLeft - 1, waitingHmu := false }.requestWindow env
    else d.cancel env

end Incoming

end MicroReticulum.Resource
