import MicroReticulum.Resource.Basics

/-!
# The sending end of a resource

`_init_outbound`, `advertise`, `request`, `validate_proof`, `cancel` and
`watchdog` on an object with `_outbound` true.
-/

namespace MicroReticulum.Resource

open Lib (Outcome)
open MsgPack (SIZE ResourceAdvertisement)

/-- What a resource is made with. -/
structure Offer where
  hash : Bytes
  randomHash : Bytes
  requestId : Bytes
  flags : ResourceFlags
  transferSize : Nat
  dataSize : Nat
  parts : List Bytes
  /-- The map hashes of all parts, one behind the other. -/
  hashmap : Bytes
  expectedProof : Bytes

structure Outgoing extends Offer where
  status : Status
  partSent : List Bool
  sentParts : Nat := 0
  retriesLeft : Int := MAX_ADV_RETRIES
  timeout : ℚ
  timeoutFactor : ℚ
  rtt : ℚ := 0
  advSent : ℚ := 0
  lastActivity : ℚ := 0
  lastPartSent : ℚ := 0
  /-- Packet hashes of requests that were answered, the latest last. -/
  reqHashlist : List Bytes := []
  concludedCallback : Bool := false
  log : List Event := []

/-- A stream cut into what packets hold. -/
def chunks (sdu : Nat) (stream : Bytes) : List Bytes := Lib.Blocks.pieces sdu stream

namespace Offer

variable (d : Offer)

def totalParts : Nat := d.parts.length

/-- The map's first segment goes with the advertisement. -/
def advertisement : ResourceAdvertisement where
  t := d.transferSize % 2 ^ 32
  d := d.dataSize % 2 ^ 32
  n := d.totalParts % 2 ^ 32
  h := d.hash
  r := d.randomHash
  o := d.hash
  i := 1
  l := 1
  q := d.requestId
  m := d.hashmap.left (min d.totalParts HASHMAP_MAX_LEN * MAPHASH_LEN)
  e := d.flags.encrypted
  c := d.flags.compressed
  s := d.flags.split
  u := d.flags.isRequest
  p := d.flags.isResponse
  x := d.flags.hasMetadata
  f := d.flags.toByte

/-- The `i`-th hash of the map. -/
def hashAt (i : Nat) : Bytes := d.hashmap.mid (i * MAPHASH_LEN) MAPHASH_LEN

/-- Behind the first part with this hash, if the map has it. -/
def partIndex (lastMapHash : Bytes) : Option Nat :=
  ((List.range d.totalParts).find? fun i =>
    (i + 1) * MAPHASH_LEN ≤ d.hashmap.length ∧ d.hashAt i = lastMapHash).map (· + 1)

/-- One segment of the map, on the wire. -/
def packHmu (segment : Nat) : Bytes :=
  let start := segment * HASHMAP_MAX_LEN
  let stop := min ((segment + 1) * HASHMAP_MAX_LEN) d.totalParts
  d.hash ++ (MsgPack.packArrayHeader 2 ++ (MsgPack.packUint segment ++ MsgPack.packBin
    (if stop > start ∧ stop * MAPHASH_LEN ≤ d.hashmap.length then
      d.hashmap.mid (start * MAPHASH_LEN) ((stop - start) * MAPHASH_LEN)
    else [])))

end Offer

namespace Outgoing

variable (d : Outgoing)

def note (e : Event) : Outgoing := { d with log := d.log ++ [e] }

def transmit (env : Env) (w : Wire) : Outcome Outgoing := if env.sends then .done (d.note (.sent w)) else .threw d

def conclude (env : Env) : Outcome Outgoing :=
  if !d.concludedCallback then .done d
  else if env.concludedThrows then .threw (d.note .concluded) else .done (d.note .concluded)

-- ---------------------------------------------------------------------------
-- Construction
-- ---------------------------------------------------------------------------

/-- What a new resource is made from: the payload, the stream it was compressed
and encrypted to, and the random hash drawn for it. A request id is a truncated
hash, or came in a packet. -/
structure Source where
  plaintext : Bytes
  compressed : Bool := false
  stream : Bytes
  /-- The size of a part. -/
  sdu : Nat := SDU
  sdu_pos : 0 < sdu := by decide
  stream_pos : 0 < stream.length
  sized : stream.length < SIZE
  randomHash : Bytes
  length_randomHash : randomHash.length = RANDOM_HASH_SIZE
  requestId : Bytes := []
  length_requestId : requestId.length ≤ Reticulum.MTU
  isRequest : Bool := false
  isResponse : Bool := false
  timeout : ℚ := 0
  concludedCallback : Bool := false

/-- `_init_outbound` of a stream that is not empty. -/
def ofSource (c : Codec) (env : Env) (src : Source) : Outgoing :=
  let hash := c.fullHash (src.plaintext ++ src.randomHash)
  let parts := chunks src.sdu src.stream
  { hash
    status := .advertised
    randomHash := src.randomHash
    requestId := src.requestId
    flags := { compressed := src.compressed, isRequest := src.isRequest, isResponse := src.isResponse }
    transferSize := src.stream.length
    dataSize := src.plaintext.length
    parts
    hashmap := parts.flatMap (c.mapHash src.randomHash)
    expectedProof := c.fullHash (src.plaintext ++ hash)
    partSent := List.replicate parts.length false
    timeout := if src.timeout ≤ 0 then env.rtt * env.trafficTimeoutFactor else src.timeout
    timeoutFactor := env.trafficTimeoutFactor
    concludedCallback := src.concludedCallback }

def advertise (env : Env) : Outcome Outgoing :=
  (d.transmit env (.advertisement d.advertisement.pack)).andThen fun d => .done { d with
    advSent := env.now
    lastActivity := env.now
    rtt := 0
    status := .advertised }

-- ---------------------------------------------------------------------------
-- request
-- ---------------------------------------------------------------------------

/-- The receiver is told, while there is a link to say it over. -/
def fail (env : Env) : Outcome Outgoing :=
  if d.status = .complete then .done d
  else if env.linkActive then { d with status := .failed }.transmit env (.cancel d.hash)
  else .done { d with status := .failed }

def cancel (env : Env) : Outcome Outgoing := (d.fail env).andThen (·.conclude env)

/-- The first part with the wanted hash is sent. -/
def sendPart (c : Codec) (env : Env) (wanted : Bytes) : Outcome Outgoing :=
  match d.parts.findIdx? fun part => c.mapHash d.randomHash part = wanted with
  | none => .done d
  | some i =>
    (d.transmit env (.part (d.parts.getD i []))).andThen fun d => .done { d with
      sentParts := if d.partSent.getD i true then d.sentParts else d.sentParts + 1
      partSent := d.partSent.set i true
      lastActivity := env.now
      lastPartSent := env.now }

def sendParts (c : Codec) (env : Env) : List Bytes → Outgoing → Outcome Outgoing
  | [], d => .done d
  | wanted :: more, d => (d.sendPart c env wanted).andThen (sendParts c env more)

/-- The next segment, for a receiver whose map ends with `lastMapHash`. The flag
says whether `request` goes on behind it. -/
def sendHmu (env : Env) (lastMapHash : Bytes) : Outcome Outgoing × Bool :=
  match d.partIndex lastMapHash with
  | some index =>
    if index % HASHMAP_MAX_LEN ≠ 0 then ((d.note .sequencingError).cancel env, false)
    else ((d.transmit env (.hashmapUpdate (d.packHmu (index / HASHMAP_MAX_LEN)))).andThen fun d =>
      .done { d with lastActivity := env.now }, true)
  | none => ((d.note .sequencingError).cancel env, false)

/-- Every part has been sent: it is the proof that is waited for. -/
def awaitProof : Outgoing :=
  if d.sentParts ≥ d.totalParts then { d with status := .awaitingProof, retriesLeft := 3 } else d

def request (c : Codec) (env : Env) (data : Bytes) : Outcome Outgoing :=
  if d.status = .failed ∨ data.length < 1 + HASH_SIZE then .done d
  else
    let d := { d with
      rtt := if d.rtt ≤ 0 ∧ d.advSent > 0 then env.now - d.advSent else d.rtt
      status := .transferring
      retriesLeft := MAX_RETRIES }
    if data.byte 0 = HASHMAP_IS_EXHAUSTED.toNat then
      if data.length < 1 + MAPHASH_LEN + HASH_SIZE then .done d
      else (sendParts c env (hashesIn (data.drop (1 + MAPHASH_LEN + HASH_SIZE))) d).andThen fun d =>
        let (sent, goesOn) := d.sendHmu env (data.mid 1 MAPHASH_LEN)
        if goesOn then sent.andThen fun d => .done d.awaitProof else sent
    else (sendParts c env (hashesIn (data.drop (1 + HASH_SIZE))) d).andThen fun d => .done d.awaitProof

def hasRequestHash (packetHash : Bytes) : Bool := packetHash ∈ d.reqHashlist

def noteRequestHash (packetHash : Bytes) : Outgoing :=
  { d with reqHashlist :=
      (if d.reqHashlist.length ≥ REQ_HASHLIST_MAX then d.reqHashlist.tail else d.reqHashlist) ++ [packetHash] }

-- ---------------------------------------------------------------------------
-- validate_proof and the watchdog
-- ---------------------------------------------------------------------------

def validateProof (env : Env) (proof : Bytes) : Outcome Outgoing :=
  if proof.length ≥ 64 ∧ d.expectedProof.length ≥ HASH_SIZE ∧
      proof.mid HASH_SIZE HASH_SIZE = d.expectedProof.left HASH_SIZE then
    { d with status := .complete }.conclude env
  else .done d

def watchdog (env : Env) : Outcome Outgoing :=
  match d.status with
  | .advertised =>
    let tmo := if d.timeout ≤ 0 then env.rtt * d.timeoutFactor else d.timeout
    if tmo ≤ 0 ∨ env.now ≤ d.advSent + tmo + PROCESSING_GRACE then .done d
    else if d.retriesLeft ≤ 0 then d.cancel env
    else { d with retriesLeft := d.retriesLeft - 1 }.advertise env
  | .transferring =>
    let rtt := if d.rtt > 0 then d.rtt else env.rtt
    let mr : ℚ := MAX_RETRIES
    let maxWait := rtt * d.timeoutFactor * mr + SENDER_GRACE_TIME + PER_RETRY_DELAY * (mr * (mr + 1) / 2)
    if env.now > d.lastActivity + maxWait then d.cancel env else .done d
  | .awaitingProof =>
    let rtt := if d.rtt > 0 then d.rtt else env.rtt
    if rtt ≤ 0 ∨ env.now ≤ d.lastPartSent + rtt * PROOF_TIMEOUT_FACTOR + SENDER_GRACE_TIME then .done d
    else if d.retriesLeft ≤ 0 then d.cancel env
    else .done { d with retriesLeft := d.retriesLeft - 1, lastPartSent := env.now }
  | _ => .done d

end Outgoing

end MicroReticulum.Resource
