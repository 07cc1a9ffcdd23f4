import MicroReticulum.Interface.AnnounceQueue
import MicroReticulum.Lib.Log
import MicroReticulum.Lib.Slots
import MicroReticulum.Packet.Wire

/-!
# Questions for a path

A transport node that hears a question it cannot answer asks it on its other
interfaces, and on the radio it was heard on when it is closer to a gateway than
the asker: there after a while, unless a node at least as close is heard first.
A question is known by its destination and tag.
-/

namespace MicroReticulum.Questions

open Lib Lib.Log Lib.Log.Transition Interfaces Wire

def DISTANCE_NONE : ℕ := 8
def DISTANCE_UNKNOWN : ℕ := 255
def PENDING_REPEATS_MAX : ℕ := 24
def DISCOVERY_RETRY_AFTER : ℚ := 45
def SHORT_PR_LABEL_LEN : ℕ := 4
def HEADER_MINSIZE : ℕ := 19

/-- `discovery_timeout()`: twice the establishment timeout of the longest way to
a gateway, as it is longer than the path request timeout. -/
def discoveryTimeout : ℚ := max (2 * 6 * (DISTANCE_NONE : ℚ)) 15

/-- A node: what it is, and what it takes others to be. -/
structure Node where
  identity : Bytes
  sized : identity.length = DESTINATION_LENGTH
  interfaces : List Interface
  apart : (interfaces.map fun i => i.hash.take DESTINATION_LENGTH).Nodup
  transportEnabled : Bool := true
  ownDistance : ℕ
  /-- The distance a transport id has declared. -/
  declared : Bytes → ℕ

structure PendingRepeat where
  dest : Bytes := []
  tag : Bytes := []
  iface : Bytes := []
  asker : Option Bytes := none
  due : ℚ := 0
  used : Bool := false
  deriving DecidableEq

/-- A search on behalf of an asker. -/
structure Search where
  timeout : ℚ
  requesting : Bytes
  requestor : Bytes

structure State where
  /-- The oldest first. -/
  discoveryPrTags : List Bytes := []
  repeats : List PendingRepeat := .replicate PENDING_REPEATS_MAX {}
  discoveryPathRequests : Bytes → Option Search := fun _ => none
  announceAllowedAt : Bytes → ℚ := fun _ => 0

/-- What else an operation reads. -/
structure Env where
  now : ℚ
  random : ℚ := 0
  /-- The node's own destinations. -/
  own : Bytes → Bool := fun _ => false
  /-- `iface_hash` of the live route. -/
  routes : Bytes → Option Bytes := fun _ => none
  /-- An announce is retained for the destination. -/
  retained : Bytes → Bool := fun _ => false
  /-- The destination a label stands for. -/
  bearing : Bytes → Option Bytes := fun _ => none
  /-- Interfaces with announces in their queue. -/
  queued : Bytes → Bool := fun _ => false

/-- A question that goes out on an interface, `repeated` where it was heard on. -/
structure Sent where
  iface : Bytes
  data : Bytes
  repeated : Option PendingRepeat := none
  deriving DecidableEq

-- ---------------------------------------------------------------------------
-- The request's bytes
-- ---------------------------------------------------------------------------

structure Question where
  dest : Bytes
  requestor : Bytes
  tag : Bytes
  deriving DecidableEq

/-- A request without a tag is ignored, a long tag cut. -/
def Question.tagged (data requestor tag : Bytes) : Option Question :=
  if tag = [] then none
  else some { dest := data.left DESTINATION_LENGTH, requestor, tag := tag.left DESTINATION_LENGTH }

/-- What `path_request_handler` reads. -/
def Question.parse (data : Bytes) : Option Question :=
  if data.length < DESTINATION_LENGTH then none
  else if DESTINATION_LENGTH * 2 < data.length then
    tagged data (data.mid DESTINATION_LENGTH DESTINATION_LENGTH) (data.drop (DESTINATION_LENGTH * 2))
  else tagged data [] (data.drop DESTINATION_LENGTH)

def isLabel (h : Bytes) : Bool := h.length == DESTINATION_LENGTH && (h.drop SHORT_PR_LABEL_LEN).all (· == 0)

variable (n : Node) (e : Env) (i on : Interface) (dest tag requestor : Bytes) (delay : ℚ)

def pathRequestData : Bytes := if n.transportEnabled then dest ++ n.identity ++ tag else dest ++ tag

-- ---------------------------------------------------------------------------
-- Asking
-- ---------------------------------------------------------------------------

def findInterfaceFromHashPrefix (hashPrefix : Bytes) : Option Interface :=
  n.interfaces.find? fun i => i.hash.take DESTINATION_LENGTH = hashPrefix

/-- The interface of the live route. -/
def nextHopInterface : Option Interface := (e.routes dest).bind (findInterfaceFromHashPrefix n)

def hasPath : Bool := (nextHopInterface n e dest).isSome

/-- `packet.send()`, which only reaches interfaces that are `OUT`. -/
def send (repeated : Option PendingRepeat) : Transition State Sent := fun s =>
  (s, if i.out then [⟨i.hash, pathRequestData n dest tag, repeated⟩] else [])

/-- The recursive request waits for the announces of its interface. -/
def requestPath (recursive : Bool) (repeated : Option PendingRepeat) : Transition State Sent := fun s =>
  if i.pointToPoint ∧ (nextHopInterface n e dest).map (·.hash) = some i.hash then skip s
  else if recursive then
    if e.queued i.hash then skip s
    else if e.now < s.announceAllowedAt i.hash then skip s
    else
      let wait := i.waitTime ((pathRequestData n dest tag).length + HEADER_MINSIZE)
      send n i dest tag repeated
        { s with announceAllowedAt := Function.update s.announceAllowedAt i.hash (e.now + wait) }
  else send n i dest tag repeated s

-- ---------------------------------------------------------------------------
-- Repeats
-- ---------------------------------------------------------------------------

def distanceOf (transportId : Bytes) : ℕ :=
  if transportId.length < 16 then DISTANCE_UNKNOWN else n.declared transportId

/-- One question in flight per destination is enough; the repeat due last makes room. -/
def repeatSchedule (repeats : List PendingRepeat) : List PendingRepeat :=
  if dest.length ≠ DESTINATION_LENGTH ∨ on.hash.length < DESTINATION_LENGTH then repeats
  else if repeats.any fun r => r.used ∧ r.dest = dest then repeats
  else
    let slot := (Slots.free PendingRepeat.used repeats).orElse fun _ =>
      Slots.victim PendingRepeat.used (fun r => OrderDual.toDual r.due) repeats
    match slot with
    | none => repeats
    | some k => repeats.set k
        { dest, tag := tag.left DESTINATION_LENGTH, iface := on.hash.left DESTINATION_LENGTH
          asker := if DESTINATION_LENGTH ≤ requestor.length then some (requestor.left DESTINATION_LENGTH) else none
          due := e.now + delay, used := true }

/-- The question was heard again: a node at least as close has carried it on. -/
def repeatHeard (repeats : List PendingRepeat) : List PendingRepeat :=
  match Slots.find PendingRepeat.used (fun r => (r.dest, r.tag)) (dest, tag.left DESTINATION_LENGTH) repeats with
  | none => repeats
  | some k =>
    let d := distanceOf n requestor
    if d ≠ DISTANCE_UNKNOWN ∧ d ≤ n.ownDistance then repeats.modify k ({ · with used := false }) else repeats

-- ---------------------------------------------------------------------------
-- Hearing a question
-- ---------------------------------------------------------------------------

def pathSearchPossible : Bool := on.communityRadius ≠ 0 ∧ n.interfaces.any fun i => i.out ∧ i.hash ≠ on.hash

/-- An own destination is announced, a retained announce is sent again. -/
def answers : Bool := e.own dest ∨ n.transportEnabled ∧ hasPath n e dest ∧ e.retained dest

def searches : Bool := n.transportEnabled ∧ (on.mode = .accessPoint ∨ on.mode = .gateway)

/-- One step nearer a gateway on the same radio. -/
def repeats : Bool :=
  ¬ on.pointToPoint ∧ 0 < on.communityRadius ∧ 0 < n.ownDistance ∧ n.ownDistance < DISTANCE_NONE ∧
    n.ownDistance < distanceOf n requestor

def searching (s : State) : Bool :=
  (s.discoveryPathRequests dest).any fun r => discoveryTimeout - (r.timeout - e.now) < DISCOVERY_RETRY_AFTER

/-- Asked on every interface but the one it came in on. -/
def forward : Transition State Sent :=
  all ((n.interfaces.filter fun i => i.hash ≠ on.hash).map fun i => requestPath n e i dest tag true none)

/-- A second per hop of the node's own distance, and up to half a second. -/
def noteRepeat (s : State) : State :=
  if repeats n on requestor then
    { s with
      repeats := repeatSchedule e on dest tag requestor ((n.ownDistance : ℚ) + e.random * (1 / 2)) s.repeats }
  else s

def search : Transition State Sent := fun s =>
  if searching e dest s ∨ ¬ pathSearchPossible n on then skip s
  else
    let entry := { timeout := e.now + discoveryTimeout, requesting := on.hash, requestor }
    forward n e on dest tag
      { s with discoveryPathRequests := Function.update s.discoveryPathRequests dest (some entry) }

def pathRequest : Transition State Sent :=
  if answers n e dest ∨ ¬ searches n on then skip
  else (quiet (noteRepeat n e on dest tag requestor)).andThen (search n e on dest tag requestor)

/-- A label is answered as the destination it stands for. -/
def asked : Bytes := if isLabel dest then (e.bearing dest).getD dest else dest

def pathRequestHandler (data : Bytes) : Transition State Sent := fun s =>
  match Question.parse data with
  | none => skip s
  | some q =>
    if q.dest ++ q.tag ∈ s.discoveryPrTags then
      quiet (fun s => { s with repeats := repeatHeard n q.dest q.tag q.requestor s.repeats }) s
    else
      pathRequest n e on (asked e q.dest) q.tag q.requestor
        { s with discoveryPrTags := s.discoveryPrTags ++ [q.dest ++ q.tag] }

-- ---------------------------------------------------------------------------
-- The timers and the tags' cull
-- ---------------------------------------------------------------------------

/-- A repeat whose time has come goes out, if its interface is there and no path is. -/
def serve (k : ℕ) : Transition State Sent := fun s =>
  match s.repeats[k]? with
  | none => skip s
  | some r =>
    if ¬ r.used ∨ e.now < r.due then skip s
    else
      let s := { s with repeats := s.repeats.set k { r with used := false } }
      match findInterfaceFromHashPrefix n r.iface with
      | none => skip s
      | some i =>
        if hasPath n e r.dest then skip s
        else
          let entry := { timeout := e.now + discoveryTimeout, requesting := i.hash, requestor := r.asker.getD [] }
          requestPath n e i r.dest r.tag false (some r)
            { s with discoveryPathRequests :=
                if (s.discoveryPathRequests r.dest).isSome then s.discoveryPathRequests
                else Function.update s.discoveryPathRequests r.dest (some entry) }

def timers : Transition State Sent := all ((List.range PENDING_REPEATS_MAX).map (serve n e))

/-- The oldest go first. -/
def cullTags (maxPrTags : ℕ) : Transition State Sent :=
  quiet fun s => { s with discoveryPrTags := s.discoveryPrTags.drop (s.discoveryPrTags.length - maxPrTags) }

-- ---------------------------------------------------------------------------
-- One question
-- ---------------------------------------------------------------------------

variable {n e i on requestor dest tag} {d t : Bytes} {key data : Bytes} {s : State} {k : ℕ} {q : Question}
  {rs : List PendingRepeat} {r : PendingRepeat} {t₁ t₂ : Transition State Sent} {b b₁ b₂ : Bytes → ℕ}

/-- A destination and a tag as they come out of a request. -/
structure Sized (dest tag : Bytes) : Prop where
  dest : dest.length = DESTINATION_LENGTH
  tag_ne : tag ≠ []
  tag_le : tag.length ≤ DESTINATION_LENGTH

theorem tagged_sized {data requestor tag : Bytes} (hlen : DESTINATION_LENGTH ≤ data.length)
    (h : Question.tagged data requestor tag = some q) : Sized q.dest q.tag := by
  unfold Question.tagged at h
  split at h
  · cases h
  · next hne =>
    cases h
    exact ⟨by simpa using hlen, by simpa [Bytes.left, DESTINATION_LENGTH] using hne, by simp⟩

theorem parse_sized (h : Question.parse data = some q) : Sized q.dest q.tag := by
  unfold Question.parse at h
  split at h
  · cases h
  · next hlen =>
    split at h
    · exact tagged_sized (not_lt.1 hlen) h
    · exact tagged_sized (not_lt.1 hlen) h

/-- A question reads back as it was sent. -/
theorem parse_pathRequestData (h : Sized d t) : Question.parse (pathRequestData n d t) =
    some { dest := d, requestor := if n.transportEnabled then n.identity else [], tag := t } := by
  have hid := n.sized
  obtain ⟨hd, hne, hle⟩ := h
  have hpos : 0 < t.length := List.length_pos_iff.2 hne
  have hlen : DESTINATION_LENGTH = 16 := rfl
  have hleft (rest : Bytes) : (d ++ rest).left DESTINATION_LENGTH = d := by
    rw [Bytes.left, ← hd, List.take_left]
  have hdrop (rest : Bytes) : (d ++ rest).drop DESTINATION_LENGTH = rest := by
    rw [← hd, List.drop_left]
  have htag : t.left DESTINATION_LENGTH = t := List.take_of_length_le hle
  cases hte : n.transportEnabled with
  | false =>
    have hdata : pathRequestData n d t = d ++ t := by simp [pathRequestData, hte]
    rw [hdata, Question.parse, if_neg (by simp; omega), if_neg (by simp; omega), hdrop, Question.tagged, if_neg hne,
      hleft, htag]
    rfl
  | true =>
    have hdata : pathRequestData n d t = d ++ (n.identity ++ t) := by simp [pathRequestData, hte]
    have hmid : (d ++ (n.identity ++ t)).mid DESTINATION_LENGTH DESTINATION_LENGTH = n.identity := by
      rw [Bytes.mid, hdrop, ← hid, List.take_left]
    have hrest : (d ++ (n.identity ++ t)).drop (DESTINATION_LENGTH * 2) = t := by
      rw [mul_two, ← List.drop_drop, hdrop, ← hid, List.drop_left]
    rw [hdata, Question.parse, if_neg (by simp; omega), if_pos (by simp; omega), hmid, hrest, Question.tagged,
      if_neg hne, hleft, htag]
    rfl

end MicroReticulum.Questions
