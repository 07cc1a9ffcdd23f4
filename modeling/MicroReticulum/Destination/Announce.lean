import MicroReticulum.Destination.Ratchets
import MicroReticulum.Lib.Runs

/-!
# The announces of a destination

`Destination::announce` builds an announce or answers from the announces it has
kept for their tags, and the flag that says there is a ratchet is decided in
either branch. A receiver slices the announce by that flag.
-/

namespace MicroReticulum.Destinations

open Announcing
open Lib.Runs

def CONTEXT_NONE : UInt8 := 0x00
def PATH_RESPONSE : UInt8 := 0x0B

-- ---------------------------------------------------------------------------
-- Destination::announce
-- ---------------------------------------------------------------------------

/-- What an announce takes from outside the destination. -/
structure Draw where
  now : Nat
  /-- `Cryptography::random(5)`. -/
  random : Bytes
  length_random : random.length = 5
  generated : Option Bytes
  publicBytes : Bytes → Option Bytes
  length_publicBytes : ∀ prv pub, publicBytes prv = some pub → pub.length = RATCHETSIZE

/-- Five bytes of the time in seconds, the most significant first. -/
def timeBytes (now : Nat) : Bytes := [32, 24, 16, 8, 0].map fun k => .ofNat ((now / second) >>> k)

/-- The announces that are kept are dropped when their time is up. -/
def expire (now : Nat) (d : Destination) : Destination :=
  { d with pathResponses := d.pathResponses.filter fun e => ¬ e.time + PR_TAG_WINDOW * second < now }

/-- `insert` into a map: what is there already stays. -/
def insertResponse (e : PathResponse) (responses : List PathResponse) : List PathResponse :=
  if responses.any (·.tag = e.tag) then responses else responses ++ [e]

/-- What is put into an announce besides the keys. -/
structure Contents where
  ratchet : Bytes
  appData : Bytes
  deriving DecidableEq

/-- The destination after a rotation that may be due, and what goes into its announce. -/
def contents (r : Draw) (appData : Bytes) (d : Destination) : Destination × Contents :=
  let newAppData := if appData = [] ∧ d.defaultAppData ≠ [] then d.defaultAppData else appData
  if d.ratchetsEnabled then
    let d := (rotateRatchets r.now r.generated d).1
    (d, { ratchet := latestRatchet r.publicBytes d, appData := newAppData })
  else (d, { ratchet := [], appData := newAppData })

def signedBytes (d : Destination) (randomHash : Bytes) (c : Contents) : Bytes :=
  d.hash ++ (d.publicKey ++ (d.nameHash ++ (randomHash ++ (c.ratchet ++ c.appData))))

def announceBytes (sign : Bytes → Bytes) (d : Destination) (randomHash : Bytes) (c : Contents) : Bytes :=
  d.publicKey ++ (d.nameHash ++ (randomHash ++ (c.ratchet ++ (sign (signedBytes d randomHash c) ++ c.appData))))

/-- The packet: `HEADER_1`, broadcast, no hops, the context flag as given. -/
def packet (flag : Bool) (context : UInt8) (hash data : Bytes) : Bytes :=
  (if flag then 0x21 else 0x01) :: 0 :: (hash ++ (context :: data))

/-- A packet that is too large is not sent. -/
def fits (raw : Bytes) : Bool := raw.length ≤ Reticulum.MTU

/-- The kept announce that a path request of this tag is answered with. -/
def kept (r : Draw) (pathResponse : Bool) (tag : Bytes) (d : Destination) : Option PathResponse :=
  if pathResponse ∧ tag ≠ [] then (expire r.now d).pathResponses.find? (·.tag = tag) else none

def contextOf (pathResponse : Bool) : UInt8 := if pathResponse then PATH_RESPONSE else CONTEXT_NONE

/-- The destination afterwards, and the announce if it can be sent. `sign` is the identity's. -/
def announce (sign : Bytes → Bytes) (r : Draw) (appData : Bytes) (pathResponse : Bool) (tag : Bytes)
    (d : Destination) : Destination × Option Bytes :=
  if d.type ≠ .SINGLE ∨ d.direction ≠ .IN then (d, none)
  else match kept r pathResponse tag d with
  | some e =>
    let raw := packet d.ratchetsEnabled (contextOf pathResponse) d.hash e.announceData
    (expire r.now d, if fits raw then some raw else none)
  | none =>
    let (d, c) := contents r appData (expire r.now d)
    let data := announceBytes sign d (r.random ++ timeBytes r.now) c
    let raw := packet (c.ratchet ≠ []) (contextOf pathResponse) d.hash data
    ({ d with pathResponses := insertResponse { tag, time := r.now, announceData := data } d.pathResponses },
      if fits raw then some raw else none)

-- ---------------------------------------------------------------------------
-- Runs
-- ---------------------------------------------------------------------------

inductive Event
  | enableRatchets (privs : List Bytes) (latestTime : Nat)
  | disableRatchets
  | rotateRatchets (now : Nat) (generated : Option Bytes)
  | setDefaultAppData (appData : Bytes)
  | announce (r : Draw) (appData : Bytes) (pathResponse : Bool) (tag : Bytes)

/-- An announce on its way out, and what was put into it when it was built. -/
structure Sent where
  raw : Bytes
  contents : Contents

/-- The destination, what was put into the announce kept for a tag, and what was sent. -/
structure World where
  destination : Destination
  put : Bytes → Contents := fun _ => ⟨[], []⟩
  sent : List Sent := []

/-- What the announce carries, and what is put into the announces that are kept. -/
def World.announce (sign : Bytes → Bytes) (r : Draw) (appData : Bytes) (pathResponse : Bool) (tag : Bytes)
    (w : World) : World :=
  let (d, raw) := Destinations.announce sign r appData pathResponse tag w.destination
  let new := (contents r appData (expire r.now w.destination)).2
  match kept r pathResponse tag w.destination with
  | some _ => { w with destination := d, sent := raw.toList.map (⟨·, w.put tag⟩) ++ w.sent }
  | none =>
    let stays := (expire r.now w.destination).pathResponses.any (·.tag = tag)
    { destination := d
      put := fun t => if t = tag ∧ ¬ stays then new else w.put t
      sent := raw.toList.map (⟨·, new⟩) ++ w.sent }

def World.step (sign : Bytes → Bytes) (w : World) : Event → World
  | .enableRatchets privs latestTime => { w with destination := enableRatchets privs latestTime w.destination }
  | .disableRatchets => { w with destination := disableRatchets w.destination }
  | .rotateRatchets now generated => { w with destination := (rotateRatchets now generated w.destination).1 }
  | .setDefaultAppData appData => { w with destination := { w.destination with defaultAppData := appData } }
  | .announce r appData pathResponse tag => w.announce sign r appData pathResponse tag

-- ---------------------------------------------------------------------------
-- The packet read back
-- ---------------------------------------------------------------------------

variable {c : Scheme} {sign : Bytes → Bytes} {a : Announcement} {sig : Bytes} {context : UInt8} {flag : Bool}
  {hash bytes : Bytes}

theorem flags_packet : Wire.flags (packet flag context hash bytes) = if flag then 0x21 else 0x01 := rfl

@[simp] theorem contextFlag_packet : contextFlag (packet flag context hash bytes) = flag := by
  rw [contextFlag, flags_packet]
  revert flag
  decide

@[simp] theorem packetType_packet : Wire.packetType (packet flag context hash bytes) = Wire.ANNOUNCE := by
  rw [Wire.packetType, flags_packet]
  revert flag
  decide

theorem addressed_packet : Wire.addressed (packet flag context hash bytes) = 2 := by
  have hheader : Wire.isHeader2 (packet flag context hash bytes) = false := by
    rw [Wire.isHeader2, flags_packet]
    revert flag
    decide
  rw [Wire.addressed, hheader]
  rfl

theorem destinationHash_packet (h : hash.length = Wire.DESTINATION_LENGTH) :
    Wire.destinationHash (packet flag context hash bytes) = hash := by
  have htake : (hash ++ context :: bytes).take Wire.DESTINATION_LENGTH = hash := by rw [← h, List.take_left]
  rw [Wire.destinationHash, addressed_packet]
  exact htake

theorem data_packet (h : hash.length = Wire.DESTINATION_LENGTH) :
    Wire.data (packet flag context hash bytes) = bytes := by
  have hdrop : (hash ++ context :: bytes).drop (Wire.DESTINATION_LENGTH + 1) = bytes := by
    rw [← h, ← List.drop_drop, List.drop_left]
    rfl
  rw [Wire.data, addressed_packet]
  exact hdrop

/-- An announcement as it is sent in a context. -/
def sentAs (context : UInt8) (sig : Bytes) (a : Announcement) : Bytes :=
  packet a.ratcheted context a.destinationHash.bytes (a.announceData sig)

section

variable (hsig : sig.length = Announcing.SIGLENGTH)

theorem data_sentAs : Wire.data (sentAs context sig a) = a.announceData sig := data_packet a.destinationHash.length_eq

theorem publicKey_sentAs : publicKey (sentAs context sig a) = a.publicKey := by
  rw [publicKey, data_sentAs]
  simp [Announcement.announceData, Bytes.left, ← a.length_publicKey]

theorem nameHash_sentAs : nameHash (sentAs context sig a) = a.nameHash := by
  rw [nameHash, data_sentAs]
  simp [Announcement.announceData, Bytes.mid, ← a.length_publicKey, ← a.length_nameHash]

theorem behind_sentAs : (a.announceData sig).drop prefixLength = a.ratchet ++ (sig ++ a.appData) := by
  have hlen : prefixLength = (a.publicKey ++ (a.nameHash ++ a.randomHash)).length := by
    simp [prefixLength, a.length_publicKey, a.length_nameHash, a.length_randomHash, Nat.add_assoc]
  have hsplit : a.announceData sig = (a.publicKey ++ (a.nameHash ++ a.randomHash)) ++
      (a.ratchet ++ (sig ++ a.appData)) := by simp [Announcement.announceData]
  rw [hlen, hsplit, List.drop_left]

theorem randomHash_sentAs : randomHash (sentAs context sig a) = a.randomHash := by
  have hlen : KEYSIZE + NAME_HASH_LENGTH = (a.publicKey ++ a.nameHash).length := by
    simp [a.length_publicKey, a.length_nameHash]
  have hsplit : a.announceData sig = (a.publicKey ++ a.nameHash) ++
      (a.randomHash ++ (a.ratchet ++ (sig ++ a.appData))) := by simp [Announcement.announceData]
  rw [randomHash, data_sentAs, Bytes.mid, hlen, hsplit, List.drop_left, ← a.length_randomHash, List.take_left]

theorem offset_sentAs :
    announceAppDataOffset (sentAs context sig a) = prefixLength + (a.ratchet.length + Announcing.SIGLENGTH) := by
  have hflag : contextFlag (sentAs context sig a) = a.ratcheted := contextFlag_packet
  rw [announceAppDataOffset, hflag, a.length_ratchet_eq]
  omega

include hsig

theorem announceRatchet_sentAs : announceRatchet (sentAs context sig a) = a.ratchet := by
  have hflag : contextFlag (sentAs context sig a) = a.ratcheted := contextFlag_packet
  unfold announceRatchet
  rw [hflag, data_sentAs]
  rcases a.length_ratchet with h | h
  · simp [Announcement.ratcheted, h]
  · have hne : a.ratchet ≠ [] := List.ne_nil_of_length_pos (by rw [h]; decide)
    have hlen : ¬ (a.announceData sig).length < prefixLength + RATCHETSIZE + Announcing.SIGLENGTH := by
      simp only [Announcement.announceData, List.length_append, a.length_publicKey, a.length_nameHash,
        a.length_randomHash, h, hsig, prefixLength]
      omega
    rw [if_neg hlen, Bytes.mid, behind_sentAs, ← h, List.take_left]
    simp [Announcement.ratcheted, hne]

theorem signature_sentAs : signature (sentAs context sig a) = sig := by
  have hoff : announceAppDataOffset (sentAs context sig a) - Announcing.SIGLENGTH = prefixLength + a.ratchet.length := by
    rw [offset_sentAs]
    omega
  rw [signature, hoff, data_sentAs, Bytes.mid, ← List.drop_drop, behind_sentAs, List.drop_left, ← hsig, List.take_left]

theorem appData_sentAs : appData (sentAs context sig a) = a.appData := by
  rw [appData, offset_sentAs, data_sentAs, ← List.drop_drop, behind_sentAs, ← List.drop_drop, List.drop_left,
    ← hsig, List.drop_left]

theorem signedData_sentAs : signedData (sentAs context sig a) = a.signedData := by
  have hhash : Wire.destinationHash (sentAs context sig a) = a.destinationHash.bytes :=
    destinationHash_packet a.destinationHash.length_eq
  rw [signedData, hhash, publicKey_sentAs, nameHash_sentAs, randomHash_sentAs, announceRatchet_sentAs hsig,
    appData_sentAs hsig]
  rfl

end

-- ---------------------------------------------------------------------------
-- The round trip
-- ---------------------------------------------------------------------------

/-- A destination with its names as its constructor derives them. -/
structure Identified (c : Scheme) (d : Destination) : Prop where
  single : d.type = .SINGLE
  incoming : d.direction = .IN
  length_publicKey : d.publicKey.length = KEYSIZE
  length_nameHash : d.nameHash.length = NAME_HASH_LENGTH
  length_hash : d.hash.length = Wire.DESTINATION_LENGTH
  hash : d.hash = c.truncatedHash (d.nameHash ++ c.truncatedHash d.publicKey)

/-- The identity's signatures verify. -/
def Signs (c : Scheme) (sign : Bytes → Bytes) (publicKey : Bytes) : Prop :=
  ∀ message, (sign message).length = Announcing.SIGLENGTH ∧ c.signOpen (sigPub publicKey) (sign message) message

/-- Accepted wherever no other key is known, and sliced into what was put in. -/
structure RoundTrip (c : Scheme) (d : Destination) (s : Sent) : Prop where
  accepted : ∀ known : Bytes → Option Bytes, known d.hash = none ∨ known d.hash = some d.publicKey →
    validateAnnounce c known s.raw
  ratchet : announceRatchet s.raw = s.contents.ratchet
  appData : appData s.raw = s.contents.appData
  flag : contextFlag s.raw ↔ s.contents.ratchet ≠ []

variable {d d' : Destination} {cs : Contents} {data : Bytes} {w : World} {ev : Event} {events : List Event}
  {r : Draw} {app tag : Bytes} {pathResponse : Bool} {e : PathResponse}

/-- The bytes are those of an announce with these contents. -/
def Built (sign : Bytes → Bytes) (d : Destination) (cs : Contents) (data : Bytes) : Prop :=
  (cs.ratchet = [] ∨ cs.ratchet.length = RATCHETSIZE) ∧
    ∃ randomHash, randomHash.length = RANDOM_HASH_LENGTH ∧ data = announceBytes sign d randomHash cs

/-- The announcement behind the bytes. -/
theorem Built.announcement (hd : Identified c d) (h : Built sign d cs data) :
    ∃ a : Announcement, a.destinationHash.bytes = d.hash ∧ a.publicKey = d.publicKey ∧ a.nameHash = d.nameHash ∧
      a.ratchet = cs.ratchet ∧ a.appData = cs.appData ∧ data = a.announceData (sign a.signedData) := by
  obtain ⟨hratchet, randomHash, hrandom, rfl⟩ := h
  refine ⟨⟨⟨d.hash, hd.length_hash⟩, d.publicKey, hd.length_publicKey, d.nameHash, hd.length_nameHash, randomHash,
    hrandom, cs.ratchet, hratchet, cs.appData⟩, rfl, rfl, rfl, rfl, rfl, rfl⟩

theorem Built.roundTrip (hd : Identified c d) (hs : Signs c sign d.publicKey) (h : Built sign d cs data) :
    RoundTrip c d ⟨packet (cs.ratchet ≠ []) context d.hash data, cs⟩ := by
  obtain ⟨a, hhash, hkey, hname, hratchet, happ, rfl⟩ := h.announcement hd
  obtain ⟨hsig, hopen⟩ := hs a.signedData
  have hraw : packet (cs.ratchet ≠ []) context d.hash (a.announceData (sign a.signedData)) =
      sentAs context (sign a.signedData) a := by
    rw [sentAs, hhash, Announcement.ratcheted, hratchet]
  have hdest : Wire.destinationHash (sentAs context (sign a.signedData) a) = d.hash :=
    hhash ▸ destinationHash_packet a.destinationHash.length_eq
  refine ⟨?_, ?_, ?_, by simp⟩
  · intro known hknown
    have hflag : contextFlag (sentAs context (sign a.signedData) a) = a.ratcheted := contextFlag_packet
    have htype : Wire.packetType (sentAs context (sign a.signedData) a) = Wire.ANNOUNCE := packetType_packet
    have hcut : ¬ (a.ratcheted = true ∧ a.ratchet = []) := by
      rintro ⟨h, h'⟩
      simp [Announcement.ratcheted, h'] at h
    have hvalid : validate c a.publicKey (sign a.signedData) a.signedData = true := by
      have hhalf : (sigPub d.publicKey).length = 32 := by simp [sigPub, hd.length_publicKey, KEYSIZE]
      simp [validate, hsig, hkey, hopen, hhalf]
    simp only [hraw, validateAnnounce, htype, hflag, announceRatchet_sentAs hsig, publicKey_sentAs,
      signature_sentAs hsig, signedData_sentAs hsig, nameHash_sentAs, hdest, hvalid, hcut]
    simp [hkey, hname, ← hd.hash, hknown]
  · rw [hraw, announceRatchet_sentAs hsig, hratchet]
  · rw [hraw, appData_sentAs hsig, happ]

-- ---------------------------------------------------------------------------
-- What a run keeps
-- ---------------------------------------------------------------------------

/-- What no operation changes. -/
structure SameNames (d d' : Destination) : Prop where
  type : d'.type = d.type
  direction : d'.direction = d.direction
  hash : d'.hash = d.hash
  nameHash : d'.nameHash = d.nameHash
  publicKey : d'.publicKey = d.publicKey

theorem SameNames.trans {d'' : Destination} (h : SameNames d d') (h' : SameNames d' d'') : SameNames d d'' :=
  ⟨h'.type.trans h.type, h'.direction.trans h.direction, h'.hash.trans h.hash, h'.nameHash.trans h.nameHash,
    h'.publicKey.trans h.publicKey⟩

theorem sameNames_rotateRatchets (now : Nat) (generated : Option Bytes) (d : Destination) :
    SameNames d (rotateRatchets now generated d).1 ∧
      (rotateRatchets now generated d).1.pathResponses = d.pathResponses ∧
      (rotateRatchets now generated d).1.ratchetsEnabled = d.ratchetsEnabled := by
  cases hrot : rotateRatchets now generated d with
  | mk d' changed =>
    rcases rotateRatchets_cases hrot with ⟨-, rfl⟩ | ⟨ratchet, -, -, -, rfl⟩
    · exact ⟨⟨rfl, rfl, rfl, rfl, rfl⟩, rfl, rfl⟩
    · exact ⟨⟨rfl, rfl, rfl, rfl, rfl⟩, rfl, rfl⟩

theorem announceBytes_congr {randomHash : Bytes} (h : SameNames d d') :
    announceBytes sign d' randomHash cs = announceBytes sign d randomHash cs := by
  simp only [announceBytes, signedBytes, h.publicKey, h.nameHash, h.hash]

theorem contents_spec (r : Draw) (app : Bytes) (d : Destination) : SameNames d (contents r app d).1 ∧
    (contents r app d).1.pathResponses = d.pathResponses ∧
    (contents r app d).1.ratchetsEnabled = d.ratchetsEnabled ∧
    ((contents r app d).2.ratchet = [] ∨ (contents r app d).2.ratchet.length = RATCHETSIZE) ∧
    (¬ d.ratchetsEnabled → (contents r app d).2.ratchet = []) := by
  unfold contents
  dsimp only
  split
  · next hon =>
    obtain ⟨hnames, hresp, hen⟩ := sameNames_rotateRatchets r.now r.generated d
    refine ⟨hnames, hresp, hen, ?_, fun h => absurd hon h⟩
    unfold latestRatchet
    split
    · exact .inl rfl
    · cases hpub : ((rotateRatchets r.now r.generated d).1.ratchets.head?.bind r.publicBytes) with
      | none => exact .inl rfl
      | some pub =>
        obtain ⟨prv, -, hprv⟩ := Option.bind_eq_some_iff.1 hpub
        exact .inr (r.length_publicBytes prv pub hprv)
  · exact ⟨⟨rfl, rfl, rfl, rfl, rfl⟩, rfl, rfl, .inl rfl, fun _ => rfl⟩

/-- The announces kept and sent so far. -/
structure Inv (c : Scheme) (sign : Bytes → Bytes) (d : Destination) (w : World) : Prop where
  names : SameNames d w.destination
  built : ∀ e ∈ w.destination.pathResponses, Built sign d (w.put e.tag) e.announceData
  /-- Without ratchets nothing is kept that has one. -/
  off : ¬ w.destination.ratchetsEnabled → ∀ e ∈ w.destination.pathResponses, (w.put e.tag).ratchet = []
  sent : ∀ s ∈ w.sent, RoundTrip c d s

/-- Where a kept announce goes out with the flag set, a ratchet was put into it when it was built. -/
def RatchetPut (w : World) (ev : Event) : Prop :=
  ∀ r app pathResponse tag e, ev = .announce r app pathResponse tag →
    kept r pathResponse tag w.destination = some e → w.destination.ratchetsEnabled →
    fits (packet true (contextOf pathResponse) w.destination.hash e.announceData) → (w.put tag).ratchet ≠ []

theorem kept_eq_some (h : kept r pathResponse tag d = some e) : e ∈ d.pathResponses ∧ e.tag = tag := by
  unfold kept at h
  split at h
  · have hmem := List.mem_of_find?_eq_some h
    exact ⟨(List.mem_filter.1 hmem).1, by simpa using List.find?_some h⟩
  · cases h

theorem announce_of_kept (sign : Bytes → Bytes) (app : Bytes) (hd : d.type = .SINGLE) (hi : d.direction = .IN)
    (h : kept r pathResponse tag d = some e) :
    Destinations.announce sign r app pathResponse tag d = (expire r.now d,
      if fits (packet d.ratchetsEnabled (contextOf pathResponse) d.hash e.announceData) then
        some (packet d.ratchetsEnabled (contextOf pathResponse) d.hash e.announceData) else none) := by
  simp [Destinations.announce, hd, hi, h]

theorem Inv.announce_kept (hd : Identified c d) (hs : Signs c sign d.publicKey) (hw : Inv c sign d w)
    (h : kept r pathResponse tag w.destination = some e)
    (hok : RatchetPut w (.announce r app pathResponse tag)) :
    Inv c sign d (w.announce sign r app pathResponse tag) := by
  obtain ⟨hmem, rfl⟩ := kept_eq_some h
  have hannounce := announce_of_kept sign app (hw.names.type.trans hd.single)
    (hw.names.direction.trans hd.incoming) h
  have hsub : ∀ e ∈ (expire r.now w.destination).pathResponses, e ∈ w.destination.pathResponses :=
    fun e he => (List.mem_filter.1 he).1
  have hresult : w.announce sign r app pathResponse e.tag =
      { w with
        destination := expire r.now w.destination
        sent := (if fits (packet w.destination.ratchetsEnabled (contextOf pathResponse) w.destination.hash
          e.announceData) then [⟨packet w.destination.ratchetsEnabled (contextOf pathResponse) w.destination.hash
          e.announceData, w.put e.tag⟩] else []) ++ w.sent } := by
    simp only [World.announce, hannounce, h]
    split <;> rfl
  rw [hresult]
  refine ⟨hw.names.trans ⟨rfl, rfl, rfl, rfl, rfl⟩, fun e he => hw.built e (hsub e he),
    fun hoff e he => hw.off hoff e (hsub e he), ?_⟩
  intro s hsent
  rcases List.mem_append.1 hsent with hnew | hold
  · split at hnew
    · next hfits =>
      obtain rfl := List.mem_singleton.1 hnew
      have hflag : w.destination.ratchetsEnabled = decide ((w.put e.tag).ratchet ≠ []) := by
        cases hon : w.destination.ratchetsEnabled with
        | false => simp [hw.off (by simp [hon]) e hmem]
        | true =>
          rw [hon] at hfits
          have hput := hok r app pathResponse e.tag e rfl h hon hfits
          simp [hput]
      rw [hw.names.hash, hflag]
      exact (hw.built e hmem).roundTrip hd hs
    · cases hnew
  · exact hw.sent s hold

theorem Inv.announce_new (hd : Identified c d) (hs : Signs c sign d.publicKey) (hw : Inv c sign d w)
    (h : kept r pathResponse tag w.destination = none) :
    Inv c sign d (w.announce sign r app pathResponse tag) := by
  have hsub : ∀ e ∈ (expire r.now w.destination).pathResponses, e ∈ w.destination.pathResponses :=
    fun e he => (List.mem_filter.1 he).1
  obtain ⟨hnames, hresp, hen, hlen, hoff⟩ := contents_spec r app (expire r.now w.destination)
  have hexpired : SameNames d (expire r.now w.destination) := hw.names.trans ⟨rfl, rfl, rfl, rfl, rfl⟩
  have hall : SameNames d (contents r app (expire r.now w.destination)).1 := hexpired.trans hnames
  have hbuilt : Built sign d (contents r app (expire r.now w.destination)).2
      (announceBytes sign (contents r app (expire r.now w.destination)).1 (r.random ++ timeBytes r.now)
        (contents r app (expire r.now w.destination)).2) := by
    refine ⟨hlen, r.random ++ timeBytes r.now, ?_, announceBytes_congr hall⟩
    rw [List.length_append, r.length_random]
    rfl
  have htype : ¬ (w.destination.type ≠ .SINGLE ∨ w.destination.direction ≠ .IN) := by
    simp [hw.names.type, hw.names.direction, hd.single, hd.incoming]
  simp only [World.announce, Destinations.announce, if_neg htype, h]
  -- what is put under a tag that has an announce already is what that one was built with
  have hput : ∀ e ∈ insertResponse
      ⟨tag, r.now, announceBytes sign (contents r app (expire r.now w.destination)).1 (r.random ++ timeBytes r.now)
        (contents r app (expire r.now w.destination)).2⟩ (contents r app (expire r.now w.destination)).1.pathResponses,
      e ∈ w.destination.pathResponses ∧ ¬ (e.tag = tag ∧
          ¬ (expire r.now w.destination).pathResponses.any (·.tag = tag)) ∨
        e.announceData = announceBytes sign (contents r app (expire r.now w.destination)).1
            (r.random ++ timeBytes r.now) (contents r app (expire r.now w.destination)).2 ∧
          (e.tag = tag ∧ ¬ (expire r.now w.destination).pathResponses.any (·.tag = tag)) := by
    intro e he
    rw [insertResponse, hresp] at he
    split at he
    · next hstays => exact .inl ⟨hsub e he, fun hn => hn.2 hstays⟩
    · next hnew =>
      rcases List.mem_append.1 he with hold | hlast
      · refine .inl ⟨hsub e hold, fun hn => hnew ?_⟩
        exact List.any_eq_true.2 ⟨e, hold, by simpa using hn.1⟩
      · obtain rfl := List.mem_singleton.1 hlast
        exact .inr ⟨rfl, rfl, hnew⟩
  refine ⟨⟨hall.type, hall.direction, hall.hash, hall.nameHash, hall.publicKey⟩, ?_, ?_, ?_⟩
  · intro e he
    rcases hput e he with ⟨hold, hn⟩ | ⟨hdata, hn⟩
    · simpa only [if_neg hn] using hw.built e hold
    · simp only [if_pos hn, hdata]
      exact hbuilt
  · intro hdis e he
    have hdis' : ¬ w.destination.ratchetsEnabled := fun hon => hdis (hen.trans hon)
    rcases hput e he with ⟨hold, hn⟩ | ⟨-, hn⟩
    · simpa only [if_neg hn] using hw.off hdis' e hold
    · simp only [if_pos hn]
      exact hoff hdis'
  · intro s hsent
    rcases List.mem_append.1 hsent with hnew | hold
    · split at hnew
      · obtain rfl := List.mem_singleton.1 hnew
        rw [hall.hash]
        exact hbuilt.roundTrip hd hs
      · cases hnew
    · exact hw.sent s hold

theorem Inv.step (hd : Identified c d) (hs : Signs c sign d.publicKey) (hw : Inv c sign d w)
    (hok : RatchetPut w ev) : Inv c sign d (w.step sign ev) := by
  cases ev with
  | enableRatchets privs latestTime =>
    have hsingle : ¬ w.destination.type ≠ .SINGLE := not_not.2 (hw.names.type.trans hd.single)
    simp only [World.step, enableRatchets, if_neg hsingle]
    exact ⟨hw.names.trans ⟨rfl, rfl, rfl, rfl, rfl⟩, by simp, by simp, hw.sent⟩
  | disableRatchets => exact ⟨hw.names.trans ⟨rfl, rfl, rfl, rfl, rfl⟩, nofun, fun _ => nofun, hw.sent⟩
  | rotateRatchets now generated =>
    obtain ⟨hnames, hresp, hen⟩ := sameNames_rotateRatchets now generated w.destination
    refine ⟨hw.names.trans hnames, ?_, ?_, hw.sent⟩
    · simp only [World.step, hresp]
      exact hw.built
    · simp only [World.step, hresp, hen]
      exact hw.off
  | setDefaultAppData appData => exact ⟨hw.names.trans ⟨rfl, rfl, rfl, rfl, rfl⟩, hw.built, hw.off, hw.sent⟩
  | announce r app pathResponse tag =>
    cases h : kept r pathResponse tag w.destination with
    | some e => exact hw.announce_kept hd hs h hok
    | none => exact hw.announce_new hd hs h

/-- A kept announce without a ratchet that goes out with the flag set is misread. -/
theorem Inv.misread (hd : Identified c d) (hw : Inv c sign d w) (hbad : ¬ RatchetPut w ev) :
    ¬ ∀ s ∈ (w.step sign ev).sent, RoundTrip c d s := by
  simp only [RatchetPut, not_forall, not_not] at hbad
  obtain ⟨r, app, pathResponse, tag, e, rfl, h, hon, hfits, hnone⟩ := hbad
  have hannounce := announce_of_kept sign app (hw.names.type.trans hd.single)
    (hw.names.direction.trans hd.incoming) h
  rw [hon, if_pos hfits] at hannounce
  intro hall
  have hsent := hall ⟨packet true (contextOf pathResponse) w.destination.hash e.announceData, w.put tag⟩ (by
    simp [World.step, World.announce, hannounce, h])
  exact hsent.flag.1 contextFlag_packet hnone

/-- A new destination with this identity and these settings. -/
def World.fresh (d : Destination) : World := { destination := { d with pathResponses := [] } }

private def digest (key message : Bytes) : Bytes := (key ++ message ++ .replicate 64 0).take 64

private theorem length_digest (key message : Bytes) : (digest key message).length = 64 := by
  have hle : 64 ≤ (key ++ message ++ .replicate 64 0).length := by
    rw [List.length_append, List.length_replicate]
    exact Nat.le_add_left _ _
  rw [digest, List.length_take, Nat.min_eq_left hle]

/-- Hashes keep everything, and a signature is a piece of key and message. -/
private def plain : Scheme where
  fullHash := id
  signOpen key sig message := sig = digest key message

private def inn : Destination where
  hash := .replicate 10 2 ++ .replicate 6 1
  nameHash := .replicate 10 2
  publicKey := .replicate 64 1

private theorem inn_identified : Identified plain inn := ⟨rfl, rfl, rfl, rfl, rfl, rfl⟩

private theorem inn_signs : Signs plain (digest (sigPub inn.publicKey)) inn.publicKey :=
  fun message => ⟨length_digest _ _, by simp [plain]⟩

/-- The time, and what the generator gives. -/
private def drawn (now : Nat) (generated : Option Bytes) : Draw where
  now
  random := [1, 2, 3, 4, 5]
  length_random := rfl
  generated
  publicBytes prv := if prv.length = RATCHETSIZE then some prv else none
  length_publicBytes prv pub h := by
    split at h
    · next hlen => exact Option.some.inj h ▸ hlen
    · cases h

/-- No ratchet can be made for the first answer, and the second one repeats it. -/
private def repeated : List Event :=
  [.enableRatchets [] 0, .announce (drawn second none) [] true [9], .announce (drawn (2 * second) none) [] true [9]]

end MicroReticulum.Destinations
