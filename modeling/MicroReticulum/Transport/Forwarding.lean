import Mathlib.Tactic
import MicroReticulum.Packet.Wire
import MicroReticulum.Link.Proof

/-!
# Rewrites on the way

What Transport sends on for a packet that is not meant for this node: with a
transport header put in, with its next hop replaced, with the header taken off,
or with the hop count alone rewritten. A link request has its signalled MTU
clamped or stripped besides. None of it changes the packet's hashes or the
link's id.
-/

namespace MicroReticulum.Transport

open Wire

/-- What a relay reads of the interface it sends a packet out on. -/
structure Outbound where
  hwMtu : UInt16
  autoconfigureMtu : Bool
  fixedMtu : Bool

-- ---------------------------------------------------------------------------
-- Rewrites
-- ---------------------------------------------------------------------------

/-- `outbound`: the transport header put in towards the first relay. A packet
that has one is not sent this way. -/
def insertTransport (receivedFrom : TruncatedHash) (raw : Bytes) : Option Bytes :=
  if isHeader2 raw then none
  else some ((HEADER_2 ||| TRANSPORT ||| (flags raw &&& 0x0F)) ::
    (raw.mid 1 1 ++ (receivedFrom.bytes ++ raw.drop 2)))

/-- The address part of `inbound`'s transport forwarding. -/
def readdress (hops : UInt8) (nextHop : TruncatedHash) (remainingHops : UInt8) (raw : Bytes) : Bytes :=
  if remainingHops > 1 then
    raw.left 1 ++ hops :: (nextHop.bytes ++ raw.drop (DESTINATION_LENGTH + 2))
  else if remainingHops = 1 then
    (flags raw &&& 0x0F) :: hops :: raw.drop (DESTINATION_LENGTH + 2)
  else raw.left 1 ++ hops :: raw.drop 2

def stripSignalling (newRaw : Bytes) : Bytes := newRaw.left (newRaw.length - Link.LINK_MTU_SIZE)

/-- `std::min(nh_mtu, (ph_mtu > 0) ? ph_mtu : nh_mtu)`. -/
def hopMtu (phMtu nhMtu : UInt16) : UInt16 := min nhMtu (if phMtu > 0 then phMtu else nhMtu)

/-- The signalling of a link request on its way out; `none` where its mode is
not enabled and the request is dropped. -/
def clampMtu (phMtu : UInt16) (out : Outbound) (raw newRaw : Bytes) : Option Bytes :=
  let pathMtu := mtuFromLrPacket raw
  if pathMtu = 0 then some newRaw
  else if out.hwMtu = 0 then some (stripSignalling newRaw)
  else if !out.autoconfigureMtu && !out.fixedMtu then some (stripSignalling newRaw)
  else if out.hwMtu < pathMtu ∨ (phMtu ≠ 0 ∧ phMtu < pathMtu) then
    (Link.signallingBytes (hopMtu phMtu out.hwMtu).toNat (modeFromLrPacket raw)).map fun clamped =>
      stripSignalling newRaw ++ clamped
  else some newRaw

/-- Whether forwarding along a route applies: the packet carries a transport
id. One without is given this node's own for a destination no hops away. -/
def inTransport (remainingHops : UInt8) (raw : Bytes) : Bool := isHeader2 raw || remainingHops = 0

/-- The hop count alone: transport along a link, and a link proof's way back. -/
def passOn (hops : UInt8) (raw : Bytes) : Bytes := raw.left 1 ++ hops :: raw.drop 2

inductive Rewrite where
  | insert (receivedFrom : TruncatedHash)
  | forward (hops : UInt8) (nextHop : TruncatedHash) (remainingHops : UInt8) (phMtu : UInt16)
      (out : Outbound)
  | pass (hops : UInt8)

/-- The address part of a rewrite; `none` where the packet does not go this way. -/
def Rewrite.address (raw : Bytes) : Rewrite → Option Bytes
  | .insert receivedFrom => insertTransport receivedFrom raw
  | .forward hops nextHop remainingHops _ _ =>
    if inTransport remainingHops raw then some (readdress hops nextHop remainingHops raw) else none
  | .pass hops => if packetType raw ≠ LINKREQUEST then some (passOn hops raw) else none

/-- What a link request's signalling becomes. -/
def Rewrite.signal (raw newRaw : Bytes) : Rewrite → Option Bytes
  | .forward _ _ _ phMtu out =>
    if packetType raw = LINKREQUEST then clampMtu phMtu out raw newRaw else some newRaw
  | _ => some newRaw

/-- One node's rewrite, of a packet that unpacks there. -/
def readdressed (raw : Bytes) (r : Rewrite) : Option Bytes :=
  if unpacks raw then r.address raw else none

def rewritten (raw : Bytes) (r : Rewrite) : Option Bytes :=
  (readdressed raw r).bind (r.signal raw)

-- ---------------------------------------------------------------------------
-- One rewrite
-- ---------------------------------------------------------------------------

variable {raw newRaw newRaw' : Bytes} {hops remainingHops : UInt8} {nextHop receivedFrom : TruncatedHash}

theorem inserted_flags (f : UInt8) :
    (HEADER_2 ||| TRANSPORT ||| (f &&& 0x0F)) &&& 0x0F = f &&& 0x0F := by
  apply UInt8.eq_of_toBitVec_eq
  simp only [UInt8.toBitVec_and, UInt8.toBitVec_or, BitVec.and_or_distrib_right]
  simp [HEADER_2, TRANSPORT, BitVec.and_assoc]

theorem inserted_isHeader2 (f : UInt8) (rest : Bytes) :
    isHeader2 ((HEADER_2 ||| TRANSPORT ||| f) :: rest) = true := by
  rw [isHeader2_cons, decide_eq_true_eq]
  intro h
  have hbit := congrArg (fun x : UInt8 => x.toBitVec.getLsbD 6) h
  simp [HEADER_2, TRANSPORT] at hbit

theorem stripped_isHeader2 (f : UInt8) (rest : Bytes) : isHeader2 ((f &&& 0x0F) :: rest) = false := by
  rw [isHeader2_cons, UInt8.and_assoc, show (0x0F : UInt8) &&& HEADER_2 = 0 from rfl, UInt8.and_zero]
  simp

/-- Two packets with the same low flags and the same bytes from the destination
on hash alike. -/
theorem hashablePart_congr (hf : flags newRaw &&& 0x0F = flags raw &&& 0x0F)
    (hb : newRaw.drop (addressed newRaw) = raw.drop (addressed raw)) :
    hashablePart newRaw = hashablePart raw := by
  rw [hashablePart, hashablePart, hf, hb]

theorem insertTransport_hashable (hu : unpacks raw) (h : insertTransport receivedFrom raw = some newRaw) :
    hashablePart newRaw = hashablePart raw := by
  obtain ⟨f, n, rest, rfl⟩ := unpacks_header hu
  unfold insertTransport at h
  split at h
  · cases h
  · next h1 =>
    cases h
    apply hashablePart_congr
    · simpa using inserted_flags f
    · simp only [addressed, inserted_isHeader2, if_true, h1]
      simp [Bytes.mid, receivedFrom.length_eq]

theorem passOn_hashable (hu : unpacks raw) : hashablePart (passOn hops raw) = hashablePart raw := by
  obtain ⟨f, n, rest, rfl⟩ := unpacks_header hu
  apply hashablePart_congr
  · rfl
  · by_cases h2 : isHeader2 (f :: n :: rest) <;>
      simp_all [passOn, addressed, isHeader2_cons, Bytes.left]

theorem readdress_hashable (hu : unpacks raw) (ht : inTransport remainingHops raw) :
    hashablePart (readdress hops nextHop remainingHops raw) = hashablePart raw := by
  have h2 : remainingHops ≠ 0 → isHeader2 raw := fun h => by simpa [inTransport, h] using ht
  unfold readdress
  split
  · next hm =>
    have hh : isHeader2 raw := h2 (by rintro rfl; exact absurd hm (by decide))
    obtain ⟨f, n, rest, rfl⟩ := unpacks_header hu
    apply hashablePart_congr
    · rfl
    · simp_all [addressed, isHeader2_cons, Bytes.left, nextHop.length_eq]
  · split
    · next h1 =>
      have hh : isHeader2 raw := h2 (by rw [h1]; decide)
      apply hashablePart_congr
      · simp [UInt8.and_assoc]
      · simp [addressed, stripped_isHeader2, hh]
    · exact passOn_hashable hu

/-- No rewrite of the addresses changes what the packet hashes to. -/
theorem readdressed_hashable (r : Rewrite) (h : readdressed raw r = some newRaw) :
    hashablePart newRaw = hashablePart raw := by
  unfold readdressed at h
  split at h
  · next hu =>
    cases r with
    | insert receivedFrom => exact insertTransport_hashable hu h
    | forward hops nextHop remainingHops phMtu out =>
      simp only [Rewrite.address] at h
      split at h
      · next ht =>
        cases h
        exact readdress_hashable hu ht
      · cases h
    | pass hops =>
      simp only [Rewrite.address] at h
      split at h
      · cases h
        exact passOn_hashable hu
      · cases h
  · cases h

-- ---------------------------------------------------------------------------
-- Signalling
-- ---------------------------------------------------------------------------

theorem mtuFromLrPacket_length (h : mtuFromLrPacket raw ≠ 0) :
    (data raw).length = Link.ECPUBSIZE + Link.LINK_MTU_SIZE := by
  unfold mtuFromLrPacket at h
  by_contra hn
  simp [hn] at h

/-- New signalling, or none, behind the keys of a link request that had some. -/
theorem stripSignalling_hashable (ext : Bytes)
    (hlen : (data newRaw).length = Link.ECPUBSIZE + Link.LINK_MTU_SIZE) :
    hashablePart (stripSignalling newRaw ++ ext) =
      (hashablePart newRaw).take (DESTINATION_LENGTH + 2 + Link.ECPUBSIZE) ++ ext := by
  have hall : addressed newRaw + DESTINATION_LENGTH + 1 + (Link.ECPUBSIZE + Link.LINK_MTU_SIZE)
      = newRaw.length := by
    have hdrop := hlen
    simp only [data, List.length_drop, Link.ECPUBSIZE, Link.LINK_MTU_SIZE] at hdrop ⊢
    omega
  rw [stripSignalling, Bytes.left, hashablePart_take_append]
  · congr 2
    omega
  · simp only [Link.LINK_MTU_SIZE, Link.ECPUBSIZE, DESTINATION_LENGTH] at hall ⊢
    omega
  · omega

theorem stripSignalling_linkIdPart (ext : Bytes)
    (hlen : (data newRaw).length = Link.ECPUBSIZE + Link.LINK_MTU_SIZE) :
    linkIdPart (stripSignalling newRaw ++ ext) = linkIdPart newRaw := by
  have hkeys : DESTINATION_LENGTH + 2 + Link.ECPUBSIZE ≤ (hashablePart newRaw).length := by
    rw [data_eq, List.length_drop] at hlen
    simp only [Link.ECPUBSIZE, Link.LINK_MTU_SIZE, DESTINATION_LENGTH] at hlen ⊢
    omega
  rw [linkIdPart_eq, linkIdPart_eq, stripSignalling_hashable ext hlen,
    List.take_append_of_le_length (by simpa using hkeys), List.take_take, min_self]

theorem clampMtu_linkIdPart (hh : hashablePart newRaw = hashablePart raw)
    (h : clampMtu phMtu out raw newRaw = some newRaw') :
    linkIdPart newRaw' = linkIdPart newRaw := by
  unfold clampMtu at h
  simp only at h
  split at h
  · cases h; rfl
  · next hm =>
    have hlen : (data newRaw).length = Link.ECPUBSIZE + Link.LINK_MTU_SIZE := by
      rw [data_eq, hh, ← data_eq, mtuFromLrPacket_length hm]
    have hstrip := stripSignalling_linkIdPart [] hlen
    rw [List.append_nil] at hstrip
    split at h
    · cases h; exact hstrip
    · split at h
      · cases h; exact hstrip
      · split at h
        · obtain ⟨clamped, -, rfl⟩ := Option.map_eq_some_iff.1 h
          exact stripSignalling_linkIdPart clamped hlen
        · cases h; rfl

theorem rewritten_linkIdPart (r : Rewrite) (h : rewritten raw r = some newRaw) :
    linkIdPart newRaw = linkIdPart raw := by
  obtain ⟨mid, hmid, hsig⟩ := Option.bind_eq_some_iff.1 h
  have hh := readdressed_hashable r hmid
  have hid : linkIdPart newRaw = linkIdPart mid := by
    cases r with
    | forward hops nextHop remainingHops phMtu out =>
      simp only [Rewrite.signal] at hsig
      split at hsig
      · exact clampMtu_linkIdPart hh hsig
      · cases hsig; rfl
    | insert | pass => cases hsig; rfl
  rw [hid, linkIdPart_congr hh]

-- ---------------------------------------------------------------------------
-- A path
-- ---------------------------------------------------------------------------

/-- The packet after every node on its way, if none of them dropped it. -/
def path (node : Bytes → Rewrite → Option Bytes) (raw : Bytes) (rs : List Rewrite) : Option Bytes :=
  rs.foldlM node raw

/-- What every node on the way leaves alone is the same at the end of it. -/
theorem path_keeps {node : Bytes → Rewrite → Option Bytes} {f : Bytes → α}
    (hnode : ∀ {raw newRaw} r, node raw r = some newRaw → f newRaw = f raw)
    (h : path node raw rs = some newRaw) : f newRaw = f raw := by
  induction rs generalizing raw with
  | nil => cases h; rfl
  | cons r rs ih =>
    obtain ⟨mid, hmid, hrest⟩ := Option.bind_eq_some_iff.1 h
    rw [ih hrest, hnode r hmid]

/-- A packet that unpacks at the first node unpacks at every later one. -/
theorem path_unpacks (h : path rewritten raw rs = some newRaw) : unpacks newRaw ↔ unpacks raw := by
  have hid := path_keeps rewritten_linkIdPart h
  rw [unpacks_iff_linkIdPart, hid, ← unpacks_iff_linkIdPart]

theorem rewritten_eq_readdressed (ht : packetType raw ≠ LINKREQUEST) (r : Rewrite) :
    rewritten raw r = readdressed raw r := by
  unfold rewritten
  cases r <;> simp [Rewrite.signal, ht]

theorem path_rewritten_eq (ht : packetType raw ≠ LINKREQUEST) (rs : List Rewrite) :
    path rewritten raw rs = path readdressed raw rs := by
  induction rs generalizing raw with
  | nil => rfl
  | cons r rs ih =>
    simp only [path, List.foldlM_cons, rewritten_eq_readdressed ht]
    cases hmid : readdressed raw r with
    | none => rfl
    | some mid => exact ih (by rwa [packetType_congr (readdressed_hashable r hmid)])

/-- Along every path the addresses may be rewritten on, a packet keeps its
hashes; with the signalling of link requests rewritten besides, every other
packet keeps them and a link request keeps the id of its link. -/
theorem identity_along_path (sha256 : Bytes → Bytes) (raw raw' : Bytes) (rs : List Rewrite) :
    (path readdressed raw rs = some raw' →
      packetHash sha256 raw' = packetHash sha256 raw ∧
        truncatedHash sha256 raw' = truncatedHash sha256 raw) ∧
    (path rewritten raw rs = some raw' →
      (packetType raw ≠ LINKREQUEST →
        packetHash sha256 raw' = packetHash sha256 raw ∧
          truncatedHash sha256 raw' = truncatedHash sha256 raw) ∧
      (packetType raw = LINKREQUEST →
        linkIdFromLrPacket sha256 raw' = linkIdFromLrPacket sha256 raw)) := by
  have haddress : path readdressed raw rs = some raw' →
      packetHash sha256 raw' = packetHash sha256 raw ∧
        truncatedHash sha256 raw' = truncatedHash sha256 raw := by
    intro h
    have hh := path_keeps readdressed_hashable h
    simp [packetHash, truncatedHash, hh]
  refine ⟨haddress, fun h => ⟨fun ht => haddress ?_, fun _ => ?_⟩⟩
  · rwa [path_rewritten_eq ht] at h
  · rw [linkIdFromLrPacket, path_keeps rewritten_linkIdPart h, linkIdFromLrPacket]

/-- A link request for an MTU of 1064, as its sender packs it. -/
def request : Bytes :=
  2 :: 0 :: (List.replicate 16 1 ++ 0 :: (List.replicate 64 7 ++ [0x20, 0x04, 0x28]))

def relayId : TruncatedHash := ⟨List.replicate 16 9, rfl⟩

/-- Put into transport, clamped to 500 by the first relay, stripped by the second. -/
def requestPath : List Rewrite :=
  [.insert relayId, .forward 1 relayId 2 0 ⟨500, true, false⟩, .forward 2 relayId 1 0 ⟨0, true, false⟩]

theorem identity_along_path_request :
    ∃ raw', path rewritten request requestPath = some raw' ∧ raw'.length = 83 ∧
      linkIdFromLrPacket id raw' = linkIdFromLrPacket id request := by
  obtain ⟨raw', h⟩ := Option.isSome_iff_exists.1
    (show (path rewritten request requestPath).isSome by decide)
  refine ⟨raw', h, ?_, ((identity_along_path id request raw' requestPath).2 h).2 (by decide)⟩
  have hlen : (path rewritten request requestPath).map List.length = some 83 := by decide
  simpa [h] using hlen

end MicroReticulum.Transport
