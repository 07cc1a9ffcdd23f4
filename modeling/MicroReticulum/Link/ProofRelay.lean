import Mathlib.Tactic
import MicroReticulum.Link.ProofSound
import MicroReticulum.Transport.Forwarding

/-!
# Link proofs through relays

The branch of `Transport::inbound` that passes a link proof on. A relay and the
initiator both rebuild the signed data from what they parse of the signalling
bytes, and the MTU they parse is a `uint16_t`.
-/

namespace MicroReticulum.Link

open Wire Transport

/-- A packet as `inbound` hands it on, its last hop counted. -/
def received (interface : Nat) (raw : Bytes) : Packet :=
  { destinationHash := destinationHash raw, data := data raw, hops := (raw.byte 1 + 1) % 256,
    receivingInterface := interface, rawSize := raw.length }

@[simp] theorem received_destinationHash (interface : Nat) (raw : Bytes) :
    (received interface raw).destinationHash = destinationHash raw := rfl

@[simp] theorem received_data (interface : Nat) (raw : Bytes) :
    (received interface raw).data = data raw := rfl

@[simp] theorem received_receivingInterface (interface : Nat) (raw : Bytes) :
    (received interface raw).receivingInterface = interface := rfl

structure LinkEntry where
  outboundInterface : Nat
  receivingInterface : Nat
  remainingHops : Nat
  destinationHash : Bytes

/-- A relay as far as a link proof meets it. -/
structure Relay where
  linkTable : Bytes → Option LinkEntry
  recalled : Bytes → Option Identity
  /-- The interface the proof is heard on. -/
  interface : Nat

-- ---------------------------------------------------------------------------
-- The relay
-- ---------------------------------------------------------------------------

/-- Nothing where the size is not that of a proof, or the mode is not enabled. -/
def relaySignalling (p : Packet) : Option Bytes :=
  if p.data.length = PROOF_SIZE then some []
  else if p.data.length = PROOF_SIZE + LINK_MTU_SIZE then
    signallingBytes (mtuFromLpPacket p) (modeFromLpPacket p)
  else none

def relaySignedData (p : Packet) (identity : Identity) : Option Bytes :=
  (relaySignalling p).map fun signalling =>
    p.destinationHash ++ p.data.mid SIGLENGTH (ECPUBSIZE / 2) ++ destinationSigPub identity ++ signalling

/-- What the relay transmits towards the initiator. -/
def relayLrproof (c : Crypto) (r : Relay) (raw : Bytes) : Option Bytes :=
  let p := received r.interface raw
  match r.linkTable p.destinationHash with
  | none => none
  | some entry =>
    if p.hops = entry.remainingHops ∧ p.receivingInterface = entry.outboundInterface then
      match r.recalled entry.destinationHash with
      | none => none
      | some identity =>
        match (relaySignedData p identity).bind (identity.validate c (p.data.left SIGLENGTH)) with
        | some true => some (passOn (.ofNat p.hops) raw)
        | _ => none
    else none

/-- The proof after the relays on its way, if each of them passed it on. -/
def carried (c : Crypto) (relays : List Relay) (raw : Bytes) : Option Bytes :=
  relays.foldlM (fun raw r => relayLrproof c r raw) raw

-- ---------------------------------------------------------------------------
-- What was sent
-- ---------------------------------------------------------------------------

/-- The three signalling bytes as a word; its low 21 bits are the MTU. -/
def signalledMtu (signalling : Bytes) : Nat :=
  ((signalling.byte 0 <<< 16) + (signalling.byte 1 <<< 8) + signalling.byte 2) &&& MTU_BYTEMASK

/-- The responder's signed data, with the bytes exactly as they arrived. -/
def sentSignedData (linkId : Bytes) (identity : Identity) (data : Bytes) : Bytes :=
  linkId ++ data.mid SIGLENGTH (ECPUBSIZE / 2) ++ destinationSigPub identity ++ data.drop PROOF_SIZE

def initiatorSignedData (linkId : Bytes) (identity : Identity) (p : Packet) : Option Bytes :=
  (proofParts p).map fun parts =>
    linkId ++ parts.peerPubBytes ++ destinationSigPub identity ++ parts.signalling

-- ---------------------------------------------------------------------------
-- Signalling bytes rebuilt
-- ---------------------------------------------------------------------------

theorem mode_toNat_ofBits (bits : Nat) (h : bits < 8) : (Mode.ofBits bits).toNat = bits := by
  interval_cases bits <;> rfl

theorem mode_bits (bits : Nat) (h : bits < 8) : ((bits <<< 5) &&& MODE_BYTEMASK) <<< 16 = bits * 2 ^ 21 := by
  interval_cases bits <;> rfl

theorem and_mtuBytemask (n : Nat) : n &&& MTU_BYTEMASK = n % 2 ^ 21 :=
  Nat.and_two_pow_sub_one_eq_mod n 21

theorem word_of_bytes (b₀ b₁ b₂ : UInt8) :
    (((b₀.toNat <<< 16) + (b₁.toNat <<< 8) + b₂.toNat) &&& MTU_BYTEMASK) =
      b₀.toNat % 32 * 65536 + b₁.toNat * 256 + b₂.toNat := by
  have h₀ := b₀.toNat_lt
  have h₁ := b₁.toNat_lt
  have h₂ := b₂.toNat_lt
  rw [and_mtuBytemask, Nat.shiftLeft_eq, Nat.shiftLeft_eq]
  omega

theorem signallingBytes_rebuilt (b₀ b₁ b₂ : UInt8) (hm : Mode.ofBits (b₀.toNat >>> 5) ∈ ENABLED_MODES) :
    signallingBytes ((((b₀.toNat <<< 16) + (b₁.toNat <<< 8) + b₂.toNat) &&& MTU_BYTEMASK) % 65536)
      (.ofBits (b₀.toNat >>> 5)) = some [.ofNat (b₀.toNat / 32 * 32), b₁, b₂] := by
  have h₀ := b₀.toNat_lt
  have h₁ := b₁.toNat_lt
  have h₂ := b₂.toNat_lt
  have hbits : b₀.toNat >>> 5 < 8 := by
    rw [Nat.shiftRight_eq_div_pow]
    omega
  have hvalue : (b₀.toNat % 32 * 65536 + b₁.toNat * 256 + b₂.toNat) % 65536 % 2 ^ 21 +
      (b₀.toNat >>> 5) * 2 ^ 21 = b₀.toNat / 32 * 2 ^ 21 + b₁.toNat * 256 + b₂.toNat := by
    rw [Nat.shiftRight_eq_div_pow]
    omega
  rw [signallingBytes, if_pos hm, word_of_bytes, mode_toNat_ofBits _ hbits, mode_bits _ hbits,
    and_mtuBytemask, hvalue]
  simp only [Nat.shiftRight_eq_div_pow, Option.some.injEq, List.cons.injEq, and_true]
  refine ⟨?_, ?_, ?_⟩ <;> apply UInt8.toNat.inj <;> simp only [UInt8.toNat_ofNat'] <;> omega

variable {p : Packet} {linkId : Bytes} {identity : Identity}

/-- Three signalling bytes behind a proof, of a mode that is enabled. -/
structure Signalled (p : Packet) : Prop where
  length_eq : p.data.length = PROOF_SIZE + LINK_MTU_SIZE
  enabled : modeFromLpPacket p ∈ ENABLED_MODES

theorem Signalled.bytes (h : Signalled p) : ∃ b₀ b₁ b₂, p.data.drop PROOF_SIZE = [b₀, b₁, b₂] := by
  have hlen : (p.data.drop PROOF_SIZE).length = 3 := by
    rw [List.length_drop, h.length_eq]
    rfl
  exact List.length_eq_three.1 hlen

/-- Rebuilding gives back the bytes that were parsed as long as their MTU fits
in the sixteen bits it is parsed into. -/
theorem Signalled.rebuilt_iff (h : Signalled p) :
    signallingBytes (mtuFromLpPacket p) (modeFromLpPacket p) = some (p.data.drop PROOF_SIZE) ↔
      signalledMtu (p.data.drop PROOF_SIZE) < 65536 := by
  obtain ⟨b₀, b₁, b₂, hb⟩ := h.bytes
  have hmode : modeFromLpPacket p = .ofBits (b₀.toNat >>> 5) := by
    have hbyte : p.data.byte PROOF_SIZE = b₀.toNat := by
      rw [← Nat.add_zero PROOF_SIZE, ← Bytes.byte_drop, hb]
      rfl
    rw [modeFromLpPacket, if_pos (by rw [h.length_eq]; decide), hbyte]
  have hmtu : mtuFromLpPacket p =
      (((b₀.toNat <<< 16) + (b₁.toNat <<< 8) + b₂.toNat) &&& MTU_BYTEMASK) % 65536 := by
    simp only [mtuFromLpPacket, h.length_eq, if_true, Bytes.mid, hb, LINK_MTU_SIZE]
    rfl
  rw [hmode, hmtu, signallingBytes_rebuilt _ _ _ (hmode ▸ h.enabled), hb]
  have hword : signalledMtu [b₀, b₁, b₂] = b₀.toNat % 32 * 65536 + b₁.toNat * 256 + b₂.toNat :=
    word_of_bytes b₀ b₁ b₂
  have h₀ := b₀.toNat_lt
  have h₁ := b₁.toNat_lt
  have h₂ := b₂.toNat_lt
  rw [hword, Option.some.injEq, List.cons.injEq, eq_self, and_true, ← UInt8.toNat_inj,
    UInt8.toNat_ofNat']
  omega

theorem Signalled.relaySignalling_eq (h : Signalled p) :
    relaySignalling p = signallingBytes (mtuFromLpPacket p) (modeFromLpPacket p) := by
  rw [relaySignalling, if_neg (by rw [h.length_eq]; decide), if_pos h.length_eq]

theorem Signalled.relaySignedData_iff (h : Signalled p) :
    relaySignedData p identity = some (sentSignedData p.destinationHash identity p.data) ↔
      signalledMtu (p.data.drop PROOF_SIZE) < 65536 := by
  rw [← h.rebuilt_iff, relaySignedData, h.relaySignalling_eq, Option.map_eq_some_iff]
  simp [sentSignedData]

theorem Signalled.initiatorSignedData_iff (h : Signalled p) :
    initiatorSignedData linkId identity p = some (sentSignedData linkId identity p.data) ↔
      signalledMtu (p.data.drop PROOF_SIZE) < 65536 := by
  rw [← h.rebuilt_iff, initiatorSignedData, proofParts, if_pos h.length_eq]
  have hpub : (p.data.left PROOF_SIZE).mid SIGLENGTH (ECPUBSIZE / 2) =
      p.data.mid SIGLENGTH (ECPUBSIZE / 2) := by
    simp [Bytes.left, Bytes.mid, List.drop_take, PROOF_SIZE]
  simp [sentSignedData, ProofParts.peerPubBytes, hpub]

-- ---------------------------------------------------------------------------
-- The proof on its way
-- ---------------------------------------------------------------------------

variable {c : Crypto} {raw raw' : Bytes} {r : Relay} {relays : List Relay} {interface : Nat}
  {l : Link} {now : ℚ}

/-- The signature of the proof is the responder's over what it sent. -/
def Signed (c : Crypto) (identity : Identity) (raw : Bytes) : Prop :=
  identity.validate c ((data raw).left SIGLENGTH)
    (sentSignedData (destinationHash raw) identity (data raw)) = some true

/-- The relay holds a table entry for the link, hears the proof where and from
as far away as that says, and knows the destination. -/
def Relay.Expects (r : Relay) (identity : Identity) (raw : Bytes) : Prop :=
  ∃ entry, r.linkTable (destinationHash raw) = some entry ∧
    (received r.interface raw).hops = entry.remainingHops ∧ r.interface = entry.outboundInterface ∧
    r.recalled entry.destinationHash = some identity

def passed (raw : Bytes) : Bytes := passOn (.ofNat (received 0 raw).hops) raw

def OnPath (identity : Identity) : Bytes → List Relay → Prop
  | _, [] => True
  | raw, r :: relays => r.Expects identity raw ∧ OnPath identity (passed raw) relays

theorem destinationHash_eq : destinationHash raw = (hashablePart raw).mid 1 DESTINATION_LENGTH := rfl

theorem destinationHash_congr (h : hashablePart raw' = hashablePart raw) :
    destinationHash raw' = destinationHash raw := by
  rw [destinationHash_eq, destinationHash_eq, h]

theorem data_congr (h : hashablePart raw' = hashablePart raw) : data raw' = data raw := by
  rw [data_eq, data_eq, h]

theorem Signed.congr (h : hashablePart raw' = hashablePart raw) (hs : Signed c identity raw) :
    Signed c identity raw' := by
  rwa [Signed, destinationHash_congr h, data_congr h]

theorem Signalled.congr (h : hashablePart raw' = hashablePart raw)
    (hs : Signalled (received interface raw)) (other : Nat) : Signalled (received other raw') := by
  have hdata := data_congr h
  have hmode : modeFromLpPacket (received other raw') = modeFromLpPacket (received interface raw) := by
    rw [modeFromLpPacket, modeFromLpPacket, received_data, received_data, hdata]
  constructor
  · simpa [hdata] using hs.length_eq
  · rw [hmode]
    exact hs.enabled

theorem relayLrproof_passes (hs : Signalled (received interface raw))
    (hmtu : signalledMtu ((data raw).drop PROOF_SIZE) < 65536) (hsig : Signed c identity raw)
    (hr : r.Expects identity raw) : relayLrproof c r raw = some (passed raw) := by
  obtain ⟨entry, htable, hhops, hif, hrecall⟩ := hr
  have hsigned : relaySignedData (received r.interface raw) identity =
      some (sentSignedData (destinationHash raw) identity (data raw)) :=
    (hs.congr rfl r.interface).relaySignedData_iff.2 hmtu
  have hvalid : identity.validate c ((data raw).left SIGLENGTH)
    (sentSignedData (destinationHash raw) identity (data raw)) = some true := hsig
  simp only [relayLrproof, received_destinationHash, received_data, received_receivingInterface,
    htable, hrecall, hsigned, ← hhops, ← hif, and_self, if_true, Option.bind_some, hvalid]
  rfl

theorem carried_arrives (hu : unpacks raw) (hs : Signalled (received interface raw))
    (hmtu : signalledMtu ((data raw).drop PROOF_SIZE) < 65536) (hsig : Signed c identity raw)
    (hr : OnPath identity raw relays) :
    ∃ raw', carried c relays raw = some raw' ∧ hashablePart raw' = hashablePart raw := by
  induction relays generalizing raw with
  | nil => exact ⟨raw, rfl, rfl⟩
  | cons r relays ih =>
    have hpass : hashablePart (passed raw) = hashablePart raw := passOn_hashable hu
    obtain ⟨raw', hcar, hh⟩ := ih ((unpacks_congr hpass).2 hu) (hs.congr hpass interface)
      (by rwa [data_congr hpass]) (hsig.congr hpass) hr.2
    refine ⟨raw', ?_, hh.trans hpass⟩
    simp only [carried, List.foldlM_cons, relayLrproof_passes hs hmtu hsig hr.1]
    exact hcar

-- ---------------------------------------------------------------------------
-- The initiator
-- ---------------------------------------------------------------------------

/-- A pending link that asked for this proof, with keys that can be agreed on. -/
structure Awaiting (c : Crypto) (l : Link) (identity : Identity) (p : Packet) : Prop where
  initiated : Initiated l
  pending : l.status = .pending
  takes : l.takesProof p
  mode_eq : modeFromLpPacket p = l.mode
  identity_eq : l.destinationIdentity = some identity
  keys : ∀ prv, l.prv = some prv → ∃ shared key,
    c.exchange prv (p.data.mid SIGLENGTH (ECPUBSIZE / 2)) = some shared ∧
      (derivedKeyLength l.mode).bind (c.hkdf · shared l.linkId []) = some key ∧ tokenKeyOk key

/-- The proof brings the link up. -/
def Accepts (c : Crypto) (now : ℚ) (p : Packet) (l : Link) : Prop :=
  (proofStep c (some l) (now, p)).map status = some .active

theorem Awaiting.accepts (h : Awaiting c l identity (received interface raw))
    (hs : Signalled (received interface raw))
    (hmtu : signalledMtu ((data raw).drop PROOF_SIZE) < 65536) (hsig : Signed c identity raw) :
    Accepts c now (received interface raw) l := by
  have hparts : proofParts (received interface raw) = some
      ⟨(data raw).left PROOF_SIZE, (data raw).drop PROOF_SIZE, mtuFromLpPacket (received interface raw)⟩ := by
    rw [proofParts, if_pos hs.length_eq, hs.rebuilt_iff.2 hmtu]
    rfl
  have hpub : ((data raw).left PROOF_SIZE).mid SIGLENGTH (ECPUBSIZE / 2) =
      (data raw).mid SIGLENGTH (ECPUBSIZE / 2) := by
    simp [Bytes.left, Bytes.mid, List.drop_take, PROOF_SIZE]
  have hid : l.linkId = destinationHash raw := by
    have htakes := h.takes
    simp only [takesProof, decide_eq_true_eq] at htakes
    exact htakes.2.1
  have hlen : (data raw).length = PROOF_SIZE + LINK_MTU_SIZE := hs.length_eq
  refine genuine_activates h.initiated h.pending ⟨h.takes, h.mode_eq, ?_, ?_⟩
  · refine verifies_iff.2 ⟨_, identity, hparts, h.identity_eq, by simp [hlen], ?_⟩
    rw [ProofParts.signature, ProofParts.peerPubBytes, hpub, hid]
    have hleft : ((data raw).left PROOF_SIZE).left SIGLENGTH = (data raw).left SIGLENGTH := by
      simp [Bytes.left, List.take_take, PROOF_SIZE]
    rw [hleft]
    exact hsig
  · rintro prv parts hprv hp
    cases hparts.symm.trans hp
    rw [ProofParts.peerPubBytes, hpub]
    exact h.keys prv hprv

-- ---------------------------------------------------------------------------
-- The request's MTU
-- ---------------------------------------------------------------------------

variable {request newRaw : Bytes} {hops remainingHops phMtu : _} {nextHop : TruncatedHash} {out : Outbound}

/-- A link request on its way through transport, with signalling bytes of a mode
that is enabled. -/
structure RequestSignalled (request : Bytes) : Prop where
  unpacks : unpacks request
  isHeader2 : isHeader2 request
  packetType_eq : packetType request = LINKREQUEST
  length_eq : (data request).length = ECPUBSIZE + LINK_MTU_SIZE
  enabled : modeFromLrPacket request ∈ ENABLED_MODES

def requestedMtu (request : Bytes) : Nat := signalledMtu ((data request).drop ECPUBSIZE)

theorem RequestSignalled.mtuFromLrPacket_eq (h : RequestSignalled request) :
    mtuFromLrPacket request = .ofNat (requestedMtu request) := by
  simp only [mtuFromLrPacket, h.length_eq, if_true, requestedMtu, signalledMtu, Bytes.byte_drop,
    Nat.add_zero]

theorem signalledMtu_signallingBytes {mode : Mode} {m : Nat} (hm : m < 65536)
    (h : signallingBytes m mode = some signalling) : signalledMtu signalling = m := by
  unfold signallingBytes at h
  split at h
  · next hmode =>
    cases h
    have h256 : mode = .aes256Cbc := by simpa [ENABLED_MODES] using hmode
    have hvalue : (m &&& MTU_BYTEMASK) + ((mode.toNat <<< 5) &&& MODE_BYTEMASK) <<< 16 = m + 2 ^ 21 := by
      rw [h256, and_mtuBytemask, Nat.mod_eq_of_lt (by omega)]
      rfl
    rw [hvalue]
    refine (word_of_bytes (.ofNat ((m + 2 ^ 21) >>> 16)) (.ofNat ((m + 2 ^ 21) >>> 8))
      (.ofNat (m + 2 ^ 21))).trans ?_
    simp only [UInt8.toNat_ofNat', Nat.shiftRight_eq_div_pow]
    omega
  · cases h
theorem min_toNat_le (a b : UInt16) : (min a b).toNat ≤ a.toNat := by
  rw [show min a b = if a ≤ b then a else b from rfl]
  split
  · exact le_rfl
  · next h => exact UInt16.le_iff_toNat_le.1 (UInt16.le_of_lt (UInt16.not_le.1 h))

theorem data_stripSignalling (ext : Bytes) (h : (data newRaw).length = ECPUBSIZE + LINK_MTU_SIZE) :
    (data (stripSignalling newRaw ++ ext)).drop ECPUBSIZE = ext := by
  rw [data_eq, stripSignalling_hashable ext h]
  have hkeys : DESTINATION_LENGTH + 2 + ECPUBSIZE ≤ (hashablePart newRaw).length := by
    rw [data_eq, List.length_drop] at h
    simp only [ECPUBSIZE, LINK_MTU_SIZE, DESTINATION_LENGTH] at h ⊢
    omega
  rw [List.drop_drop, List.drop_left' (List.length_take_of_le hkeys)]

theorem clampMtu_le (h : RequestSignalled request) (hm : requestedMtu request < 65536)
    (hh : hashablePart newRaw = hashablePart request)
    (hc : clampMtu phMtu out request newRaw = some newRaw') :
    requestedMtu newRaw' ≤ out.hwMtu.toNat := by
  have hmtu : (mtuFromLrPacket request).toNat = requestedMtu request := by
    rw [h.mtuFromLrPacket_eq, UInt16.toNat_ofNat_of_lt' hm]
  have hlen : (data newRaw).length = ECPUBSIZE + LINK_MTU_SIZE := by
    rw [data_congr hh, h.length_eq]
  have hkept : requestedMtu newRaw = requestedMtu request := by
    rw [requestedMtu, data_congr hh, requestedMtu]
  have hstrip : requestedMtu (stripSignalling newRaw) = 0 := by
    have hdata := data_stripSignalling [] hlen
    rw [List.append_nil] at hdata
    rw [requestedMtu, hdata]
    rfl
  unfold clampMtu at hc
  simp only at hc
  split at hc
  · next h0 =>
    cases hc
    rw [hkept, ← hmtu, h0]
    exact Nat.zero_le _
  · split at hc
    · cases hc
      rw [hstrip]
      exact Nat.zero_le _
    · split at hc
      · cases hc
        rw [hstrip]
        exact Nat.zero_le _
      · split at hc
        · obtain ⟨clamped, hclamped, rfl⟩ := Option.map_eq_some_iff.1 hc
          rw [requestedMtu, data_stripSignalling clamped hlen,
            signalledMtu_signallingBytes (hopMtu phMtu out.hwMtu).toNat_lt hclamped]
          exact min_toNat_le _ _
        · next hle =>
          cases hc
          rw [hkept, ← hmtu]
          exact UInt16.le_iff_toNat_le.1 (UInt16.not_lt.1 fun hlt => hle (.inl hlt))

theorem rewritten_le (h : RequestSignalled request) (hm : requestedMtu request < 65536)
    (hr : rewritten request (.forward hops nextHop remainingHops phMtu out) = some newRaw) :
    requestedMtu newRaw ≤ out.hwMtu.toNat := by
  obtain ⟨mid, hmid, hsig⟩ := Option.bind_eq_some_iff.1 hr
  simp only [Rewrite.signal, h.packetType_eq, if_true] at hsig
  exact clampMtu_le h hm (readdressed_hashable _ hmid) hsig

/-- Past an interface that takes the largest hardware MTU there is. -/
def widest : Outbound := ⟨65535, true, false⟩

/-- A larger MTU passes the widest interface unclamped. -/
theorem rewritten_unclamped (h : RequestSignalled request) (hops : UInt8) (nextHop : TruncatedHash) :
    ∃ newRaw, rewritten request (.forward hops nextHop 1 0 widest) = some newRaw ∧
      requestedMtu newRaw = requestedMtu request := by
  have hadd : readdressed request (.forward hops nextHop 1 0 widest) =
      some (readdress hops nextHop 1 request) := by
    simp [readdressed, Rewrite.address, inTransport, h.unpacks, h.isHeader2]
  refine ⟨readdress hops nextHop 1 request, ?_, ?_⟩
  · rw [rewritten, hadd, Option.bind_some, Rewrite.signal, if_pos h.packetType_eq, clampMtu]
    have hle : ¬ widest.hwMtu < mtuFromLrPacket request :=
      UInt16.not_lt.2 (UInt16.le_iff_toNat_le.2 (Nat.le_of_lt_succ (mtuFromLrPacket request).toNat_lt))
    simp [hle, show widest.hwMtu ≠ 0 by decide, show widest.autoconfigureMtu = true from rfl]
  · rw [requestedMtu, data_congr (readdressed_hashable _ hadd), requestedMtu]

-- ---------------------------------------------------------------------------
-- Requests and proofs
-- ---------------------------------------------------------------------------

/-- What relays and the initiator make of a link request and of its proof. -/
structure MatchesBytes (request proof : Bytes) : Prop where
  relay : ∀ interface identity, relaySignedData (received interface proof) identity =
    some (sentSignedData (destinationHash proof) identity (data proof))
  initiator : ∀ interface identity,
    initiatorSignedData (destinationHash proof) identity (received interface proof) =
      some (sentSignedData (destinationHash proof) identity (data proof))
  forwarded : ∀ c identity relays, Signed c identity proof → OnPath identity proof relays →
    ∃ proof', carried c relays proof = some proof' ∧ ∀ now interface l,
      Awaiting c l identity (received interface proof') → Accepts c now (received interface proof') l
  clamped : ∀ hops nextHop remainingHops phMtu out newRaw,
    rewritten request (.forward hops nextHop remainingHops phMtu out) = some newRaw →
      requestedMtu newRaw ≤ out.hwMtu.toNat

def transportRequest (mtu : Bytes) : Bytes :=
  0x52 :: 1 :: (List.replicate 32 1 ++ 0 :: (List.replicate 64 7 ++ mtu))

def linkProof (mtu : Bytes) : Bytes :=
  0x0F :: 0 :: (List.replicate 16 1 ++ 0xFF :: (List.replicate 96 7 ++ mtu))

theorem transportRequest_signalled : RequestSignalled (transportRequest [0x20, 0x01, 0xF4]) :=
  ⟨by decide, by decide, by decide, by decide, by decide⟩

theorem linkProof_signalled : Signalled (received 0 (linkProof [0x20, 0x01, 0xF4])) :=
  ⟨by decide, by decide⟩

end MicroReticulum.Link
