import Mathlib.Tactic
import MicroReticulum.Lib.Runs
import MicroReticulum.Link.Data

/-!
# Link proofs on the initiator

`Link::validate_proof` and the branch of `Transport::inbound` that feeds it.
The peer's keys and the handshake come before the signature check, and every
throw lands in one handler that closes the link.
-/

namespace MicroReticulum.Link

open Lib (Outcome)

-- ---------------------------------------------------------------------------
-- Signalling
-- ---------------------------------------------------------------------------

/-- Throws for a mode that is not enabled. -/
def signallingBytes (mtu : Nat) (mode : Mode) : Option Bytes :=
  if mode ∈ ENABLED_MODES then
    let value := (mtu &&& MTU_BYTEMASK) + (((mode.toNat <<< 5) &&& MODE_BYTEMASK) <<< 16)
    some [.ofNat (value >>> 16), .ofNat (value >>> 8), .ofNat value]
  else none

def mtuFromLpPacket (p : Packet) : Nat :=
  if p.data.length = PROOF_SIZE + LINK_MTU_SIZE then
    let b := p.data.mid PROOF_SIZE LINK_MTU_SIZE
    (((b.byte 0 <<< 16) + (b.byte 1 <<< 8) + b.byte 2) &&& MTU_BYTEMASK) % 65536
  else 0

def modeFromLpPacket (p : Packet) : Mode :=
  if PROOF_SIZE < p.data.length then .ofBits (p.data.byte PROOF_SIZE >>> 5) else MODE_DEFAULT

structure ProofParts where
  data : Bytes
  signalling : Bytes
  confirmedMtu : Nat

/-- The proof less its signalling bytes, and those bytes rebuilt from what was
parsed. Throws where they name a mode that is not enabled. -/
def proofParts (p : Packet) : Option ProofParts :=
  if p.data.length = PROOF_SIZE + LINK_MTU_SIZE then
    (signallingBytes (mtuFromLpPacket p) (modeFromLpPacket p)).map fun signalling =>
      ⟨p.data.left PROOF_SIZE, signalling, mtuFromLpPacket p⟩
  else some ⟨p.data, [], 0⟩

def ProofParts.signature (parts : ProofParts) : Bytes := parts.data.left SIGLENGTH

def ProofParts.peerPubBytes (parts : ProofParts) : Bytes := parts.data.mid SIGLENGTH (ECPUBSIZE / 2)

-- ---------------------------------------------------------------------------
-- Keys and activation
-- ---------------------------------------------------------------------------

/-- The initiator's side of the constructor, which signals the mode it asks for
and so throws for one that is not enabled. -/
def initiate (linkId prv : Bytes) (identity : Option Identity) (mode : Mode) (expectedHops : Nat)
    (establishmentCost : Nat) (establishedCallback : Bool) (now : ℚ) : Option Link :=
  (signallingBytes Reticulum.MTU mode).map fun _ =>
    { linkId, mode, initiator := true, expectedHops, destinationIdentity := identity,
      status := .pending, registry := .pending, prv := some prv, remoteIdentity := none,
      peerPubBytes := [], peerSigPubBytes := [], sharedKey := [], derivedKey := [], token := none,
      mtu := Reticulum.MTU, mdu := 0, rtt := 0, requestTime := now, activatedAt := 0, lastProof := 0,
      lastOutbound := now, lastData := now, keepalive := KEEPALIVE_MAX,
      staleTime := STALE_FACTOR * KEEPALIVE_MAX, establishmentCost, establishmentRate := 0,
      attachedInterface := none, establishedCallback, events := [] }

def destinationSigPub (i : Identity) : Bytes := i.getPublicKey.mid (ECPUBSIZE / 2) (ECPUBSIZE / 2)

def loadPeer (peerPubBytes peerSigPubBytes : Bytes) (l : Link) : Link :=
  { l with peerPubBytes, peerSigPubBytes }

def derivedKeyLength : Mode → Option Nat
  | .aes128Cbc => some 32
  | .aes256Cbc => some 64
  | _ => none

/-- In any other state the source only logs. -/
def handshake (c : Crypto) (l : Link) : Outcome Link :=
  match l.status, l.prv with
  | .pending, some prv =>
    let l := { l with status := .handshake }
    match c.exchange prv l.peerPubBytes with
    | none => .threw l
    | some shared =>
      let l := { l with sharedKey := shared }
      match (derivedKeyLength l.mode).bind (c.hkdf · shared l.linkId []) with
      | none => .threw l
      | some key => .done { l with derivedKey := key }
  | _, _ => .done l

def activateLink (l : Link) : Link :=
  { l with registry := if l.registry = .pending then .active else l.registry }

def raiseRtt (throughNow : ℚ) (l : Link) : Link :=
  if throughNow > l.rtt then updateKeepalive { l with rtt := throughNow } else l

def sendRtt (now : ℚ) (l : Link) : Outcome Link :=
  (raiseRtt (now - l.requestTime + RTT_SEND_ALLOWANCE) l).withToken.andThen fun l =>
    .done (hadOutbound now (emit (.sentRtt l.rtt) l))

/-- The link a proof brings up, as far as the link itself is concerned. -/
def activated (now : ℚ) (p : Packet) (confirmedMtu : Nat) (l : Link) : Link :=
  let l := { l with
    rtt := now - l.requestTime
    attachedInterface := some p.receivingInterface
    remoteIdentity := l.destinationIdentity
    mtu := if confirmedMtu ≠ 0 then confirmedMtu else Reticulum.MTU }
  let l := { l with mtu := if !Reticulum.linkMtuDiscovery && l.mtu > Reticulum.MTU
    then Reticulum.MTU else l.mtu }
  let l := { updateMdu l with status := .active, activatedAt := now, lastProof := now }
  let l := activateLink (updateKeepalive l)
  { l with establishmentRate :=
    if l.establishmentCost ≠ 0 ∧ l.rtt > 0 then l.establishmentCost / l.rtt else l.establishmentRate }

/-- What a proof whose signature checks out does to the link. -/
def establish (now : ℚ) (p : Packet) (confirmedMtu : Nat) (l : Link) : Outcome Link :=
  if l.status ≠ .handshake then .threw l
  else (sendRtt now (emit .markAlive (activated now p confirmedMtu l))).andThen fun l =>
    .done { l with events := l.events ++ if l.establishedCallback then [.established] else [] }

-- ---------------------------------------------------------------------------
-- Validation
-- ---------------------------------------------------------------------------

def validatePending (c : Crypto) (now : ℚ) (p : Packet) (l : Link) : Outcome Link :=
  if modeFromLpPacket p ≠ l.mode then .threw l
  else match proofParts p with
  | none => .threw l
  | some parts =>
    if l.initiator ∧ parts.data.length = PROOF_SIZE then
      match l.destinationIdentity with
      | none => .aborted      -- get_public_key() asserts before the test below it is reached
      | some identity =>
        (handshake c (loadPeer parts.peerPubBytes (destinationSigPub identity) l)).andThen fun l =>
          let l := { l with establishmentCost := (l.establishmentCost + p.rawSize) % 65536 }
          let signedData := l.linkId ++ l.peerPubBytes ++ l.peerSigPubBytes ++ parts.signalling
          match identity.validate c parts.signature signedData with
          | none => .threw l
          | some false => .done l
          | some true => establish now p parts.confirmedMtu l
    else .done l

/-- A repeat of the proof that activated the link: answered, nothing reloaded. -/
def validateRepeat (c : Crypto) (now : ℚ) (p : Packet) (l : Link) : Outcome Link :=
  match proofParts p with
  | none => .threw l
  | some parts =>
    match l.destinationIdentity with
    | none => .done l
    | some identity =>
      if parts.data.length ≠ PROOF_SIZE then .done l
      else if parts.peerPubBytes ≠ l.peerPubBytes then .done l
      else
        let signedData := l.linkId ++ l.peerPubBytes ++ l.peerSigPubBytes ++ parts.signalling
        match identity.validate c parts.signature signedData with
        | none => .threw l
        | some false => .done l
        | some true =>
          (sendRtt now (emit .markAlive l)).andThen fun l => .done (emit .repairCounted l)

def validateProof (c : Crypto) (now : ℚ) (p : Packet) (l : Link) : Outcome Link :=
  Outcome.caught (fun l => { l with status := .closed }) <|
    if l.status = .pending then validatePending c now p l
    else if l.initiator ∧ (l.status = .active ∨ l.status = .stale) then validateRepeat c now p l
    else .done l

/-- Whether Transport hands the proof to this link: one of its pending links,
or of the active ones it initiated, named by the packet and as far away as it
was when the request went out. -/
def takesProof (l : Link) (p : Packet) : Bool :=
  (l.registry = .pending ∨ l.registry = .active ∧ l.initiator) ∧ l.linkId = p.destinationHash ∧
    (p.hops = l.expectedHops ∨ l.expectedHops = PATHFINDER_M)

def inboundLrproof (c : Crypto) (now : ℚ) (p : Packet) (l : Link) : Outcome Link :=
  if l.takesProof p then validateProof c now p l else .done l

/-- Frames off the air, each with its time of arrival; `none` once an
assertion has stopped the device. -/
def proofStep (c : Crypto) (o : Option Link) (frame : ℚ × Packet) : Option Link :=
  o.bind fun l => (inboundLrproof c frame.1 frame.2 l).state?

end MicroReticulum.Link
