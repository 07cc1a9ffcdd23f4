import Mathlib.Tactic
import MicroReticulum.Bytes
import MicroReticulum.Lib.Outcome

/-!
# The link object

`LinkData` as far as establishment and teardown read and write it, the
constants of `Type::Link`, and the key operations. X25519, HKDF and Ed25519
are parameters: `none` where the source throws. Times are exact rationals.
-/

namespace MicroReticulum

open Lib (Outcome)

-- ---------------------------------------------------------------------------
-- Constants
-- ---------------------------------------------------------------------------

namespace Reticulum

def MTU : Nat := 500
def HEADER_MINSIZE : Nat := 19
def IFAC_MIN_SIZE : Nat := 1
/-- `link_mtu_discovery()`; no caller ever turns it on. -/
def linkMtuDiscovery : Bool := false

end Reticulum

/-- `PATHFINDER_M`: as a link's expected distance, "no path was known". -/
def PATHFINDER_M : Nat := 128

/-- `SIGLENGTH / 8`. -/
def SIGLENGTH : Nat := 64
def TOKEN_OVERHEAD : Nat := 48
def AES128_BLOCKSIZE : Nat := 16

namespace Link

def ECPUBSIZE : Nat := 64
def LINK_MTU_SIZE : Nat := 3
def MTU_BYTEMASK : Nat := 0x1FFFFF
def MODE_BYTEMASK : Nat := 0xE0
def KEEPALIVE_MAX : Nat := 360
def KEEPALIVE_MIN : Nat := 5
def KEEPALIVE_MAX_RTT : ℚ := 7 / 4
def STALE_FACTOR : Nat := 2
def RTT_SEND_ALLOWANCE : ℚ := 1 / 50

/-- The size of a link proof without its signalling bytes. -/
def PROOF_SIZE : Nat := SIGLENGTH + ECPUBSIZE / 2

inductive Status where
  | pending | handshake | active | stale | closed
  deriving DecidableEq, Repr

inductive Mode where
  | aes128Cbc | aes256Cbc | aes256Gcm | otpReserved
  | pqReserved1 | pqReserved2 | pqReserved3 | pqReserved4
  deriving DecidableEq, Repr

def Mode.toNat : Mode → Nat
  | .aes128Cbc => 0 | .aes256Cbc => 1 | .aes256Gcm => 2 | .otpReserved => 3
  | .pqReserved1 => 4 | .pqReserved2 => 5 | .pqReserved3 => 6 | .pqReserved4 => 7

/-- `static_cast<link_mode>` of three bits. -/
def Mode.ofBits : Nat → Mode
  | 0 => .aes128Cbc | 1 => .aes256Cbc | 2 => .aes256Gcm | 3 => .otpReserved
  | 4 => .pqReserved1 | 5 => .pqReserved2 | 6 => .pqReserved3 | _ => .pqReserved4

def ENABLED_MODES : List Mode := [.aes256Cbc]
def MODE_DEFAULT : Mode := .aes256Cbc

end Link

-- ---------------------------------------------------------------------------
-- Keys
-- ---------------------------------------------------------------------------

structure Crypto where
  exchange : Bytes → Bytes → Option Bytes
  hkdf : Nat → Bytes → Bytes → Bytes → Option Bytes
  verify : Bytes → Bytes → Bytes → Bool

/-- The public half of an identity; `pubBytes` is empty where it holds none. -/
structure Identity where
  pubBytes : Bytes
  sigPubBytes : Bytes
  deriving DecidableEq, Repr

def Identity.getPublicKey (i : Identity) : Bytes := i.pubBytes ++ i.sigPubBytes

/-- `Identity::validate`; throws where the identity holds no public key. -/
def Identity.validate (c : Crypto) (i : Identity) (signature message : Bytes) : Option Bool :=
  if i.pubBytes = [] then none else some (c.verify i.sigPubBytes signature message)

-- ---------------------------------------------------------------------------
-- The object
-- ---------------------------------------------------------------------------

/-- Which of Transport's two link sets holds the link. -/
inductive Registry where
  | none | pending | active
  deriving DecidableEq, Repr

/-- What a link does to the rest of the node. -/
inductive LinkEvent where
  | markAlive
  | sentRtt (rtt : ℚ)
  | repairCounted
  | established
  deriving DecidableEq, Repr

structure Link where
  linkId : Bytes
  status : Link.Status
  mode : Link.Mode
  initiator : Bool
  expectedHops : Nat
  /-- The identity the link's destination holds, if it holds one. -/
  destinationIdentity : Option Identity
  remoteIdentity : Option Identity
  registry : Registry
  prv : Option Bytes
  peerPubBytes : Bytes
  peerSigPubBytes : Bytes
  sharedKey : Bytes
  derivedKey : Bytes
  /-- The key the cached `Token` was built from. -/
  token : Option Bytes
  mtu : Nat
  mdu : Nat
  rtt : ℚ
  requestTime : ℚ
  activatedAt : ℚ
  lastProof : ℚ
  lastOutbound : ℚ
  lastData : ℚ
  keepalive : Nat
  staleTime : Nat
  establishmentCost : Nat
  establishmentRate : ℚ
  attachedInterface : Option Nat
  establishedCallback : Bool
  events : List LinkEvent
  deriving DecidableEq

/-- An inbound packet, after Transport has counted its last hop. -/
structure Packet where
  destinationHash : Bytes
  data : Bytes
  hops : Nat
  receivingInterface : Nat
  rawSize : Nat
  deriving DecidableEq, Repr

namespace Link

def emit (e : LinkEvent) (l : Link) : Link := { l with events := l.events ++ [e] }

/-- `Token(key)` takes a 128- or a 256-bit pair of keys and throws otherwise. -/
def tokenKeyOk (key : Bytes) : Bool := key.length = 32 || key.length = 64

/-- The token `encrypt` and `decrypt` use: the cached one, else a new one over
the derived key. -/
def withToken (l : Link) : Outcome Link :=
  match l.token with
  | some _ => .done l
  | none => if tokenKeyOk l.derivedKey then .done { l with token := some l.derivedKey } else .threw l

def updateKeepalive (l : Link) : Link :=
  let ka := l.rtt * (KEEPALIVE_MAX / KEEPALIVE_MAX_RTT)
  let ka := if ka > KEEPALIVE_MAX then (KEEPALIVE_MAX : ℚ) else ka
  let ka := if ka < KEEPALIVE_MIN then (KEEPALIVE_MIN : ℚ) else ka
  { l with keepalive := ka.ceil.toNat, staleTime := ka.ceil.toNat * STALE_FACTOR }

/-- Integer division and the store to `uint16_t`, both as the target does them. -/
def updateMdu (l : Link) : Link :=
  let room : Int := l.mtu - Reticulum.IFAC_MIN_SIZE - Reticulum.HEADER_MINSIZE - TOKEN_OVERHEAD
  { l with mdu := ((room.tdiv AES128_BLOCKSIZE * AES128_BLOCKSIZE - 1) % 65536).toNat }

def hadOutbound (now : ℚ) (l : Link) : Link := { l with lastOutbound := now, lastData := now }

end Link

end MicroReticulum
