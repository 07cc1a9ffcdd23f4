import MicroReticulum.Packet.Announcement

/-!
# Tokens

`PKCS7`, `Token` and the encryption of an identity. The primitives behind them
(the curve, the derivation, the digest and the cipher itself) and what the
random generator gives are arguments; what they throw is an error here.
-/

namespace MicroReticulum.Tokens

open MicroReticulum.Announcing (KEYSIZE RATCHETSIZE)

def BLOCKSIZE : Nat := 16
def DERIVED_KEY_LENGTH : Nat := 64

structure Primitives where
  x25519Base : Bytes → Bytes
  /-- Private key and public key; none for a low-order point. -/
  x25519 : Bytes → Bytes → Option Bytes
  /-- Length, input, salt and context. -/
  hkdf : Nat → Bytes → Bytes → Bytes → Bytes
  hmac : Bytes → Bytes → Bytes
  /-- Input, key and initialization vector. -/
  cbcEncrypt : Bytes → Bytes → Bytes → Bytes
  cbcDecrypt : Bytes → Bytes → Bytes → Bytes

-- ---------------------------------------------------------------------------
-- PKCS7
-- ---------------------------------------------------------------------------

def pad (data : Bytes) : Bytes :=
  let padlen := BLOCKSIZE - data.length % BLOCKSIZE
  data ++ .replicate padlen (.ofNat padlen)

def unpad (data : Bytes) : Except String Bytes :=
  let padlen := data.byte (data.length - 1)
  if BLOCKSIZE < padlen then
    .error ("Cannot unpad, invalid padding length of " ++ toString padlen ++ " bytes")
  else .ok (data.left (data.length - padlen))

/-- What is padded with: one to sixteen bytes of their own number. -/
theorem pad_eq (data : Bytes) : ∃ n < BLOCKSIZE, (data.length + (n + 1)) % BLOCKSIZE = 0 ∧
    pad data = data ++ .replicate (n + 1) (.ofNat (n + 1)) := by
  have hlt : data.length % 16 < 16 := Nat.mod_lt _ (by decide)
  refine ⟨15 - data.length % 16, ?_, ?_, ?_⟩
  · exact Nat.lt_of_le_of_lt (Nat.sub_le _ _) (by decide)
  · simp only [BLOCKSIZE]
    omega
  · have hn : 15 - data.length % 16 + 1 = BLOCKSIZE - data.length % BLOCKSIZE := by
      simp only [BLOCKSIZE]
      omega
    rw [hn]
    rfl

theorem length_pad (data : Bytes) : (pad data).length % BLOCKSIZE = 0 := by
  obtain ⟨n, -, hmod, h⟩ := pad_eq data
  simpa [h] using hmod

theorem length_pad_pos (data : Bytes) : 0 < (pad data).length := by
  obtain ⟨n, -, -, h⟩ := pad_eq data
  simp [h]

theorem unpad_pad (data : Bytes) : unpad (pad data) = .ok data := by
  obtain ⟨n, hn, -, h⟩ := pad_eq data
  simp only [BLOCKSIZE] at hn
  have hsmall : (n + 1) % 256 = n + 1 := Nat.mod_eq_of_lt (by omega)
  have hlen : (pad data).length = data.length + (n + 1) := by simp [h]
  have hlast : (pad data).byte (data.length + (n + 1) - 1) = n + 1 := by
    simp [h, Bytes.byte, List.getD_eq_getElem?_getD, hsmall]
  have hle : ¬ BLOCKSIZE < n + 1 := by
    simp only [BLOCKSIZE]
    omega
  have hleft : (pad data).left (data.length + (n + 1) - (n + 1)) = data := by simp [h, Bytes.left]
  simp only [unpad, hlen, hlast, if_neg hle, hleft]

-- ---------------------------------------------------------------------------
-- AES in CBC mode
-- ---------------------------------------------------------------------------

/-- What `aes_cbc` checks before it hands the input to the cipher. -/
def aesCbc (cipher : Bytes → Bytes → Bytes → Bytes) (keybits : Nat) (input key iv : Bytes) : Except String Bytes :=
  if input.length = 0 ∨ input.length % BLOCKSIZE ≠ 0 then
    .error "AES-CBC input must be a non-empty multiple of 16 bytes"
  else if key.length * 8 ≠ keybits then .error "AES-CBC key has wrong size for requested mode"
  else if iv.length ≠ 16 then .error "AES-CBC IV must be 16 bytes"
  else .ok (cipher input key iv)

-- ---------------------------------------------------------------------------
-- Token
-- ---------------------------------------------------------------------------

structure Token where
  keybits : Nat
  signingKey : Bytes
  encryptionKey : Bytes

/-- The constructor. -/
def Token.new (key : Bytes) : Except String Token :=
  if key = [] then .error "Token key cannot be None"
  else if key.length = 32 then .ok { keybits := 128, signingKey := key.left 16, encryptionKey := key.drop 16 }
  else if key.length = 64 then .ok { keybits := 256, signingKey := key.left 32, encryptionKey := key.drop 32 }
  else .error ("Token key must be 128 or 256 bits, not " ++ toString (key.length * 8))

def Token.verifyHmac (c : Primitives) (t : Token) (token : Bytes) : Except String Bool :=
  if token.length ≤ 32 then
    .error ("Cannot verify HMAC on token of only " ++ toString token.length ++ " bytes")
  else .ok (token.right 32 = c.hmac t.signingKey (token.left (token.length - 32)))

/-- `iv` is what the random generator gives. -/
def Token.encrypt (c : Primitives) (t : Token) (iv data : Bytes) : Except String Bytes := do
  let ciphertext ← aesCbc c.cbcEncrypt t.keybits (pad data) t.encryptionKey iv
  let signedParts := iv ++ ciphertext
  return signedParts ++ c.hmac t.signingKey signedParts

def Token.decrypt (c : Primitives) (t : Token) (token : Bytes) : Except String Bytes := do
  if token.length < 48 then
    throw ("Cannot decrypt token of only " ++ toString token.length ++ " bytes")
  if !(← t.verifyHmac c token) then throw "Token token HMAC was invalid"
  let iv := token.left 16
  let ciphertext := token.mid 16 (token.length - 48)
  match aesCbc c.cbcDecrypt t.keybits ciphertext t.encryptionKey iv >>= unpad with
  | .ok plaintext => return plaintext
  | .error _ => throw "Could not decrypt Token token"

-- ---------------------------------------------------------------------------
-- Identity
-- ---------------------------------------------------------------------------

/-- `Identity::Object`, with what its encryption needs of it. -/
structure Identity where
  prv : Option Bytes
  pub : Option Bytes
  /-- The salt. -/
  hash : Bytes

/-- `X25519PrivateKey::exchange`. -/
def exchange (c : Primitives) (prv peer : Bytes) : Except String Bytes :=
  if peer.length ≠ 32 then .error "X25519 peer public key must be 32 bytes"
  else match c.x25519 prv peer with
  | none => .error "Peer key is invalid (low-order point)"
  | some shared => .ok shared

def hkdf (c : Primitives) (length : Nat) (deriveFrom salt context : Bytes) : Except String Bytes :=
  if length = 0 then .error "Invalid output key length"
  else if deriveFrom = [] then .error "Cannot derive key from empty input material"
  else .ok (c.hkdf length deriveFrom salt context)

/-- The key one side derives with the other's public key. -/
def Identity.derivedKey (c : Primitives) (id : Identity) (prv peer : Bytes) : Except String Bytes := do
  let shared ← exchange c prv peer
  hkdf c DERIVED_KEY_LENGTH shared id.hash []

/-- The key that is encrypted to. -/
def Identity.target (pub ratchet : Bytes) : Bytes := if ratchet.length = RATCHETSIZE then ratchet else pub

/-- `ephemeral` and `iv` are what the random generator gives. -/
def Identity.encrypt (c : Primitives) (id : Identity) (ephemeral iv plaintext ratchet : Bytes) : Except String Bytes := do
  match id.pub with
  | none => throw "Encryption failed because identity does not hold a public key"
  | some pub =>
    let key ← id.derivedKey c ephemeral (target pub ratchet)
    let token ← Token.new key
    let ciphertext ← token.encrypt c iv plaintext
    return c.x25519Base ephemeral ++ ciphertext

/-- One attempt, with one private key. -/
def Identity.tryKey (c : Primitives) (id : Identity) (prv peer token : Bytes) : Except String Bytes := do
  let key ← id.derivedKey c prv peer
  (← Token.new key).decrypt c token

/-- The attempt with a ratchet; one that gives nothing is not taken. -/
def Identity.tryRatchet (c : Primitives) (id : Identity) (peer token ratchet : Bytes) : Option Bytes :=
  if ratchet.length ≠ RATCHETSIZE then none
  else match id.tryKey c ratchet peer token with
  | .ok opened => if opened ≠ [] then some opened else none
  | .error _ => none

def Identity.decrypt (c : Primitives) (id : Identity) (token : Bytes) (ratchets : List Bytes) : Except String Bytes := do
  match id.prv with
  | none => throw "Decryption failed because identity does not hold a private key"
  | some prv =>
    if token.length ≤ KEYSIZE / 2 then return []
    let peer := token.left (KEYSIZE / 2)
    let ciphertext := token.drop (KEYSIZE / 2)
    match ratchets.findSome? (id.tryRatchet c peer ciphertext) with
    | some opened => return opened
    | none =>
      match id.tryKey c prv peer ciphertext with
      | .ok plaintext => return plaintext
      | .error _ => return []

end MicroReticulum.Tokens
