import MicroReticulum.Packet.Wire

/-!
# What an announce is signed for

`Destination::announce` signs its fields one behind the other, the ratchet among
them if there is one. `Identity::validate_announce` takes the fields apart by
the context flag, which stands in the header and is not signed.
-/

namespace MicroReticulum.Announcing

open Wire

-- ---------------------------------------------------------------------------
-- Lengths, in bytes
-- ---------------------------------------------------------------------------

def KEYSIZE : Nat := 64
def NAME_HASH_LENGTH : Nat := 10
def RANDOM_HASH_LENGTH : Nat := 10
def RATCHETSIZE : Nat := 32
def SIGLENGTH : Nat := KEYSIZE

/-- `full_hash`, and `ed25519_sign_open` of a key, a signature and a message. -/
structure Scheme where
  fullHash : Bytes → Bytes
  signOpen : Bytes → Bytes → Bytes → Bool

/-- `Identity::truncated_hash`. -/
def Scheme.truncatedHash (c : Scheme) (b : Bytes) : Bytes := (c.fullHash b).left DESTINATION_LENGTH

/-- The half of a public key that signatures are for. -/
def sigPub (publicKey : Bytes) : Bytes := publicKey.drop (KEYSIZE / 2)

/-- `Identity::validate`. -/
def validate (c : Scheme) (publicKey signature message : Bytes) : Bool :=
  signature.length = SIGLENGTH ∧ (sigPub publicKey).length = 32 ∧ c.signOpen (sigPub publicKey) signature message

-- ---------------------------------------------------------------------------
-- Announcing
-- ---------------------------------------------------------------------------

/-- What a destination announces; a ratchet is empty where there is none. -/
structure Announcement where
  destinationHash : TruncatedHash
  publicKey : Bytes
  length_publicKey : publicKey.length = KEYSIZE
  nameHash : Bytes
  length_nameHash : nameHash.length = NAME_HASH_LENGTH
  randomHash : Bytes
  length_randomHash : randomHash.length = RANDOM_HASH_LENGTH
  ratchet : Bytes
  length_ratchet : ratchet = [] ∨ ratchet.length = RATCHETSIZE
  appData : Bytes

/-- The parts of an announce that it is read for: name hash, random hash,
ratchet and application data. -/
abbrev Fields := Bytes × Bytes × Bytes × Bytes

namespace Announcement

variable (a : Announcement)

def ratcheted : Bool := a.ratchet ≠ []

def fields : Fields := (a.nameHash, a.randomHash, a.ratchet, a.appData)

def signedData : Bytes :=
  a.destinationHash.bytes ++ (a.publicKey ++ (a.nameHash ++ (a.randomHash ++ (a.ratchet ++ a.appData))))

def announceData (signature : Bytes) : Bytes :=
  a.publicKey ++ (a.nameHash ++ (a.randomHash ++ (a.ratchet ++ (signature ++ a.appData))))

/-- The packet as it is sent: `HEADER_1`, no hops, no context. -/
def pack (signature : Bytes) : Bytes :=
  (if a.ratcheted then 0x21 else 0x01) :: 0 :: (a.destinationHash.bytes ++ (0 :: a.announceData signature))

end Announcement

-- ---------------------------------------------------------------------------
-- Reading an announce
-- ---------------------------------------------------------------------------

/-- The context flag is set. -/
def contextFlag (raw : Bytes) : Bool := flags raw &&& 0x20 ≠ 0

/-- Behind the random hash. -/
def prefixLength : Nat := KEYSIZE + NAME_HASH_LENGTH + RANDOM_HASH_LENGTH

/-- `announce_ratchet`. -/
def announceRatchet (raw : Bytes) : Bytes :=
  if !contextFlag raw then []
  else if (data raw).length < prefixLength + RATCHETSIZE + SIGLENGTH then []
  else (data raw).mid prefixLength RATCHETSIZE

/-- `announce_app_data_offset`. -/
def announceAppDataOffset (raw : Bytes) : Nat :=
  prefixLength + SIGLENGTH + if contextFlag raw then RATCHETSIZE else 0

def publicKey (raw : Bytes) : Bytes := (data raw).left KEYSIZE

def nameHash (raw : Bytes) : Bytes := (data raw).mid KEYSIZE NAME_HASH_LENGTH

def randomHash (raw : Bytes) : Bytes := (data raw).mid (KEYSIZE + NAME_HASH_LENGTH) RANDOM_HASH_LENGTH

def signature (raw : Bytes) : Bytes := (data raw).mid (announceAppDataOffset raw - SIGLENGTH) SIGLENGTH

def appData (raw : Bytes) : Bytes := (data raw).drop (announceAppDataOffset raw)

def fields (raw : Bytes) : Fields := (nameHash raw, randomHash raw, announceRatchet raw, appData raw)

def signedData (raw : Bytes) : Bytes :=
  destinationHash raw ++ (publicKey raw ++ (nameHash raw ++ (randomHash raw ++ (announceRatchet raw ++ appData raw))))

/-- `validate_announce`; `known` are the public keys of the directory. -/
def validateAnnounce (c : Scheme) (known : Bytes → Option Bytes) (raw : Bytes) : Bool :=
  if packetType raw ≠ ANNOUNCE then false
  else if contextFlag raw ∧ announceRatchet raw = [] then false
  else if !validate c (publicKey raw) (signature raw) (signedData raw) then false
  else if destinationHash raw ≠ c.truncatedHash (nameHash raw ++ c.truncatedHash (publicKey raw)) then false
  else known (destinationHash raw) = none ∨ known (destinationHash raw) = some (publicKey raw)

-- ---------------------------------------------------------------------------
-- What validation says of the lengths
-- ---------------------------------------------------------------------------

variable {c : Scheme} {known : Bytes → Option Bytes} {raw raw' : Bytes} {a : Announcement}

theorem validateAnnounce_signed (h : validateAnnounce c known raw) :
    (signature raw).length = SIGLENGTH ∧ c.signOpen (sigPub (publicKey raw)) (signature raw) (signedData raw) := by
  unfold validateAnnounce at h
  split at h
  · cases h
  · split at h
    · cases h
    · split at h
      · cases h
      · next hv =>
        simp only [validate, Bool.not_eq_true', decide_eq_false_iff_not, not_not] at hv
        exact ⟨hv.1, hv.2.2⟩

theorem validateAnnounce_ratchet (h : validateAnnounce c known raw) (hf : contextFlag raw) :
    announceRatchet raw ≠ [] := by
  unfold validateAnnounce at h
  split at h
  · cases h
  · split at h
    · cases h
    · next hn => exact fun he => hn ⟨hf, he⟩

/-- Nothing of the signature is missing. -/
theorem offset_le (h : (signature raw).length = SIGLENGTH) : announceAppDataOffset raw ≤ (data raw).length := by
  rw [signature, Bytes.length_mid] at h
  have hpos : 0 < SIGLENGTH := by decide
  have hle : SIGLENGTH ≤ announceAppDataOffset raw := by
    unfold announceAppDataOffset
    omega
  omega

/-- The fields an accepted announce is taken apart into have their full lengths. -/
structure Whole (raw : Bytes) : Prop where
  length_destinationHash : (destinationHash raw).length = DESTINATION_LENGTH
  length_publicKey : (publicKey raw).length = KEYSIZE
  length_nameHash : (nameHash raw).length = NAME_HASH_LENGTH
  length_randomHash : (randomHash raw).length = RANDOM_HASH_LENGTH
  length_ratchet : (announceRatchet raw).length = if contextFlag raw then RATCHETSIZE else 0

theorem validateAnnounce_whole (h : validateAnnounce c known raw) : Whole raw := by
  have hle := offset_le (validateAnnounce_signed h).1
  have hdata : (data raw).length = raw.length - (addressed raw + DESTINATION_LENGTH + 1) := List.length_drop
  have hlen : prefixLength + SIGLENGTH ≤ (data raw).length := (Nat.le_add_right _ _).trans hle
  simp only [prefixLength, KEYSIZE, NAME_HASH_LENGTH, RANDOM_HASH_LENGTH, SIGLENGTH] at hlen
  refine ⟨?_, ?_, ?_, ?_, ?_⟩
  · rw [destinationHash, Bytes.length_mid]
    omega
  · rw [publicKey, Bytes.length_left]
    simp only [KEYSIZE]
    omega
  · rw [nameHash, Bytes.length_mid]
    simp only [KEYSIZE, NAME_HASH_LENGTH]
    omega
  · rw [randomHash, Bytes.length_mid]
    simp only [KEYSIZE, NAME_HASH_LENGTH, RANDOM_HASH_LENGTH]
    omega
  · unfold announceRatchet
    unfold announceAppDataOffset at hle
    cases hf : contextFlag raw with
    | false => simp
    | true =>
      rw [hf, if_pos rfl] at hle
      rw [if_neg (by simp), if_neg (by omega), Bytes.length_mid, if_pos rfl]
      simp only [RATCHETSIZE] at hle ⊢
      omega

-- ---------------------------------------------------------------------------
-- One string, two layouts
-- ---------------------------------------------------------------------------

/-- What stands in front of the ratchet has one layout, so only the border
between ratchet and application data is left open. -/
theorem Whole.split (w : Whole raw) (h : signedData raw = a.signedData) :
    destinationHash raw = a.destinationHash.bytes ∧ publicKey raw = a.publicKey ∧ nameHash raw = a.nameHash ∧
      randomHash raw = a.randomHash ∧ announceRatchet raw ++ appData raw = a.ratchet ++ a.appData := by
  obtain ⟨hdest, h⟩ := List.append_inj h (w.length_destinationHash.trans a.destinationHash.length_eq.symm)
  obtain ⟨hkey, h⟩ := List.append_inj h (w.length_publicKey.trans a.length_publicKey.symm)
  obtain ⟨hname, h⟩ := List.append_inj h (w.length_nameHash.trans a.length_nameHash.symm)
  obtain ⟨hrandom, h⟩ := List.append_inj h (w.length_randomHash.trans a.length_randomHash.symm)
  exact ⟨hdest, hkey, hname, hrandom, h⟩

theorem Announcement.length_ratchet_eq (a : Announcement) :
    a.ratchet.length = if a.ratcheted then RATCHETSIZE else 0 := by
  rcases a.length_ratchet with h | h
  · simp [ratcheted, h]
  · have hne : a.ratchet ≠ [] := List.ne_nil_of_length_pos (by rw [h]; decide)
    simp [ratcheted, hne, h]

/-- The flag says whether a ratchet was read. -/
theorem Whole.ratcheted_iff (w : Whole raw) : contextFlag raw = decide (announceRatchet raw ≠ []) := by
  have hlen := w.length_ratchet
  cases hf : contextFlag raw with
  | false =>
    rw [hf] at hlen
    simp [List.eq_nil_of_length_eq_zero hlen]
  | true =>
    rw [hf, if_pos rfl] at hlen
    have hne : announceRatchet raw ≠ [] := List.ne_nil_of_length_pos (by rw [hlen]; decide)
    simp [hne]

theorem Whole.fields_iff (w : Whole raw) (h : signedData raw = a.signedData) :
    fields raw = a.fields ↔ contextFlag raw = a.ratcheted := by
  obtain ⟨-, -, hname, hrandom, htail⟩ := w.split h
  constructor
  · intro he
    have hratchet : announceRatchet raw = a.ratchet := congrArg (fun f : Fields => f.2.2.1) he
    rw [w.ratcheted_iff, hratchet]
    rfl
  · intro hflag
    have hlen : (announceRatchet raw).length = a.ratchet.length := by
      rw [w.length_ratchet, a.length_ratchet_eq, hflag]
    obtain ⟨hratchet, happ⟩ := List.append_inj htail hlen
    simp only [fields, Announcement.fields, hname, hrandom, hratchet, happ]

-- ---------------------------------------------------------------------------
-- Authenticity
-- ---------------------------------------------------------------------------

/-- An ideal signature scheme: what verifies was signed, and what was signed was
an announcement. -/
structure Signers (c : Scheme) where
  announced : Announcement → Prop
  ideal : ∀ key sig message, c.signOpen key sig message →
    ∃ a, announced a ∧ sigPub a.publicKey = key ∧ a.signedData = message

/-- The announce carries what was signed for this announcement. -/
abbrev Carries (raw : Bytes) (a : Announcement) : Prop := signedData raw = a.signedData

/-- Two announces of one signature are read alike. -/
def ReadAlike (raw raw' : Bytes) : Prop := announceRatchet raw' = announceRatchet raw ∧ appData raw' = appData raw

/-- An accepted announce carries an announcement, and it is read as the
destination made it exactly if the flag is still the destination's. -/
theorem announce_fields (c : Scheme) (s : Signers c) (known : Bytes → Option Bytes) (raw : Bytes)
    (h : validateAnnounce c known raw) :
    (∃ a, s.announced a ∧ Carries raw a) ∧
      (∀ a, s.announced a → Carries raw a → (fields raw = a.fields ↔ contextFlag raw = a.ratcheted)) ∧
      ∀ raw', validateAnnounce c known raw' → signedData raw' = signedData raw →
        (ReadAlike raw raw' ↔ contextFlag raw' = contextFlag raw) := by
  have w := validateAnnounce_whole h
  refine ⟨?_, fun a _ hc => w.fields_iff hc, fun raw' h' hs => ?_⟩
  · obtain ⟨a, ha, -, hm⟩ := s.ideal _ _ _ (validateAnnounce_signed h).2
    exact ⟨a, ha, hm.symm⟩
  · have w' := validateAnnounce_whole h'
    obtain ⟨a, -, -, hm⟩ := s.ideal _ _ _ (validateAnnounce_signed h).2
    have htail := (w.split hm.symm).2.2.2.2
    have htail' := (w'.split (hs.trans hm.symm)).2.2.2.2
    constructor
    · rintro ⟨hratchet, -⟩
      rw [w'.ratcheted_iff, w.ratcheted_iff, hratchet]
    · intro hflag
      exact List.append_inj (htail'.trans htail.symm) (by rw [w'.length_ratchet, w.length_ratchet, hflag])

-- ---------------------------------------------------------------------------
-- One announcement
-- ---------------------------------------------------------------------------

/-- A destination with a ratchet, named by a hash that keeps everything. -/
def ratcheting : Announcement where
  destinationHash := ⟨List.replicate 10 2 ++ List.replicate 6 1, rfl⟩
  publicKey := List.replicate KEYSIZE 1
  length_publicKey := rfl
  nameHash := List.replicate NAME_HASH_LENGTH 2
  length_nameHash := rfl
  randomHash := List.replicate RANDOM_HASH_LENGTH 3
  length_randomHash := rfl
  ratchet := List.replicate RATCHETSIZE 4
  length_ratchet := .inr rfl
  appData := [5]

/-- It has signed its one announcement. -/
def once : Scheme where
  fullHash := id
  signOpen key _ message := key = sigPub ratcheting.publicKey ∧ message = ratcheting.signedData

def onceSigners : Signers once where
  announced a := a = ratcheting
  ideal _ _ _ h := ⟨ratcheting, rfl, (of_decide_eq_true h).1.symm, (of_decide_eq_true h).2.symm⟩

def aired : Bytes := ratcheting.pack (List.replicate SIGLENGTH 0)

/-- What a relay can make of it: the flag cleared, and the ratchet behind the signature. -/
def moved : Bytes :=
  { ratcheting with ratchet := [], length_ratchet := .inl rfl, appData := ratcheting.ratchet ++ ratcheting.appData }.pack
    (List.replicate SIGLENGTH 0)

theorem announce_fields_once :
    validateAnnounce once (fun _ => none) aired ∧ fields aired = ratcheting.fields :=
  have h : validateAnnounce once (fun _ => none) aired := by decide +kernel
  ⟨h, ((announce_fields once onceSigners (fun _ => none) aired h).2.1 ratcheting rfl (by decide +kernel)).2
    (by decide +kernel)⟩

/-- It is accepted, without its ratchet. -/
theorem announce_fields_moved :
    Function.Injective once.fullHash ∧ validateAnnounce once (fun _ => none) aired ∧
      validateAnnounce once (fun _ => none) moved ∧ ¬ ReadAlike aired moved ∧
        ∀ a, onceSigners.announced a → fields moved ≠ a.fields := by
  refine ⟨Function.injective_id, by decide +kernel, by decide +kernel, ?_, ?_⟩
  · rintro ⟨hratchet, -⟩
    exact absurd hratchet (by decide +kernel)
  · rintro a rfl
    decide +kernel

end MicroReticulum.Announcing
