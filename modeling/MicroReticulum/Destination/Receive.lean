import MicroReticulum.Destination.Ratchets
import MicroReticulum.Identity.Token

/-!
# What a destination makes of a packet for it

The receiver tries its ratchets and its identity key one by one. Every attempt
gives the plaintext or fails, and the token opens with the key it was made for.
What is opened is delivered, unless it is empty.
-/

namespace MicroReticulum.Destinations

open MicroReticulum.Announcing (KEYSIZE RATCHETSIZE)
open Tokens

inductive PacketType
  | DATA | ANNOUNCE | LINKREQUEST | PROOF
  deriving DecidableEq

/-- `Destination::decrypt`. -/
def decrypt (c : Primitives) (identity : Option Tokens.Identity) (data : Bytes) (d : Destination) : Except String Bytes :=
  if d.type = .PLAIN then .ok data
  else match d.type, identity with
  | .SINGLE, some id => id.decrypt c data d.ratchets
  | _, _ => .ok []

/-- `Destination::receive`: what the packet callback is called with, call by call. -/
def receive (c : Primitives) (identity : Option Tokens.Identity) (callback : Bool) (type : PacketType) (data : Bytes)
    (d : Destination) : Except String (List Bytes) := do
  if type = .LINKREQUEST then return []
  let plaintext ← decrypt c identity data d
  if plaintext ≠ [] ∧ type = .DATA ∧ callback then return [plaintext]
  return []

-- ---------------------------------------------------------------------------
-- What is taken of the primitives
-- ---------------------------------------------------------------------------

/-- The cipher is inverted, a digest is that of one key only, and both sides of
an exchange come to the same secret. -/
structure Sound (c : Primitives) : Prop where
  length_base : ∀ prv, (c.x25519Base prv).length = 32
  agree : ∀ a b, a.length = 32 → b.length = 32 → ∃ shared, shared.length = 32 ∧
    c.x25519 a (c.x25519Base b) = some shared ∧ c.x25519 b (c.x25519Base a) = some shared
  length_shared : ∀ prv peer shared, c.x25519 prv peer = some shared → shared.length = 32
  length_hkdf : ∀ n shared salt context, (c.hkdf n shared salt context).length = n
  length_hmac : ∀ key message, (c.hmac key message).length = 32
  length_cbc : ∀ data key iv, (c.cbcEncrypt data key iv).length = data.length
  inverts : ∀ data key iv, data.length % BLOCKSIZE = 0 → key.length = 32 → iv.length = 16 →
    c.cbcDecrypt (c.cbcEncrypt data key iv) key iv = data
  authentic : ∀ s s' salt salt' message, s.length = 32 → s'.length = 32 →
    c.hmac ((c.hkdf DERIVED_KEY_LENGTH s salt []).left 32) message =
      c.hmac ((c.hkdf DERIVED_KEY_LENGTH s' salt' []).left 32) message →
    c.hkdf DERIVED_KEY_LENGTH s salt [] = c.hkdf DERIVED_KEY_LENGTH s' salt' []

variable {c : Primitives} {id id' : Tokens.Identity} {d : Destination} {ephemeral iv key key' plaintext prv peer pub ratchet
  shared token : Bytes} {keys ratchets : List Bytes}

/-- A key that two sides may derive. -/
def Derived (c : Primitives) (key : Bytes) : Prop :=
  ∃ shared salt, shared.length = 32 ∧ key = c.hkdf DERIVED_KEY_LENGTH shared salt []

-- ---------------------------------------------------------------------------
-- One token and one key
-- ---------------------------------------------------------------------------

/-- What is signed. -/
def signedParts (c : Primitives) (key iv plaintext : Bytes) : Bytes :=
  iv ++ c.cbcEncrypt (pad plaintext) (key.drop 32) iv

/-- The token under a key. -/
def sealed (c : Primitives) (key iv plaintext : Bytes) : Bytes :=
  signedParts c key iv plaintext ++ c.hmac (key.left 32) (signedParts c key iv plaintext)

/-- The token object of a derived key. -/
def tokenOf (key : Bytes) : Token := { keybits := 256, signingKey := key.left 32, encryptionKey := key.drop 32 }

theorem Derived.length (hc : Sound c) (hk : Derived c key) : key.length = 64 := by
  obtain ⟨shared, salt, -, rfl⟩ := hk
  exact hc.length_hkdf _ _ _ _

theorem new_eq (hk : key.length = 64) : Token.new key = .ok (tokenOf key) := by
  have hne : key ≠ [] := by
    rintro rfl
    cases hk
  simp [Token.new, tokenOf, hne, hk]

variable (key plaintext) in
theorem length_signedParts (hc : Sound c) (hiv : iv.length = 16) :
    (signedParts c key iv plaintext).length = 16 + (pad plaintext).length := by
  simp [signedParts, hc.length_cbc, hiv]

theorem encrypt_eq (hk : key.length = 64) (hiv : iv.length = 16) :
    (tokenOf key).encrypt c iv plaintext = .ok (sealed c key iv plaintext) := by
  have hpos := length_pad_pos plaintext
  have hcheck : aesCbc c.cbcEncrypt 256 (pad plaintext) (key.drop 32) iv =
      .ok (c.cbcEncrypt (pad plaintext) (key.drop 32) iv) := by
    simp [aesCbc, hpos.ne', length_pad, hk, hiv]
  simp only [Token.encrypt, tokenOf, hcheck]
  rfl

variable (key key' plaintext) in
theorem verifyHmac_sealed (hc : Sound c) (hiv : iv.length = 16) :
    (tokenOf key').verifyHmac c (sealed c key iv plaintext) =
      .ok (c.hmac (key.left 32) (signedParts c key iv plaintext) =
        c.hmac (key'.left 32) (signedParts c key iv plaintext)) := by
  have hlen := length_signedParts key plaintext hc hiv
  have htotal : (sealed c key iv plaintext).length = 16 + (pad plaintext).length + 32 := by
    simp [sealed, hlen, hc.length_hmac]
  have hlong : ¬ (sealed c key iv plaintext).length ≤ 32 := by omega
  have hright : (sealed c key iv plaintext).right 32 = c.hmac (key.left 32) (signedParts c key iv plaintext) := by
    rw [Bytes.right, htotal, Nat.add_sub_cancel, ← hlen]
    exact List.drop_left
  have hleft : (sealed c key iv plaintext).left ((sealed c key iv plaintext).length - 32) =
      signedParts c key iv plaintext := by
    rw [Bytes.left, htotal, Nat.add_sub_cancel, ← hlen]
    exact List.take_left
  simp only [Token.verifyHmac, if_neg hlong, hright, hleft, tokenOf]

variable (key plaintext) in
theorem length_sealed (hc : Sound c) (hiv : iv.length = 16) :
    (sealed c key iv plaintext).length = 48 + (pad plaintext).length := by
  simp only [sealed, List.length_append, length_signedParts _ _ hc hiv, hc.length_hmac]
  omega

theorem decrypt_sealed (hc : Sound c) (hk : key.length = 64) (hiv : iv.length = 16) :
    (tokenOf key).decrypt c (sealed c key iv plaintext) = .ok plaintext := by
  have hlen := length_sealed key plaintext hc hiv
  have hlong : ¬ (sealed c key iv plaintext).length < 48 := by omega
  have hivs : (sealed c key iv plaintext).left 16 = iv := by
    simp [sealed, signedParts, Bytes.left, ← hiv]
  have hbody : (sealed c key iv plaintext).mid 16 ((sealed c key iv plaintext).length - 48) =
      c.cbcEncrypt (pad plaintext) (key.drop 32) iv := by
    rw [hlen, Nat.add_sub_cancel_left, ← hc.length_cbc (pad plaintext) (key.drop 32) iv]
    simp [sealed, signedParts, Bytes.mid, ← hiv]
  have hpos := length_pad_pos plaintext
  have hcheck : aesCbc c.cbcDecrypt 256 (c.cbcEncrypt (pad plaintext) (key.drop 32) iv) (key.drop 32) iv =
      .ok (pad plaintext) := by
    have hinv := hc.inverts (pad plaintext) (key.drop 32) iv (length_pad _) (by simp [hk]) hiv
    simp [aesCbc, hc.length_cbc, hpos.ne', length_pad, hk, hiv, hinv]
  have hopen : (aesCbc c.cbcDecrypt 256 (c.cbcEncrypt (pad plaintext) (key.drop 32) iv) (key.drop 32) iv >>= unpad) =
      .ok plaintext := by
    rw [hcheck]
    exact unpad_pad plaintext
  have hverify := verifyHmac_sealed key key plaintext hc hiv
  simp only [Token.decrypt, if_neg hlong, hverify, hivs, hbody]
  simp only [tokenOf, hopen]
  rfl

variable (plaintext) in
/-- No other key opens it. -/
theorem decrypt_other (hc : Sound c) (hk : Derived c key) (hk' : Derived c key') (hiv : iv.length = 16)
    (hne : key' ≠ key) : ∃ e, (tokenOf key').decrypt c (sealed c key iv plaintext) = .error e := by
  have hlen := length_sealed key plaintext hc hiv
  have hlong : ¬ (sealed c key iv plaintext).length < 48 := by omega
  have hbad : ¬ c.hmac (key.left 32) (signedParts c key iv plaintext) =
      c.hmac (key'.left 32) (signedParts c key iv plaintext) := by
    obtain ⟨s, salt, hs, hkey⟩ := hk
    obtain ⟨s', salt', hs', hkey'⟩ := hk'
    intro h
    rw [hkey', hkey] at hne
    refine hne (hc.authentic s' s salt' salt (signedParts c key iv plaintext) hs' hs ?_)
    rw [← hkey, ← hkey']
    exact h.symm
  have hverify := verifyHmac_sealed key key' plaintext hc hiv
  refine ⟨"Token token HMAC was invalid", ?_⟩
  simp only [Token.decrypt, if_neg hlong, hverify, hbad]
  rfl

-- ---------------------------------------------------------------------------
-- One attempt
-- ---------------------------------------------------------------------------

theorem derived_of_derivedKey (hc : Sound c) (h : id.derivedKey c prv peer = .ok key) : Derived c key := by
  unfold Identity.derivedKey exchange at h
  split at h
  · cases h
  split at h
  · cases h
  · next shared hshared =>
    have hlen := hc.length_shared _ _ _ hshared
    have hne : shared ≠ [] := by
      rintro rfl
      cases hlen
    refine ⟨shared, id.hash, hlen, ?_⟩
    simpa [hkdf, hne, bind, Except.bind, DERIVED_KEY_LENGTH, eq_comm] using h

variable (id plaintext prv peer) in
/-- An attempt gives the plaintext with the token's own key and fails with any other. -/
theorem tryKey_sealed (hc : Sound c) (hk : Derived c key) (hiv : iv.length = 16) :
    id.derivedKey c prv peer = .ok key ∧
        id.tryKey c prv peer (sealed c key iv plaintext) = .ok plaintext ∨
      id.derivedKey c prv peer ≠ .ok key ∧
        ∃ e, id.tryKey c prv peer (sealed c key iv plaintext) = .error e := by
  unfold Identity.tryKey
  cases hd : id.derivedKey c prv peer with
  | error e => exact .inr ⟨by simp, e, rfl⟩
  | ok key' =>
    have hk' := derived_of_derivedKey hc hd
    have hnew := new_eq (hk'.length hc)
    by_cases hsame : key' = key
    · subst hsame
      refine .inl ⟨rfl, ?_⟩
      simpa only [bind, Except.bind, hnew] using decrypt_sealed hc (hk.length hc) hiv
    · obtain ⟨e, he⟩ := decrypt_other plaintext hc hk hk' hiv hsame
      refine .inr ⟨by simpa using hsame, e, ?_⟩
      simpa only [bind, Except.bind, hnew] using he

theorem tryRatchet_eq_some (hc : Sound c) (hk : Derived c key) (hiv : iv.length = 16) {opened : Bytes} :
    id.tryRatchet c peer (sealed c key iv plaintext) ratchet = some opened ↔
      ratchet.length = RATCHETSIZE ∧ id.derivedKey c ratchet peer = .ok key ∧ plaintext ≠ [] ∧
        opened = plaintext := by
  unfold Identity.tryRatchet
  by_cases hlen : ratchet.length = RATCHETSIZE
  · rcases tryKey_sealed id plaintext ratchet peer hc hk hiv with
      ⟨hd, htry⟩ | ⟨hd, e, htry⟩
    · simp [hlen, hd, htry, eq_comm]
    · simp [hlen, hd, htry]
  · simp [hlen]

-- ---------------------------------------------------------------------------
-- All the attempts
-- ---------------------------------------------------------------------------

/-- The private keys that are tried. -/
def privateKeys (prv : Bytes) (ratchets : List Bytes) : List Bytes :=
  ratchets.filter (·.length = RATCHETSIZE) ++ [prv]

theorem mem_privateKeys {p : Bytes} :
    p ∈ privateKeys prv ratchets ↔ p ∈ ratchets ∧ p.length = RATCHETSIZE ∨ p = prv := by
  simp [privateKeys]

theorem decrypt_eq (hprv : id.prv = some prv) (hpeer : peer.length = 32) (hlong : token ≠ []) :
    id.decrypt c (peer ++ token) ratchets = match ratchets.findSome? (id.tryRatchet c peer token) with
      | some opened => .ok opened
      | none => match id.tryKey c prv peer token with
        | .ok plaintext => .ok plaintext
        | .error _ => .ok [] := by
  have hpos := List.length_pos_iff.2 hlong
  have hsize : ¬ (peer ++ token).length ≤ KEYSIZE / 2 := by
    rw [List.length_append, hpeer]
    simp only [KEYSIZE]
    omega
  have hleft : (peer ++ token).left (KEYSIZE / 2) = peer := by simp [Bytes.left, KEYSIZE, ← hpeer]
  have hdrop : (peer ++ token).drop (KEYSIZE / 2) = token := by simp [KEYSIZE, ← hpeer]
  simp only [Identity.decrypt, hprv, if_neg hsize, hleft, hdrop]
  rfl

theorem sealed_ne_nil (hc : Sound c) (hiv : iv.length = 16) : sealed c key iv plaintext ≠ [] := by
  intro h
  have hlen := length_sealed key plaintext hc hiv
  rw [h, List.length_nil] at hlen
  omega

variable (plaintext) in
/-- A token for one of the keys gives the plaintext, the empty one too. -/
theorem decrypt_ours (hc : Sound c) (hprv : id.prv = some prv) (hpeer : peer.length = 32) (hiv : iv.length = 16)
    (hk : Derived c key) (hours : ∃ p ∈ privateKeys prv ratchets, id.derivedKey c p peer = .ok key) :
    id.decrypt c (peer ++ sealed c key iv plaintext) ratchets = .ok plaintext := by
  rw [decrypt_eq hprv hpeer (sealed_ne_nil hc hiv)]
  split
  · next opened hsome =>
    obtain ⟨r, -, hr⟩ := List.exists_of_findSome?_eq_some hsome
    rw [((tryRatchet_eq_some hc hk hiv).1 hr).2.2.2]
  · next hnone =>
    rcases tryKey_sealed id plaintext prv peer hc hk hiv with
      ⟨-, htry⟩ | ⟨hother, e, htry⟩
    · simp only [htry]
    · simp only [htry]
      obtain ⟨p, hp, hd⟩ := hours
      rcases mem_privateKeys.1 hp with ⟨hmem, hlen⟩ | rfl
      · -- the ratchet was passed over, so it opened nothing
        have hnot := List.findSome?_eq_none_iff.1 hnone p hmem
        by_contra hne
        have hpl : plaintext ≠ [] := fun h => hne (by rw [h])
        rw [(tryRatchet_eq_some hc hk hiv).2 ⟨hlen, hd, hpl, rfl⟩] at hnot
        cases hnot
      · exact absurd hd hother

theorem decrypt_foreign (hc : Sound c) (hprv : id.prv = some prv) (hpeer : peer.length = 32)
    (hiv : iv.length = 16) (hk : Derived c key)
    (hother : ∀ p ∈ privateKeys prv ratchets, id.derivedKey c p peer ≠ .ok key) :
    id.decrypt c (peer ++ sealed c key iv plaintext) ratchets = .ok [] := by
  rw [decrypt_eq hprv hpeer (sealed_ne_nil hc hiv)]
  split
  · next opened hsome =>
    obtain ⟨r, hmem, hr⟩ := List.exists_of_findSome?_eq_some hsome
    obtain ⟨hlen, hd, -⟩ := (tryRatchet_eq_some hc hk hiv).1 hr
    exact absurd hd (hother r (mem_privateKeys.2 (.inl ⟨hmem, hlen⟩)))
  · rcases tryKey_sealed id plaintext prv peer hc hk hiv with
      ⟨hd, -⟩ | ⟨-, e, htry⟩
    · exact absurd hd (hother prv (mem_privateKeys.2 (.inr rfl)))
    · simp only [htry]

-- ---------------------------------------------------------------------------
-- Sender and receiver
-- ---------------------------------------------------------------------------

/-- The identity of the destination, with both halves of its key. -/
structure Holds (c : Primitives) (id : Tokens.Identity) (prv : Bytes) : Prop where
  own : id.prv = some prv
  length_prv : prv.length = 32
  pub : id.pub = some (c.x25519Base prv)

/-- The sender has heard a ratchet that is retained, or none. -/
def Heard (c : Primitives) (d : Destination) (ratchet : Bytes) : Prop :=
  ratchet = [] ∨ ∃ r ∈ d.ratchets, r.length = RATCHETSIZE ∧ ratchet = c.x25519Base r

/-- The key an identity seals a token with. -/
def sealKey (c : Primitives) (id : Tokens.Identity) (ephemeral ratchet : Bytes) : Except String Bytes :=
  match id.pub with
  | none => .error "Encryption failed because identity does not hold a public key"
  | some pub => id.derivedKey c ephemeral (Identity.target pub ratchet)

variable (plaintext) in
theorem encrypt_of_sealKey (hc : Sound c) (hiv : iv.length = 16) (h : sealKey c id ephemeral ratchet = .ok key) :
    Derived c key ∧
      id.encrypt c ephemeral iv plaintext ratchet = .ok (c.x25519Base ephemeral ++ sealed c key iv plaintext) := by
  unfold sealKey at h
  split at h
  · cases h
  · next pub hpub =>
    have hk := derived_of_derivedKey hc h
    refine ⟨hk, ?_⟩
    simp only [Identity.encrypt, hpub, h, bind, Except.bind, new_eq (hk.length hc),
      encrypt_eq (hk.length hc) hiv]
    rfl

variable (id) in
/-- Both sides derive one key. -/
theorem derivedKey_agree (hc : Sound c) (ha : ephemeral.length = 32) (hb : prv.length = 32) :
    ∃ key, id.derivedKey c ephemeral (c.x25519Base prv) = .ok key ∧
      id.derivedKey c prv (c.x25519Base ephemeral) = .ok key := by
  obtain ⟨shared, hlen, h₁, h₂⟩ := hc.agree ephemeral prv ha hb
  have hne : shared ≠ [] := by
    rintro rfl
    cases hlen
  refine ⟨c.hkdf DERIVED_KEY_LENGTH shared id.hash [], ?_, ?_⟩ <;>
    simp [Identity.derivedKey, exchange, hc.length_base, h₁, h₂, hkdf, hne, bind, Except.bind, DERIVED_KEY_LENGTH]

theorem sealKey_heard (hc : Sound c) (hid : Holds c id prv) (hh : Heard c d ratchet) (he : ephemeral.length = 32) :
    ∃ key, sealKey c id ephemeral ratchet = .ok key ∧
      ∃ p ∈ privateKeys prv d.ratchets, id.derivedKey c p (c.x25519Base ephemeral) = .ok key := by
  rcases hh with rfl | ⟨r, hr, hlen, rfl⟩
  · obtain ⟨key, h₁, h₂⟩ := derivedKey_agree id hc he hid.length_prv
    refine ⟨key, ?_, prv, mem_privateKeys.2 (.inr rfl), h₂⟩
    simpa [sealKey, hid.pub, Identity.target, RATCHETSIZE] using h₁
  · obtain ⟨key, h₁, h₂⟩ := derivedKey_agree id hc he hlen
    refine ⟨key, ?_, r, mem_privateKeys.2 (.inl ⟨hr, hlen⟩), h₂⟩
    simpa [sealKey, hid.pub, Identity.target, RATCHETSIZE, hc.length_base] using h₁

theorem receive_eq (hd : d.type = .SINGLE) {opened : Bytes} (h : id.decrypt c token d.ratchets = .ok opened) :
    receive c (some id) true .DATA token d = .ok (if opened = [] then [] else [opened]) := by
  have hdec : decrypt c (some id) token d = .ok opened := by simpa [decrypt, hd] using h
  by_cases hnil : opened = []
  · simp [receive, hdec, hnil, bind, Except.bind, pure, Except.pure]
  · simp [receive, hdec, hnil, bind, Except.bind, pure, Except.pure]

/-- A token for one of the destination's keys is opened and delivered once
exactly when there is something in it. One for another key is not delivered. -/
theorem delivered_iff (hc : Sound c) (hid : Holds c id prv) (hd : d.type = .SINGLE) :
    (∀ ephemeral iv plaintext ratchet, ephemeral.length = 32 → iv.length = 16 → Heard c d ratchet →
      ∃ token, id.encrypt c ephemeral iv plaintext ratchet = .ok token ∧
        (id.decrypt c token d.ratchets = .ok plaintext ∧
          receive c (some id) true .DATA token d = .ok [plaintext] ↔ plaintext ≠ [])) ∧
    (∀ id' ephemeral iv plaintext ratchet token, iv.length = 16 →
      id'.encrypt c ephemeral iv plaintext ratchet = .ok token →
      (∀ p ∈ privateKeys prv d.ratchets,
        id.derivedKey c p (c.x25519Base ephemeral) ≠ sealKey c id' ephemeral ratchet) →
      receive c (some id) true .DATA token d = .ok []) := by
  constructor
  · intro ephemeral iv plaintext ratchet he hiv hh
    obtain ⟨key, hseal, hours⟩ := sealKey_heard hc hid hh he
    obtain ⟨hk, henc⟩ := encrypt_of_sealKey plaintext hc hiv hseal
    have hopen := decrypt_ours plaintext hc hid.own (hc.length_base ephemeral) hiv hk hours
    refine ⟨_, henc, ?_⟩
    rw [and_iff_right hopen, receive_eq hd hopen]
    by_cases hnil : plaintext = []
    · simp [hnil]
    · simp [hnil]
  · intro id' ephemeral iv plaintext ratchet token hiv henc hother
    cases hseal : sealKey c id' ephemeral ratchet with
    | error e =>
      -- without a key there is no token
      unfold sealKey at hseal
      cases hpub : id'.pub with
      | none =>
        simp only [Identity.encrypt, hpub] at henc
        cases henc
      | some pub =>
        simp only [hpub] at hseal
        simp only [Identity.encrypt, hpub, hseal] at henc
        cases henc
    | ok key =>
      obtain ⟨hk, henc'⟩ := encrypt_of_sealKey plaintext hc hiv hseal
      obtain rfl := Except.ok.inj (henc'.symm.trans henc)
      rw [hseal] at hother
      exact receive_eq hd (decrypt_foreign hc hid.own (hc.length_base ephemeral) hiv hk hother)

private def fit (n : Nat) (b : Bytes) : Bytes := (b ++ .replicate n 0).take n

private theorem length_fit (n : Nat) (b : Bytes) : (fit n b).length = n := by simp [fit]

private theorem fit_eq {n : Nat} {b : Bytes} (h : b.length = n) : fit n b = b := by simp [fit, ← h]

/-- Primitives that meet the assumptions and hide nothing. -/
private def clear : Primitives where
  x25519Base prv := fit 32 prv
  x25519 prv peer := some (List.zipWith (· ^^^ ·) (fit 32 prv) (fit 32 peer))
  hkdf n shared _ _ := fit n (shared ++ shared)
  hmac key _ := fit 32 key
  cbcEncrypt data _ _ := data
  cbcDecrypt data _ _ := data

private theorem clear_sound : Sound clear where
  length_base prv := length_fit 32 prv
  agree a b ha hb := by
    refine ⟨List.zipWith (· ^^^ ·) a b, by simp [ha, hb], ?_, ?_⟩
    · simp [clear, fit_eq, ha, hb]
    · simp only [clear, fit_eq ha, fit_eq hb]
      rw [List.zipWith_comm_of_comm UInt8.xor_comm]
  length_shared prv peer shared h := by
    obtain rfl := Option.some.inj h
    simp [length_fit]
  length_hkdf n shared _ _ := length_fit n _
  length_hmac key _ := length_fit 32 key
  length_cbc data _ _ := rfl
  inverts _ _ _ _ _ _ := rfl
  authentic s s' salt salt' message hs hs' h := by
    have hkey : ∀ b : Bytes, b.length = 32 → fit 32 ((fit 64 (b ++ b)).left 32) = b := by
      intro b hb
      have hall : fit 64 (b ++ b) = b ++ b := fit_eq (by simp [hb])
      have hleft : (b ++ b).left 32 = b := by simp [Bytes.left, ← hb]
      rw [hall, hleft, fit_eq hb]
    obtain rfl : s = s' := by
      rw [← hkey s hs, ← hkey s' hs']
      exact h
    rfl

private def alice : Tokens.Identity where
  prv := some (.replicate 32 1)
  pub := some (.replicate 32 1)
  hash := [1]

private theorem alice_holds : Holds clear alice (.replicate 32 1) := ⟨rfl, rfl, by decide⟩

private def inbox : Destination := { ratchets := [.replicate 32 2, .replicate 32 3] }

theorem delivered_iff_ratcheted :
    (∀ ephemeral iv plaintext ratchet, ephemeral.length = 32 → iv.length = 16 → Heard clear inbox ratchet →
      ∃ token, alice.encrypt clear ephemeral iv plaintext ratchet = .ok token ∧
        (alice.decrypt clear token inbox.ratchets = .ok plaintext ∧
          receive clear (some alice) true .DATA token inbox = .ok [plaintext] ↔ plaintext ≠ [])) ∧
    (∀ id' ephemeral iv plaintext ratchet token, iv.length = 16 →
      Identity.encrypt clear id' ephemeral iv plaintext ratchet = .ok token →
      (∀ p ∈ privateKeys (.replicate 32 1) inbox.ratchets,
        alice.derivedKey clear p (clear.x25519Base ephemeral) ≠ sealKey clear id' ephemeral ratchet) →
      receive clear (some alice) true .DATA token inbox = .ok []) :=
  delivered_iff clear_sound alice_holds rfl

/-- Nothing is delivered of a packet that was sent with nothing in it. -/
theorem empty_not_delivered :
    ¬ ∀ c id prv d, Sound c → Holds c id prv → d.type = .SINGLE →
      ∀ ephemeral iv plaintext ratchet, ephemeral.length = 32 → iv.length = 16 → Heard c d ratchet →
        ∃ token, id.encrypt c ephemeral iv plaintext ratchet = .ok token ∧
          id.decrypt c token d.ratchets = .ok plaintext ∧
          receive c (some id) true .DATA token d = .ok [plaintext] := by
  intro h
  obtain ⟨token, -, hopen, hcalls⟩ := h clear alice _ inbox clear_sound alice_holds rfl (.replicate 32 4)
    (.replicate 16 5) [] (.replicate 32 3) rfl rfl (.inr ⟨.replicate 32 3, by simp [inbox], rfl, by decide⟩)
  rw [receive_eq rfl hopen] at hcalls
  cases hcalls

end MicroReticulum.Destinations
