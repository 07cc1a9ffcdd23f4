import MicroReticulum.Bytes

/-!
# Interface access codes

`Transport::transmit` on an interface with an access code signs the frame, puts
the end of the signature behind the first two bytes, and masks everything but
the code with a mask derived from it. `Transport::inbound` undoes that. The two
say in their own terms which bytes are masked; the first byte's top bit is the
flag, forced on after masking and cleared on the way in.
-/

namespace MicroReticulum.Ifac

def SIGLENGTH : Nat := 64

/-- What an Ed25519 identity does, as far as the codec knows. -/
structure Signer where
  sign : Bytes → Bytes
  length_sign : ∀ message, (sign message).length = SIGLENGTH

/-- `Cryptography::hkdf` without a context; it may throw. -/
structure Kdf where
  hkdf : Nat → Bytes → Bytes → Option Bytes
  length_hkdf : ∀ length deriveFrom salt mask, hkdf length deriveFrom salt = some mask → mask.length = length

/-- An interface as `derive_ifac` leaves it, which caps the size of the code. -/
structure Interface where
  ifacSize : Nat
  ifacKey : Bytes
  ifacIdentity : Signer
  kdf : Kdf
  ifacSize_pos : 1 ≤ ifacSize
  ifacSize_le : ifacSize ≤ SIGLENGTH

-- ---------------------------------------------------------------------------
-- The source
-- ---------------------------------------------------------------------------

/-- The loops over a frame and its mask. -/
def masked (byte : Nat → UInt8 → UInt8 → UInt8) (frame mask : Bytes) : Bytes :=
  frame.mapIdx fun i b => byte i b (mask.getD i 0)

def maskByte (ifacSize i : Nat) (b m : UInt8) : UInt8 :=
  if i = 0 then (b ^^^ m) ||| 0x80
  else if i = 1 ∨ i > ifacSize + 1 then b ^^^ m
  else b

def unmaskByte (ifacSize i : Nat) (b m : UInt8) : UInt8 :=
  if i ≤ 1 ∨ i > ifacSize + 1 then b ^^^ m else b

/-- The code of a frame: the end of its signature. -/
def Interface.code (i : Interface) (raw : Bytes) : Bytes := (i.ifacIdentity.sign raw).right i.ifacSize

/-- What `transmit` hands to `send_outgoing`, unless it throws. -/
def transmit : Option Interface → Bytes → Option Bytes
  | none, raw => some raw
  | some i, raw =>
    let ifac := i.code raw
    match i.kdf.hkdf (raw.length + i.ifacSize) ifac i.ifacKey, raw with
    | some mask, b₀ :: b₁ :: rest => some (masked (maskByte i.ifacSize) ((b₀ ||| 0x80) :: b₁ :: (ifac ++ rest)) mask)
    | _, _ => none

def flagged (raw : Bytes) : Prop := raw.getD 0 0 &&& 0x80 = 0x80

instance (raw : Bytes) : Decidable (flagged raw) := inferInstanceAs (Decidable (_ = _))

/-- `[unmasked[0] & 0x7f, unmasked[1]] + unmasked[2+ifac_size:]` -/
def stripped (ifacSize : Nat) (unmasked : Bytes) : Bytes :=
  (unmasked.getD 0 0 &&& 0x7f) :: unmasked.getD 1 0 :: unmasked.drop (2 + ifacSize)

/-- The frame `inbound` goes on with, if it does. -/
def inbound (interface : Option Interface) (raw : Bytes) : Option Bytes :=
  if 2 < raw.length then
    match interface with
    | some i =>
      if flagged raw then
        if 2 + i.ifacSize < raw.length then
          let ifac := raw.mid 2 i.ifacSize
          match i.kdf.hkdf raw.length ifac i.ifacKey with
          | none => none
          | some mask =>
            let newRaw := stripped i.ifacSize (masked (unmaskByte i.ifacSize) raw mask)
            if ifac = i.code newRaw then some newRaw else none
        else none
      else none
    | none => if flagged raw then none else some raw
  else none

-- ---------------------------------------------------------------------------
-- One byte
-- ---------------------------------------------------------------------------

variable {b m w : UInt8} {size : Nat} {i : Interface} {raw wire ifac rest mask mask₂ : Bytes}

theorem flag_iff (b : UInt8) : b &&& 0x80 = 0x80 ↔ b.toBitVec.getLsbD 7 = true := by
  constructor
  · intro h
    have hbit := congrArg (fun x => x.toBitVec.getLsbD 7) h
    simpa using hbit
  · intro h
    apply UInt8.toBitVec_inj.1
    ext i hi
    simp only [UInt8.toBitVec_and, BitVec.getElem_and]
    interval_cases i <;> simp_all

theorem unmask_mask (hb : ¬ b &&& 0x80 = 0x80) : ((((b ||| 0x80) ^^^ m) ||| 0x80) ^^^ m) &&& 0x7f = b := by
  rw [flag_iff] at hb
  apply UInt8.toBitVec_inj.1
  ext i hi
  simp
  interval_cases i <;> simp_all

theorem mask_unmask (hw : w &&& 0x80 = 0x80) : (((((w ^^^ m) &&& 0x7f) ||| 0x80) ^^^ m) ||| 0x80) = w := by
  rw [flag_iff] at hw
  apply UInt8.toBitVec_inj.1
  ext i hi
  simp
  interval_cases i <;> simp_all

theorem flagged_or (b : UInt8) : (b ||| 0x80) &&& 0x80 = 0x80 := by
  rw [flag_iff]
  simp

theorem xor_xor (b m : UInt8) : b ^^^ m ^^^ m = b := by
  rw [UInt8.xor_assoc, UInt8.xor_self, UInt8.xor_zero]

-- ---------------------------------------------------------------------------
-- A frame and its mask
-- ---------------------------------------------------------------------------

def xored (frame mask : Bytes) : Bytes := masked (fun _ b m => b ^^^ m) frame mask

/-- A byte of the frame behind its first is masked unless it is the code's. -/
structure Masks (size : Nat) (byte : Nat → UInt8 → UInt8 → UInt8) : Prop where
  second : ∀ b m, byte 1 b m = b ^^^ m
  code : ∀ i b m, i < size → byte (2 + i) b m = b
  payload : ∀ i b m, byte (2 + size + i) b m = b ^^^ m

theorem maskByte_masks (size : Nat) : Masks size (maskByte size) where
  second := fun _ _ => rfl
  code := fun i b m hi => by
    rw [maskByte, if_neg (by omega), if_neg (by omega)]
  payload := fun i b m => by
    rw [maskByte, if_neg (by omega), if_pos (.inr (by omega))]

theorem unmaskByte_masks (size : Nat) : Masks size (unmaskByte size) where
  second := fun _ _ => rfl
  code := fun i b m hi => by
    rw [unmaskByte, if_neg (by omega)]
  payload := fun i b m => by
    rw [unmaskByte, if_pos (.inr (by omega))]

theorem length_masked (byte : Nat → UInt8 → UInt8 → UInt8) (frame mask : Bytes) :
    (masked byte frame mask).length = frame.length := by
  simp [masked]

theorem xored_xored (frame mask : Bytes) : xored (xored frame mask) mask = frame := by
  rw [xored, xored, masked, masked, List.mapIdx_mapIdx]
  apply List.ext_getElem?
  intro i
  rw [List.getElem?_mapIdx]
  cases frame[i]? with
  | none => rfl
  | some b => simp [xor_xor]

/-- Two bytes, the code as it is, and the rest masked. -/
theorem masked_layout {byte : Nat → UInt8 → UInt8 → UInt8} (hb : Masks size byte) (b₀ b₁ : UInt8)
    (hcode : ifac.length = size) :
    masked byte (b₀ :: b₁ :: (ifac ++ rest)) mask =
      byte 0 b₀ (mask.getD 0 0) :: (b₁ ^^^ mask.getD 1 0) :: (ifac ++ xored rest (mask.drop (2 + size))) := by
  rw [masked, List.mapIdx_cons, List.mapIdx_cons, List.mapIdx_append, ← hb.second b₁]
  have hkeep : (ifac.mapIdx fun i b => byte (i + 1 + 1) b (mask.getD (i + 1 + 1) 0)) = ifac := by
    apply List.ext_getElem?
    intro i
    rw [List.getElem?_mapIdx]
    cases hi : ifac[i]? with
    | none => rfl
    | some b =>
      have hlt := (List.getElem?_eq_some_iff.1 hi).1
      rw [Option.map_some, show i + 1 + 1 = 2 + i by omega, hb.code i b _ (by omega)]
  have hrest : (rest.mapIdx fun i b => byte (i + ifac.length + 1 + 1) b (mask.getD (i + ifac.length + 1 + 1) 0)) =
      xored rest (mask.drop (2 + size)) := by
    rw [xored, masked]
    congr 1
    funext i b
    rw [show i + ifac.length + 1 + 1 = 2 + size + i by omega, hb.payload]
    simp [List.getD_eq_getElem?_getD]
  rw [hkeep, hrest]

theorem length_code (i : Interface) (raw : Bytes) : (i.code raw).length = i.ifacSize := by
  have h := i.ifacSize_le
  rw [Interface.code, Bytes.right, List.length_drop, i.ifacIdentity.length_sign]
  omega

-- ---------------------------------------------------------------------------
-- Both directions
-- ---------------------------------------------------------------------------

/-- The two bytes, the code and the masked rest that make up the transmit image. -/
theorem transmit_eq_some :
    transmit (some i) raw = some wire ↔
      ∃ b₀ b₁ rest mask, raw = b₀ :: b₁ :: rest ∧
        i.kdf.hkdf (raw.length + i.ifacSize) (i.code raw) i.ifacKey = some mask ∧
        wire = (((b₀ ||| 0x80) ^^^ mask.getD 0 0) ||| 0x80) :: (b₁ ^^^ mask.getD 1 0) ::
          (i.code raw ++ xored rest (mask.drop (2 + i.ifacSize))) := by
  have himage : ∀ b₀ b₁ rest mask, masked (maskByte i.ifacSize) ((b₀ ||| 0x80) :: b₁ :: (i.code raw ++ rest)) mask =
      (((b₀ ||| 0x80) ^^^ mask.getD 0 0) ||| 0x80) :: (b₁ ^^^ mask.getD 1 0) ::
        (i.code raw ++ xored rest (mask.drop (2 + i.ifacSize))) := fun b₀ b₁ rest mask =>
    masked_layout (maskByte_masks i.ifacSize) (b₀ ||| 0x80) b₁ (length_code i raw)
  constructor
  · intro h
    simp only [transmit] at h
    obtain _ | ⟨b₀, _ | ⟨b₁, rest⟩⟩ := raw
    · split at h <;> simp_all
    · split at h <;> simp_all
    · cases hk : i.kdf.hkdf ((b₀ :: b₁ :: rest).length + i.ifacSize) (i.code (b₀ :: b₁ :: rest)) i.ifacKey with
      | none =>
        rw [hk] at h
        cases h
      | some mask =>
        rw [hk] at h
        exact ⟨b₀, b₁, rest, mask, rfl, rfl, (Option.some.inj h).symm.trans (himage b₀ b₁ rest mask)⟩
  · rintro ⟨b₀, b₁, rest, mask, rfl, hk, rfl⟩
    simp only [transmit, hk]
    rw [himage b₀ b₁ rest mask]

theorem inbound_layout (w₀ w₁ : UInt8) (rest mask : Bytes) (hcode : ifac.length = i.ifacSize) :
    stripped i.ifacSize (masked (unmaskByte i.ifacSize) (w₀ :: w₁ :: (ifac ++ rest)) mask) =
      ((w₀ ^^^ mask.getD 0 0) &&& 0x7f) :: (w₁ ^^^ mask.getD 1 0) :: xored rest (mask.drop (2 + i.ifacSize)) := by
  rw [masked_layout (unmaskByte_masks i.ifacSize) w₀ w₁ hcode, stripped, Nat.add_comm 2]
  simp [unmaskByte, List.drop_left' hcode]

/-- What is accepted is laid out like a transmit image, and has the code of the
frame it is taken for. -/
theorem inbound_eq_some :
    inbound (some i) wire = some raw ↔
      ∃ w₀ w₁ ifac rest mask, wire = w₀ :: w₁ :: (ifac ++ rest) ∧ ifac.length = i.ifacSize ∧ rest ≠ [] ∧
        w₀ &&& 0x80 = 0x80 ∧ i.kdf.hkdf wire.length ifac i.ifacKey = some mask ∧
        raw = ((w₀ ^^^ mask.getD 0 0) &&& 0x7f) :: (w₁ ^^^ mask.getD 1 0) ::
          xored rest (mask.drop (2 + i.ifacSize)) ∧
        ifac = i.code raw := by
  constructor
  · intro h
    obtain _ | ⟨w₀, _ | ⟨w₁, tail⟩⟩ := wire
    · cases h
    · cases h
    · simp only [inbound] at h
      split_ifs at h with hlong hflag hroom
      have hsplit : tail = tail.take i.ifacSize ++ tail.drop i.ifacSize := (List.take_append_drop _ _).symm
      simp only [List.length_cons] at hroom
      have hlen : (tail.take i.ifacSize).length = i.ifacSize := by
        rw [List.length_take]
        omega
      have hmid : Bytes.mid (w₀ :: w₁ :: tail) 2 i.ifacSize = tail.take i.ifacSize := rfl
      rw [hmid] at h
      cases hk : i.kdf.hkdf (w₀ :: w₁ :: tail).length (tail.take i.ifacSize) i.ifacKey with
      | none =>
        rw [hk] at h
        cases h
      | some mask =>
        rw [hk] at h
        simp only at h
        have hlayout := inbound_layout w₀ w₁ (tail.drop i.ifacSize) mask hlen
        rw [← hsplit] at hlayout
        rw [hlayout] at h
        split_ifs at h with hcode
        cases h
        refine ⟨w₀, w₁, _, _, mask, by rw [← hsplit], hlen, ?_, hflag, hk, rfl, hcode⟩
        rw [ne_eq, List.drop_eq_nil_iff]
        omega
  · rintro ⟨w₀, w₁, ifac, rest, mask, rfl, hlen, hrest, hflag, hk, hraw, hcode⟩
    have hlayout := inbound_layout w₀ w₁ rest mask hlen
    have hroom := List.length_pos_iff.2 hrest
    have hflagged : flagged (w₀ :: w₁ :: (ifac ++ rest)) := hflag
    have hmid : Bytes.mid (w₀ :: w₁ :: (ifac ++ rest)) 2 i.ifacSize = ifac := List.take_left' hlen
    have hlong : 2 + i.ifacSize < (w₀ :: w₁ :: (ifac ++ rest)).length := by
      simp only [List.length_cons, List.length_append]
      omega
    rw [inbound, if_pos (by omega)]
    simp only [if_pos hflagged, if_pos hlong, hmid, hk]
    rw [hlayout, ← hraw, if_pos hcode]

theorem length_xored (frame mask : Bytes) : (xored frame mask).length = frame.length := length_masked _ _ _

theorem inbound_transmit (hlong : 2 < raw.length) (hflag : ¬ flagged raw) (h : transmit (some i) raw = some wire) :
    inbound (some i) wire = some raw := by
  obtain ⟨b₀, b₁, rest, mask, rfl, hk, rfl⟩ := transmit_eq_some.1 h
  have hcode := length_code i (b₀ :: b₁ :: rest)
  refine inbound_eq_some.2 ⟨_, _, i.code (b₀ :: b₁ :: rest), xored rest (mask.drop (2 + i.ifacSize)), mask, rfl, hcode,
    ?_, flagged_or _, ?_, ?_, rfl⟩
  · rw [← List.length_pos_iff, length_xored]
    simpa using hlong
  · rw [← hk]
    simp only [List.length_cons, List.length_append, hcode, length_xored]
    congr 1
    omega
  · have hflag : ¬ b₀ &&& 0x80 = 0x80 := hflag
    rw [unmask_mask hflag, xor_xor, xored_xored]

theorem transmit_inbound (h : inbound (some i) wire = some raw) : transmit (some i) raw = some wire := by
  obtain ⟨w₀, w₁, ifac, rest, mask, rfl, hlen, -, hflag, hk, rfl, hcode⟩ := inbound_eq_some.1 h
  refine transmit_eq_some.2 ⟨_, _, _, mask, rfl, ?_, ?_⟩
  · rw [← hcode, ← hk]
    simp only [List.length_cons, List.length_append, hlen, length_xored]
    congr 1
    omega
  · rw [mask_unmask hflag, xor_xor, xored_xored, ← hcode]

theorem inbound_flag (interface : Option Interface) (h : inbound interface wire = some raw) :
    flagged wire ↔ interface.isSome := by
  cases interface with
  | some i =>
    obtain ⟨w₀, w₁, ifac, rest, mask, rfl, -, -, hflag, -⟩ := inbound_eq_some.1 h
    exact iff_of_true hflag rfl
  | none =>
    simp only [inbound] at h
    split_ifs at h with hlong hflag
    exact iff_of_false hflag (by simp)

theorem transmit_isSome (hlong : 2 < raw.length)
    (hk : (i.kdf.hkdf (raw.length + i.ifacSize) (i.code raw) i.ifacKey).isSome) :
    ∃ wire, transmit (some i) raw = some wire := by
  obtain ⟨mask, hk⟩ := Option.isSome_iff_exists.1 hk
  obtain _ | ⟨b₀, _ | ⟨b₁, rest⟩⟩ := raw
  · simp at hlong
  · simp at hlong
  · exact ⟨_, transmit_eq_some.2 ⟨b₀, b₁, rest, mask, rfl, hk, rfl⟩⟩

/-- Frames of more than two bytes go through an access code and back, nothing but
transmit images is accepted, and an interface accepts flagged frames exactly
where it has a code. -/
theorem ifac_codec (i : Interface) :
    (∀ raw, 2 < raw.length → ¬ flagged raw →
      (i.kdf.hkdf (raw.length + i.ifacSize) (i.code raw) i.ifacKey).isSome →
        ∃ wire, transmit (some i) raw = some wire ∧ inbound (some i) wire = some raw) ∧
    (∀ wire raw, inbound (some i) wire = some raw → transmit (some i) raw = some wire) ∧
    ∀ interface wire raw, inbound interface wire = some raw → (flagged wire ↔ interface.isSome) := by
  refine ⟨?_, fun wire raw => transmit_inbound, fun interface wire raw => inbound_flag interface⟩
  intro raw hlong hflag hk
  obtain ⟨wire, hwire⟩ := transmit_isSome hlong hk
  exact ⟨wire, hwire, inbound_transmit hlong hflag hwire⟩

/-- An interface whose signatures and masks are easy to follow. -/
def plain : Interface where
  ifacSize := 8
  ifacKey := []
  ifacIdentity := ⟨fun message => .replicate SIGLENGTH (message.getD 2 0), fun _ => List.length_replicate⟩
  kdf := ⟨fun length _ _ => some (.replicate length 0x5a), fun _ _ _ _ h => by cases h; exact List.length_replicate⟩
  ifacSize_pos := by decide
  ifacSize_le := by decide

theorem ifac_codec_plain :
    ∃ wire, transmit (some plain) [8, 0, 1] = some wire ∧ inbound (some plain) wire = some [8, 0, 1] :=
  (ifac_codec plain).1 [8, 0, 1] (by decide) (by decide) (by decide)

/-- Nothing would be left behind the code of a frame of two bytes: its image is dropped. -/
theorem two_bytes_dropped :
    ¬ ∀ (i : Interface) (raw wire : Bytes), ¬ flagged raw → transmit (some i) raw = some wire →
      inbound (some i) wire = some raw := by
  intro h
  have hdropped := h plain [8, 0] _ (by decide) rfl
  exact absurd hdropped (by decide)

end MicroReticulum.Ifac
