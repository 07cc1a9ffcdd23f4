import MicroReticulum.MsgPack.Skipping

/-!
# Packing MessagePack

The packers of `MsgPack::detail`, and what the getters make of their output. A
packer picks the shortest form its value fits in; a getter takes every form.
-/

namespace MicroReticulum.MsgPack

open Lib.Cursor

/-- `v` in `k` bytes, the highest first: `put_be16`, `put_be32` and the loops over eight. -/
def putBe : Nat → Nat → Bytes
  | 0, _ => []
  | k + 1, v => .ofNat (v >>> (8 * k)) :: putBe k v

def packNil : Bytes := [0xc0]

def packBool (v : Bool) : Bytes := [if v then 0xc3 else 0xc2]

def packDouble (bits : Nat) : Bytes := 0xcb :: putBe 8 bits

def packUint (v : Nat) : Bytes :=
  if v ≤ 0x7f then [.ofNat v]
  else if v ≤ 0xff then 0xcc :: putBe 1 v
  else if v ≤ 0xffff then 0xcd :: putBe 2 v
  else if v ≤ 0xffffffff then 0xce :: putBe 4 v
  else 0xcf :: putBe 8 v

/-- Casts to the narrower signed types keep the low bytes. -/
def packInt (v : Int) : Bytes :=
  if v ≥ 0 then packUint v.toNat
  else if v ≥ -32 then [.ofNat (0xe0 ||| (v + 32).toNat)]
  else if v ≥ -128 then 0xd0 :: putBe 1 (v % 2 ^ 8).toNat
  else if v ≥ -32768 then 0xd1 :: putBe 2 (v % 2 ^ 16).toNat
  else if v ≥ -2147483648 then 0xd2 :: putBe 4 (v % 2 ^ 32).toNat
  else 0xd3 :: putBe 8 (v % 2 ^ 64).toNat

def packContainerHeader (fix tag16 n : Nat) : Bytes :=
  if n ≤ 15 then [.ofNat (fix ||| n)]
  else if n ≤ 0xffff then .ofNat tag16 :: putBe 2 n
  else .ofNat (tag16 + 1) :: putBe 4 n

def packArrayHeader (n : Nat) : Bytes := packContainerHeader 0x90 0xdc n

def packMapHeader (n : Nat) : Bytes := packContainerHeader 0x80 0xde n

/-- The shortest of three forms with tags in a row, by the length they give. -/
def packLength (tag8 n : Nat) : Bytes :=
  if n ≤ 0xff then .ofNat tag8 :: putBe 1 n
  else if n ≤ 0xffff then .ofNat (tag8 + 1) :: putBe 2 n
  else .ofNat (tag8 + 2) :: putBe 4 n

def packBin (data : Bytes) : Bytes := packLength 0xc4 data.length ++ data

def packStr (s : Bytes) : Bytes :=
  (if s.length ≤ 31 then [.ofNat (0xa0 ||| s.length)] else packLength 0xd9 s.length) ++ s

/-- Throws for what does not fit the one form it writes. -/
def packFixstr (s : Bytes) : Option Bytes :=
  if s.length > 31 then none else some (.ofNat (0xa0 ||| s.length) :: s)

/-- Whatever follows in the buffer, the reader gets the value from the bytes and
consumes just them. -/
def Decodes (r : Reader α) (b : Bytes) (a : α) : Prop :=
  ∀ tail, (b ++ tail).length < SIZE → r (b ++ tail) = .ok true (a, b.length)

variable {b tail : Bytes} {k n t v : Nat} {short : String}

-- ---------------------------------------------------------------------------
-- Numbers in bytes
-- ---------------------------------------------------------------------------

@[simp] theorem length_putBe (k v : Nat) : (putBe k v).length = k := by
  induction k with
  | zero => rfl
  | succ k ih => simp [putBe, ih]

theorem be_cons (x : UInt8) (b : Bytes) : be (x :: b) = x.toNat * 256 ^ b.length + be b := by
  have h : ∀ (b : Bytes) (r : Nat), b.foldl (fun r x => r * 256 + x.toNat) r = r * 256 ^ b.length + be b := by
    intro b
    induction b with
    | nil => simp [be]
    | cons y b ih =>
      intro r
      rw [be, List.foldl_cons, List.foldl_cons, ih, ih, List.length_cons, pow_succ']
      ring
  simpa [be] using h b x.toNat

theorem be_putBe_mod (k v : Nat) : be (putBe k v) = v % 256 ^ k := by
  induction k with
  | zero => simp [putBe, be, Nat.mod_one]
  | succ k ih =>
    have hbyte : (UInt8.ofNat (v >>> (8 * k))).toNat = v / 256 ^ k % 256 := by
      rw [UInt8.toNat_ofNat', Nat.shiftRight_eq_div_pow, pow_mul]
      rfl
    rw [putBe, be_cons, hbyte, length_putBe, ih, Nat.pow_succ, Nat.mod_mul, Nat.mul_comm, Nat.add_comm]

theorem be_putBe (h : v < 256 ^ k) : be (putBe k v) = v := by
  rw [be_putBe_mod, Nat.mod_eq_of_lt h]

@[simp] theorem number_head (x : UInt8) : number (x :: b) 0 1 short = pure x.toNat :=
  number_zero.2 ⟨by simp, rfl⟩

@[simp] theorem number_behind (x : UInt8) (k v : Nat) (tail : Bytes) :
    number (x :: (putBe k v ++ tail)) 1 k short = pure (v % 256 ^ k) := by
  have hk : 1 + k ≤ (x :: (putBe k v ++ tail)).length := by simp; omega
  rw [number, tested_of_le hk]
  simp [be_putBe_mod]

/-- A tag put together from its bits. -/
theorem toNat_ofNat (h : t < 256) : (UInt8.ofNat t).toNat = t := by
  rw [UInt8.toNat_ofNat', Nat.mod_eq_of_lt h]

-- ---------------------------------------------------------------------------
-- Scalars
-- ---------------------------------------------------------------------------

theorem packBool_decodes (v : Bool) : Decodes unpackBool (packBool v) v := by
  intro tail _
  cases v <;> rfl

/-- A slot for a bin takes a nil for an empty one. -/
theorem packNil_decodes : Decodes unpackOne packNil [] := fun _ _ => rfl

theorem packDouble_decodes (h : v < 2 ^ 64) : Decodes unpackDouble (packDouble v) v := by
  intro tail _
  have hlen : 9 ≤ (packDouble v ++ tail).length := by simp [packDouble]
  have htag : be [203] = 203 := rfl
  rw [unpackDouble_eq hlen]
  simp [packDouble, htag, be_putBe (show v < 256 ^ 8 by omega)]

theorem packUint_decodes (h : v < 2 ^ 64) : Decodes unpackUint (packUint v) v := by
  intro tail _
  unfold packUint
  split
  · next h7 =>
    have hlow : v &&& 0x80 = 0 := (low_80 v (by omega)).2 (by omega)
    simp [unpackUint, toNat_ofNat (show v < 256 by omega), hlow]
  · split
    · next h8 =>
      simp [unpackUint, Nat.mod_eq_of_lt (show v < 256 by omega)]
    · split
      · next h16 =>
        simp [unpackUint, Nat.mod_eq_of_lt (show v < 65536 by omega)]
      · split
        · next h32 =>
          simp [unpackUint, Nat.mod_eq_of_lt (show v < 4294967296 by omega)]
        · simp [unpackUint, Nat.mod_eq_of_lt (show v < 18446744073709551616 by omega)]

/-- The low bits of a negative number, read as a signed one. -/
theorem signed_emod (bits : Nat) {v : Int} (hb : 0 < bits) (hv : v < 0) (h : -2 ^ (bits - 1) ≤ v) :
    signed bits (v % 2 ^ bits).toNat = v := by
  have hpow : (2 : Int) ^ bits = 2 * 2 ^ (bits - 1) := by
    rw [← pow_succ', Nat.sub_add_cancel hb]
  have hpos : (0 : Int) < 2 ^ (bits - 1) := by positivity
  have hmod : v % 2 ^ bits = v + 2 ^ bits := by
    rw [← Int.add_emod_right, Int.emod_eq_of_lt (by omega) (by omega)]
  have hcast : ((v % 2 ^ bits).toNat : Int) = v + 2 ^ bits := by
    rw [hmod, Int.toNat_of_nonneg (by omega)]
  have hbig : ¬ (v % 2 ^ bits).toNat < 2 ^ (bits - 1) := by
    intro hlt
    have hlt' : ((v % 2 ^ bits).toNat : Int) < 2 ^ (bits - 1) := by exact_mod_cast hlt
    omega
  rw [signed, if_neg hbig, hcast]
  omega

theorem low_bytes_lt {bits : Nat} (v : Int) : (v % 2 ^ bits).toNat < 2 ^ bits := by
  have hpos : (0 : Int) < 2 ^ bits := by positivity
  have h := Int.emod_lt_of_pos v hpos
  have h0 := Int.emod_nonneg v hpos.ne'
  zify
  rw [Int.toNat_of_nonneg h0]
  exact h

theorem signed_behind (x : UInt8) {v : Int} (hbits : 2 ^ bits = 256 ^ k) :
    number (x :: (putBe k (v % 2 ^ bits).toNat ++ tail)) 1 k short = pure (v % 2 ^ bits).toNat := by
  rw [number_behind, ← hbits, Nat.mod_eq_of_lt (low_bytes_lt v)]

theorem fix_negative : ∀ m < 32, 0xe0 ||| m = 0xe0 + m := by decide

/-- What no signed or floating form begins is read as an unsigned number. -/
theorem unpackNumber_cons {x : UInt8} (hx : x.toNat < 0xca ∨ 0xcb < x.toNat ∧ x.toNat < 0xd0) :
    unpackNumber (x :: b) = (do
      let (v, k) ← unpackUint (x :: b)
      pure (.int v, k)) := by
  have h256 : x.toNat < 256 := x.toNat_lt
  have hhigh : ¬ x.toNat &&& 0xe0 = 0xe0 := by
    rw [high_e0 x.toNat h256]
    omega
  have hne : ∀ t, t = 0xca ∨ t = 0xcb ∨ 0xd0 ≤ t → x.toNat ≠ t := by omega
  simp [unpackNumber, hhigh, hne]

theorem packUint_head (v : Nat) :
    ∃ x b, packUint v = x :: b ∧ (x.toNat < 0xca ∨ 0xcb < x.toNat ∧ x.toNat < 0xd0) := by
  unfold packUint
  split
  · next h => exact ⟨_, _, rfl, .inl (by rw [toNat_ofNat] <;> omega)⟩
  · split
    · exact ⟨_, _, rfl, by decide⟩
    · split
      · exact ⟨_, _, rfl, by decide⟩
      · split <;> exact ⟨_, _, rfl, by decide⟩

theorem packInt_decodes {v : Int} (hl : -2 ^ 63 ≤ v) (hu : v < 2 ^ 63) :
    Decodes unpackNumber (packInt v) (.int v) := by
  intro tail htail
  unfold packInt at htail ⊢
  split
  · next h0 =>
    rw [if_pos h0] at htail
    obtain ⟨x, b, hb, hx⟩ := packUint_head v.toNat
    have hd := packUint_decodes (show v.toNat < 2 ^ 64 by omega) tail htail
    rw [hb] at hd ⊢
    rw [List.cons_append] at hd ⊢
    rw [unpackNumber_cons hx, hd, Read.ok_bind]
    simp [Int.toNat_of_nonneg h0]
  · next h0 =>
    split
    · next h5 =>
      have hm : (v + 32).toNat < 32 := by omega
      have ht : (UInt8.ofNat (0xe0 ||| (v + 32).toNat)).toNat = 0xe0 + (v + 32).toNat := by
        rw [fix_negative _ hm, toNat_ofNat (by omega)]
      have hhigh : 0xe0 + (v + 32).toNat &&& 0xe0 = 0xe0 := (high_e0 _ (by omega)).2 (by omega)
      have hval : signed 8 (0xe0 + (v + 32).toNat) = v := by
        rw [signed, if_neg (by omega)]
        omega
      generalize UInt8.ofNat (0xe0 ||| (v + 32).toNat) = x at ht
      have hne : ∀ t, t < 0xe0 → ¬ 0xe0 + (v + 32).toNat = t := by omega
      simp [unpackNumber, ht, hhigh, hval, hne]
    · split
      · have hn : ∀ s, number (0xd0 :: (putBe 1 (v % 2 ^ 8).toNat ++ tail)) 1 1 s = pure (v % 2 ^ 8).toNat :=
            fun s => signed_behind _ (by decide)
        have hval := signed_emod 8 (v := v) (by decide) (by omega) (by omega)
        generalize (v % 2 ^ 8).toNat = n at hn hval ⊢
        simp [unpackNumber, hn, hval, -number_behind]
      · split
        · have hn : ∀ s, number (0xd1 :: (putBe 2 (v % 2 ^ 16).toNat ++ tail)) 1 2 s = pure (v % 2 ^ 16).toNat :=
              fun s => signed_behind _ (by decide)
          have hval := signed_emod 16 (v := v) (by decide) (by omega) (by omega)
          generalize (v % 2 ^ 16).toNat = n at hn hval ⊢
          simp [unpackNumber, hn, hval, -number_behind]
        · split
          · have hn : ∀ s, number (0xd2 :: (putBe 4 (v % 2 ^ 32).toNat ++ tail)) 1 4 s = pure (v % 2 ^ 32).toNat :=
                fun s => signed_behind _ (by decide)
            have hval := signed_emod 32 (v := v) (by decide) (by omega) (by omega)
            generalize (v % 2 ^ 32).toNat = n at hn hval ⊢
            simp [unpackNumber, hn, hval, -number_behind]
          · have hn : ∀ s, number (0xd3 :: (putBe 8 (v % 2 ^ 64).toNat ++ tail)) 1 8 s = pure (v % 2 ^ 64).toNat :=
                fun s => signed_behind _ (by decide)
            have hval := signed_emod 64 (v := v) (by decide) (by omega) (by omega)
            generalize (v % 2 ^ 64).toNat = n at hn hval ⊢
            simp [unpackNumber, hn, hval, -number_behind]

-- ---------------------------------------------------------------------------
-- Headers and blobs
-- ---------------------------------------------------------------------------

theorem containerHeader_decodes {fix tag16 : Nat} {s₀ s₁ s₂ s₃ : String} (htag : tag16 + 1 < 256)
    (hfix : ∀ m < 16, fix ||| m < 256 ∧ (fix ||| m) &&& 0xf0 = fix ∧ (fix ||| m) &&& 0x0f = m)
    (h16 : tag16 &&& 0xf0 ≠ fix) (h32 : tag16 + 1 &&& 0xf0 ≠ fix) (hn : n < 2 ^ 32) :
    Decodes (containerHeader fix tag16 s₀ s₁ s₂ s₃) (packContainerHeader fix tag16 n) n := by
  intro tail _
  have hlt : tag16 < 256 := Nat.lt_of_succ_lt htag
  unfold packContainerHeader
  split
  · next hsmall =>
    obtain ⟨ht, hhigh, hlow⟩ := hfix n (by omega)
    have hx := toNat_ofNat ht
    generalize UInt8.ofNat (fix ||| n) = x at hx
    simp [containerHeader, hx, hhigh, hlow]
  · split
    · next h =>
      have hx := toNat_ofNat hlt
      generalize UInt8.ofNat tag16 = x at hx
      simp [containerHeader, hx, h16, Nat.mod_eq_of_lt (show n < 65536 by omega)]
    · have hx := toNat_ofNat htag
      generalize UInt8.ofNat (tag16 + 1) = x at hx
      simp [containerHeader, hx, h32, Nat.mod_eq_of_lt (show n < 4294967296 by omega)]

theorem packArrayHeader_decodes (hn : n < 2 ^ 32) : Decodes unpackArrayHeader (packArrayHeader n) n :=
  containerHeader_decodes (by decide) (by decide) (by decide) (by decide) hn

theorem packMapHeader_decodes (hn : n < 2 ^ 32) : Decodes unpackMapHeader (packMapHeader n) n :=
  containerHeader_decodes (by decide) (by decide) (by decide) (by decide) hn

theorem payload_behind (hdr : Bytes) {data tail : Bytes} (h : (hdr ++ (data ++ tail)).length < SIZE) :
    payload hdr.length data.length short (hdr ++ (data ++ tail)) = pure (data, hdr.length + data.length) := by
  simp only [List.length_append] at h
  have hlen : ¬ (hdr ++ (data ++ tail)).length < hdr.length + data.length := by
    simp only [List.length_append]
    omega
  rw [payload, add_of_lt (by omega), Read.pure_bind, if_neg hlen]
  simp [Bytes.mid]

/-- The blob behind a length form of `k` bytes. -/
theorem form_behind (x : UInt8) {data : Bytes} {s' : String} (hk : data.length < 256 ^ k)
    (h : (x :: (putBe k data.length ++ (data ++ tail))).length < SIZE) :
    (number (x :: (putBe k data.length ++ (data ++ tail))) 1 k s' >>= fun len =>
      payload (1 + k) len short (x :: (putBe k data.length ++ (data ++ tail)))) =
        pure (data, (x :: putBe k data.length ++ data).length) := by
  have hp : payload (x :: putBe k data.length).length data.length short _ = _ := payload_behind _ h
  have hlen : (x :: putBe k data.length).length = 1 + k := by simp [Nat.add_comm]
  rw [hlen] at hp
  rw [number_behind, Read.pure_bind, Nat.mod_eq_of_lt hk, List.length_append, hlen]
  exact hp

/-- A blob behind one of the length forms of `f`, whose tags begin at `tag8`. -/
theorem sized_packLength (f : LengthForms) (short : String) {tag8 : Nat} (ht : tag8 + 2 < 256) (h8 : tag8 ∈ f.tags8)
    (h16 : tag8 + 1 ∈ f.tags16) (h16' : tag8 + 1 ∉ f.tags8) (h32 : tag8 + 2 ∈ f.tags32) {data : Bytes}
    (other : Reader Bytes) (h : (packLength tag8 data.length ++ data ++ tail).length < SIZE) :
    ∃ x b, packLength tag8 data.length ++ data ++ tail = x :: b ∧ tag8 ≤ x.toNat ∧ x.toNat ≤ tag8 + 2 ∧
      sized f x.toNat short other (x :: b) = pure (data, (packLength tag8 data.length ++ data).length) := by
  have hn : data.length < 256 ^ 4 := by
    simp only [List.length_append, SIZE] at h
    omega
  have h32' := f.apart _ h32
  rw [List.append_assoc] at h ⊢
  unfold packLength at h ⊢
  split_ifs at h ⊢ with hs hm
  · refine ⟨_, _, rfl, by rw [toNat_ofNat] <;> omega, by rw [toNat_ofNat] <;> omega, ?_⟩
    rw [toNat_ofNat (by omega), sized, if_pos h8]
    exact form_behind _ (by omega) h
  · refine ⟨_, _, rfl, by rw [toNat_ofNat] <;> omega, by rw [toNat_ofNat] <;> omega, ?_⟩
    rw [toNat_ofNat (by omega), sized, if_neg h16', if_pos h16]
    exact form_behind _ (by omega) h
  · refine ⟨_, _, rfl, by rw [toNat_ofNat] <;> omega, by rw [toNat_ofNat] <;> omega, ?_⟩
    rw [toNat_ofNat (by omega), sized, if_neg h32'.1, if_neg h32'.2, if_pos h32]
    exact form_behind _ hn h

theorem packBin_decodes (data : Bytes) : Decodes unpackBin (packBin data) data := by
  intro tail h
  obtain ⟨x, b, heq, -, -, hs⟩ := sized_packLength binForms "MsgPack: short bin payload"
    (by decide) (by decide) (by decide) (by decide) (by decide) (fun _ => .fail "MsgPack: expected bin") h
  rw [packBin, heq, unpackBin, number_head, Read.pure_bind, hs]
  rfl

theorem fix_str : ∀ m < 32, 0xa0 ||| m < 256 ∧ (0xa0 ||| m) &&& 0xe0 = 0xa0 ∧ (0xa0 ||| m) &&& 0x1f = m := by
  decide

/-- The fixstr form, which has its length in the tag. -/
theorem fixstr_behind (short : String) {s : Bytes} (hs : s.length ≤ 31)
    (h : (.ofNat (0xa0 ||| s.length) :: (s ++ tail)).length < SIZE) :
    ∃ x, UInt8.ofNat (0xa0 ||| s.length) = x ∧ x.toNat &&& 0xe0 = 0xa0 ∧
      payload 1 (x.toNat &&& 0x1f) short (x :: (s ++ tail)) = pure (s, (x :: s).length) := by
  obtain ⟨ht, hhigh, hlow⟩ := fix_str s.length (by omega)
  have hx := toNat_ofNat ht
  refine ⟨_, rfl, by rw [hx, hhigh], ?_⟩
  rw [hx, hlow, List.length_cons, Nat.add_comm]
  exact payload_behind [.ofNat (0xa0 ||| s.length)] h

theorem packStr_decodes (s : Bytes) : Decodes unpackStr (packStr s) s := by
  intro tail h
  unfold packStr at h ⊢
  split at h
  · next hs =>
    rw [if_pos hs]
    obtain ⟨x, hx, hhigh, hp⟩ := fixstr_behind "MsgPack: short str payload" hs h
    simp only [List.cons_append, List.nil_append, hx, unpackStr, number_head, Read.pure_bind, hhigh, if_true, hp]
    rfl
  · next hs =>
    rw [if_neg hs]
    obtain ⟨x, b, heq, hl, hu, hf⟩ := sized_packLength strForms "MsgPack: short str payload"
      (by decide) (by decide) (by decide) (by decide) (by decide) (fun _ => .fail "MsgPack: expected str") h
    have hhigh : ¬ x.toNat &&& 0xe0 = 0xa0 := by
      rw [mid_a0 _ x.toNat_lt]
      omega
    rw [heq, unpackStr, number_head, Read.pure_bind, if_neg hhigh, hf]
    rfl

theorem packFixstr_decodes {s : Bytes} (h : packFixstr s = some b) : Decodes unpackStr b s := by
  unfold packFixstr at h
  split at h
  · cases h
  · next hs =>
    have hb : b = packStr s := by
      rw [packStr, if_pos (not_lt.1 hs)]
      exact (Option.some.inj h).symm
    rw [hb]
    exact packStr_decodes s

end MicroReticulum.MsgPack
