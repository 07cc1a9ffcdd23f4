import MicroReticulum.Lib.Rounding
import MicroReticulum.MsgPack.Packing

/-!
# Value trees

Whatever the packers put together, the skipper steps over as one value, and the
getters get back what was packed. Only a signed number is read through a double,
which has room for 53 bits of it.
-/

namespace MicroReticulum.MsgPack

open Lib.Cursor
open Lib.Rounding

-- ---------------------------------------------------------------------------
-- Trees
-- ---------------------------------------------------------------------------

mutual
inductive Value where
  | nil
  | bool (v : Bool)
  | uint (v : Nat)
  | int (v : Int)
  | double (bits : Nat)
  | str (s : Bytes)
  | bin (data : Bytes)
  | array (items : Values)
  | map (entries : Entries)
inductive Values where
  | nil
  | cons (value : Value) (rest : Values)
inductive Entries where
  | nil
  | cons (key value : Value) (rest : Entries)
end

def Values.length : Values → Nat
  | .nil => 0
  | .cons _ rest => rest.length + 1

def Entries.length : Entries → Nat
  | .nil => 0
  | .cons _ _ rest => rest.length + 1

mutual
def Value.pack : Value → Bytes
  | .nil => packNil
  | .bool v => packBool v
  | .uint v => packUint v
  | .int v => packInt v
  | .double bits => packDouble bits
  | .str s => packStr s
  | .bin data => packBin data
  | .array items => packArrayHeader items.length ++ items.pack
  | .map entries => packMapHeader entries.length ++ entries.pack
def Values.pack : Values → Bytes
  | .nil => []
  | .cons value rest => value.pack ++ rest.pack
def Entries.pack : Entries → Bytes
  | .nil => []
  | .cons key value rest => key.pack ++ (value.pack ++ rest.pack)
end

variable {b rest : Bytes} {count k n t : Nat}

-- ---------------------------------------------------------------------------
-- Headers of packed values
-- ---------------------------------------------------------------------------

/-- The bytes are one value, whatever comes behind them. -/
def Whole (b : Bytes) : Prop := ∀ count rest, walk (count + 1) (b ++ rest) = walk count rest

theorem head_cons (x : UInt8) (b : Bytes) : head (x :: b) = headOf x.toNat (x :: b) := by
  simp [head, Bytes.byte]

theorem whole_of_leaf (h : ∀ rest, head (b ++ rest) = .leaf b.length) : Whole b := by
  intro count rest
  rw [walk_leaf (h rest), if_pos (by simp), List.drop_left]

/-- A value of fixed size: its tag says how many bytes come behind. -/
theorem whole_fixed {x : UInt8} {t k : Nat} (hx : x.toNat = t) (hk : b.length = k)
    (h : ∀ b, headOf t b = .leaf (1 + k)) : Whole (x :: b) := by
  refine whole_of_leaf fun rest => ?_
  rw [List.cons_append, head_cons, hx, h, List.length_cons, hk, Nat.add_comm]

theorem counted_behind (x : UInt8) (hn : n < 256 ^ k) (f : Nat → Head) :
    Head.counted (x :: (putBe k n ++ rest)) k f = f n := by
  rw [Head.counted, if_pos (by simp; omega)]
  simp [Bytes.mid, be_putBe hn]

theorem whole_form (x : UInt8) {data : Bytes} (hn : data.length < 256 ^ k)
    (h : ∀ b, headOf x.toNat b = Head.blob b k) : Whole (x :: putBe k data.length ++ data) := by
  refine whole_of_leaf fun rest => ?_
  rw [List.append_assoc, List.cons_append, head_cons, h, Head.blob, counted_behind _ hn]
  simp only [List.length_append, List.length_cons, length_putBe, Nat.add_comm]

theorem whole_length {tag8 : Nat} {data : Bytes} (ht : tag8 + 2 < 256) (hn : data.length < 256 ^ 4)
    (h8 : ∀ b, headOf tag8 b = Head.blob b 1) (h16 : ∀ b, headOf (tag8 + 1) b = Head.blob b 2)
    (h32 : ∀ b, headOf (tag8 + 2) b = Head.blob b 4) : Whole (packLength tag8 data.length ++ data) := by
  unfold packLength
  split
  · refine whole_form _ (by omega) fun b => ?_
    rw [toNat_ofNat (by omega), h8]
  · split
    · refine whole_form _ (by omega) fun b => ?_
      rw [toNat_ofNat (by omega), h16]
    · refine whole_form _ hn fun b => ?_
      rw [toNat_ofNat ht, h32]

theorem packNil_whole : Whole packNil := whole_fixed (b := []) rfl rfl fun _ => rfl

theorem packBool_whole (v : Bool) : Whole (packBool v) := by
  cases v
  · exact whole_fixed (b := []) rfl rfl fun _ => rfl
  · exact whole_fixed (b := []) rfl rfl fun _ => rfl

theorem packDouble_whole (bits : Nat) : Whole (packDouble bits) :=
  whole_fixed rfl (length_putBe 8 bits) fun _ => rfl

theorem packUint_whole (v : Nat) : Whole (packUint v) := by
  unfold packUint
  split
  · next h => exact whole_fixed (b := []) (toNat_ofNat (show v < 256 by omega)) rfl fun b => if_pos (by omega)
  · split
    · exact whole_fixed rfl (length_putBe 1 v) fun _ => rfl
    · split
      · exact whole_fixed rfl (length_putBe 2 v) fun _ => rfl
      · split
        · exact whole_fixed rfl (length_putBe 4 v) fun _ => rfl
        · exact whole_fixed rfl (length_putBe 8 v) fun _ => rfl

theorem packInt_whole (v : Int) : Whole (packInt v) := by
  unfold packInt
  split
  · exact packUint_whole _
  · split
    · next h0 h5 =>
      have hm : (v + 32).toNat < 32 := by omega
      refine whole_fixed (b := []) (t := 0xe0 + (v + 32).toNat) ?_ rfl fun b => headOf_negative (by omega)
      rw [fix_negative _ hm, toNat_ofNat (by omega)]
    · split
      · exact whole_fixed rfl (length_putBe 1 _) fun _ => rfl
      · split
        · exact whole_fixed rfl (length_putBe 2 _) fun _ => rfl
        · split
          · exact whole_fixed rfl (length_putBe 4 _) fun _ => rfl
          · exact whole_fixed rfl (length_putBe 8 _) fun _ => rfl

theorem packBin_whole {data : Bytes} (hn : data.length < 2 ^ 32) : Whole (packBin data) :=
  whole_length (by decide) (by omega) (fun _ => rfl) (fun _ => rfl) fun _ => rfl

theorem packStr_whole {s : Bytes} (hn : s.length < 2 ^ 32) : Whole (packStr s) := by
  unfold packStr
  split
  · next hs =>
    obtain ⟨ht, -, -⟩ := fix_str s.length (by omega)
    have hor : 0xa0 ||| s.length = 0xa0 + s.length := by
      have h : ∀ m < 32, 0xa0 ||| m = 0xa0 + m := by decide
      exact h _ (by omega)
    refine whole_fixed (b := s) (toNat_ofNat ht) rfl fun b => ?_
    rw [hor, headOf_fixstr (by omega) (by omega), Nat.add_sub_cancel_left]
  · exact whole_length (by decide) (by omega) (fun _ => rfl) (fun _ => rfl) fun _ => rfl

-- ---------------------------------------------------------------------------
-- Containers
-- ---------------------------------------------------------------------------

/-- A container's header, with the values it announces still to come. -/
theorem walk_header {fix tag16 each : Nat} (ht : tag16 + 1 < 256)
    (hfix : ∀ m < 16, fix ||| m = fix + m ∧ fix + m < 256)
    (h1 : ∀ m < 16, ∀ b, headOf (fix + m) b = .items 1 (each * m))
    (h2 : ∀ b, headOf tag16 b = Head.elements b 2 each)
    (h3 : ∀ b, headOf (tag16 + 1) b = Head.elements b 4 each) (hn : n < 2 ^ 32) :
    walk (count + 1) (packContainerHeader fix tag16 n ++ rest) = walk (each * n + count) rest := by
  have hwide : ∀ (x : UInt8) (k : Nat), n < 256 ^ k → (∀ b, headOf x.toNat b = Head.elements b k each) →
      walk (count + 1) (x :: putBe k n ++ rest) = walk (each * n + count) rest := by
    intro x k hk h
    have hh : head (x :: putBe k n ++ rest) = .items (1 + k) (each * n) := by
      rw [List.cons_append, head_cons, h, Head.elements, counted_behind _ hk]
    have hlen : (x :: putBe k n).length = 1 + k := by simp [Nat.add_comm]
    rw [walk_items hh, ← hlen, List.drop_left]
  unfold packContainerHeader
  split
  · next hs =>
    obtain ⟨hor, hlt⟩ := hfix n (by omega)
    have hh : head ([UInt8.ofNat (fix ||| n)] ++ rest) = .items 1 (each * n) := by
      rw [List.singleton_append, head_cons, hor, toNat_ofNat hlt, h1 n (by omega)]
    rw [walk_items hh]
    rfl
  · split
    · refine hwide _ 2 (by omega) fun b => ?_
      rw [toNat_ofNat (by omega), h2]
    · refine hwide _ 4 (by omega) fun b => ?_
      rw [toNat_ofNat ht, h3]

theorem walk_arrayHeader (hn : n < 2 ^ 32) :
    walk (count + 1) (packArrayHeader n ++ rest) = walk (n + count) rest := by
  have h : walk (count + 1) (packArrayHeader n ++ rest) = walk (1 * n + count) rest := by
    refine walk_header (by decide) (by decide) (fun m hm b => ?_) (fun _ => rfl) (fun _ => rfl) hn
    rw [headOf_fixarray (by omega) (by omega), Nat.add_sub_cancel_left, Nat.one_mul]
  rw [Nat.one_mul] at h
  exact h

theorem walk_mapHeader (hn : n < 2 ^ 32) :
    walk (count + 1) (packMapHeader n ++ rest) = walk (2 * n + count) rest := by
  refine walk_header (by decide) (by decide) (fun m hm b => ?_) (fun _ => rfl) (fun _ => rfl) hn
  rw [headOf_fixmap (by omega) (by omega), Nat.add_sub_cancel_left]

-- ---------------------------------------------------------------------------
-- Trees are whole
-- ---------------------------------------------------------------------------

theorem Whole.pos (h : Whole b) : 0 < b.length := by
  by_contra hn
  have hb : b = [] := List.length_eq_zero_iff.1 (by omega)
  have hw := h 0 []
  rw [hb, List.append_nil, walk_zero, walk_malformed (head_nil rfl)] at hw
  cases hw

mutual
/-- By the tree: a container's header sends the walk through its members. -/
theorem Value.whole : ∀ v : Value, v.pack.length < SIZE → Whole v.pack
  | .nil, _ => packNil_whole
  | .bool v, _ => packBool_whole v
  | .uint v, _ => packUint_whole v
  | .int v, _ => packInt_whole v
  | .double bits, _ => packDouble_whole bits
  | .str s, h => packStr_whole (by simp only [Value.pack, packStr, List.length_append, SIZE] at h; omega)
  | .bin data, h => packBin_whole (by simp only [Value.pack, packBin, List.length_append, SIZE] at h; omega)
  | .array items, h => by
    intro count rest
    simp only [Value.pack, List.length_append] at h
    have hitems := Values.walk_pack items (by omega)
    rw [Value.pack, List.append_assoc, walk_arrayHeader (by simp only [SIZE] at h; omega), hitems.2]
  | .map entries, h => by
    intro count rest
    simp only [Value.pack, List.length_append] at h
    have hentries := Entries.walk_pack entries (by omega)
    rw [Value.pack, List.append_assoc, walk_mapHeader (by simp only [SIZE] at h; omega), hentries.2]
theorem Values.walk_pack : ∀ vs : Values, vs.pack.length < SIZE →
    vs.length ≤ vs.pack.length ∧ ∀ count rest, walk (vs.length + count) (vs.pack ++ rest) = walk count rest
  | .nil, _ => ⟨le_rfl, fun count rest => by simp [Values.length, Values.pack]⟩
  | .cons value vs, h => by
    simp only [Values.pack, List.length_append] at h ⊢
    have hv := Value.whole value (by omega)
    obtain ⟨hlen, hvs⟩ := Values.walk_pack vs (by omega)
    refine ⟨by have := hv.pos; simp only [Values.length]; omega, fun count rest => ?_⟩
    rw [Values.length, List.append_assoc, Nat.add_right_comm, hv, hvs]
theorem Entries.walk_pack : ∀ es : Entries, es.pack.length < SIZE →
    es.length ≤ es.pack.length ∧ ∀ count rest, walk (2 * es.length + count) (es.pack ++ rest) = walk count rest
  | .nil, _ => ⟨le_rfl, fun count rest => by simp [Entries.length, Entries.pack]⟩
  | .cons key value es, h => by
    simp only [Entries.pack, List.length_append] at h ⊢
    have hk := Value.whole key (by omega)
    have hv := Value.whole value (by omega)
    obtain ⟨hlen, hes⟩ := Entries.walk_pack es (by omega)
    refine ⟨by have := hk.pos; simp only [Entries.length]; omega, fun count rest => ?_⟩
    have hcount : 2 * (es.length + 1) + count = 2 * es.length + count + 1 + 1 := by omega
    rw [Entries.length, hcount, List.append_assoc, List.append_assoc, hk, hv, hes]
end

theorem Whole.skips (h : Whole b) : Decodes skipValue b () := by
  intro tail hlen
  refine (skipValue_agrees hlen).ok_iff.2 ⟨h.pos, by simp, ?_⟩
  rw [show walk 1 (b ++ tail) = walk 0 tail from h 0 tail, walk_zero, List.drop_left]

-- ---------------------------------------------------------------------------
-- What was packed, read back
-- ---------------------------------------------------------------------------

/-- `static_cast<double>` of a 64-bit integer. -/
def toDouble (v : Int) : Int := v.sign * roundEven 53 v.natAbs

/-- The double a number arrives as, of the integer forms. -/
def Number.integral : Number → Option Int
  | .int v => some (toDouble v)
  | _ => none

theorem toDouble_eq_iff (v : Int) : toDouble v = v ↔ Significant 53 v.natAbs := by
  rw [← roundEven_eq_iff]
  rcases lt_trichotomy v 0 with h | rfl | h
  · rw [toDouble, Int.sign_eq_neg_one_of_neg h]
    omega
  · simp [toDouble, roundEven_eq]
  · rw [toDouble, Int.sign_eq_one_of_pos h]
    omega

theorem toDouble_nearest (v : Int) {d : Int} (hd : Significant 53 d.natAbs) :
    (toDouble v - v).natAbs ≤ (d - v).natAbs := by
  have hnear := roundEven_nearest (m := v.natAbs) hd
  have hzero := roundEven_nearest (m := v.natAbs) (d := 0) (p := 53) ⟨0, 0, by decide, rfl⟩
  rcases lt_trichotomy v 0 with h | rfl | h
  · rw [toDouble, Int.sign_eq_neg_one_of_neg h]
    omega
  · simp [toDouble]
  · rw [toDouble, Int.sign_eq_one_of_pos h]
    omega

/-- Every packer and its getter, and the skipper over whole trees. -/
structure ReadBack : Prop where
  uint : ∀ v < 2 ^ 64, Decodes unpackUint (packUint v) v
  natural : ∀ v : Int, 0 ≤ v → v < 2 ^ 63 → Decodes unpackUint (packInt v) v.toNat
  int : ∀ v : Int, -2 ^ 63 ≤ v → v < 2 ^ 63 →
    ∃ x, Decodes unpackNumber (packInt v) x ∧ x.integral = some (toDouble v)
  exact : ∀ v : Int, toDouble v = v ↔ Significant 53 v.natAbs
  nearest : ∀ v d : Int, Significant 53 d.natAbs → (toDouble v - v).natAbs ≤ (d - v).natAbs
  double : ∀ bits < 2 ^ 64, Decodes unpackDouble (packDouble bits) bits
  str : ∀ s, Decodes unpackStr (packStr s) s
  fixstr : ∀ s b, packFixstr s = some b → Decodes unpackStr b s
  bin : ∀ data, Decodes unpackBin (packBin data) data
  bool : ∀ v, Decodes unpackBool (packBool v) v
  nil : Decodes unpackOne packNil []
  arrayHeader : ∀ n < 2 ^ 32, Decodes unpackArrayHeader (packArrayHeader n) n
  mapHeader : ∀ n < 2 ^ 32, Decodes unpackMapHeader (packMapHeader n) n
  skip : ∀ v : Value, Decodes skipValue v.pack ()

theorem packed_read_back : ReadBack where
  uint _ h := packUint_decodes h
  natural v h0 h := by
    rw [packInt, if_pos h0]
    exact packUint_decodes (by omega)
  int v hl hu := ⟨.int v, packInt_decodes hl hu, rfl⟩
  exact := toDouble_eq_iff
  nearest v _ hd := toDouble_nearest v hd
  double _ h := packDouble_decodes h
  str := packStr_decodes
  fixstr _ _ h := packFixstr_decodes h
  bin := packBin_decodes
  bool := packBool_decodes
  nil := packNil_decodes
  arrayHeader _ h := packArrayHeader_decodes h
  mapHeader _ h := packMapHeader_decodes h
  skip v tail h := (v.whole (by simp only [List.length_append] at h; omega)).skips tail h

/-- A signed number with 54 significant bits comes back as another, and no other
getter takes it. -/
theorem negative_rounded :
    unpackNumber (packInt (-9007199254740993)) = .ok true (.int (-9007199254740993), 9) ∧
      (Number.int (-9007199254740993)).integral = some (-9007199254740992) ∧
      unpackUint (packInt (-9007199254740993)) = .fail "MsgPack: expected uint" ∧
      ¬ ∀ v : Int, -2 ^ 63 ≤ v → v < 2 ^ 63 →
        ∃ x, Decodes unpackNumber (packInt v) x ∧ x.integral = some v := by
  have hread : unpackNumber (packInt (-9007199254740993)) = .ok true (.int (-9007199254740993), 9) := by
    decide +kernel
  have hdouble : (Number.int (-9007199254740993)).integral = some (-9007199254740992) := by decide +kernel
  refine ⟨hread, hdouble, by decide +kernel, fun h => ?_⟩
  obtain ⟨x, hx, hv⟩ := h (-9007199254740993) (by decide) (by decide)
  have hx' := hx [] (by decide +kernel)
  rw [List.append_nil, hread] at hx'
  obtain ⟨rfl, -⟩ := Prod.mk.inj (Read.ok.inj hx').2
  rw [hdouble] at hv
  exact absurd hv (by decide)

end MicroReticulum.MsgPack
