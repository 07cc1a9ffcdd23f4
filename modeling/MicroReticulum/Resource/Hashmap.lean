import MicroReticulum.Resource.Frames

/-!
# The map of a resource arrives in order

The receiver knows a front part of the map that ends with a segment, and asks
for more by its last hash. Every update on its way is a segment that starts
inside what the receiver knows. The sender looks the hash up by its first
place in the map, which is the one meant if no two parts share a hash.
-/

namespace MicroReticulum.Resource

open Lib (Outcome)
open Lib.Blocks
open Lib.Cursor
open Lib.Runs
open MsgPack (SIZE ResourceAdvertisement Decodes At)

-- ---------------------------------------------------------------------------
-- The sender's map
-- ---------------------------------------------------------------------------

/-- The map hashes of a resource's parts. -/
def Offer.hashes (c : Codec) (o : Offer) : List Bytes := o.parts.map (c.mapHash o.randomHash)

/-- An offer as `_init_outbound` makes it. -/
structure Offer.Made (c : Codec) (o : Offer) : Prop where
  hash : o.hash.length = HASH_SIZE
  randomHash : o.randomHash.length = RANDOM_HASH_SIZE
  hashmap : o.hashmap = (o.hashes c).flatten
  parts : ∀ part ∈ o.parts, part ≠ []
  totalParts : o.totalParts < SIZE
  packed : o.advertisement.pack.length < SIZE

namespace Offer

variable {c : Codec} {o : Offer} {k i : Nat} {mh : Bytes}

theorem hashes_even (c : Codec) (o : Offer) : Even MAPHASH_LEN (o.hashes c) := by
  intro x hx
  obtain ⟨part, -, rfl⟩ := List.mem_map.1 hx
  exact c.length_mapHash ..

@[simp] theorem length_hashes : (o.hashes c).length = o.totalParts := by simp [hashes, totalParts]

theorem Made.length_hashmap (h : o.Made c) : o.hashmap.length = o.totalParts * MAPHASH_LEN := by
  rw [h.hashmap, length_flatten (hashes_even c o), length_hashes]

theorem Made.hashAt (h : o.Made c) (hi : i < (o.hashes c).length) : o.hashAt i = (o.hashes c)[i] := by
  rw [Offer.hashAt, h.hashmap]
  exact block_flatten (hashes_even c o) hi

theorem Made.found (h : o.Made c) (hi : i < o.totalParts) :
    (i + 1) * MAPHASH_LEN ≤ o.hashmap.length ∧ o.hashAt i = mh ↔ (o.hashes c)[i]? = some mh := by
  have hlen : i < (o.hashes c).length := by rwa [length_hashes]
  rw [h.hashAt hlen, List.getElem?_eq_getElem hlen, Option.some_inj, and_iff_right]
  rw [h.length_hashmap]
  exact Nat.mul_le_mul_right _ hi

/-- The search finds the first place of a hash in the map. -/
theorem Made.partIndex_eq_some (h : o.Made c) {index : Nat} :
    o.partIndex mh = some index ↔
      ∃ i, index = i + 1 ∧ (o.hashes c)[i]? = some mh ∧ ∀ j < i, (o.hashes c)[j]? ≠ some mh := by
  have hlt : ∀ {i}, (o.hashes c)[i]? = some mh → i < o.totalParts := fun hi =>
    length_hashes (c := c) ▸ (List.getElem?_eq_some_iff.1 hi).1
  simp only [partIndex, Option.map_eq_some_iff, List.find?_range_eq_some, List.mem_range, decide_eq_true_iff,
    Bool.not_eq_true', decide_eq_false_iff_not]
  constructor
  · rintro ⟨i, ⟨hi, hn, hfirst⟩, rfl⟩
    exact ⟨i, rfl, (h.found hn).1 hi, fun j hj he => hfirst j hj ((h.found (hj.trans hn)).2 he)⟩
  · rintro ⟨i, rfl, hi, hfirst⟩
    have hn := hlt hi
    exact ⟨i, ⟨(h.found hn).2 hi, hn, fun j hj he => hfirst j hj ((h.found (hj.trans hn)).1 he)⟩, rfl⟩

/-- A hash of the map is found there, or before. -/
theorem Made.partIndex_le (h : o.Made c) {index : Nat} (hi : (o.hashes c)[i]? = some mh)
    (hp : o.partIndex mh = some index) : 0 < index ∧ index ≤ i + 1 := by
  obtain ⟨j, rfl, -, hfirst⟩ := h.partIndex_eq_some.1 hp
  refine ⟨Nat.succ_pos j, ?_⟩
  by_contra hlt
  exact hfirst i (by omega) hi

/-- If no two parts share a hash, each is found where it is. -/
theorem Made.partIndex_of_nodup (h : o.Made c) (hd : (o.hashes c).Nodup) (hi : (o.hashes c)[i]? = some mh) :
    o.partIndex mh = some (i + 1) := by
  refine h.partIndex_eq_some.2 ⟨i, rfl, hi, fun j hj he => ?_⟩
  have hlt := (List.getElem?_eq_some_iff.1 hi).1
  exact hj.ne ((List.getElem?_inj (hj.trans hlt) hd).1 (he.trans hi.symm))

-- ---------------------------------------------------------------------------
-- A segment on the wire
-- ---------------------------------------------------------------------------

/-- The hashes of a segment. -/
def segment (c : Codec) (o : Offer) (k : Nat) : List Bytes :=
  ((o.hashes c).drop (k * HASHMAP_MAX_LEN)).take HASHMAP_MAX_LEN

theorem Made.packHmu (h : o.Made c) (hk : k * HASHMAP_MAX_LEN < o.totalParts) :
    o.packHmu k = o.hash ++ (MsgPack.packArrayHeader 2 ++ (MsgPack.packUint k ++
      MsgPack.packBin (o.segment c k).flatten)) := by
  have hpos : 0 < HASHMAP_MAX_LEN := by decide
  have hnext : (k + 1) * HASHMAP_MAX_LEN = k * HASHMAP_MAX_LEN + HASHMAP_MAX_LEN := Nat.succ_mul ..
  have hfits : min ((k + 1) * HASHMAP_MAX_LEN) o.totalParts * MAPHASH_LEN ≤ o.hashmap.length := by
    rw [h.length_hashmap]
    exact Nat.mul_le_mul_right _ (min_le_right _ _)
  rw [Offer.packHmu, if_pos ⟨lt_min (by omega) hk, hfits⟩, h.hashmap, Bytes.mid, drop_flatten (hashes_even c o),
    take_flatten (hashes_even c o).drop, segment]
  have hlen : ((o.hashes c).drop (k * HASHMAP_MAX_LEN)).length = o.totalParts - k * HASHMAP_MAX_LEN := by simp
  have htake : ((o.hashes c).drop (k * HASHMAP_MAX_LEN)).take
      (min ((k + 1) * HASHMAP_MAX_LEN) o.totalParts - k * HASHMAP_MAX_LEN) =
        ((o.hashes c).drop (k * HASHMAP_MAX_LEN)).take HASHMAP_MAX_LEN := by
    rw [List.take_eq_take_iff, hlen]
    omega
  rw [htake]

end Offer

theorem length_packUint_le (v : Nat) : (MsgPack.packUint v).length ≤ 9 := by
  unfold MsgPack.packUint
  split
  · simp
  · split
    · simp
    · split
      · simp
      · split <;> simp

theorem length_packBin_le (b : Bytes) : (MsgPack.packBin b).length ≤ b.length + 5 := by
  unfold MsgPack.packBin MsgPack.packLength
  split
  · simp; omega
  · split <;> simp <;> omega

/-- What a hashmap update says of itself. -/
theorem readHmu_packed {k : Nat} {hm : Bytes} (hk : k < 2 ^ 64)
    (hs : (MsgPack.packArrayHeader 2 ++ (MsgPack.packUint k ++ MsgPack.packBin hm)).length < SIZE) :
    Incoming.readHmu (MsgPack.packArrayHeader 2 ++ (MsgPack.packUint k ++ MsgPack.packBin hm)) =
      .ok true (some (k, hm)) := by
  have hhead := MsgPack.packArrayHeader_decodes (n := 2) (by decide) _ hs
  obtain ⟨-, hat⟩ := At.consume (MsgPack.packArrayHeader_decodes (n := 2) (by decide)) (At.start _) hs
  obtain ⟨hseg, hat⟩ := hat.consume (MsgPack.packUint_decodes hk) hs
  have hbin := hat.consume_last (MsgPack.packBin_decodes hm) hs
  rw [Nat.zero_add] at hseg hbin
  rw [Incoming.readHmu, hhead, Read.ok_bind]
  dsimp only
  rw [if_neg (by decide), hseg, Read.ok_bind]
  dsimp only
  rw [hbin, Read.ok_bind]
  rfl

namespace Offer

variable {c : Codec} {o : Offer} {k : Nat}

theorem Made.segment_lt (m : o.Made c) (hn : k * HASHMAP_MAX_LEN < o.totalParts) : k < SIZE :=
  (Nat.le_mul_of_pos_right k (by decide)).trans_lt (hn.trans m.totalParts)

theorem Made.readHmu (m : o.Made c) (hn : k * HASHMAP_MAX_LEN < o.totalParts) :
    Incoming.readHmu ((o.packHmu k).drop HASH_SIZE) = .ok true (some (k, (o.segment c k).flatten)) := by
  have hkn := m.segment_lt hn
  have heven : Even MAPHASH_LEN (o.segment c k) := ((hashes_even c o).drop).take
  rw [m.packHmu hn, List.drop_left' m.hash]
  refine readHmu_packed (by simp only [SIZE] at hkn; omega) ?_
  have hu := length_packUint_le k
  have hb := length_packBin_le (o.segment c k).flatten
  have hl : (o.segment c k).length ≤ HASHMAP_MAX_LEN := by simp [segment]
  have hm : (o.segment c k).flatten.length ≤ 74 * 4 := by
    rw [length_flatten heven]
    exact Nat.mul_le_mul_right _ hl
  have ha : (MsgPack.packArrayHeader 2).length = 1 := rfl
  simp only [List.length_append, ha, SIZE]
  omega

end Offer

-- ---------------------------------------------------------------------------
-- Where segments end
-- ---------------------------------------------------------------------------

/-- The end of a map of `n` hashes, or of one of its segments. -/
def SegmentEnd (n h : Nat) : Prop := h = n ∨ 0 < h ∧ h % HASHMAP_MAX_LEN = 0

/-- Where the `k`-th segment of a map of `n` hashes ends. -/
def segmentStop (n k : Nat) : Nat := k * HASHMAP_MAX_LEN + min HASHMAP_MAX_LEN (n - k * HASHMAP_MAX_LEN)

theorem segment_end (n k : Nat) (hk : k * HASHMAP_MAX_LEN < n) : SegmentEnd n (segmentStop n k) := by
  have hpos : 0 < HASHMAP_MAX_LEN := by decide
  unfold segmentStop
  rcases le_total HASHMAP_MAX_LEN (n - k * HASHMAP_MAX_LEN) with hs | hs
  · rw [min_eq_left hs]
    exact .inr ⟨by omega, by simp⟩
  · rw [min_eq_right hs]
    exact .inl (by omega)

-- ---------------------------------------------------------------------------
-- The receiver's map
-- ---------------------------------------------------------------------------

namespace Incoming

variable {hs mhs : List Bytes} {h i idx : Nat} {d d' : Incoming} {P : Event → Prop}

/-- The first `h` hashes are known, and no others. -/
structure Knows (hs : List Bytes) (h : Nat) (d : Incoming) : Prop where
  totalParts : d.totalParts = hs.length
  height : d.hashmapHeight = h
  le : h ≤ hs.length
  mapHashes : d.mapHashes = (hs.take h).map some ++ List.replicate (hs.length - h) none

theorem Knows.getD_of_lt (k : d.Knows hs h) (hi : i < h) : d.mapHashes.getD i none = hs[i]? := by
  have hle := k.le
  rw [k.mapHashes, List.getD_eq_getElem?_getD, List.getElem?_append_left (by simp; omega), List.getElem?_map,
    List.getElem?_take_of_lt hi, List.getElem?_eq_getElem (by omega)]
  rfl

theorem Knows.getD_of_le (k : d.Knows hs h) (hi : h ≤ i) : d.mapHashes.getD i none = none := by
  have hle := k.le
  rw [k.mapHashes, List.getD_eq_getElem?_getD, List.getElem?_append_right (by simp; omega), List.getElem?_replicate]
  split <;> rfl

theorem Speaks.knows (s : Speaks P d d') (k : d.Knows hs h) : d'.Knows hs h where
  totalParts := by rw [s.advertised, k.totalParts]
  height := by rw [s.hashmapHeight, k.height]
  le := k.le
  mapHashes := by rw [s.mapHashes, k.mapHashes]

/-- The next hash goes behind the known ones. -/
theorem Knows.set (k : d.Knows hs h) {mh : Bytes} (hh : hs[h]? = some mh) :
    Knows hs (h + 1) { d with
      mapHashes := d.mapHashes.set h (some mh), hashmapHeight := max d.hashmapHeight (h + 1) } := by
  obtain ⟨hlt, hget⟩ := List.getElem?_eq_some_iff.1 hh
  refine ⟨k.totalParts, by simp [k.height], hlt, ?_⟩
  show d.mapHashes.set h (some mh) = _
  have hrest : hs.length - h = hs.length - (h + 1) + 1 := by omega
  rw [k.mapHashes, List.set_append_right _ _ (by simp), List.length_map, List.length_take_of_le hlt.le, Nat.sub_self,
    hrest, List.replicate_succ, List.set_cons_zero, List.take_add_one, hh, List.map_append, List.append_assoc]
  rfl

theorem store_knows (k : d.Knows hs h) (hidx : idx ≤ h) (hpre : mhs <+: hs.drop idx) :
    (d.store mhs idx).Knows hs (max h (idx + mhs.length)) := by
  induction mhs generalizing d h idx with
  | nil => simpa [store, hidx] using k
  | cons mh mhs ih =>
    obtain ⟨rest, hdrop⟩ := hpre
    have hh : hs[idx]? = some mh := by
      rw [← List.head?_drop, ← hdrop]
      rfl
    have hlt := (List.getElem?_eq_some_iff.1 hh).1
    have hrest : mhs <+: hs.drop (idx + 1) := ⟨rest, by rw [← List.tail_drop, ← hdrop]; rfl⟩
    rw [store, if_neg (by rw [k.totalParts]; omega)]
    rcases hidx.lt_or_eq with hi | rfl
    · rw [if_pos (by rw [k.getD_of_lt hi, hh]; rfl)]
      have := ih k hi hrest
      rwa [List.length_cons, Nat.add_comm mhs.length, ← Nat.add_assoc]
    · rw [if_neg (by rw [k.getD_of_le le_rfl]; simp)]
      have := ih (k.set hh) le_rfl hrest
      rw [List.length_cons]
      convert this using 1
      omega

theorem Knows.lastKnown (k : d.Knows hs h) (hpos : 0 < h) : some d.lastKnown = hs[h - 1]? := by
  rw [Incoming.lastKnown, if_pos (by rw [k.height]; exact hpos), k.height, k.getD_of_lt (by omega)]
  have hle := k.le
  rw [List.getElem?_eq_getElem (by omega)]
  rfl

-- ---------------------------------------------------------------------------
-- A receiver of an offer
-- ---------------------------------------------------------------------------

/-- A request for more of the map, from a receiver that knew whole segments. -/
def Asked (c : Codec) (o : Offer) (h : Nat) (data : Bytes) : Prop :=
  data.byte 0 = HASHMAP_IS_EXHAUSTED.toNat → ∃ k, 0 < k ∧ k * HASHMAP_MAX_LEN < o.totalParts ∧
    k * HASHMAP_MAX_LEN ≤ h ∧ (o.hashes c)[k * HASHMAP_MAX_LEN - 1]? = some (data.mid 1 MAPHASH_LEN)

/-- An object made for an advertisement of the offer. -/
structure Follows (c : Codec) (o : Offer) (d : Incoming) : Prop where
  hash : d.hash = o.hash
  randomHash : d.randomHash = o.randomHash
  knows : d.Knows (o.hashes c) d.hashmapHeight
  ends : SegmentEnd o.totalParts d.hashmapHeight
  requests : ∀ data, .sent (.request data) ∈ d.log → Asked c o d.hashmapHeight data
  length_parts : d.parts.length = o.totalParts
  slots : ∀ i, d.parts.getD i [] ≠ [] → i < d.hashmapHeight ∧
    d.parts.getD i [] ∈ o.parts ∧ (o.hashes c)[i]? = some (c.mapHash o.randomHash (d.parts.getD i []))

variable {c : Codec} {o : Offer} {env : Env} {data part : Bytes}

theorem Asked.mono {h' : Nat} (ha : Asked c o h data) (hle : h ≤ h') : Asked c o h' data := by
  intro he
  obtain ⟨k, hpos, hn, hk, hmh⟩ := ha he
  exact ⟨k, hpos, hn, hk.trans hle, hmh⟩

/-- Where the map ends short of the last part, it ends with a segment. -/
theorem Follows.asked (f : Follows c o d) (ha : Asks d (.sent (.request data))) : Asked c o d.hashmapHeight data := by
  intro he
  cases ha with
  | parts => exact absurd he (by simp [packRequest, Bytes.byte, HASHMAP_IS_EXHAUSTED, HASHMAP_IS_NOT_EXHAUSTED])
  | @exhausted requested pn hpn hmh =>
    have hle : d.hashmapHeight ≤ pn := by
      by_contra hlt
      rw [f.knows.getD_of_lt (not_le.1 hlt), List.getElem?_eq_none_iff] at hmh
      have := f.knows.totalParts
      omega
    have hn : d.totalParts = o.totalParts := by rw [f.knows.totalParts, Offer.length_hashes]
    obtain ⟨hpos, hmod⟩ := f.ends.resolve_left (by omega)
    have hmul : d.hashmapHeight / HASHMAP_MAX_LEN * HASHMAP_MAX_LEN = d.hashmapHeight :=
      Nat.div_mul_cancel (Nat.dvd_of_mod_eq_zero hmod)
    have hlast := f.knows.lastKnown hpos
    have hlen : d.lastKnown.length = MAPHASH_LEN :=
      Offer.hashes_even c o _ (List.mem_of_getElem? hlast.symm)
    refine ⟨d.hashmapHeight / HASHMAP_MAX_LEN, ?_, by omega, hmul.le, ?_⟩
    · exact Nat.div_pos (Nat.le_of_dvd hpos (Nat.dvd_of_mod_eq_zero hmod)) (by decide)
    · rw [hmul, ← hlast]
      show _ = some (((HASHMAP_IS_EXHAUSTED :: d.lastKnown ++ _).drop 1).take MAPHASH_LEN)
      rw [List.cons_append, List.drop_one, List.tail_cons, List.take_left' hlen]

theorem Follows.adds (f : Follows c o d) (ha : Adds (Receives d) d.log d'.log) (hh : d.hashmapHeight ≤ d'.hashmapHeight) :
    ∀ data, .sent (.request data) ∈ d'.log → Asked c o d'.hashmapHeight data := by
  intro data hm
  rcases ha.mem hm with hm | hr
  · exact (f.requests data hm).mono hh
  · cases hr with
    | asks hr => exact (f.asked hr).mono hh

theorem Speaks.follows (s : Speaks (Receives d) d d') (f : Follows c o d) : Follows c o d' where
  hash := by rw [s.advertised, f.hash]
  randomHash := by rw [s.advertised, f.randomHash]
  knows := by
    rw [s.hashmapHeight]
    exact s.knows f.knows
  ends := by rw [s.hashmapHeight]; exact f.ends
  requests := f.adds s.log s.hashmapHeight.ge
  length_parts := by rw [s.parts, f.length_parts]
  slots := by
    rw [s.parts, s.hashmapHeight]
    exact f.slots

theorem Takes.follows (t : Takes c part d d') (f : Follows c o d) (hp : part ∈ o.parts) : Follows c o d' where
  hash := by rw [t.advertised, f.hash]
  randomHash := by rw [t.advertised, f.randomHash]
  knows := ⟨by rw [t.advertised, f.knows.totalParts], rfl, by rw [t.hashmapHeight]; exact f.knows.le,
    by rw [t.mapHashes, t.hashmapHeight, ← f.knows.mapHashes]⟩
  ends := by rw [t.hashmapHeight]; exact f.ends
  requests := f.adds t.log t.hashmapHeight.ge
  length_parts := by
    rcases t.parts with h | ⟨i, -, -, -, h⟩
    · rw [h, f.length_parts]
    · rw [h, List.length_set, f.length_parts]
  slots := by
    rw [t.hashmapHeight]
    rcases t.parts with h | ⟨i, hlt, hmh, -, h⟩
    · rw [h]
      exact f.slots
    · intro j hj
      rw [h] at hj ⊢
      by_cases hij : i = j
      · subst hij
        have hget : (d.parts.set i part).getD i [] = part := by
          have hlen : i < d.parts.length := by
            rw [f.length_parts, ← Offer.length_hashes (c := c), ← f.knows.totalParts]
            exact hlt
          simp [List.getD_eq_getElem?_getD, hlen]
        rw [hget, ← f.randomHash]
        rcases lt_or_ge i d.hashmapHeight with hi | hi
        · exact ⟨hi, hp, by rw [← f.knows.getD_of_lt hi, hmh]⟩
        · rw [f.knows.getD_of_le hi] at hmh
          cases hmh
      · have hget : (d.parts.set i part).getD j [] = d.parts.getD j [] := by
          simp [List.getD_eq_getElem?_getD, hij]
        rw [hget] at hj ⊢
        exact f.slots j hj

/-- What was stored changes the map only. -/
theorem store_keeps (mhs : List Bytes) (idx : Nat) :
    (d.store mhs idx).toAdvertised = d.toAdvertised ∧ (d.store mhs idx).parts = d.parts ∧
      (d.store mhs idx).log = d.log := by
  induction mhs generalizing d idx with
  | nil => exact ⟨rfl, rfl, rfl⟩
  | cons mh mhs ih =>
    unfold store
    split
    · exact ⟨rfl, rfl, rfl⟩
    · split
      · exact ih (idx + 1)
      · exact ih (idx + 1)

theorem Follows.store (f : Follows c o d) {k : Nat} (hk : k * HASHMAP_MAX_LEN ≤ d.hashmapHeight)
    (hn : k * HASHMAP_MAX_LEN < o.totalParts) :
    Follows c o (d.store (o.segment c k) (k * HASHMAP_MAX_LEN)) ∧
      (d.store (o.segment c k) (k * HASHMAP_MAX_LEN)).hashmapHeight =
        max d.hashmapHeight (segmentStop o.totalParts k) := by
  have hknows : (d.store (o.segment c k) (k * HASHMAP_MAX_LEN)).Knows (o.hashes c)
      (max d.hashmapHeight (k * HASHMAP_MAX_LEN + (o.segment c k).length)) :=
    store_knows f.knows hk (List.take_prefix HASHMAP_MAX_LEN _)
  obtain ⟨hadv, hparts, hlog⟩ := store_keeps (d := d) (o.segment c k) (k * HASHMAP_MAX_LEN)
  have hlen : (o.segment c k).length = min HASHMAP_MAX_LEN (o.totalParts - k * HASHMAP_MAX_LEN) := by
    simp [Offer.segment]
  rw [hlen] at hknows
  have hheight : (d.store (o.segment c k) (k * HASHMAP_MAX_LEN)).hashmapHeight =
      max d.hashmapHeight (segmentStop o.totalParts k) := hknows.height
  have hle : d.hashmapHeight ≤ (d.store (o.segment c k) (k * HASHMAP_MAX_LEN)).hashmapHeight :=
    hheight ▸ le_max_left _ _
  refine ⟨⟨by rw [hadv, f.hash], by rw [hadv, f.randomHash], ?_, ?_, ?_, by rw [hparts, f.length_parts], ?_⟩, hheight⟩
  · rw [hheight]
    exact hknows
  · rw [hheight]
    rcases max_choice d.hashmapHeight (segmentStop o.totalParts k) with h | h
    · rw [h]
      exact f.ends
    · rw [h]
      exact segment_end o.totalParts k hn
  · rw [hlog]
    exact fun data hm => (f.requests data hm).mono hle
  · rw [hparts]
    exact fun i hi => ⟨(f.slots i hi).1.trans_le hle, (f.slots i hi).2⟩

/-- An update that starts inside the known map. -/
theorem Follows.hashmapUpdatePacket (f : Follows c o d) (m : o.Made c) {k : Nat}
    (hk : k * HASHMAP_MAX_LEN ≤ d.hashmapHeight) (hn : k * HASHMAP_MAX_LEN < o.totalParts) :
    (d.hashmapUpdatePacket env (o.packHmu k)).Leaves fun d' => Follows c o d' ∧
      d.hashmapHeight ≤ d'.hashmapHeight ∧ d'.hashmapHeight ≤ max d.hashmapHeight (segmentStop o.totalParts k) := by
  have hsize := m.totalParts
  have hkn := m.segment_lt hn
  have heven : Even MAPHASH_LEN (o.segment c k) := ((Offer.hashes_even c o).drop).take
  have hread := m.readHmu hn
  unfold Incoming.hashmapUpdatePacket
  split
  · exact Outcome.leaves_done.2 ⟨f, le_rfl, le_max_left _ _⟩
  · extract_lets e
    rw [hread]
    have he : Speaks (Receives d) d e := ⟨rfl, rfl, rfl, rfl, .refl⟩
    have hidx : k % SIZE * HASHMAP_MAX_LEN % SIZE = k * HASHMAP_MAX_LEN := by
      rw [Nat.mod_eq_of_lt hkn, Nat.mod_eq_of_lt (hn.trans hsize)]
    have hblocks : hashesIn (o.segment c k).flatten = o.segment c k := blocks_flatten (by decide) heven
    dsimp only
    rw [hidx, hblocks]
    obtain ⟨hf, hheight⟩ := (he.follows f).store hk hn
    generalize e.store (o.segment c k) (k * HASHMAP_MAX_LEN) = g at hf hheight ⊢
    have hg : Speaks (Receives g) g { g with waitingHmu := false } := ⟨rfl, rfl, rfl, rfl, .refl⟩
    refine Outcome.Leaves.mono requestWindow_speaks fun d' h => ⟨(h.mono fun _ => .asks).follows (hg.follows hf), ?_⟩
    have hh : d'.hashmapHeight = max d.hashmapHeight (segmentStop o.totalParts k) := h.hashmapHeight.trans hheight
    exact ⟨hh ▸ le_max_left _ _, hh.le⟩

/-- The first segment comes with the advertisement. -/
theorem ofAdvertisement_follows (m : o.Made c) {requestId : Bytes} {concludedCallback progressCallback : Bool} :
    Follows c o (ofAdvertisement env o.advertisement.withFlags requestId concludedCallback progressCallback) ∧
      (ofAdvertisement env o.advertisement.withFlags requestId concludedCallback progressCallback).hashmapHeight =
        min o.totalParts HASHMAP_MAX_LEN := by
  have hn : o.totalParts % 2 ^ 32 = o.totalParts := Nat.mod_eq_of_lt m.totalParts
  have hm : hashesIn o.advertisement.m = (o.hashes c).take (min o.totalParts HASHMAP_MAX_LEN) := by
    show hashesIn (o.hashmap.take _) = _
    rw [m.hashmap, take_flatten (Offer.hashes_even c o), hashesIn,
      blocks_flatten (by decide) (Offer.hashes_even c o).take]
  have hlen : (hashesIn o.advertisement.m).length = min o.totalParts HASHMAP_MAX_LEN := by
    rw [hm]
    simp
  have hheight : (ofAdvertisement env o.advertisement.withFlags requestId concludedCallback
      progressCallback).hashmapHeight = min o.totalParts HASHMAP_MAX_LEN := by
    show min (hashesIn o.advertisement.m).length (o.totalParts % 2 ^ 32) = _
    rw [hlen, hn]
    exact min_eq_left (min_le_left _ _)
  refine ⟨⟨List.take_of_length_le m.hash.le, List.take_of_length_le m.randomHash.le, ?_, ?_, ?_, ?_, ?_⟩, hheight⟩
  · rw [hheight]
    refine ⟨hn.trans Offer.length_hashes.symm, hheight, by simp, ?_⟩
    show ((hashesIn o.advertisement.m).take (o.totalParts % 2 ^ 32)).map some ++
      List.replicate (o.totalParts % 2 ^ 32 - (hashesIn o.advertisement.m).length) none = _
    rw [hn, hlen, hm, Offer.length_hashes, List.take_take, min_eq_right (min_le_left _ _)]
  · rw [hheight]
    rcases min_choice o.totalParts HASHMAP_MAX_LEN with h | h
    · exact .inl h
    · rw [h]
      exact .inr (by decide)
  · intro data hd
    cases hd
  · exact (List.length_replicate ..).trans hn
  · intro i hi
    refine absurd ?_ hi
    show (List.replicate _ []).getD i [] = []
    rw [List.getD_eq_getElem?_getD, List.getElem?_replicate]
    split <;> rfl

/-- The first request goes out as soon as the advertisement is in. -/
theorem accept_follows (m : o.Made c) {requestId : Bytes} {concludedCallback progressCallback : Bool}
    {r : Outcome Incoming}
    (h : accept env o.advertisement.withFlags requestId concludedCallback progressCallback = some r) :
    r.Leaves fun d => Follows c o d ∧ d.hashmapHeight = min o.totalParts HASHMAP_MAX_LEN := by
  unfold accept at h
  split at h
  · cases h
  · obtain rfl := Option.some.inj h
    refine Outcome.Leaves.mono requestWindow_speaks fun d' h => ?_
    obtain ⟨hf, hheight⟩ := ofAdvertisement_follows m
    exact ⟨(h.mono fun _ => .asks).follows hf, h.hashmapHeight.trans hheight⟩

end Incoming

-- ---------------------------------------------------------------------------
-- Transfers
-- ---------------------------------------------------------------------------

theorem Offer.advertisement_sized (o : Offer) : o.advertisement.Sized where
  t := Nat.mod_lt _ (by decide)
  d := Nat.mod_lt _ (by decide)
  n := Nat.mod_lt _ (by decide)
  i := (by decide : 1 < 2 ^ 32)
  l := (by decide : 1 < 2 ^ 32)
  f := o.flags.toByte_lt

/-- An advertisement is far smaller than what a size can count. -/
theorem Offer.length_pack {o : Offer} (hh : o.hash.length = HASH_SIZE) (hr : o.randomHash.length = RANDOM_HASH_SIZE)
    (hq : o.requestId.length ≤ Reticulum.MTU) : o.advertisement.pack.length < SIZE := by
  have hkey : ∀ key, (ResourceAdvertisement.packKey key).length = 2 := fun _ => rfl
  have hnil : (ResourceAdvertisement.packBinOrNil o.requestId).length ≤ o.requestId.length + 5 := by
    unfold ResourceAdvertisement.packBinOrNil
    split
    · simp [MsgPack.packNil]
    · exact length_packBin_le _
  have hm : o.advertisement.m.length ≤ 74 * 4 := by
    have hle : min o.totalParts HASHMAP_MAX_LEN * MAPHASH_LEN ≤ 74 * 4 :=
      Nat.mul_le_mul_right _ (min_le_right _ _)
    exact (List.length_take_le ..).trans hle
  have hu := length_packUint_le
  have hb := length_packBin_le
  have h11 : (MsgPack.packMapHeader 11).length = 1 := rfl
  simp only [ResourceAdvertisement.pack, ResourceAdvertisement.packMembers, ResourceAdvertisement.members,
    List.flatMap_cons, List.flatMap_nil, List.length_append, List.length_nil, hkey, h11]
  have ht := hu o.advertisement.t
  have hd := hu o.advertisement.d
  have hn := hu o.advertisement.n
  have hi := hu o.advertisement.i
  have hl := hu o.advertisement.l
  have hf := hu o.advertisement.f
  have hbh := hb o.advertisement.h
  have hbr := hb o.advertisement.r
  have hbo := hb o.advertisement.o
  have hbm := hb o.advertisement.m
  change _ ≤ o.hash.length + 5 at hbh hbo
  change _ ≤ o.randomHash.length + 5 at hbr
  change (ResourceAdvertisement.packBinOrNil o.advertisement.q).length ≤ _ at hnil
  simp only [HASH_SIZE, RANDOM_HASH_SIZE, Reticulum.MTU, SIZE] at *
  omega

/-- `_init_outbound` makes an honest offer. -/
theorem Outgoing.ofSource_made (c : Codec) (env : Env) (src : Outgoing.Source) :
    (Outgoing.ofSource c env src).toOffer.Made c where
  hash := c.length_fullHash _
  randomHash := src.length_randomHash
  hashmap := List.flatMap_def
  parts _ hp := ne_nil_of_mem_pieces src.sdu_pos hp
  totalParts := (length_pieces_le src.sdu_pos).trans_lt src.sized
  packed := Offer.length_pack (c.length_fullHash _) src.length_randomHash src.length_requestId

namespace Transfer

variable {c : Codec} {o : Offer} {limit : Nat} {s : Transfer} {env : Env}

/-- A height no map gets past: its end, or the end of a segment whose last hash
stands in the map before. -/
def Limit (c : Codec) (o : Offer) (limit : Nat) : Prop :=
  o.totalParts ≤ limit ∨ limit < o.totalParts ∧ limit % HASHMAP_MAX_LEN = 0 ∧
    ∃ j, j + 1 < limit ∧ (o.hashes c)[j]? = (o.hashes c)[limit - 1]?

/-- What the sender may have said to a receiver. -/
def Honest (c : Codec) (o : Offer) (limit : Nat) (receiver : Option Incoming) : Event → Prop
  | .sent (.advertisement packed) => packed = o.advertisement.pack
  | .sent (.part part) => part ∈ o.parts
  | .sent (.hashmapUpdate data) => ∃ k r, receiver = some r ∧ data = o.packHmu k ∧
    k * HASHMAP_MAX_LEN < o.totalParts ∧ k * HASHMAP_MAX_LEN ≤ r.hashmapHeight ∧
    segmentStop o.totalParts k ≤ limit
  | .sequencingError => ¬ (o.hashes c).Nodup
  | _ => True

structure Inv (c : Codec) (o : Offer) (limit : Nat) (s : Transfer) : Prop where
  offer : s.sender.toOffer = o
  said : ∀ e ∈ s.sender.log, Honest c o limit s.receiver e
  receiver : ∀ r, s.receiver = some r → r.Follows c o ∧ r.hashmapHeight ≤ limit
  down : s.down = false

theorem Inv.setSender {P : Event → Prop} (h : Inv c o limit s) {out : Outcome Outgoing} (ho : out.Leaves (Outgoing.Speaks P s.sender))
    (hp : ∀ e, P e → Honest c o limit s.receiver e) : Inv c o limit (s.setSender out) := by
  obtain ⟨d, hd, hs⟩ := ho
  rw [Transfer.setSender, hd]
  exact ⟨hs.offer.trans h.offer, fun e he => (hs.log.mem he).elim (h.said e) (hp e), h.receiver, h.down⟩

theorem Honest.mono {r r' : Incoming} (hle : r.hashmapHeight ≤ r'.hashmapHeight) {e : Event}
    (he : Honest c o limit (some r) e) : Honest c o limit (some r') e := by
  unfold Honest at he ⊢
  split
  · exact he
  · exact he
  · obtain ⟨k, r₁, hr, hd, hn, hk, hlimit⟩ := he
    obtain rfl := Option.some.inj hr
    exact ⟨k, r', rfl, hd, hn, hk.trans hle, hlimit⟩
  · exact he
  · trivial

/-- Before there is a receiver nothing of the map has been asked for. -/
theorem Honest.of_none {r : Option Incoming} {e : Event} (he : Honest c o limit none e) : Honest c o limit r e := by
  unfold Honest at he ⊢
  split
  · exact he
  · exact he
  · obtain ⟨k, r₁, hr, -⟩ := he
    cases hr
  · exact he
  · trivial

theorem Inv.onReceiver (h : Inv c o limit s) {f : Incoming → Outcome Incoming}
    (hf : ∀ r, s.receiver = some r → r.Follows c o → r.hashmapHeight ≤ limit → (f r).Leaves fun r' =>
      r'.Follows c o ∧ r.hashmapHeight ≤ r'.hashmapHeight ∧ r'.hashmapHeight ≤ limit) :
    Inv c o limit (s.onReceiver f) := by
  unfold Transfer.onReceiver
  split
  · next r hr =>
    obtain ⟨r', hr', hfollows, hle, hlimit⟩ := hf r hr (h.receiver r hr).1 (h.receiver r hr).2
    rw [Transfer.setReceiver, hr']
    refine ⟨h.offer, fun e he => ?_, fun r'' hr'' => Option.some.inj hr'' ▸ ⟨hfollows, hlimit⟩, h.down⟩
    have hsaid := h.said e he
    rw [hr] at hsaid
    exact hsaid.mono hle
  · exact h

theorem Inv.speaks (h : Inv c o limit s) {f : Incoming → Outcome Incoming}
    (hf : ∀ r, (f r).Leaves (Incoming.Speaks (Incoming.Receives r) r)) : Inv c o limit (s.onReceiver f) :=
  h.onReceiver fun r _ hr hlimit => Outcome.Leaves.mono (hf r) fun _ hs =>
    ⟨hs.follows hr, hs.hashmapHeight.ge, hs.hashmapHeight.le.trans hlimit⟩

theorem Inv.toReceiver (h : Inv c o limit s) (m : o.Made c) {w : Wire} (hw : .sent w ∈ s.sender.log) :
    Inv c o limit (s.toReceiver c env w) := by
  have hsaid := h.said _ hw
  unfold Transfer.toReceiver
  split
  · refine h.onReceiver fun r hr hf hle => ?_
    obtain ⟨k, r₁, hr₁, rfl, hn, hk, hstop⟩ := hsaid
    obtain rfl := Option.some.inj (hr.symm.trans hr₁)
    split
    · exact Outcome.Leaves.mono (hf.hashmapUpdatePacket m hk hn) fun r' hr' =>
        ⟨hr'.1, hr'.2.1, hr'.2.2.trans (max_le hle hstop)⟩
    · exact Outcome.leaves_done.2 ⟨hf, le_rfl, hle⟩
  · refine h.onReceiver fun r hr hf hle => ?_
    exact Outcome.Leaves.mono (Incoming.receivePart_takes c env r _) fun r' ht =>
      ⟨ht.follows hf hsaid, ht.hashmapHeight.ge, ht.hashmapHeight.le.trans hle⟩
  · refine h.speaks fun r => ?_
    split
    · exact Incoming.cancel_speaks .concluded
    · exact Outcome.leaves_done.2 .refl
  · exact h

/-- What the receiver has asked for. -/
theorem Inv.asked (h : Inv c o limit s) {data : Bytes} (hd : .sent (.request data) ∈ s.receiverLog) :
    ∃ r, s.receiver = some r ∧ r.hashmapHeight ≤ limit ∧ Incoming.Asked c o r.hashmapHeight data := by
  unfold receiverLog at hd
  cases hr : s.receiver with
  | none => simp [hr] at hd
  | some r =>
    rw [hr] at hd
    obtain ⟨hf, hle⟩ := h.receiver r hr
    exact ⟨r, rfl, hle, hf.requests data hd⟩

/-- A segment that starts at a hash's first place ends inside the limit. -/
theorem Limit.stop (hl : Limit c o limit) (m : o.Made c) {index k : Nat} {mh : Bytes} (hle : index ≤ limit)
    (hi : o.partIndex mh = some index) (hk : k * HASHMAP_MAX_LEN = index) : segmentStop o.totalParts k ≤ limit := by
  obtain ⟨i, rfl, hmh, hfirst⟩ := m.partIndex_eq_some.1 hi
  have hlt := (List.getElem?_eq_some_iff.1 hmh).1
  rw [Offer.length_hashes] at hlt
  unfold segmentStop
  rcases hl with hn | ⟨hn, hmod, j, hj, he⟩
  · omega
  · have hne : i + 1 ≠ limit := by
      rintro rfl
      exact hfirst j (by omega) (he.trans hmh)
    have hlim : limit / HASHMAP_MAX_LEN * HASHMAP_MAX_LEN = limit := Nat.div_mul_cancel (Nat.dvd_of_mod_eq_zero hmod)
    have hklt : k < limit / HASHMAP_MAX_LEN := by
      by_contra hge
      have := Nat.mul_le_mul_right HASHMAP_MAX_LEN (not_lt.1 hge)
      omega
    have hnext : (k + 1) * HASHMAP_MAX_LEN ≤ limit / HASHMAP_MAX_LEN * HASHMAP_MAX_LEN :=
      Nat.mul_le_mul_right _ hklt
    rw [Nat.succ_mul] at hnext
    omega

/-- What a request asks for is answered from inside what the receiver knows. -/
theorem Inv.answers (h : Inv c o limit s) (m : o.Made c) (hl : Limit c o limit) {data : Bytes} (hd : .sent (.request data) ∈ s.receiverLog)
    {e : Event} (he : Outgoing.Answers o data e) : Honest c o limit s.receiver e := by
  obtain ⟨r, hr, hle, hasked⟩ := h.asked hd
  cases he with
  | part hp => exact hp
  | @hashmapUpdate index hflag hi hmod =>
    obtain ⟨k, hpos, hn, hk, hmh⟩ := hasked hflag
    obtain ⟨-, hfirst⟩ := m.partIndex_le hmh hi
    have hmul : index / HASHMAP_MAX_LEN * HASHMAP_MAX_LEN = index :=
      Nat.div_mul_cancel (Nat.dvd_of_mod_eq_zero hmod)
    have hk0 : 0 < k * HASHMAP_MAX_LEN := Nat.mul_pos hpos (by decide)
    refine ⟨index / HASHMAP_MAX_LEN, r, hr, rfl, by omega, by omega, ?_⟩
    exact hl.stop m (by omega) hi hmul
  | sequencingError hflag hne =>
    intro hd
    obtain ⟨k, hpos, -, -, hmh⟩ := hasked hflag
    have hk0 : 0 < k * HASHMAP_MAX_LEN := Nat.mul_pos hpos (by decide)
    have hindex := m.partIndex_of_nodup hd hmh
    rw [Nat.sub_add_cancel hk0] at hindex
    exact hne _ hindex (Nat.mul_mod_left ..)
  | cancel => trivial
  | concluded => trivial

theorem Inv.toSender (h : Inv c o limit s) (m : o.Made c) (hl : Limit c o limit) {w : Wire} {packetHash : Bytes} (hw : .sent w ∈ s.receiverLog) :
    Inv c o limit (s.toSender c env packetHash w) := by
  unfold Transfer.toSender
  split
  · next data =>
    split
    · have hn : Outgoing.Speaks (Outgoing.Answers o data) s.sender (s.sender.noteRequestHash packetHash) := ⟨rfl, .refl⟩
      refine h.setSender (P := Outgoing.Answers o data) ?_ fun e he => h.answers m hl hw he
      refine Outcome.Leaves.mono (Outgoing.request_speaks c env _ data) fun d hd => hn.trans ?_
      rw [show (s.sender.noteRequestHash packetHash).toOffer = o from h.offer] at hd
      exact hd
    · exact h
  · split
    · refine h.setSender (P := (· = .concluded)) (Outgoing.validateProof_speaks rfl) ?_
      rintro e rfl
      trivial
    · exact h
  · exact h

theorem Limit.first (hl : Limit c o limit) : min o.totalParts HASHMAP_MAX_LEN ≤ limit := by
  rcases hl with hn | ⟨-, hmod, j, hj, -⟩
  · exact (min_le_left _ _).trans hn
  · refine (min_le_right _ _).trans (Nat.le_of_dvd (by omega) (Nat.dvd_of_mod_eq_zero hmod))

theorem Inv.accept (h : Inv c o limit s) (m : o.Made c) (hl : Limit c o limit) {packed requestId : Bytes}
    {concludedCallback progressCallback : Bool} (hp : packed = o.advertisement.pack) :
    Inv c o limit (s.accept env packed requestId concludedCallback progressCallback) := by
  have hread : ResourceAdvertisement.unpack packed = .ok true o.advertisement.withFlags :=
    hp ▸ ResourceAdvertisement.unpack_pack o.advertisement_sized m.packed
  unfold Transfer.accept
  rw [hread]
  split
  · next adv hr he =>
    obtain ⟨-, rfl⟩ := Read.ok.inj he
    split
    · next out ho =>
      obtain ⟨r, hr', hf, hheight⟩ := Incoming.accept_follows m ho
      rw [Transfer.setReceiver, hr']
      refine ⟨h.offer, fun e hs => ?_, fun r' hr'' => Option.some.inj hr'' ▸ ⟨hf, hheight.le.trans hl.first⟩, h.down⟩
      have hsaid := h.said e hs
      rw [hr] at hsaid
      exact hsaid.of_none
    · exact h
  · next he => cases he
  · exact h

theorem Inv.step (h : Inv c o limit s) (m : o.Made c) (hl : Limit c o limit) (op : Op) : Inv c o limit (s.step c op) := by
  have hretries : ∀ e, Outgoing.Retries o e → Honest c o limit s.receiver e := by
    intro e he
    cases he with
    | advertisement => rfl
    | cancel => trivial
    | concluded => trivial
  unfold Transfer.step
  split
  · exact h
  · cases op with
    | accept env packed requestId concludedCallback progressCallback =>
      rw [act]
      split
      · next hsent => exact h.accept m hl (h.said _ hsent)
      · exact h
    | deliver env packetHash w =>
      rw [act]
      split
      · next hw => exact h.toSender m hl hw
      · split
        · next hw => exact h.toReceiver m hw
        · exact h
    | advertise env =>
      refine h.setSender (P := Outgoing.Retries o) ?_ hretries
      exact Outgoing.advertise_speaks (h.offer ▸ .advertisement)
    | senderWatchdog env =>
      refine h.setSender (P := Outgoing.Retries o) ?_ hretries
      exact h.offer ▸ Outgoing.watchdog_speaks env s.sender
    | receiverWatchdog env => exact h.speaks fun r => Incoming.watchdog_speaks
    | cancelSender env =>
      refine h.setSender (P := Outgoing.Retries o) ?_ hretries
      exact Outgoing.cancel_speaks (h.offer ▸ .cancel) .concluded
    | cancelReceiver env => exact h.speaks fun r => Incoming.cancel_speaks .concluded

theorem start_inv (c : Codec) (env : Env) (src : Outgoing.Source) (limit : Nat) :
    Inv c (Outgoing.ofSource c env src).toOffer limit (start c env src) :=
  ⟨rfl, (fun _ he => nomatch he), (fun _ hr => nomatch hr), rfl⟩

theorem run_inv (env : Env) (src : Outgoing.Source) (ops : List Op)
    (hl : Limit c (Outgoing.ofSource c env src).toOffer limit) :
    Inv c (Outgoing.ofSource c env src).toOffer limit (run (step c) (start c env src) ops) :=
  invariant (fun _ op h => h.step (Outgoing.ofSource_made c env src) hl op) (start_inv c env src limit)

theorem whole_limit (c : Codec) (o : Offer) : Limit c o o.totalParts := .inl le_rfl

/-- The map a receiver has is the sender's, as far as it goes. -/
def SameMap (c : Codec) (d : Outgoing) (r : Incoming) : Prop :=
  r.mapHashes.length = d.parts.length ∧ ∀ (i : Nat) (mh : Bytes), r.mapHashes[i]? = some (some mh) →
    ∃ part, d.parts[i]? = some part ∧ mh = c.mapHash d.randomHash part

/-- The update says which segment it is, and that is one of the map's. -/
def InMap (d : Outgoing) (data : Bytes) : Prop :=
  ∃ k hm, Incoming.readHmu (data.drop HASH_SIZE) = .ok true (some (k, hm)) ∧ k * HASHMAP_MAX_LEN < d.parts.length

theorem Inv.sameMap (h : Inv c o limit s) {r : Incoming} (hr : s.receiver = some r) : SameMap c s.sender r := by
  have hf := (h.receiver r hr).1
  have hle := hf.knows.le
  rw [Offer.length_hashes] at hle
  refine ⟨?_, fun i mh hi => ?_⟩
  · rw [hf.knows.mapHashes, h.offer]
    simp only [List.length_append, List.length_map, List.length_take, List.length_replicate, Offer.length_hashes,
      Offer.totalParts] at hle ⊢
    omega
  · have hget : r.mapHashes.getD i none = some mh := by rw [List.getD_eq_getElem?_getD, hi]; rfl
    rcases lt_or_ge i r.hashmapHeight with hlt | hge
    · rw [hf.knows.getD_of_lt hlt, Offer.hashes, List.getElem?_map, Option.map_eq_some_iff] at hget
      obtain ⟨part, hp, rfl⟩ := hget
      exact ⟨part, by rw [h.offer, hp], by rw [h.offer]⟩
    · rw [hf.knows.getD_of_le hge] at hget
      cases hget

/-- Whatever is lost, repeated and overtaken, the map the receiver has is the
sender's, hash by hash, every update is a segment of it, and the sender never
gives up over one. -/
theorem hashmap_in_order (c : Codec) (env : Env) (src : Outgoing.Source) (ops : List Op)
    (hd : ((Outgoing.ofSource c env src).hashes c).Nodup) :
    let s := run (step c) (start c env src) ops
    s.down = false ∧ .sequencingError ∉ s.sender.log ∧ (∀ r, s.receiver = some r → SameMap c s.sender r) ∧
      ∀ data, .sent (.hashmapUpdate data) ∈ s.sender.log → InMap s.sender data := by
  have m := Outgoing.ofSource_made c env src
  have h := run_inv env src ops (whole_limit c _)
  refine ⟨h.down, fun he => h.said _ he hd, fun r hr => h.sameMap hr, fun data hm => ?_⟩
  obtain ⟨k, r, -, rfl, hk, -, -⟩ := h.said _ hm
  refine ⟨k, _, m.readHmu hk, ?_⟩
  rw [h.offer]
  exact hk

/-- A hash that tells parts of different lengths apart. -/
def byLength : Codec where
  fullHash b := UInt8.ofNat b.length :: List.replicate 31 0
  length_fullHash _ := rfl
  decompress _ _ := none

/-- A full packet and one byte more. -/
def twoParts : Outgoing.Source where
  plaintext := []
  stream := List.replicate 465 0
  stream_pos := by
    rw [List.length_replicate]
    decide
  sized := by
    rw [List.length_replicate]
    decide
  randomHash := [1, 2, 3, 4]
  length_randomHash := rfl
  length_requestId := by decide

/-- The clock at `t` seconds, over a link that carries everything. -/
def clear (t : ℚ) : Env := { now := t, rtt := 1, decrypt := id }

theorem hashmap_in_order_two :
    .sequencingError ∉ (run (step byLength) (start byLength (clear 0) twoParts)
      [.advertise (clear 0), .cancelSender (clear 1)]).sender.log :=
  (hashmap_in_order byLength (clear 0) twoParts [.advertise (clear 0), .cancelSender (clear 1)]
    (by decide +kernel)).2.1

end Transfer

end MicroReticulum.Resource
