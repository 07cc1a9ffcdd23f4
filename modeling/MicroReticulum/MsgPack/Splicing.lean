import MicroReticulum.Link.Data
import MicroReticulum.MsgPack.Values
import MicroReticulum.MsgPack.Navigation

/-!
# Envelopes with spliced objects

A request and its response are arrays that `Link` writes by hand, the last
member spliced in as it came. The reader finds the members again by their own
headers, so what matters of a spliced object is that it is one value.
-/

namespace MicroReticulum.MsgPack

open Lib.Cursor

-- ---------------------------------------------------------------------------
-- The sender
-- ---------------------------------------------------------------------------

/-- The envelope of `Link::request`. `data` is an object already, or goes as a bin. -/
def packRequest (now : Nat) (requestPathHash data : Bytes) (dataPacked : Bool) : Bytes :=
  packArrayHeader 3 ++ (packDouble now ++ (packBin requestPathHash ++
    if dataPacked then data else packBin data))

/-- The envelope of `Link::handle_request`, which answers with what the generator
returned, if that is anything. -/
def packResponse (requestId response : Bytes) : Option Bytes :=
  if response = [] then none else some (packArrayHeader 2 ++ (packBin requestId ++ response))

/-- What a link's packet holds. -/
def MDU : Nat :=
  (Reticulum.MTU - Reticulum.IFAC_MIN_SIZE - Reticulum.HEADER_MINSIZE - TOKEN_OVERHEAD) / AES128_BLOCKSIZE *
    AES128_BLOCKSIZE - 1

/-- What an envelope travels in. -/
inductive Carrier where
  | packet (data : Bytes)
  | resource (data : Bytes)
  deriving DecidableEq, Repr

def carry (packed : Bytes) : Carrier := if packed.length ≤ MDU then .packet packed else .resource packed

/-- What `receive` decrypts, or the resource's data once it is complete. -/
def Carrier.delivered : Carrier → Bytes
  | .packet data => data
  | .resource data => data

@[simp] theorem carry_delivered (packed : Bytes) : (carry packed).delivered = packed := by
  unfold carry
  split <;> rfl

-- ---------------------------------------------------------------------------
-- Objects
-- ---------------------------------------------------------------------------

/-- `count` values and nothing else. -/
def Items (count : Nat) (b : Bytes) : Prop := walk count b = .ends []

/-- What a payload slot is read as: of a nil nothing, of a bin or a str its
contents, of any other object all of it. -/
def content (obj : Bytes) : Bytes :=
  let t := obj.byte 0
  if t = 0xc0 then []
  else if 0xa0 ≤ t ∧ t < 0xc0 then obj.drop 1
  else if t = 0xd9 ∨ t = 0xc4 then obj.drop 2
  else if t = 0xda ∨ t = 0xc5 then obj.drop 3
  else if t = 0xdb ∨ t = 0xc6 then obj.drop 5
  else obj

variable {b c obj rest tail : Bytes} {count k m n t : Nat}

/-- A header that says something says the same when more comes behind. -/
def Stable (h h' : Head) : Prop := h ≠ .malformed → h' = h

theorem Stable.refl (h : Head) : Stable h h := fun _ => rfl

theorem ite_stable {p : Prop} [Decidable p] {x x' y y' : Head} (hx : Stable x x') (hy : Stable y y') :
    Stable (if p then x else y) (if p then x' else y') := by
  split_ifs
  · exact hx
  · exact hy

theorem counted_stable (b rest : Bytes) (k : Nat) (f : Nat → Head) :
    Stable (Head.counted b k f) (Head.counted (b ++ rest) k f) := by
  intro h
  unfold Head.counted at h ⊢
  split at h
  · next hk =>
    have hmid : (b ++ rest).mid 1 k = b.mid 1 k := by
      rw [Bytes.mid, Bytes.mid, List.drop_append_of_le_length (by omega),
        List.take_append_of_le_length (by rw [List.length_drop]; omega)]
    rw [if_pos hk, if_pos (by rw [List.length_append]; omega), hmid]
  · exact absurd rfl h

theorem headOf_stable (t : Nat) (b rest : Bytes) : Stable (headOf t b) (headOf t (b ++ rest)) := by
  unfold headOf
  have hc : ∀ k f, Stable (Head.counted b k f) (Head.counted (b ++ rest) k f) := counted_stable b rest
  refine ite_stable (.refl _) (ite_stable (.refl _) (ite_stable (.refl _) (ite_stable (.refl _)
    (ite_stable (.refl _) (ite_stable (.refl _) (ite_stable (.refl _) (ite_stable (.refl _)
    (ite_stable (.refl _) (ite_stable (.refl _) ?_)))))))))
  refine ite_stable (hc _ _) (ite_stable (hc _ _) (ite_stable (hc _ _) ?_))
  exact ite_stable (hc _ _) (ite_stable (hc _ _) (ite_stable (hc _ _) (ite_stable (hc _ _) (.refl _))))

theorem head_append (h : head b ≠ .malformed) : head (b ++ rest) = head b := by
  cases b with
  | nil => exact absurd rfl h
  | cons x b =>
    rw [List.cons_append, head_cons, head_cons, ← List.cons_append]
    rw [head_cons] at h
    exact headOf_stable _ _ _ h

/-- A walk that ends goes the same way when more comes behind. -/
theorem walk_append (h : walk m b = .ends c) : walk m (b ++ rest) = .ends (c ++ rest) := by
  induction hl : b.length using Nat.strongRecOn generalizing b m with
  | ind l ih =>
    cases m with
    | zero =>
      rw [walk_zero] at h
      obtain rfl := Extent.ends.inj h
      rw [walk_zero]
    | succ m =>
      cases hh : head b with
      | malformed =>
        rw [walk_malformed hh] at h
        cases h
      | leaf size =>
        have hw := head_leaf hh
        have hh' : head (b ++ rest) = .leaf size := by rw [head_append (by simp [hh]), hh]
        rw [walk_leaf hh] at h
        split at h
        · next hs =>
          rw [walk_leaf hh', if_pos (by rw [List.length_append]; omega), List.drop_append_of_le_length hs]
          exact ih _ (by simp only [List.length_drop]; omega) h rfl
        · cases h
      | items hdr inner =>
        have hw := head_items hh
        have hh' : head (b ++ rest) = .items hdr inner := by rw [head_append (by simp [hh]), hh]
        rw [walk_items hh] at h
        rw [walk_items hh', List.drop_append_of_le_length hw.2]
        exact ih _ (by simp only [List.length_drop]; omega) h rfl

theorem Items.append (h : Items m b) : walk (m + n) (b ++ rest) = walk n rest := by
  rw [walk_add, walk_append h]
  rfl

theorem items_one : Items 1 b ↔ Whole b := by
  constructor
  · intro h count rest
    rw [Nat.add_comm]
    exact h.append
  · intro h
    have hw := h 0 []
    rw [List.append_nil, walk_zero] at hw
    exact hw

theorem Items.pos (h : Items 1 b) : 0 < b.length := (items_one.1 h).pos

/-- Values in a row. -/
theorem Items.both (hb : Items m b) (hc : Items n c) : Items (m + n) (b ++ c) := hb.append.trans hc

-- ---------------------------------------------------------------------------
-- The payload slot
-- ---------------------------------------------------------------------------

theorem Items.leaf (h : Items 1 obj) (hh : head obj = .leaf k) : obj.length = k := by
  rw [Items, walk_leaf hh, walk_zero] at h
  split at h
  · next hk =>
    have hd := congrArg List.length (Extent.ends.inj h)
    rw [List.length_drop, List.length_nil] at hd
    omega
  · cases h

theorem Items.blob (h : Items 1 obj) (hh : head obj = Head.blob obj k) :
    1 + k ≤ obj.length ∧ obj.length = 1 + k + be (obj.mid 1 k) := by
  by_cases hk : 1 + k ≤ obj.length
  · rw [Head.blob, Head.counted, if_pos hk] at hh
    exact ⟨hk, h.leaf hh⟩
  · rw [Head.blob, Head.counted, if_neg hk] at hh
    rw [Items, walk_malformed hh] at h
    cases h

/-- The contents of a blob behind a header of `hdr`. -/
theorem payload_object {hdr len : Nat} {short : String} (hb : (obj ++ tail).length < SIZE)
    (hl : obj.length = hdr + len) : payload hdr len short (obj ++ tail) = pure (obj.drop hdr, obj.length) := by
  rw [List.length_append] at hb
  have hshort : ¬ (obj ++ tail).length < hdr + len := by
    rw [List.length_append]
    omega
  have hmid : (obj ++ tail).mid hdr len = obj.drop hdr := by
    rw [Bytes.mid, List.drop_append_of_le_length (by omega), List.take_left' (by rw [List.length_drop]; omega)]
  rw [payload, add_of_lt (by omega), Read.pure_bind, if_neg hshort, hmid, hl]

theorem form_object {short s' : String} (h : Items 1 obj) (hh : head obj = Head.blob obj k)
    (hb : (obj ++ tail).length < SIZE) :
    (number (obj ++ tail) 1 k s' >>= fun len => payload (1 + k) len short (obj ++ tail)) =
      pure (obj.drop (1 + k), obj.length) := by
  obtain ⟨hk, hl⟩ := h.blob hh
  have hn : number (obj ++ tail) 1 k s' = pure (be (obj.mid 1 k)) := by
    rw [number, tested_of_le (by rw [List.length_append]; omega), List.drop_append_of_le_length (by omega),
      List.take_append_of_le_length (by rw [List.length_drop]; omega)]
    rfl
  rw [hn, Read.pure_bind]
  exact payload_object hb hl

/-- The forms of bin and str share their readers. -/
theorem sized_object {x : UInt8} {o : Bytes} (h : Items 1 (x :: o)) (hb : (x :: o ++ tail).length < SIZE)
    (short : String) (other : Reader Bytes) (hx : blobForms.Has x.toNat) :
    sized blobForms x.toNat short other (x :: o ++ tail) = pure (content (x :: o), (x :: o).length) := by
  have hhead : head (x :: o) = headOf x.toNat (x :: o) := head_cons x o
  have hbyte : Bytes.byte (x :: o) 0 = x.toNat := rfl
  rw [content, hbyte, sized]
  generalize x.toNat = t at hx hhead
  have hf : ∀ k s', head (x :: o) = Head.blob (x :: o) k →
      (number (x :: o ++ tail) 1 k s' >>= fun len => payload (1 + k) len short (x :: o ++ tail)) =
        pure ((x :: o).drop (1 + k), (x :: o).length) := fun k s' hh => form_object h hh hb
  simp only [LengthForms.Has, blobForms, List.mem_cons, List.not_mem_nil, or_false] at hx
  rcases hx with (rfl | rfl) | (rfl | rfl) | (rfl | rfl)
  · exact hf 1 _ hhead
  · exact hf 1 _ hhead
  · exact hf 2 _ hhead
  · exact hf 2 _ hhead
  · exact hf 4 _ hhead
  · exact hf 4 _ hhead

theorem object_decodes (h : Items 1 obj) : Decodes unpackBlobOrObject obj (content obj) := by
  intro tail hb
  have hskip := (items_one.1 h).skips tail hb
  cases obj with
  | nil => exact absurd h.pos (by simp)
  | cons x o =>
    have ht : x.toNat < 256 := x.toNat_lt
    have hhead : head (x :: o) = headOf x.toNat (x :: o) := head_cons x o
    have hbyte : Bytes.byte (x :: o) 0 = x.toNat := rfl
    have htag : ∀ s', number (x :: o ++ tail) 0 1 s' = pure x.toNat := fun _ => number_head x
    rw [unpackBlobOrObject, htag, Read.pure_bind]
    by_cases hnil : x.toNat = 0xc0
    · have hl : (x :: o).length = 1 := h.leaf (by rw [hhead, hnil]; rfl)
      rw [content, hbyte, if_pos hnil, if_pos hnil, hl]
      rfl
    by_cases hfix : 0xa0 ≤ x.toNat ∧ x.toNat < 0xc0
    · have hl := h.leaf (hhead.trans (headOf_fixstr hfix.1 hfix.2))
      rw [content, hbyte, if_neg hnil, if_neg hnil, if_pos hfix, if_pos ((mid_a0 _ ht).2 hfix),
        low_a0 _ ht hfix.1 hfix.2]
      exact payload_object hb hl
    rw [if_neg hnil, if_neg (mt (mid_a0 _ ht).1 hfix)]
    by_cases hsized : blobForms.Has x.toNat
    · exact sized_object h hb _ _ hsized
    · have hc : content (x :: o) = x :: o := by
        simp only [LengthForms.Has, blobForms, List.mem_cons, List.not_mem_nil, or_false, not_or] at hsized
        simp [content, hbyte, hnil, hfix, hsized]
      have hother : ∀ (s' : String) (other : Reader Bytes),
          sized blobForms x.toNat s' other (x :: o ++ tail) = other (x :: o ++ tail) := by
        intro s' other
        simp only [LengthForms.Has, not_or] at hsized
        rw [sized, if_neg hsized.1, if_neg hsized.2.1, if_neg hsized.2.2]
      have hle : ¬ (x :: o).length > (x :: o ++ tail).length := by simp
      rw [hother, hskip, Read.ok_bind]
      dsimp only
      rw [if_neg hle, hc, Bytes.left, List.take_left]
      rfl

/-- A bin comes back as what it was made of. -/
theorem content_packBin {data : Bytes} (h : data.length < 2 ^ 32) : content (packBin data) = data := by
  unfold packBin packLength
  split
  · simp [content, Bytes.byte, putBe]
  · split
    · simp [content, Bytes.byte, putBe]
    · simp [content, Bytes.byte, putBe]

theorem packBin_decodesOne (data : Bytes) : Decodes unpackOne (packBin data) data := by
  intro tail hb
  have h := packBin_decodes data tail hb
  have htag : (packBin data ++ tail).byte 0 ≠ 0xc0 := by
    unfold packBin packLength
    split
    · simp [Bytes.byte]
    · split <;> simp [Bytes.byte]
  rw [unpackOne, if_neg (fun hn => htag hn.2), h]

-- ---------------------------------------------------------------------------
-- Member by member
-- ---------------------------------------------------------------------------

/-- What is left of the buffer at the cursor. -/
def At (raw : Bytes) (off : Nat) (rest : Bytes) : Prop := off ≤ raw.length ∧ raw.drop off = rest

variable {raw : Bytes} {off taken : Nat}

theorem At.start (raw : Bytes) : At raw 0 raw := ⟨Nat.zero_le _, rfl⟩

theorem At.length (h : At raw off rest) : raw.length = off + rest.length := by
  have hl := congrArg List.length h.2
  rw [List.length_drop] at hl
  have hle := h.1
  omega

theorem At.consume {r : Reader α} {v : α} (hd : Decodes r b v) (h : At raw off (b ++ rest)) (hs : raw.length < SIZE) :
    consume SIZE raw r off = .ok true (v, off + b.length) ∧ At raw (off + b.length) rest := by
  have hl := h.length
  rw [List.length_append] at hl
  have hv : r (raw.drop off) = .ok true (v, b.length) := by
    rw [h.2]
    exact hd rest (by rw [List.length_append]; omega)
  refine ⟨?_, by omega, ?_⟩
  · rw [Lib.Cursor.consume, Lib.Cursor.rest, if_pos h.1, Read.pure_bind, hv, Read.ok_bind]
    dsimp only
    rw [add_of_lt (by omega), Read.pure_bind]
    rfl
  · rw [← List.drop_drop, h.2, List.drop_left]

theorem At.consume_last {r : Reader α} {v : α} (hd : Decodes r b v) (h : At raw off b) (hs : raw.length < SIZE) :
    Lib.Cursor.consume SIZE raw r off = .ok true (v, off + b.length) := by
  have hat : At raw off (b ++ []) := by rwa [List.append_nil]
  exact (hat.consume hd hs).1

/-- Members behind those the reader asked for. -/
theorem At.skipRest (hi : Items (count - taken) b) (h : At raw off (b ++ rest)) (hs : raw.length < SIZE) :
    ∃ off', skipRest raw taken count off = .ok true off' := by
  have ha : Agrees raw off (walk (count - taken) (raw.drop off))
      (skipItems skipValue raw (count - taken) off >>= past raw) :=
    items_agree hs h.1 fun m _ => skipValue_agrees (by rw [List.length_drop]; omega)
  rw [h.2, walk_append hi] at ha
  have hread : ∃ off', (skipItems skipValue raw (count - taken) off >>= past raw) = .ok true ((), off') := by
    revert ha
    generalize (skipItems skipValue raw (count - taken) off >>= past raw) = r
    rintro ⟨off', -, -⟩
    exact ⟨_, rfl⟩
  obtain ⟨off', hread⟩ := hread
  obtain ⟨off'', hok, -⟩ := Read.bind_eq_ok.1 hread
  exact ⟨off'', hok⟩

theorem openArray_packed {least : Nat} (hl : least ≤ n) (hn : n < 2 ^ 32)
    (hs : (packArrayHeader n ++ rest).length < SIZE) :
    openArray (packArrayHeader n ++ rest) least 0 = .ok true (n, (packArrayHeader n).length) ∧
      At (packArrayHeader n ++ rest) (packArrayHeader n).length rest := by
  have hc := At.consume (packArrayHeader_decodes hn) (At.start (packArrayHeader n ++ rest)) hs
  rw [Nat.zero_add] at hc
  refine ⟨?_, hc.2⟩
  rw [openArray, if_neg (by omega), hc.1, Read.ok_bind]
  dsimp only
  rw [if_neg (by omega)]
  rfl

/-- The key and the payload of an envelope, and what follows. -/
theorem slots_read {key : Bytes} (hobj : Items 1 obj) (hx : Items (count - taken) b)
    (h : At raw off (packBin key ++ (obj ++ (b ++ rest)))) (hs : raw.length < SIZE) (f : Bytes → Bytes → α) :
    (do
      let (key, off) ← consume SIZE raw unpackOne off
      let (payload, off) ← consume SIZE raw unpackBlobOrObject off
      let _ ← skipRest raw taken count off
      pure (f key payload)) = .ok true (f key (content obj)) := by
  obtain ⟨hkey, h⟩ := h.consume (packBin_decodesOne key) hs
  obtain ⟨hpayload, h⟩ := h.consume (object_decodes hobj) hs
  obtain ⟨off', hrest⟩ := h.skipRest hx hs
  rw [hkey, Read.ok_bind]
  dsimp only
  rw [hpayload, Read.ok_bind]
  dsimp only
  rw [hrest, Read.ok_bind]
  rfl

theorem fromRequest_packed {now : Nat} {key : Bytes} (hnow : now < 2 ^ 64) (hobj : Items 1 obj) (hx : Items k b)
    (hk : 3 + k < 2 ^ 32)
    (hs : (packArrayHeader (3 + k) ++ (packDouble now ++ (packBin key ++ (obj ++ (b ++ rest))))).length < SIZE) :
    fromRequest (packArrayHeader (3 + k) ++ (packDouble now ++ (packBin key ++ (obj ++ (b ++ rest))))) =
      .ok true ⟨now, key, content obj⟩ := by
  obtain ⟨hopen, h⟩ := openArray_packed (Nat.le_add_right 3 k) hk hs
  obtain ⟨htime, h⟩ := h.consume (packDouble_decodes hnow) hs
  have hx' : Items (3 + k - 3) b := by rwa [Nat.add_sub_cancel_left]
  rw [fromRequest, hopen, Read.ok_bind]
  dsimp only
  rw [htime, Read.ok_bind]
  exact slots_read hobj hx' h hs fun key payload => Request.mk now key payload

theorem fromResponse_packed {key : Bytes} (hobj : Items 1 obj) (hx : Items k b) (hk : 2 + k < 2 ^ 32)
    (hs : (packArrayHeader (2 + k) ++ (packBin key ++ (obj ++ (b ++ rest)))).length < SIZE) :
    fromResponse (packArrayHeader (2 + k) ++ (packBin key ++ (obj ++ (b ++ rest)))) =
      .ok true ⟨key, content obj⟩ := by
  obtain ⟨hopen, h⟩ := openArray_packed (Nat.le_add_right 2 k) hk hs
  have hx' : Items (2 + k - 2) b := by rwa [Nat.add_sub_cancel_left]
  rw [fromResponse, hopen, Read.ok_bind]
  exact slots_read hobj hx' h hs fun requestId payload => Response.mk requestId payload

-- ---------------------------------------------------------------------------
-- Envelopes
-- ---------------------------------------------------------------------------

/-- An array's header, and that many values. -/
theorem Items.array (h : Items n b) (hn : n < 2 ^ 32) : Items 1 (packArrayHeader n ++ b) := by
  rw [Items, show (1 : Nat) = 0 + 1 from rfl, walk_arrayHeader hn]
  exact h

/-- An envelope is one value, and what it carries is read from it, whatever it
travels in. -/
def Arrives (read : Bytes → Read α) (packed : Bytes) (a : α) : Prop :=
  packed.length < SIZE → Items 1 packed ∧ read (carry packed).delivered = .ok true a

theorem items_zero : Items 0 [] := walk_zero

theorem request_arrives {now : Nat} {key : Bytes} (hnow : now < 2 ^ 64) (hobj : Items 1 obj) :
    Arrives fromRequest (packArrayHeader 3 ++ (packDouble now ++ (packBin key ++ obj))) ⟨now, key, content obj⟩ := by
  intro hs
  have hkey : key.length < 2 ^ 32 := by
    simp only [packBin, List.length_append, SIZE] at hs
    omega
  have hmembers : Items (1 + (1 + 1)) (packDouble now ++ (packBin key ++ obj)) :=
    Items.both (items_one.2 (packDouble_whole now)) (Items.both (items_one.2 (packBin_whole hkey)) hobj)
  refine ⟨Items.array hmembers (by decide), ?_⟩
  rw [carry_delivered]
  have hread := fromRequest_packed (k := 0) (b := []) hnow hobj items_zero (by decide)
    (show (packArrayHeader (3 + 0) ++ (packDouble now ++ (packBin key ++ (obj ++ ([] ++ []))))).length < SIZE by
      rwa [List.append_nil, List.append_nil])
  rwa [List.append_nil, List.append_nil] at hread

theorem response_arrives {key : Bytes} (hobj : Items 1 obj) :
    Arrives fromResponse (packArrayHeader 2 ++ (packBin key ++ obj)) ⟨key, content obj⟩ := by
  intro hs
  have hkey : key.length < 2 ^ 32 := by
    simp only [packBin, List.length_append, SIZE] at hs
    omega
  have hmembers : Items (1 + 1) (packBin key ++ obj) := Items.both (items_one.2 (packBin_whole hkey)) hobj
  refine ⟨Items.array hmembers (by decide), ?_⟩
  rw [carry_delivered]
  have hread := fromResponse_packed (k := 0) (b := []) hobj items_zero (by decide)
    (show (packArrayHeader (2 + 0) ++ (packBin key ++ (obj ++ ([] ++ [])))).length < SIZE by
      rwa [List.append_nil, List.append_nil])
  rwa [List.append_nil, List.append_nil] at hread

/-- What a request or a response is made of is what the peer reads, be the
payload a bin or any one object, and whatever members follow in a longer
envelope. -/
theorem envelopes_read_back :
    (∀ now requestPathHash data, now < 2 ^ 64 →
        Arrives fromRequest (packRequest now requestPathHash data false) ⟨now, requestPathHash, data⟩) ∧
      (∀ now requestPathHash obj, now < 2 ^ 64 → Items 1 obj →
        Arrives fromRequest (packRequest now requestPathHash obj true) ⟨now, requestPathHash, content obj⟩) ∧
      (∀ requestId obj, Items 1 obj → ∃ packed, packResponse requestId obj = some packed ∧
        Arrives fromResponse packed ⟨requestId, content obj⟩) ∧
      ∀ now key obj k more tail, now < 2 ^ 64 → Items 1 obj → Items k more → 3 + k < 2 ^ 32 →
        let envelope := packBin key ++ (obj ++ (more ++ tail))
        ((packArrayHeader (3 + k) ++ (packDouble now ++ envelope)).length < SIZE →
            fromRequest (packArrayHeader (3 + k) ++ (packDouble now ++ envelope)) =
              .ok true ⟨now, key, content obj⟩) ∧
          ((packArrayHeader (2 + k) ++ envelope).length < SIZE →
            fromResponse (packArrayHeader (2 + k) ++ envelope) = .ok true ⟨key, content obj⟩) := by
  refine ⟨fun now key data hnow hs => ?_, fun now key obj hnow hobj => ?_, fun key obj hobj => ?_, ?_⟩
  · have hdata : data.length < 2 ^ 32 := by
      simp only [packRequest, packBin, List.length_append, Bool.false_eq_true, if_false, SIZE] at hs
      omega
    have h := request_arrives hnow (items_one.2 (packBin_whole hdata)) hs
    rw [content_packBin hdata] at h
    exact h
  · exact request_arrives hnow hobj
  · have hne : obj ≠ [] := List.length_pos_iff.1 hobj.pos
    exact ⟨_, if_neg hne, response_arrives hobj⟩
  · intro now key obj k more tail hnow hobj hmore hk
    exact ⟨fun hs => fromRequest_packed hnow hobj hmore hk hs,
      fun hs => fromResponse_packed hobj hmore (by omega) hs⟩

/-- An array of two goes as it is. -/
theorem envelopes_read_back_pair :
    fromRequest (carry (packRequest 5 [1, 2] [0x92, 0xc0, 0x07] true)).delivered =
      .ok true ⟨5, [1, 2], [0x92, 0xc0, 0x07]⟩ := by
  have hobj : Items 1 [0x92, 0xc0, 0x07] :=
    items_one.2 ((Value.array (.cons .nil (.cons (.uint 7) .nil))).whole (by decide))
  exact (envelopes_read_back.2.1 5 [1, 2] _ (by decide) hobj (by decide)).2

-- ---------------------------------------------------------------------------
-- Extensions
-- ---------------------------------------------------------------------------

/-- A type and its data, of a length that the tag tells or that stands behind it. -/
def IsExtension (obj : Bytes) : Prop :=
  (∃ p ∈ [(0xd4, 1), (0xd5, 2), (0xd6, 4), (0xd7, 8), (0xd8, 16)],
      obj.byte 0 = p.1 ∧ obj.length = 2 + p.2) ∨
    ∃ p ∈ [(0xc7, 1), (0xc8, 2), (0xc9, 4)],
      obj.byte 0 = p.1 ∧ obj.length = 2 + p.2 + be (obj.mid 1 p.2)

/-- No reader knows the extensions, so one that is spliced in makes the envelope unreadable. -/
theorem extension_unread :
    fromRequest (packRequest 5 [1, 2] [0xd4, 0x01, 0x02] true) = .fail "MsgPack: unknown tag in skip" ∧
      ¬ ∀ now key obj, now < 2 ^ 64 → Items 1 obj ∨ IsExtension obj →
        (packRequest now key obj true).length < SIZE →
        fromRequest (packRequest now key obj true) = .ok true ⟨now, key, content obj⟩ := by
  have hfail : fromRequest (packRequest 5 [1, 2] [0xd4, 0x01, 0x02] true) =
      .fail "MsgPack: unknown tag in skip" := by decide +kernel
  refine ⟨hfail, fun h => ?_⟩
  have hext : IsExtension [0xd4, 0x01, 0x02] := .inl ⟨(0xd4, 1), by simp, rfl, rfl⟩
  have hread := h 5 [1, 2] [0xd4, 0x01, 0x02] (by decide) (.inr hext) (by decide)
  rw [hfail] at hread
  cases hread

end MicroReticulum.MsgPack
