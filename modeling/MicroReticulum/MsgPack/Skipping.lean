import MicroReticulum.MsgPack.Format
import MicroReticulum.MsgPack.Getters

/-!
# Skipping against walking

`skip_value` goes from value to value as the walk does, and is confined where
the walk meets nothing that runs past the end.
-/

namespace MicroReticulum.MsgPack

open Lib.Cursor

/-- What the skipper does with a header. -/
inductive Follows (fuel : Nat) (b : Bytes) : Head → Read (Unit × Nat) → Prop
  | malformed (text : String) : Follows fuel b .malformed (.fail text)
  | leaf : size < SIZE → Follows fuel b (.leaf size) (past b size)
  | wide : SIZE ≤ size → Follows fuel b (.leaf size) .escaped
  | items : Follows fuel b (.items hdr count) (skipItems (skipWithin fuel) b count hdr >>= past b)

variable {b : Bytes} {fuel count off size hdr inner m n t : Nat} {h₀ : Head} {skip : Reader Unit}

-- ---------------------------------------------------------------------------
-- The walk
-- ---------------------------------------------------------------------------

@[simp] theorem walk_zero : walk 0 b = .ends b := by rw [walk]

theorem walk_malformed (h : head b = .malformed) : walk (count + 1) b = .malformed := by
  rw [walk]
  split <;> simp_all

theorem walk_leaf (h : head b = .leaf size) :
    walk (count + 1) b = if size ≤ b.length then walk count (b.drop size) else .overruns := by
  rw [walk]
  split <;> simp_all

theorem walk_items (h : head b = .items hdr inner) :
    walk (count + 1) b = walk (inner + count) (b.drop hdr) := by
  rw [walk]
  split <;> simp_all

/-- Goes on where a walk ended. -/
def Extent.andThen (e : Extent) (f : Bytes → Extent) : Extent :=
  match e with
  | .ends b => f b
  | e => e

/-- Walking over `m + n` values is walking over `m` and then over `n`. -/
theorem walk_add : walk (m + n) b = (walk m b).andThen (walk n) := by
  induction hl : b.length using Nat.strongRecOn generalizing b m with
  | ind l ih =>
    cases m with
    | zero => simp [Extent.andThen]
    | succ m =>
      rw [Nat.succ_add]
      cases hh : head b with
      | malformed => simp [walk_malformed hh, Extent.andThen]
      | leaf size =>
        have hw := head_leaf hh
        rw [walk_leaf hh, walk_leaf hh]
        split_ifs with hs
        · exact ih _ (by simp only [List.length_drop]; omega) rfl
        · rfl
      | items hdr inner =>
        have hw := head_items hh
        rw [walk_items hh, walk_items hh, ← Nat.add_assoc]
        exact ih _ (by simp only [List.length_drop]; omega) rfl

-- ---------------------------------------------------------------------------
-- The skipper's cascade, by headers
-- ---------------------------------------------------------------------------

theorem pastBlob_follows (k : Nat) (short : String) : Follows fuel b (Head.blob b k) (pastBlob b k short) := by
  unfold Head.blob Head.counted pastBlob
  split_ifs with hk
  · rw [number, tested_of_le hk, Read.pure_bind, add]
    split_ifs with hs
    · rw [Read.pure_bind]
      exact .leaf hs
    · exact .wide (not_lt.1 hs)
  · rw [number, tested_of_lt (by omega)]
    exact .malformed _

/-- The masks of the cascade are ranges of the tag byte. -/
theorem tag_masks : ∀ t < 256, (t &&& 0x80 = 0 ↔ t < 0x80) ∧ (t &&& 0xe0 = 0xe0 ↔ 0xe0 ≤ t) ∧
    (t &&& 0xe0 = 0xa0 ↔ 0xa0 ≤ t ∧ t < 0xc0) ∧ (0xa0 ≤ t → t < 0xc0 → t &&& 0x1f = t - 0xa0) ∧
    (t &&& 0xf0 = 0x90 ↔ 0x90 ≤ t ∧ t < 0xa0) ∧ (t &&& 0xf0 = 0x80 ↔ 0x80 ≤ t ∧ t < 0x90) ∧
    t &&& 0x0f = t % 16 := by decide +kernel

theorem low_80 : ∀ t < 256, (t &&& 0x80 = 0 ↔ t < 0x80) := fun t ht => (tag_masks t ht).1
theorem high_e0 : ∀ t < 256, (t &&& 0xe0 = 0xe0 ↔ 0xe0 ≤ t) := fun t ht => (tag_masks t ht).2.1
theorem mid_a0 : ∀ t < 256, (t &&& 0xe0 = 0xa0 ↔ 0xa0 ≤ t ∧ t < 0xc0) := fun t ht => (tag_masks t ht).2.2.1
theorem low_a0 : ∀ t < 256, 0xa0 ≤ t → t < 0xc0 → t &&& 0x1f = t - 0xa0 :=
  fun t ht => (tag_masks t ht).2.2.2.1
theorem mid_90 : ∀ t < 256, (t &&& 0xf0 = 0x90 ↔ 0x90 ≤ t ∧ t < 0xa0) := fun t ht => (tag_masks t ht).2.2.2.2.1
theorem mid_80 : ∀ t < 256, (t &&& 0xf0 = 0x80 ↔ 0x80 ≤ t ∧ t < 0x90) := fun t ht => (tag_masks t ht).2.2.2.2.2.1
theorem low_0f : ∀ t < 256, t &&& 0x0f = t % 16 := fun t ht => (tag_masks t ht).2.2.2.2.2.2

theorem past_follows (h : h₀ = .leaf size) (hs : size < SIZE) : Follows fuel b h₀ (past b size) :=
  h ▸ .leaf hs

theorem ite_follows {c : Prop} [Decidable c] {x y : Read (Unit × Nat)} (hx : c → Follows fuel b h₀ x)
    (hy : ¬ c → Follows fuel b h₀ y) : Follows fuel b h₀ (if c then x else y) := by
  split_ifs with h
  · exact hx h
  · exact hy h

theorem container_follows {fix tag16 each : Nat} {s₀ s₁ s₂ s₃ : String} (hb : 1 ≤ b.length)
    (ht : b.byte 0 = t)
    (h1 : t &&& 0xf0 = fix → headOf t b = .items 1 (each * (t &&& 0x0f)))
    (h2 : t = tag16 → headOf t b = Head.elements b 2 each)
    (h3 : t = tag16 + 1 → headOf t b = Head.elements b 4 each)
    (h : t &&& 0xf0 = fix ∨ t = tag16 ∨ t = tag16 + 1) :
    Follows fuel b (headOf t b) (do
      let (count, off) ← containerHeader fix tag16 s₀ s₁ s₂ s₃ b
      let off ← skipItems (skipWithin fuel) b (each * count) off
      past b off) := by
  have hn : number b 0 1 s₀ = pure t := number_zero.2 ⟨hb, ht⟩
  simp only [containerHeader, hn, Read.pure_bind]
  by_cases hf : t &&& 0xf0 = fix
  · rw [if_pos hf, h1 hf, Read.pure_bind]
    exact .items
  rw [if_neg hf]
  by_cases h16 : t = tag16
  · rw [if_pos h16, h2 h16, Head.elements, Head.counted]
    split_ifs with hk
    · rw [number, tested_of_le hk, Read.pure_bind, Read.pure_bind]
      exact .items
    · rw [number, tested_of_lt (by omega)]
      exact .malformed _
  · obtain h32 : t = tag16 + 1 := by tauto
    rw [if_neg h16, if_pos h32, h3 h32, Head.elements, Head.counted]
    split_ifs with hk
    · rw [number, tested_of_le hk, Read.pure_bind, Read.pure_bind]
      exact .items
    · rw [number, tested_of_lt (by omega)]
      exact .malformed _

theorem headOf_negative (h : 0xe0 ≤ t) : headOf t b = .leaf 1 := by
  unfold headOf
  rw [if_neg (by omega), if_neg (by omega), if_neg (by omega), if_neg (by omega), if_pos h]

theorem headOf_fixstr (h : 0xa0 ≤ t) (h' : t < 0xc0) : headOf t b = .leaf (1 + (t - 0xa0)) := by
  unfold headOf
  rw [if_neg (by omega), if_neg (by omega), if_neg (by omega), if_pos h']

theorem headOf_fixarray (h : 0x90 ≤ t) (h' : t < 0xa0) : headOf t b = .items 1 (t - 0x90) := by
  unfold headOf
  rw [if_neg (by omega), if_neg (by omega), if_pos h']

theorem headOf_fixmap (h : 0x80 ≤ t) (h' : t < 0x90) : headOf t b = .items 1 (2 * (t - 0x80)) := by
  unfold headOf
  rw [if_neg (by omega), if_pos h']

/-- The reserved tag and the extensions, which the skipper does not know. -/
theorem headOf_reserved (h : t ∈ [0xc1, 0xc7, 0xc8, 0xc9, 0xd4, 0xd5, 0xd6, 0xd7, 0xd8]) :
    headOf t b = .malformed := by
  simp only [List.mem_cons, List.not_mem_nil, or_false] at h
  rcases h with rfl | rfl | rfl | rfl | rfl | rfl | rfl | rfl | rfl <;> rfl

theorem skip_follows_headOf (hb : 1 ≤ b.length) :
    Follows fuel b (headOf (b.byte 0) b) (skipWithin (fuel + 1) b) := by
  have ht : number b 0 1 "MsgPack: short skip" = pure (b.byte 0) := number_zero.2 ⟨hb, rfl⟩
  have h256 := b.byte_lt 0
  generalize hbt : b.byte 0 = t at ht h256
  simp only [skipWithin, ht, Read.pure_bind]
  refine ite_follows (fun h => past_follows ?_ (by decide)) fun h1 => ?_
  · rcases h with rfl | rfl | rfl <;> rfl
  refine ite_follows (fun h => past_follows ?_ (by decide)) fun h2 => ?_
  · exact if_pos ((low_80 t h256).1 h)
  refine ite_follows (fun h => past_follows ?_ (by decide)) fun h3 => ?_
  · exact headOf_negative ((high_e0 t h256).1 h)
  refine ite_follows (fun h => past_follows ?_ (by decide)) fun h4 => ?_
  · rcases h with rfl | rfl <;> rfl
  refine ite_follows (fun h => past_follows ?_ (by decide)) fun h5 => ?_
  · rcases h with rfl | rfl <;> rfl
  refine ite_follows (fun h => past_follows ?_ (by decide)) fun h6 => ?_
  · rcases h with rfl | rfl | rfl <;> rfl
  refine ite_follows (fun h => past_follows ?_ (by decide)) fun h7 => ?_
  · rcases h with rfl | rfl | rfl <;> rfl
  refine ite_follows (fun h => ?_) fun h8 => ?_
  · rw [mid_a0 t h256] at h
    rw [low_a0 t h256 h.1 h.2]
    exact past_follows (headOf_fixstr h.1 h.2) (by simp only [SIZE]; omega)
  refine ite_follows (fun h => ?_) fun h9 => ?_
  · exact h ▸ pastBlob_follows 1 _
  refine ite_follows (fun h => ?_) fun h10 => ?_
  · exact h ▸ pastBlob_follows 2 _
  refine ite_follows (fun h => ?_) fun h11 => ?_
  · exact h ▸ pastBlob_follows 4 _
  refine ite_follows (fun h => ?_) fun h12 => ?_
  · exact h ▸ pastBlob_follows 1 _
  refine ite_follows (fun h => ?_) fun h13 => ?_
  · exact h ▸ pastBlob_follows 2 _
  refine ite_follows (fun h => ?_) fun h14 => ?_
  · exact h ▸ pastBlob_follows 4 _
  refine ite_follows (fun h => ?_) fun h15 => ?_
  · have hc : Follows fuel b (headOf t b) (do
        let (count, off) ← unpackArrayHeader b
        let off ← skipItems (skipWithin fuel) b (1 * count) off
        past b off) := by
      refine container_follows hb hbt (fun h => ?_) (fun h => ?_) (fun h => ?_) h
      · rw [mid_90 t h256] at h
        rw [headOf_fixarray h.1 h.2, low_0f t h256, Nat.one_mul, show t % 16 = t - 0x90 by omega]
      · exact h ▸ rfl
      · exact h ▸ rfl
    simpa only [Nat.one_mul] using hc
  refine ite_follows (fun h => ?_) fun h16 => ?_
  · refine container_follows hb hbt (fun h => ?_) (fun h => ?_) (fun h => ?_) h
    · rw [mid_80 t h256] at h
      rw [headOf_fixmap h.1 h.2, low_0f t h256, show t % 16 = t - 0x80 by omega]
    · exact h ▸ rfl
    · exact h ▸ rfl
  rw [low_80 t h256] at h2
  rw [high_e0 t h256] at h3
  rw [mid_a0 t h256] at h8
  rw [mid_90 t h256] at h15
  rw [mid_80 t h256] at h16
  rw [headOf_reserved (by simp only [List.mem_cons, List.not_mem_nil, or_false]; omega)]
  exact .malformed _

theorem skip_follows : Follows fuel b (head b) (skipWithin (fuel + 1) b) := by
  unfold head
  split_ifs with h
  · have hn : number b 0 1 "MsgPack: short skip" = .fail "MsgPack: short skip" := tested_of_lt (by omega)
    simp only [skipWithin, hn]
    exact .malformed _
  · exact skip_follows_headOf (by omega)

-- ---------------------------------------------------------------------------
-- Agreement
-- ---------------------------------------------------------------------------

/-- The reader ends where the walk ends, having consumed something; it fails
where the walk finds the bytes malformed; it is not confined where the walk
overruns. -/
inductive Agrees (b : Bytes) (least : Nat) : Extent → Read (Unit × Nat) → Prop
  | ends (k : Nat) : least ≤ k → k ≤ b.length → Agrees b least (.ends (b.drop k)) (.ok true ((), k))
  | malformed (text : String) : Agrees b least .malformed (.fail text)
  | overruns (r : Read (Unit × Nat)) : r.confined = false → Agrees b least .overruns r

/-- The skipper agrees with the walk over one value. -/
def SkipAgrees (b : Bytes) (skip : Reader Unit) : Prop := Agrees b 1 (walk 1 b) (skip b)

theorem Agrees.confined (h : Agrees b least e r) : r.confined = true ↔ e ≠ .overruns := by
  cases h with
  | ends k h1 h2 => simp
  | malformed text => simp
  | overruns r h => simp [h]

theorem Agrees.mono (h : Agrees b least e r) (hl : least' ≤ least) : Agrees b least' e r := by
  cases h with
  | ends k h1 h2 => exact .ends k (hl.trans h1) h2
  | malformed text => exact .malformed text
  | overruns r h => exact .overruns r h

theorem consume_of_ok (hb : b.length < SIZE) (hoff : off + k ≤ b.length)
    (h : skip (b.drop off) = .ok true ((), k)) : consume SIZE b skip off = .ok true ((), off + k) := by
  simp only [consume, rest, if_pos (show off ≤ b.length by omega), Read.pure_bind, h, Read.ok_bind, add,
    if_pos (show off + k < SIZE by omega)]
  rfl

theorem items_agree (hb : b.length < SIZE) (hoff : off ≤ b.length)
    (hskip : ∀ m, off ≤ m → SkipAgrees (b.drop m) skip) :
    Agrees b off (walk count (b.drop off)) (skipItems skip b count off >>= past b) := by
  induction count generalizing off with
  | zero =>
    have : past b off = .ok true ((), off) := by simp [past, hoff]
    simp only [skipItems, List.replicate_zero, perform_nil, Read.pure_bind, walk_zero, this]
    exact .ends off le_rfl hoff
  | succ count ih =>
    have hone : skipItems skip b (count + 1) off =
        consume SIZE b skip off >>= fun r => skipItems skip b count r.2 := by
      simp only [skipItems, List.replicate_succ, perform_cons, Read.bind_assoc, Read.pure_bind]
    rw [hone, Nat.add_comm, walk_add]
    have ho := hskip off le_rfl
    unfold SkipAgrees at ho
    revert ho
    generalize walk 1 (b.drop off) = e
    generalize hr : skip (b.drop off) = r
    rintro (⟨k, h1, hk⟩ | text | ⟨_, hc⟩)
    · rw [List.length_drop] at hk
      rw [consume_of_ok hb (by omega) hr, Read.ok_bind, Extent.andThen, List.drop_drop]
      exact (ih (by omega) fun m hm => hskip m (by omega)).mono (by omega)
    · have hc : consume SIZE b skip off = .fail text := by
        simp only [consume, rest, if_pos hoff, Read.pure_bind, hr, Read.fail_bind]
      rw [hc]
      exact .malformed text
    · refine .overruns _ ?_
      rw [Read.bind_assoc]
      refine Read.not_confined_bind ?_
      rw [consume, rest, if_pos hoff, Read.pure_bind, hr]
      exact Read.not_confined_bind hc

theorem skipWithin_agrees (hb : b.length < SIZE) (hf : b.length < fuel) :
    SkipAgrees b (skipWithin fuel) := by
  induction fuel generalizing b with
  | zero => omega
  | succ fuel ih =>
    have hs : Follows fuel b (head b) (skipWithin (fuel + 1) b) := skip_follows
    unfold SkipAgrees
    revert hs
    generalize hh : head b = h
    generalize skipWithin (fuel + 1) b = r
    rintro (text | hsize | hsize | _)
    · rw [walk_malformed hh]
      exact .malformed text
    · rw [walk_leaf hh, walk_zero]
      split_ifs with hl
      · have hp := head_leaf hh
        rw [past, decide_eq_true hl]
        exact .ends _ hp.1 hl
      · exact .overruns _ (decide_eq_false hl)
    · rw [walk_leaf hh, if_neg (by omega)]
      exact .overruns _ rfl
    · have hp := head_items hh
      rw [walk_items hh, Nat.add_zero]
      refine (items_agree hb hp.2 fun m hm => ih ?_ ?_).mono hp.1
      · rw [List.length_drop]
        omega
      · rw [List.length_drop]
        omega

theorem skipValue_agrees (hb : b.length < SIZE) : SkipAgrees b skipValue :=
  skipWithin_agrees hb (Nat.lt_succ_self _)

/-- A skipper that agrees with the walk ends exactly where the walk does. -/
theorem SkipAgrees.ok_iff (h : SkipAgrees b skip) :
    skip b = .ok true ((), n) ↔ 1 ≤ n ∧ n ≤ b.length ∧ walk 1 b = .ends (b.drop n) := by
  unfold SkipAgrees at h
  revert h
  generalize walk 1 b = e
  generalize skip b = r
  rintro (⟨k, h1, hk⟩ | text | ⟨_, hc⟩)
  · constructor
    · rintro ⟨⟩
      exact ⟨h1, hk, rfl⟩
    · rintro ⟨-, hn, he⟩
      have hl := congrArg List.length (Extent.ends.inj he)
      rw [List.length_drop, List.length_drop] at hl
      obtain rfl : k = n := by omega
      rfl
  · simp
  · simp only [reduceCtorEq, and_false, iff_false]
    rintro rfl
    cases hc

/-- The bound on the recursion is never met where the walk does not overrun. -/
theorem skipWithin_enough (hb : b.length < SIZE) (hf : b.length < fuel) :
    skipWithin fuel b = .ok true ((), n) ↔ skipValue b = .ok true ((), n) := by
  rw [(skipWithin_agrees hb hf).ok_iff, (skipValue_agrees hb).ok_iff]

theorem skipValue_reads : Reads SIZE skipValue fun b => walk 1 b ≠ .overruns where
  confined b hb := (skipValue_agrees hb).confined
  within b _ k hb h := by
    obtain ⟨h1, hk, -⟩ := (skipValue_agrees hb).ok_iff.1 h
    exact ⟨h1, hk⟩

/-- The payload slot: a length form, or an object to be skipped. -/
def BlobFits (b : Bytes) : Prop :=
  ¬ Wide blobForms b ∧ (b.byte 0 = 0xc0 ∨ b.byte 0 &&& 0xe0 = 0xa0 ∨ blobForms.Has (b.byte 0) ∨
    walk 1 b ≠ .overruns)

theorem unpackObject_reads : Reads SIZE (fun b : Bytes => do
    let (_, elem) ← skipValue b
    if elem > b.length then Read.fail "MsgPack: short payload object"
    else pure (b.left elem, elem)) fun b => walk 1 b ≠ .overruns where
  confined b hb := by
    rw [Read.confined_bind, skipValue_reads.confined b hb, and_iff_left]
    rintro ⟨_, elem⟩ h
    dsimp only
    rw [if_neg (not_lt.2 (skipValue_reads.within b _ _ hb h).2)]
    rfl
  within b v k hb h := by
    obtain ⟨⟨_, elem⟩, hs, h⟩ := Read.bind_eq_ok.1 h
    have hw := skipValue_reads.within b _ _ hb hs
    dsimp only at h
    rw [if_neg (not_lt.2 hw.2), Read.pure_eq_ok, Prod.mk.injEq] at h
    exact h.2 ▸ hw

theorem unpackBlobOrObject_reads : Reads SIZE unpackBlobOrObject BlobFits := by
  refine (tagged_reads (ite_reads (P := fun b : Bytes => b.byte 0 = 0xc0) (fun b hb => nil_within hb)
    (ite_reads (P := fun b : Bytes => b.byte 0 &&& 0xe0 = 0xa0) (fun b _ => fixed_within b _)
      (sized_reads unpackObject_reads))) ?_).congr fun (b : Bytes) => ?_
  · simp [Wide, LengthForms.Has, blobForms, walk_malformed, head_nil]
  · unfold BlobFits
    have hw : Wide blobForms b → b.byte 0 ≠ 0xc0 ∧ b.byte 0 &&& 0xe0 ≠ 0xa0 := by
      rintro ⟨-, ht, -⟩
      rcases List.mem_cons.1 ht with h | h
      · simp [h]
      · simp [List.mem_singleton.1 h]
    tauto

end MicroReticulum.MsgPack
