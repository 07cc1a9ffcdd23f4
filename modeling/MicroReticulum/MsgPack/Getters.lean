import MicroReticulum.MsgPack.Reading

/-!
# Where the value getters are confined

Every getter tests the length before it reads, so only the sum of a header and
a 32-bit length can take it out of the buffer.
-/

namespace MicroReticulum.MsgPack

open Lib.Cursor

variable {α : Type} {b : Bytes} {f : LengthForms} {other : Reader Bytes} {OtherFits : Bytes → Prop}

theorem be_lt (b : Bytes) : be b < 256 ^ b.length := by
  have key : ∀ (b : Bytes) (r : Nat), b.foldl (fun r x => r * 256 + x.toNat) r < (r + 1) * 256 ^ b.length := by
    intro b
    induction b with
    | nil => simp
    | cons x b ih =>
      intro r
      have hx : x.toNat < 256 := x.toNat_lt
      calc b.foldl (fun r x => r * 256 + x.toNat) (r * 256 + x.toNat)
          < (r * 256 + x.toNat + 1) * 256 ^ b.length := ih _
        _ ≤ ((r + 1) * 256) * 256 ^ b.length := Nat.mul_le_mul_right _ (by omega)
        _ = (r + 1) * 256 ^ (x :: b).length := by rw [List.length_cons, pow_succ']; ring
  simpa [be] using key b 0

theorem number_lt (h : number b pos k short = .ok true v) : v < 256 ^ k := by
  obtain ⟨hk, rfl⟩ := tested_eq_ok.1 h
  refine lt_of_lt_of_le (be_lt _) (Nat.pow_le_pow_right (by omega) ?_)
  simp

/-- The first byte, as every reader gets it. -/
theorem number_zero : number b 0 1 short = .ok true t ↔ 1 ≤ b.length ∧ b.byte 0 = t := by
  rw [number, tested_eq_ok, Nat.zero_add]
  refine and_congr_right fun h => ?_
  cases b with
  | nil => simp at h
  | cons x b => simp [be, Bytes.byte]

-- ---------------------------------------------------------------------------
-- Scalars
-- ---------------------------------------------------------------------------

theorem unpackUint_reads : Reads SIZE unpackUint fun _ => True where
  confined b _ := by
    simp only [unpackUint, Read.confined_bind, tested_confined, true_and, iff_true]
    intro t _
    split_ifs <;> simp [Read.confined_bind]
  within b v k _ h := by
    simp only [unpackUint, Read.bind_eq_ok, number_zero] at h
    obtain ⟨t, ⟨ht, -⟩, h⟩ := h
    split_ifs at h <;> simp [Read.bind_eq_ok, tested_eq_ok] at h <;> omega

theorem unpackBool_reads : Reads SIZE unpackBool fun _ => True where
  confined b _ := by
    simp only [unpackBool, Read.confined_bind, tested_confined, true_and, iff_true]
    intro t _
    split_ifs <;> simp
  within b v k _ h := by
    simp only [unpackBool, Read.bind_eq_ok, number_zero] at h
    obtain ⟨t, ⟨ht, -⟩, h⟩ := h
    split_ifs at h <;> simp at h <;> omega

theorem unpackDouble_eq (h : 9 ≤ b.length) : unpackDouble b =
    if be ((b.drop 0).take 1) ≠ 0xcb then .fail "MsgPack: expected float64"
    else pure (be ((b.drop 1).take 8), 9) := by
  simp only [unpackDouble, if_neg (Nat.not_lt.2 h), field_of_le (show 0 + 1 ≤ b.length by omega),
    field_of_le (show 1 + 8 ≤ b.length by omega), Read.pure_bind]

theorem unpackDouble_reads : Reads SIZE unpackDouble fun _ => True where
  confined b _ := by
    rcases Nat.lt_or_ge b.length 9 with h | h
    · simp [unpackDouble, h]
    · rw [unpackDouble_eq h]
      split_ifs <;> simp
  within b v k _ hr := by
    rcases Nat.lt_or_ge b.length 9 with h | h
    · simp [unpackDouble, h] at hr
    · rw [unpackDouble_eq h] at hr
      split_ifs at hr <;> simp at hr <;> omega

theorem unpackNumber_reads : Reads SIZE unpackNumber fun _ => True where
  confined b hb := by
    have hd := (unpackDouble_reads.confined b hb).2 trivial
    have hu := (unpackUint_reads.confined b hb).2 trivial
    simp only [unpackNumber, Read.confined_bind, tested_confined, true_and, iff_true]
    intro t _
    split_ifs <;> simp [Read.confined_bind, hd, hu]
  within b v k hb h := by
    have hd := fun v k => unpackDouble_reads.within b v k hb
    have hu := fun v k => unpackUint_reads.within b v k hb
    simp only [unpackNumber, Read.bind_eq_ok, number_zero] at h
    obtain ⟨t, ⟨ht, -⟩, h⟩ := h
    split_ifs at h <;> simp only [Read.bind_eq_ok, tested_eq_ok, Read.pure_eq_ok, Prod.mk.injEq] at h
    case pos =>
      obtain ⟨⟨v', k'⟩, hk, -, rfl⟩ := h
      exact hd v' k' hk
    case neg =>
      obtain ⟨⟨v', k'⟩, hk, -, rfl⟩ := h
      exact hu v' k' hk
    all_goals omega

theorem containerHeader_reads (fix tag16 : Nat) (short short16 short32 expected : String) :
    Reads SIZE (containerHeader fix tag16 short short16 short32 expected) fun _ => True where
  confined b _ := by
    simp only [containerHeader, Read.confined_bind, tested_confined, true_and, iff_true]
    intro t _
    split_ifs <;> simp [Read.confined_bind]
  within b v k _ h := by
    simp only [containerHeader, Read.bind_eq_ok, number_zero] at h
    obtain ⟨t, ⟨ht, -⟩, h⟩ := h
    split_ifs at h <;> simp [Read.bind_eq_ok, tested_eq_ok] at h <;> omega

-- ---------------------------------------------------------------------------
-- Blobs
-- ---------------------------------------------------------------------------

theorem payload_confined : (payload hdr len short b).confined = true ↔ hdr + len < SIZE := by
  unfold payload add
  split_ifs with h
  · simp only [Read.pure_bind]
    split_ifs <;> simp [h]
  · simp [h]

theorem payload_within (h : payload hdr len short b = .ok true (v, k)) : k = hdr + len ∧ k ≤ b.length := by
  simp only [payload, add] at h
  split_ifs at h
  · simp only [Read.pure_bind] at h
    split_ifs at h
    · simp at h
    · simp only [Read.pure_eq_ok, Prod.mk.injEq] at h
      omega
  · simp at h

/-- A complete 32-bit length that does not fit a size together with its header. -/
def Wide (f : LengthForms) (b : Bytes) : Prop :=
  5 ≤ b.length ∧ b.byte 0 ∈ f.tags32 ∧ SIZE ≤ 5 + be (b.mid 1 4)

/-- The tag is one of the length forms. -/
def LengthForms.Has (f : LengthForms) (t : Nat) : Prop := t ∈ f.tags8 ∨ t ∈ f.tags16 ∨ t ∈ f.tags32

instance (f : LengthForms) (t : Nat) : Decidable (f.Has t) :=
  inferInstanceAs (Decidable (_ ∨ _ ∨ _))

theorem numbered_confined (h : 256 ^ j + hdr ≤ SIZE) :
    (number b 1 j s >>= fun len => payload hdr len short b).confined = true := by
  rw [Read.confined_bind]
  refine ⟨tested_confined, fun len hl => payload_confined.2 ?_⟩
  have := number_lt hl
  omega

theorem numbered_within (h : (number b 1 j s >>= fun len => payload hdr len short b) = .ok true (v, k)) :
    hdr ≤ k ∧ k ≤ b.length := by
  obtain ⟨len, -, h⟩ := Read.bind_eq_ok.1 h
  have := payload_within h
  omega

theorem sized_reads (hother : Reads SIZE other OtherFits) :
    Reads SIZE (fun b : Bytes => sized f (b.byte 0) short other b)
      fun b : Bytes => ¬ Wide f b ∧ (f.Has (b.byte 0) ∨ OtherFits b) where
  confined b hb := by
    unfold sized
    split_ifs with h8 h16 h32
    · have hw : ¬ Wide f b := fun hw => (f.apart _ hw.2.1).1 h8
      simp [numbered_confined (show 256 ^ 1 + 2 ≤ SIZE by norm_num), hw, LengthForms.Has, h8]
    · have hw : ¬ Wide f b := fun hw => (f.apart _ hw.2.1).2 h16
      simp [numbered_confined (show 256 ^ 2 + 3 ≤ SIZE by norm_num), hw, LengthForms.Has, h16]
    · simp only [Read.confined_bind, tested_confined, true_and, payload_confined, tested_eq_ok]
      simp only [Wide, h32, true_and, LengthForms.Has, or_true, true_or, and_true, not_and, not_le]
      constructor
      · intro h h5
        exact h _ ⟨h5, rfl⟩
      · rintro h _ ⟨h5, rfl⟩
        exact h h5
    · have hw : ¬ Wide f b := fun hw => h32 hw.2.1
      simp [hother.confined b hb, hw, LengthForms.Has, h8, h16, h32]
  within b v k hb h := by
    unfold sized at h
    split_ifs at h
    · have := numbered_within h
      omega
    · have := numbered_within h
      omega
    · have := numbered_within h
      omega
    · exact hother.within b v k hb h

theorem fail_reads (text : String) : Reads SIZE (fun _ : Bytes => (.fail text : Read (α × Nat))) fun _ => True where
  confined b _ := by simp
  within b v k _ h := by simp at h

/-- The tag is read, then the reader that it selects runs on the same bytes. -/
theorem tagged_reads {g : Nat → Reader α} {Fits : Bytes → Prop}
    (hg : Reads SIZE (fun b : Bytes => g (b.byte 0) b) Fits) (hnil : Fits []) :
    Reads SIZE (fun b => do let t ← number b 0 1 short; g t b) Fits where
  confined b hb := by
    rw [Read.confined_bind]
    cases b with
    | nil => simpa [number_zero] using hnil
    | cons x b =>
      rw [← hg.confined _ hb]
      simp [number_zero]
  within b v k hb h := by
    obtain ⟨t, ht, h⟩ := Read.bind_eq_ok.1 h
    obtain ⟨-, rfl⟩ := number_zero.1 ht
    exact hg.within b v k hb h

/-- A first form of its own, as fixstr and nil have it, beside the others. -/
theorem ite_reads {P : Bytes → Prop} [DecidablePred P] {g h : Reader α} {Fits : Bytes → Prop}
    (hg : ∀ b, P b → (g b).confined = true ∧ ∀ v k, g b = .ok true (v, k) → 1 ≤ k ∧ k ≤ b.length)
    (hh : Reads SIZE h Fits) :
    Reads SIZE (fun b => if P b then g b else h b) fun b => P b ∨ Fits b where
  confined b hb := by
    split_ifs with hp
    · simp [hp, (hg b hp).1]
    · simp [hp, hh.confined b hb]
  within b v k hb hr := by
    split_ifs at hr with hp
    · exact (hg b hp).2 v k hr
    · exact hh.within b v k hb hr

theorem fixed_within (b : Bytes) (short : String) :
    (payload 1 (b.byte 0 &&& 0x1f) short b).confined = true ∧
      ∀ v k, payload 1 (b.byte 0 &&& 0x1f) short b = .ok true (v, k) → 1 ≤ k ∧ k ≤ b.length := by
  constructor
  · have : b.byte 0 &&& 0x1f ≤ 0x1f := Nat.and_le_right
    rw [payload_confined, SIZE]
    omega
  · intro v k h
    have := payload_within h
    omega

theorem byte_nil : Bytes.byte [] 0 = 0 := rfl

theorem nil_within {v : α} (h : b.byte 0 = 0xc0) :
    (pure (v, 1) : Read (α × Nat)).confined = true ∧
      ∀ v' k, (pure (v, 1) : Read (α × Nat)) = .ok true (v', k) → 1 ≤ k ∧ k ≤ b.length := by
  refine ⟨rfl, ?_⟩
  rintro v' k hr
  obtain ⟨-, rfl⟩ := Prod.mk.inj (Read.pure_eq_ok.1 hr)
  cases b with
  | nil => cases h
  | cons x b => simp

theorem Wide.tag (h : Wide f b) : b.byte 0 ∈ f.tags32 := h.2.1

theorem unpackStr_reads : Reads SIZE unpackStr fun b => ¬ Wide strForms b := by
  refine (tagged_reads (ite_reads (P := fun b : Bytes => b.byte 0 &&& 0xe0 = 0xa0)
    (fun b _ => fixed_within b _) (sized_reads (fail_reads _))) ?_).congr fun b => ?_
  · simp [Wide]
  · simp only [or_true, and_true, or_iff_right_iff_imp]
    intro h hw
    rw [List.mem_singleton.1 hw.tag] at h
    exact absurd h (by decide)

theorem unpackBin_reads : Reads SIZE unpackBin fun b => ¬ Wide binForms b := by
  refine (tagged_reads (sized_reads (fail_reads _)) (by simp [Wide])).congr fun b => ?_
  simp

theorem unpackOne_reads : Reads SIZE unpackOne fun b => ¬ Wide binForms b := by
  refine (ite_reads (fun b hb => nil_within hb.2) unpackBin_reads).congr fun b => ?_
  rw [or_iff_right_iff_imp]
  intro h hw
  rw [List.mem_singleton.1 hw.tag] at h
  exact absurd h.2 (by decide)

end MicroReticulum.MsgPack
