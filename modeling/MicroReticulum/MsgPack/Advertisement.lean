import MicroReticulum.MsgPack.Splicing

/-!
# Packed advertisements

`ResourceAdvertisement::pack`, and that `unpack` gets the same advertisement
back, its flags taken from the flag byte.
-/

namespace MicroReticulum.MsgPack.ResourceAdvertisement

open Lib.Cursor

/-- One of the map's one-character keys. -/
def packKey (key : Char) : Bytes := (packFixstr [key.toUInt8]).getD []

def packBinOrNil (b : Bytes) : Bytes := if b = [] then packNil else packBin b

/-- The map's members, in order: key and value. -/
def members (adv : ResourceAdvertisement) : List (Char × Bytes) :=
  [('t', packUint adv.t), ('d', packUint adv.d), ('n', packUint adv.n),
    ('h', packBin adv.h), ('r', packBin adv.r), ('o', packBin adv.o),
    ('i', packUint adv.i), ('l', packUint adv.l), ('q', packBinOrNil adv.q),
    ('f', packUint adv.f), ('m', packBin adv.m)]

def packMembers (ms : List (Char × Bytes)) : Bytes := ms.flatMap fun x => packKey x.1 ++ x.2

def pack (adv : ResourceAdvertisement) : Bytes := packMapHeader 11 ++ packMembers adv.members

-- ---------------------------------------------------------------------------
-- Fields
-- ---------------------------------------------------------------------------

/-- The map's members read one behind the other. -/
inductive Members : ResourceAdvertisement → List (Char × Bytes) → ResourceAdvertisement → Prop
  | nil (adv : ResourceAdvertisement) : Members adv [] adv
  | cons {adv adv' adv'' : ResourceAdvertisement} {key : Char} {v : Bytes} {ms : List (Char × Bytes)} :
      Decodes (adv.readField [key.toUInt8]) v adv' → Members adv' ms adv'' → Members adv ((key, v) :: ms) adv''

variable {adv adv' : ResourceAdvertisement} {b rest v : Bytes} {ms : List (Char × Bytes)} {off : Nat}

theorem packKey_decodes (key : Char) : Decodes unpackStr (packKey key) [key.toUInt8] :=
  packFixstr_decodes (s := [key.toUInt8]) rfl

theorem into_decodes {r : Reader α} {a : α} (set : α → β) (h : Decodes r b a) : Decodes (into r set) b (set a) := by
  intro tail hs
  rw [into, h tail hs]
  rfl

theorem packBin_tag (data : Bytes) : ∃ x o, packBin data = x :: o ∧ x ∈ ([0xc4, 0xc5, 0xc6] : Bytes) := by
  unfold packBin packLength
  split
  · exact ⟨_, _, rfl, by decide⟩
  · split <;> exact ⟨_, _, rfl, by decide⟩

theorem binOrNil_decodes (q : Bytes) : Decodes readBinOrNil (packBinOrNil q) q := by
  intro tail hs
  unfold packBinOrNil at hs ⊢
  split
  · next h =>
    rw [h]
    rfl
  · next h =>
    rw [if_neg h] at hs
    have hd := packBin_decodes q tail hs
    obtain ⟨x, o, hx, hm⟩ := packBin_tag q
    have hne : x.toNat ≠ 0xc0 := by
      intro he
      fin_cases hm <;> exact absurd he (by decide)
    rw [hx] at hd ⊢
    rw [List.cons_append] at hd ⊢
    rw [readBinOrNil, number_head, Read.pure_bind, if_neg hne]
    exact hd

theorem Members.perform (h : Members adv ms adv') (hat : At b off (packMembers ms ++ rest))
    (hs : b.length < SIZE) :
    ∃ off', perform (entry b) (List.replicate ms.length ()) (adv, off) = .ok true (adv', off') := by
  induction h generalizing off with
  | nil => exact ⟨off, rfl⟩
  | @cons adv adv' adv'' key v ms hd _ ih =>
    have hsplit : packMembers ((key, v) :: ms) ++ rest = packKey key ++ (v ++ (packMembers ms ++ rest)) := by
      simp [packMembers]
    rw [hsplit] at hat
    obtain ⟨hkey, hat⟩ := hat.consume (packKey_decodes key) hs
    obtain ⟨hvalue, hat⟩ := hat.consume hd hs
    obtain ⟨off', hrest⟩ := ih hat
    refine ⟨off', ?_⟩
    rw [List.length_cons, List.replicate_succ, perform_cons, entry, hkey, Read.ok_bind]
    dsimp only
    rw [hvalue, Read.ok_bind, hrest]

/-- Numbers of the widths their fields have. -/
structure Sized (adv : ResourceAdvertisement) : Prop where
  t : adv.t < 2 ^ 32
  d : adv.d < 2 ^ 32
  n : adv.n < 2 ^ 32
  i : adv.i < 2 ^ 32
  l : adv.l < 2 ^ 32
  f : adv.f < 2 ^ 8

theorem Sized.members (h : adv.Sized) :
    Members {} adv.members { adv with e := false, c := false, s := false, u := false, p := false, x := false } := by
  have huint : ∀ v < 2 ^ 32, ∀ set : Nat → ResourceAdvertisement,
      Decodes (into unpackUint fun w => set (w % 2 ^ 32)) (packUint v) (set v) := by
    intro v hv set
    have hd := into_decodes (fun w => set (w % 2 ^ 32)) (packUint_decodes (v := v) (by omega))
    rwa [Nat.mod_eq_of_lt hv] at hd
  have hbin : ∀ (v : Bytes) (set : Bytes → ResourceAdvertisement),
      Decodes (into unpackBin set) (packBin v) (set v) := fun v set => into_decodes set (packBin_decodes v)
  have hnil : ∀ (v : Bytes) (set : Bytes → ResourceAdvertisement),
      Decodes (into readBinOrNil set) (packBinOrNil v) (set v) := fun v set => into_decodes set (binOrNil_decodes v)
  have hflags : ∀ set : Nat → ResourceAdvertisement,
      Decodes (into unpackUint fun w => set (w % 2 ^ 8)) (packUint adv.f) (set adv.f) := by
    intro set
    have hf := h.f
    have hd := into_decodes (fun w => set (w % 2 ^ 8)) (packUint_decodes (v := adv.f) (by omega))
    rwa [Nat.mod_eq_of_lt hf] at hd
  refine .cons (huint _ h.t fun w => { t := w }) ?_
  refine .cons (huint _ h.d fun w => { t := adv.t, d := w }) ?_
  refine .cons (huint _ h.n fun w => { t := adv.t, d := adv.d, n := w }) ?_
  refine .cons (hbin _ fun w => { t := adv.t, d := adv.d, n := adv.n, h := w }) ?_
  refine .cons (hbin _ fun w => { t := adv.t, d := adv.d, n := adv.n, h := adv.h, r := w }) ?_
  refine .cons (hbin _ fun w => { t := adv.t, d := adv.d, n := adv.n, h := adv.h, r := adv.r, o := w }) ?_
  refine .cons (huint _ h.i fun w =>
    { t := adv.t, d := adv.d, n := adv.n, h := adv.h, r := adv.r, o := adv.o, i := w }) ?_
  refine .cons (huint _ h.l fun w =>
    { t := adv.t, d := adv.d, n := adv.n, h := adv.h, r := adv.r, o := adv.o, i := adv.i, l := w }) ?_
  refine .cons (hnil _ fun w =>
    { t := adv.t, d := adv.d, n := adv.n, h := adv.h, r := adv.r, o := adv.o, i := adv.i, l := adv.l, q := w }) ?_
  refine .cons (hflags fun w =>
    { t := adv.t, d := adv.d, n := adv.n, h := adv.h, r := adv.r, o := adv.o, i := adv.i, l := adv.l, q := adv.q
      f := w }) ?_
  exact .cons (hbin _ fun w => { adv with
    e := false, c := false, s := false, u := false, p := false, x := false, m := w }) (.nil _)

/-- What is packed is read back. -/
theorem unpack_pack (h : adv.Sized) (hs : adv.pack.length < SIZE) : unpack adv.pack = .ok true adv.withFlags := by
  have hstart : At adv.pack 0 (packMapHeader 11 ++ packMembers adv.members) := At.start _
  have hat := (hstart.consume (packMapHeader_decodes (by decide)) hs).2
  rw [← List.append_nil (packMembers _)] at hat
  obtain ⟨off', hread⟩ := h.members.perform hat hs
  have hmap : unpackMapHeader adv.pack = .ok true (11, (packMapHeader 11).length) :=
    packMapHeader_decodes (by decide) _ hs
  rw [unpack, hmap, Read.ok_bind]
  rw [Nat.zero_add] at hread
  dsimp only
  have hlen : adv.members.length = 11 := rfl
  rw [hlen] at hread
  rw [hread, Read.ok_bind]
  rfl

end MicroReticulum.MsgPack.ResourceAdvertisement
