import MicroReticulum.MsgPack.Navigation

/-!
# Where envelopes and advertisements are read confined

A fixed sequence of slots, or a map whose keys select the getter: each slot
has to fit at the cursor the one before leaves.
-/

namespace MicroReticulum.MsgPack

open Lib.Cursor

variable {b raw key : Bytes} {off least : Nat} {adv : ResourceAdvertisement}

-- ---------------------------------------------------------------------------
-- Unpacker
-- ---------------------------------------------------------------------------

theorem unpackArrayHeader_reads : Reads SIZE unpackArrayHeader fun _ => True := containerHeader_reads ..

/-- `f` runs on the count and the cursor behind the array's header, when the
array is long enough. -/
theorem openArray_confined (hb : raw.length < SIZE) {f : Nat × Nat → Read α} {P : Nat → Nat → Prop}
    (hf : ∀ count off, off ≤ raw.length → ((f (count, off)).confined = true ↔ P count off)) :
    (openArray raw least 0 >>= f).confined = true ↔
      After SIZE raw unpackArrayHeader 0 fun count off => least ≤ count → P count off := by
  rw [openArray, if_neg (by omega), Read.bind_assoc,
    unpackArrayHeader_reads.then_confined hb (Nat.zero_le _) (P := fun count off => least ≤ count → P count off),
    true_and]
  intro count off hoff
  dsimp only
  split_ifs with h
  · simp only [Read.fail_bind, Read.confined_fail, true_iff]
    omega
  · rw [Read.pure_bind, hf count off hoff]
    exact ⟨fun h' _ => h', fun h' => h' (not_lt.1 h)⟩

/-- The members behind the ones the envelope has slots for. -/
def RestFits (raw : Bytes) (taken count off : Nat) : Prop := walk (count - taken) (raw.drop off) ≠ .overruns

theorem skipRest_confined (hb : raw.length < SIZE) (hoff : off ≤ raw.length) {f : Nat → Read α}
    (hf : ∀ off, (f off).confined = true) :
    (skipRest raw taken count off >>= f).confined = true ↔ RestFits raw taken count off := by
  rw [Read.confined_bind, and_iff_left fun off _ => hf off]
  exact skipItems_confined hb hoff

/-- The bin slot and the payload slot from the cursor on, and what follows. -/
def SlotsFit (raw : Bytes) (taken count off : Nat) : Prop :=
  ¬ Wide binForms (raw.drop off) ∧ After SIZE raw unpackOne off fun _ off =>
    BlobFits (raw.drop off) ∧ After SIZE raw unpackBlobOrObject off fun _ off => RestFits raw taken count off

theorem slots_confined (hb : raw.length < SIZE) (hoff : off ≤ raw.length) {f : Bytes → Bytes → α} :
    (do
      let (key, off) ← consume SIZE raw unpackOne off
      let (payload, off) ← consume SIZE raw unpackBlobOrObject off
      let _ ← skipRest raw taken count off
      pure (f key payload)).confined = true ↔ SlotsFit raw taken count off := by
  refine unpackOne_reads.then_confined hb hoff fun key off hoff => ?_
  refine unpackBlobOrObject_reads.then_confined hb hoff fun payload off hoff => ?_
  exact skipRest_confined hb hoff fun _ => rfl

def RequestFits (raw : Bytes) : Prop :=
  After SIZE raw unpackArrayHeader 0 fun count off => 3 ≤ count →
    After SIZE raw unpackDouble off fun _ off => SlotsFit raw 3 count off

def ResponseFits (raw : Bytes) : Prop :=
  After SIZE raw unpackArrayHeader 0 fun count off => 2 ≤ count → SlotsFit raw 2 count off

theorem fromRequest_confined (hb : raw.length < SIZE) :
    (fromRequest raw).confined = true ↔ RequestFits raw := by
  refine openArray_confined hb fun count off hoff => ?_
  refine (unpackDouble_reads.then_confined hb hoff (P := fun _ off => SlotsFit raw 3 count off)
    fun requestedAt off hoff => ?_).trans (and_iff_right trivial)
  exact slots_confined hb hoff

theorem fromResponse_confined (hb : raw.length < SIZE) :
    (fromResponse raw).confined = true ↔ ResponseFits raw :=
  openArray_confined hb fun _ _ hoff => slots_confined hb hoff

-- ---------------------------------------------------------------------------
-- ResourceAdvertisement
-- ---------------------------------------------------------------------------

namespace ResourceAdvertisement

def uintKeys : List Char := ['t', 'd', 'n', 'i', 'l', 'f']

def binKeys : List Char := ['h', 'r', 'o', 'm', 'q']

/-- What the value behind `key` needs of the bytes it begins with. -/
def FieldFits (key b : Bytes) : Prop :=
  if key ∈ uintKeys.map ([·.toUInt8]) then True
  else if key ∈ binKeys.map ([·.toUInt8]) then ¬ Wide binForms b
  else walk 1 b ≠ .overruns

theorem readBinOrNil_reads : Reads SIZE readBinOrNil fun b => ¬ Wide binForms b := by
  refine (tagged_reads (ite_reads (P := fun b : Bytes => b.byte 0 = 0xc0) (fun b hb => nil_within hb)
    unpackBin_reads) (by simp [Wide])).congr fun (b : Bytes) => ?_
  rw [or_iff_right_iff_imp]
  intro h hw
  rw [List.mem_singleton.1 hw.tag] at h
  exact absurd h (by decide)

theorem bin_not_uint : ∀ key ∈ binKeys.map ([·.toUInt8]), key ∉ uintKeys.map ([·.toUInt8]) := by decide

theorem uintField_reads (h : key ∈ uintKeys.map ([·.toUInt8])) (set : Nat → ResourceAdvertisement) :
    Reads SIZE (into unpackUint set) (FieldFits key) :=
  (into_reads unpackUint_reads set).congr fun b => by simp only [FieldFits, if_pos h]

theorem binField_reads (h : key ∈ binKeys.map ([·.toUInt8])) {r : Reader Bytes}
    (hr : Reads SIZE r fun b => ¬ Wide binForms b) (set : Bytes → ResourceAdvertisement) :
    Reads SIZE (into r set) (FieldFits key) :=
  (into_reads hr set).congr fun b => by simp only [FieldFits, if_neg (bin_not_uint key h), if_pos h]

theorem select_reads {c : Prop} [Decidable c] {x y : Reader α} {P : Bytes → Prop}
    (hx : c → Reads SIZE x P) (hy : ¬ c → Reads SIZE y P) : Reads SIZE (if c then x else y) P := by
  split_ifs with h
  · exact hx h
  · exact hy h

theorem readField_reads : Reads SIZE (adv.readField key) (FieldFits key) := by
  unfold readField
  refine select_reads (fun h => uintField_reads (h ▸ by decide) _) fun ht => ?_
  refine select_reads (fun h => uintField_reads (h ▸ by decide) _) fun hd => ?_
  refine select_reads (fun h => uintField_reads (h ▸ by decide) _) fun hn => ?_
  refine select_reads (fun h => uintField_reads (h ▸ by decide) _) fun hi => ?_
  refine select_reads (fun h => uintField_reads (h ▸ by decide) _) fun hl => ?_
  refine select_reads (fun h => uintField_reads (h ▸ by decide) _) fun hf => ?_
  refine select_reads (fun h => binField_reads (h ▸ by decide) unpackBin_reads _) fun hh => ?_
  refine select_reads (fun h => binField_reads (h ▸ by decide) unpackBin_reads _) fun hr => ?_
  refine select_reads (fun h => binField_reads (h ▸ by decide) unpackBin_reads _) fun ho => ?_
  refine select_reads (fun h => binField_reads (h ▸ by decide) unpackBin_reads _) fun hm => ?_
  refine select_reads (fun h => binField_reads (h ▸ by decide) readBinOrNil_reads _) fun hq => ?_
  refine (into_reads skipValue_reads _).congr fun b => ?_
  have hu : key ∉ uintKeys.map ([·.toUInt8]) := by
    simp only [uintKeys, List.map_cons, List.map_nil, List.mem_cons, List.not_mem_nil]
    tauto
  have hb : key ∉ binKeys.map ([·.toUInt8]) := by
    simp only [binKeys, List.map_cons, List.map_nil, List.mem_cons, List.not_mem_nil]
    tauto
  rw [FieldFits, if_neg hu, if_neg hb]

/-- A key, and a value that fits. -/
def EntryFits (b : Bytes) (s : ResourceAdvertisement × Nat) (_ : Unit) : Prop :=
  ¬ Wide strForms (b.drop s.2) ∧ After SIZE b unpackStr s.2 fun key off => FieldFits key (b.drop off)

theorem entry_confined (hb : b.length < SIZE) {s : ResourceAdvertisement × Nat} (hs : s.2 ≤ b.length) :
    (entry b s ()).confined = true ↔ EntryFits b s () :=
  unpackStr_reads.then_confined hb hs fun _ _ hoff => readField_reads.consume_confined hb hoff

theorem entry_keeps (hb : b.length < SIZE) {s s' : ResourceAdvertisement × Nat}
    (h : entry b s () = .ok true s') : s'.2 ≤ b.length := by
  obtain ⟨⟨key, off⟩, -, h⟩ := Read.bind_eq_ok.1 h
  exact (readField_reads.consume_ok hb h).2

def UnpackFits (b : Bytes) : Prop :=
  ∀ count off, unpackMapHeader b = .ok true (count, off) →
    Along (entry b) (EntryFits b) (List.replicate count ()) ({}, off)

theorem unpack_confined (hb : b.length < SIZE) : (unpack b).confined = true ↔ UnpackFits b := by
  have hh : Reads SIZE unpackMapHeader fun _ => True := containerHeader_reads ..
  rw [unpack, Read.confined_bind, and_iff_right ((hh.confined b hb).2 trivial), Prod.forall]
  refine forall_congr' fun count => forall_congr' fun off => imp_congr_right fun ho => ?_
  rw [Read.confined_bind, and_iff_left]
  · exact perform_confined (fun s _ hs => entry_confined hb hs) (fun s _ s' _ => entry_keeps hb)
      (hh.within b _ _ hb ho).2
  · rintro ⟨adv, off⟩ -
    rfl

end ResourceAdvertisement

end MicroReticulum.MsgPack
