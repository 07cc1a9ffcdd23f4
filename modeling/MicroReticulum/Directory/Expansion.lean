import MicroReticulum.Directory.Image

/-!
# Expanding an image in place

A record is read back from the bytes it was written to, and the pools of an
admitted image are its sections followed by free slots: no write of the
expansion meets bytes of the image a later move still reads.
-/

namespace MicroReticulum.Directory

open Lib Lib.Memory

variable {r : DirRec} {b : BlobSlot} {size : Nat} {a : Arena} {image mem : Bytes}

-- ---------------------------------------------------------------------------
-- Records
-- ---------------------------------------------------------------------------

/-- The byte strings have the lengths of their fields. -/
structure DirRec.Sized (r : DirRec) : Prop where
  dest : r.dest.length = DEST_LEN
  pubkey : r.pubkey.length = PUBKEY_LEN
  nameHash : r.nameHash.length = NAME_HASH_LEN
  receivedFrom : r.receivedFrom.length = DEST_LEN
  ifaceHash : r.ifaceHash.length = DEST_LEN

structure BlobSlot.Sized (size : Nat) (b : BlobSlot) : Prop where
  dest : b.dest.length = DEST_LEN
  body : b.body.length = size - BLOB_PREFIX

/-- A field lies behind the ones before it. -/
theorem read_skip {pre rest : Bytes} {off n k : Nat} (h : pre.length = k) (hk : k ≤ off) :
    read (pre ++ rest) off n = read rest (off - k) n := by
  obtain ⟨m, rfl⟩ := Nat.exists_eq_add_of_le hk
  rw [read_append_right h, Nat.add_sub_cancel_left]

theorem u32_of_le (v : UInt32) : UInt32.ofNat (Bytes.ofLe (Bytes.le 4 v.toNat)) = v := by
  rw [Bytes.ofLe_le v.toNat_lt, UInt32.ofNat_toNat]

theorem u16_of_le (v : UInt16) : UInt16.ofNat (Bytes.ofLe (Bytes.le 2 v.toNat)) = v := by
  rw [Bytes.ofLe_le v.toNat_lt, UInt16.ofNat_toNat]

theorem length_encodeDir (h : r.Sized) (seq : UInt16) : (encodeDir seq r).length = DIR_SLOT_SZ := by
  simp only [encodeDir, List.length_append, Bytes.length_le, h.dest, h.pubkey, h.nameHash, h.receivedFrom,
    h.ifaceHash]
  rfl

theorem decodeDir_encodeDir (h : r.Sized) (seq : UInt16) : decodeDir (encodeDir seq r) = r := by
  obtain ⟨hd, hp, hn, hf, hi⟩ := h
  simp only [DEST_LEN, PUBKEY_LEN, NAME_HASH_LEN] at hd hp hn hf hi
  have hle : ∀ n v, (Bytes.le n v).length = n := Bytes.length_le
  have hone : ∀ x : UInt8, [x].length = 1 := fun _ => rfl
  simp (disch := simp [*]) only [decodeDir, readU32, readU8, encodeDir, DEST_LEN, PUBKEY_LEN, NAME_HASH_LEN,
    read_skip hd, read_skip hp, read_skip hn, read_skip hf, read_skip hi, read_skip (hle _ _), read_skip (hone _),
    Nat.reduceSub, read_append_left, u32_of_le]
  simp

theorem length_encodeBlob (h : b.Sized size) (hp : BLOB_PREFIX ≤ size) : (encodeBlob b).length = size := by
  simp only [encodeBlob, List.length_append, Bytes.length_le, h.dest, h.body, DEST_LEN, BLOB_PREFIX,
    List.length_nil] at hp ⊢
  omega

theorem decodeBlob_encodeBlob (h : b.Sized size) : decodeBlob size (encodeBlob b) = b := by
  obtain ⟨hd, hb⟩ := h
  simp only [DEST_LEN, BLOB_PREFIX] at hd hb
  have hle : ∀ n v, (Bytes.le n v).length = n := Bytes.length_le
  simp (disch := simp [*]) only [decodeBlob, readU16, encodeBlob, DEST_LEN, BLOB_PREFIX, read_skip hd,
    read_skip (hle _ _), Nat.reduceSub, read_append_left, u16_of_le]

theorem imgHdr_encodeHdr (h : ImgHdr) (hm : h.magic.length = 4) (rest : Bytes) : imgHdr (encodeHdr h ++ rest) = h := by
  have hle : ∀ n v, (Bytes.le n v).length = n := Bytes.length_le
  simp (disch := simp [*]) only [imgHdr, readU16, encodeHdr, List.append_assoc, read_skip hm,
    read_skip (hle _ _), Nat.reduceSub, read_append_left, u16_of_le]

theorem decodeDir_zero : decodeDir (.replicate DIR_SLOT_SZ 0) = .zero := by decide

theorem decodeBlob_zero (h : BLOB_PREFIX ≤ size) : decodeBlob size (.replicate size 0) = .zero size := by
  simp only [BLOB_PREFIX] at h
  rw [decodeBlob, readU16, readU16, DEST_LEN, BLOB_PREFIX, read_replicate (by omega), read_replicate (by omega),
    read_replicate (by omega), read_replicate (by omega)]
  rfl

-- ---------------------------------------------------------------------------
-- Memory operations
-- ---------------------------------------------------------------------------

/-- Where it starts to write, and how much. -/
def MemOp.target : MemOp → Nat × Nat
  | .move dst _ n => (dst, n)
  | .fill off n => (off, n)

def MemOp.InRange (len : Nat) : MemOp → Prop
  | .move dst src n => dst + n ≤ len ∧ src + n ≤ len
  | .fill off n => off + n ≤ len

/-- An operation leaves a range alone. -/
def MemOp.Spares (op : MemOp) (at_ n : Nat) : Prop := at_ + n ≤ op.target.1 ∨ op.target.1 + op.target.2 ≤ at_

variable {op : MemOp} {ops : List MemOp} {at_ n : Nat}

theorem MemOp.length_run (h : op.InRange mem.length) : (op.run mem).length = mem.length := by
  cases op with
  | move dst src n => exact length_write (by rw [length_read h.2]; exact h.1)
  | fill off n => exact length_write (by rw [List.length_replicate]; exact h)

theorem MemOp.read_spared (h : op.InRange mem.length) (hs : op.Spares at_ n) :
    Memory.read (op.run mem) at_ n = Memory.read mem at_ n := by
  have hwrite : ∀ (off : Nat) (cells : Bytes), off + cells.length ≤ mem.length →
      (at_ + n ≤ off ∨ off + cells.length ≤ at_) → Memory.read (write mem off cells) at_ n = Memory.read mem at_ n := by
    rintro off cells hin (hb | ha)
    · exact read_write_before hin hb
    · exact read_write_after hin ha
  cases op with
  | move dst src m =>
    obtain ⟨hd, hsrc⟩ := h
    have hlen := length_read hsrc
    exact hwrite dst _ (by omega) (by rw [hlen]; exact hs)
  | fill off m =>
    exact hwrite off _ (by rw [List.length_replicate]; exact h) (by rw [List.length_replicate]; exact hs)

theorem length_run_all (h : ∀ op ∈ ops, op.InRange mem.length) : (ops.foldl MemOp.run mem).length = mem.length := by
  induction ops generalizing mem with
  | nil => rfl
  | cons op ops ih =>
    have hlen := MemOp.length_run (h op (by simp))
    rw [List.foldl_cons, ih, hlen]
    rw [hlen]
    exact fun o ho => h o (List.mem_cons_of_mem _ ho)

/-- A range none of the operations writes to reads as before. -/
theorem read_run_all (h : ∀ op ∈ ops, op.InRange mem.length) (hs : ∀ op ∈ ops, op.Spares at_ n) :
    Memory.read (ops.foldl MemOp.run mem) at_ n = Memory.read mem at_ n := by
  induction ops generalizing mem with
  | nil => rfl
  | cons op ops ih =>
    have hin := h op (by simp)
    have hlen := MemOp.length_run hin
    rw [List.foldl_cons, ih, MemOp.read_spared hin (hs op (by simp))]
    · rw [hlen]
      exact fun o ho => h o (List.mem_cons_of_mem _ ho)
    · exact fun o ho => hs o (List.mem_cons_of_mem _ ho)

/-- A section that is moved holds, at the end, what its source held before. -/
theorem read_landed (before after : List MemOp) {dst src : Nat}
    (hin : ∀ op ∈ before ++ .move dst src n :: after, op.InRange mem.length)
    (hb : ∀ op ∈ before, op.Spares src n) (ha : ∀ op ∈ after, op.Spares dst n) :
    Memory.read ((before ++ .move dst src n :: after).foldl MemOp.run mem) dst n = Memory.read mem src n := by
  have hlen := length_run_all fun op ho => hin op (List.mem_append_left _ ho)
  have hmove : MemOp.InRange mem.length (.move dst src n) := hin _ (by simp)
  rw [List.foldl_append, List.foldl_cons, read_run_all _ ha, MemOp.run, read_move, read_run_all _ hb]
  · exact fun op ho => hin op (List.mem_append_left _ ho)
  · rw [hlen]
    exact hmove.1
  · rw [hlen]
    exact hmove.2
  · rw [MemOp.length_run (by rwa [hlen]), hlen]
    exact fun op ho => hin op (by simp [ho])

theorem read_cleared (before after : List MemOp) {off : Nat}
    (hin : ∀ op ∈ before ++ .fill off n :: after, op.InRange mem.length) (ha : ∀ op ∈ after, op.Spares off n) :
    Memory.read ((before ++ .fill off n :: after).foldl MemOp.run mem) off n = .replicate n 0 := by
  have hlen := length_run_all fun op ho => hin op (List.mem_append_left _ ho)
  have hfill : MemOp.InRange mem.length (.fill off n) := hin _ (by simp)
  rw [List.foldl_append, List.foldl_cons, read_run_all _ ha, MemOp.run, read_fill]
  · rw [hlen]
    exact hfill
  · rw [MemOp.length_run (by rwa [hlen]), hlen]
    exact fun op ho => hin op (by simp [ho])

-- ---------------------------------------------------------------------------
-- The expansion
-- ---------------------------------------------------------------------------

/-- The records and the blobs as they lie in an image. -/
def imageDirs (image : Bytes) : List DirRec :=
  rows decodeDir image IMG_HDR_SZ DIR_SLOT_SZ (imgHdr image).dirCount.toNat

def imageBlobs (size : Nat) (image : Bytes) : List BlobSlot :=
  rows (decodeBlob size) image (IMG_HDR_SZ + (imgHdr image).dirCount.toNat * DIR_SLOT_SZ) size
    (imgHdr image).blobCount.toNat

theorem admits_spec (h : a.admits image) :
    image.length ≤ a.allocBytes ∧ (imgHdr image).dirCount.toNat ≤ a.dirSlots ∧
      (imgHdr image).blobCount.toNat ≤ a.blobSlots ∧
      IMG_HDR_SZ + (imgHdr image).dirCount.toNat * DIR_SLOT_SZ +
        (imgHdr image).blobCount.toNat * a.blobSlotSize ≤ image.length := by
  simp only [Arena.admits, decide_eq_true_eq] at h
  exact ⟨h.1, h.2.2.2.2.2.2.1, h.2.2.2.2.2.2.2⟩

variable {dirCount blobCount : Nat}

/-- The sections of the image fit those of the arena. -/
theorem sections_le (hd : dirCount ≤ a.dirSlots) (hb : blobCount ≤ a.blobSlots) :
    dirCount * DIR_SLOT_SZ ≤ a.dirBytes ∧ blobCount * a.blobSlotSize ≤ a.blobBytes :=
  ⟨Nat.mul_le_mul_right _ hd, Nat.mul_le_mul_right _ hb⟩

theorem expansion_inRange (hd : dirCount ≤ a.dirSlots) (hb : blobCount ≤ a.blobSlots) :
    ∀ op ∈ expansion a dirCount blobCount, op.InRange a.allocBytes := by
  obtain ⟨hd, hb⟩ := sections_le hd hb
  simp only [expansion, Arena.allocBytes, List.forall_mem_cons, MemOp.InRange, IMG_HDR_SZ]
  refine ⟨?_, ?_, ?_, ?_, ?_, ?_, by simp⟩ <;> omega

/-- The arena once the image is slid to the back. -/
def slid (a : Arena) (image : Bytes) : Bytes :=
  ((expansion a (imgHdr image).dirCount.toNat (imgHdr image).blobCount.toNat).take 1).foldl MemOp.run
    (write (.replicate a.allocBytes 0) 0 image)

theorem imageLoad_eq : imageLoad a image =
    (expansion a (imgHdr image).dirCount.toNat (imgHdr image).blobCount.toNat).tail.foldl MemOp.run (slid a image) := rfl

theorem length_read_in (h : a.admits image) : (write (.replicate a.allocBytes 0) 0 image).length = a.allocBytes := by
  obtain ⟨hlen, -⟩ := admits_spec h
  rw [length_write (by rw [List.length_replicate, Nat.zero_add]; exact hlen), List.length_replicate]

theorem slid_inRange (h : a.admits image) :
    MemOp.InRange (write (.replicate a.allocBytes 0) 0 image).length
      (.move (a.allocBytes - (IMG_HDR_SZ + (imgHdr image).dirCount.toNat * DIR_SLOT_SZ +
        (imgHdr image).blobCount.toNat * a.blobSlotSize)) 0
        (IMG_HDR_SZ + (imgHdr image).dirCount.toNat * DIR_SLOT_SZ +
          (imgHdr image).blobCount.toNat * a.blobSlotSize)) := by
  obtain ⟨-, hd, hb, -⟩ := admits_spec h
  rw [length_read_in h]
  exact expansion_inRange hd hb _ (by simp [expansion])

theorem length_slid (h : a.admits image) : (slid a image).length = a.allocBytes :=
  (MemOp.length_run (slid_inRange h)).trans (length_read_in h)

/-- There it reads as it did at the front. -/
theorem read_slid (h : a.admits image) {off : Nat}
    (hn : off + n ≤ IMG_HDR_SZ + (imgHdr image).dirCount.toNat * DIR_SLOT_SZ +
      (imgHdr image).blobCount.toNat * a.blobSlotSize) :
    Memory.read (slid a image) (a.allocBytes - (IMG_HDR_SZ + (imgHdr image).dirCount.toNat * DIR_SLOT_SZ +
      (imgHdr image).blobCount.toNat * a.blobSlotSize) + off) n = Memory.read image off n := by
  obtain ⟨hlen, -, -, hexp⟩ := admits_spec h
  have hin := slid_inRange h
  have hmoved := read_move hin.1 hin.2
  rw [← read_read hn]
  show Memory.read (Memory.read (move _ _ 0 _) _ _) off n = _
  rw [hmoved, read_read hn, Nat.zero_add, read_write_front (by simpa using hlen) (by omega)]

theorem slid_tail_inRange (h : a.admits image) :
    ∀ op ∈ (expansion a (imgHdr image).dirCount.toNat (imgHdr image).blobCount.toNat).tail,
      op.InRange (slid a image).length := by
  obtain ⟨-, hd, hb, -⟩ := admits_spec h
  rw [length_slid h]
  exact fun op ho => expansion_inRange hd hb op (List.mem_of_mem_tail ho)

/-- What each section of the arena reads, once the image is expanded. -/
theorem read_imageLoad (h : a.admits image) {d b : Nat} (hd : d = (imgHdr image).dirCount.toNat * DIR_SLOT_SZ)
    (hb : b = (imgHdr image).blobCount.toNat * a.blobSlotSize) :
    Memory.read (imageLoad a image) 0 a.guardBytes = .replicate a.guardBytes 0 ∧
    Memory.read (imageLoad a image) a.guardBytes d = Memory.read image IMG_HDR_SZ d ∧
    Memory.read (imageLoad a image) (a.guardBytes + d) (a.dirBytes - d) = .replicate (a.dirBytes - d) 0 ∧
    Memory.read (imageLoad a image) (a.guardBytes + a.dirBytes) b = Memory.read image (IMG_HDR_SZ + d) b ∧
    Memory.read (imageLoad a image) (a.guardBytes + a.dirBytes + b) (a.blobBytes - b)
      = .replicate (a.blobBytes - b) 0 := by
  obtain ⟨-, hdc, hbc, -⟩ := admits_spec h
  obtain ⟨hdle, hble⟩ := sections_le hdc hbc
  have hslid : ∀ off n, off + n ≤ IMG_HDR_SZ + (imgHdr image).dirCount.toNat * DIR_SLOT_SZ +
      (imgHdr image).blobCount.toNat * a.blobSlotSize → _ := fun off n hn => read_slid h hn
  have hdirs := hslid IMG_HDR_SZ d (by omega)
  have hblobs := hslid (IMG_HDR_SZ + d) b (by omega)
  have hin := slid_tail_inRange h
  rw [imageLoad_eq]
  rw [← hd] at hdle hdirs hblobs
  rw [← hb] at hble hdirs hblobs
  simp only [expansion, List.tail_cons, ← hd, ← hb] at hin ⊢
  generalize hsrc : a.allocBytes - (IMG_HDR_SZ + d + b) = tail at hin hdirs hblobs ⊢
  simp only [Arena.allocBytes] at hsrc
  refine ⟨?_, ?_, ?_, ?_, ?_⟩
  · refine read_cleared [] _ hin ?_
    simp only [List.mem_cons, List.not_mem_nil, or_false, forall_eq_or_imp, forall_eq, MemOp.Spares, MemOp.target]
    omega
  · rw [← hdirs]
    refine read_landed [_] _ hin ?_ ?_ <;>
      simp only [List.mem_cons, List.not_mem_nil, or_false, forall_eq_or_imp, forall_eq, MemOp.Spares, MemOp.target] <;> omega
  · refine read_cleared [_, _] _ hin ?_
    simp only [List.mem_cons, List.not_mem_nil, or_false, forall_eq_or_imp, forall_eq, MemOp.Spares, MemOp.target]
    omega
  · rw [← hblobs, ← Nat.add_assoc]
    refine read_landed [_, _, _] _ hin ?_ ?_ <;>
      simp only [List.mem_cons, List.not_mem_nil, or_false, forall_eq_or_imp, forall_eq, MemOp.Spares, MemOp.target] <;> omega
  · refine read_cleared [_, _, _, _] _ hin ?_
    simp

/-- The pools of an admitted image are its sections, each followed by free slots. -/
theorem pools_imageLoad (h : a.admits image) :
    a.pools (imageLoad a image) =
      { a.empty with
        dirs := imageDirs image ++ .replicate (a.dirSlots - (imgHdr image).dirCount.toNat) .zero
        blobs := imageBlobs a.blobSlotSize image ++
          .replicate (a.blobSlots - (imgHdr image).blobCount.toNat) (.zero a.blobSlotSize) } := by
  obtain ⟨-, hdc, hbc, -⟩ := admits_spec h
  obtain ⟨-, hdirs, hdrest, hblobs, hbrest⟩ := read_imageLoad h rfl rfl
  have hpre := a.prefix_le
  simp only [Arena.pools, Arena.empty, Pools.empty, Pools.mk.injEq, true_and]
  constructor
  · rw [← decodeDir_zero, ← rows_replicate, imageDirs, ← rows_congr hdirs, ← rows_add,
      Nat.add_sub_cancel' hdc]
    rwa [Nat.sub_mul]
  · rw [← decodeBlob_zero (by omega), ← rows_replicate, imageBlobs, ← rows_congr hblobs, ← rows_add,
      Nat.add_sub_cancel' hbc]
    rwa [Nat.sub_mul]

-- ---------------------------------------------------------------------------
-- Cell by cell
-- ---------------------------------------------------------------------------

/-- One cell written: copied, or cleared. -/
def copyCell (mem : Bytes) (c : Nat × Option Nat) : Bytes :=
  mem.set c.1 (match c.2 with
    | some src => mem.getD src 0
    | none => 0)

/-- Which way an operation copies. -/
def MemOp.Down : MemOp → Prop
  | .move dst src _ => dst ≤ src
  | .fill _ _ => True

/-- Cell by cell an operation does what it does at once. -/
theorem run_cells (h : op.InRange mem.length) (hd : op.Down) : op.cells.foldl copyCell mem = op.run mem := by
  cases op with
  | move dst src n =>
    rw [MemOp.cells, List.foldl_map]
    exact move_cells hd h.2
  | fill off n =>
    rw [MemOp.cells, List.foldl_map]
    exact fill_cells h

theorem expansion_down (hd : dirCount ≤ a.dirSlots) (hb : blobCount ≤ a.blobSlots) :
    ∀ op ∈ (expansion a dirCount blobCount).tail, op.Down := by
  obtain ⟨hd, hb⟩ := sections_le hd hb
  simp only [expansion, Arena.allocBytes, List.tail_cons, List.forall_mem_cons, MemOp.Down, IMG_HDR_SZ]
  refine ⟨trivial, ?_, trivial, ?_, trivial, by simp⟩ <;> omega

theorem run_all_cells (h : ∀ op ∈ ops, op.InRange mem.length) (hd : ∀ op ∈ ops, op.Down) :
    (ops.flatMap MemOp.cells).foldl copyCell mem = ops.foldl MemOp.run mem := by
  induction ops generalizing mem with
  | nil => rfl
  | cons op ops ih =>
    have hin := h op (by simp)
    rw [List.flatMap_cons, List.foldl_append, run_cells hin (hd op (by simp)), List.foldl_cons, ih]
    · rw [MemOp.length_run hin]
      exact fun o ho => h o (List.mem_cons_of_mem _ ho)
    · exact fun o ho => hd o (List.mem_cons_of_mem _ ho)

/-- Once the image is slid, its expansion is a cell by cell copy. -/
theorem imageLoad_cells (h : a.admits image) : imageLoad a image =
    ((expansion a (imgHdr image).dirCount.toNat (imgHdr image).blobCount.toNat).tail.flatMap MemOp.cells).foldl
      copyCell (slid a image) := by
  obtain ⟨-, hd, hb, -⟩ := admits_spec h
  rw [imageLoad_eq, run_all_cells (slid_tail_inRange h) (expansion_down hd hb)]

/-- No cell is written while a later one is still to be copied from it. -/
def Unharmed (cells : List (Nat × Option Nat)) : Prop := cells.Pairwise fun c later => later.2 ≠ some c.1

theorem MemOp.unharmed (hd : op.Down) : Unharmed op.cells := by
  cases op with
  | fill off n =>
    refine List.pairwise_map.2 (List.pairwise_lt_range.imp ?_)
    simp
  | move dst src n =>
    refine List.pairwise_map.2 (List.pairwise_lt_range.imp fun {i j} hij => ?_)
    simp only [MemOp.Down] at hd
    simp only [ne_eq, Option.some.injEq]
    omega

theorem Spares.apart {later : MemOp} (h : ∀ dst src n, later = .move dst src n → op.Spares src n) :
    ∀ c ∈ op.cells, ∀ c' ∈ later.cells, c'.2 ≠ some c.1 := by
  have htarget : ∀ c ∈ op.cells, op.target.1 ≤ c.1 ∧ c.1 < op.target.1 + op.target.2 := by
    cases op <;> simp [MemOp.cells, MemOp.target]
  intro c hc c' hc'
  obtain ⟨hlo, hhi⟩ := htarget c hc
  cases later with
  | fill off n =>
    obtain ⟨k, -, rfl⟩ := List.mem_map.1 hc'
    simp
  | move dst src n =>
    obtain ⟨k, hk, rfl⟩ := List.mem_map.1 hc'
    have hs := h dst src n rfl
    simp only [MemOp.Spares, List.mem_range] at hs hk
    simp only [ne_eq, Option.some.injEq]
    omega

/-- The sections slide past one another without harm, whatever their sizes. -/
theorem expansion_unharmed (hd : dirCount ≤ a.dirSlots) (hb : blobCount ≤ a.blobSlots) :
    Unharmed ((expansion a dirCount blobCount).tail.flatMap MemOp.cells) := by
  have hdown := expansion_down hd hb
  obtain ⟨hd, hb⟩ := sections_le hd hb
  refine List.pairwise_flatMap.2 ⟨fun op ho => MemOp.unharmed (hdown op ho), ?_⟩
  have hspares : (expansion a dirCount blobCount).tail.Pairwise fun op later =>
      ∀ dst src n, later = .move dst src n → op.Spares src n := by
    simp only [expansion, Arena.allocBytes, List.tail_cons, List.pairwise_cons, List.mem_cons, List.not_mem_nil,
      or_false, forall_eq_or_imp, forall_eq, List.Pairwise.nil, and_true, MemOp.move.injEq, reduceCtorEq,
      false_imp_iff, implies_true, and_imp, true_and]
    refine ⟨⟨?_, ?_⟩, ?_, ?_⟩ <;> rintro _ _ _ rfl rfl rfl <;> simp only [MemOp.Spares, MemOp.target] <;> omega
  exact hspares.imp fun h => Spares.apart h

end MicroReticulum.Directory
