import MicroReticulum.Directory.Pools

/-!
# The pools stay consistent

Every destination is stored once, every blob belongs to a record and every
cached priority is the one of the record's content: what each store, eviction
and allocation keeps of it.
-/

namespace MicroReticulum.Directory

open Lib Lib.Seqlock

variable {p p' : Pools} {r r' : DirRec} {b : BlobSlot} {i j : Nat} {dest raw : Bytes} {now : UInt32}
  {stores fresh : Stores} {ok : DirRec → Bool}

/-- The cached priority is up to date. -/
def DirRec.Current (r : DirRec) : Prop := r.prio = dirStaticPrio r

instance : Decidable r.Current := inferInstanceAs (Decidable (_ = _))

structure Consistent (p : Pools) : Prop where
  dirs : Slots.Distinct DirRec.used DirRec.dest p.dirs
  blobs : Slots.Distinct BlobSlot.used BlobSlot.dest p.blobs
  guards : Slots.Distinct GuardRec.used GuardRec.dest4 p.guards
  owned : ∀ b ∈ p.blobs, b.used → Slots.Has DirRec.used DirRec.dest b.dest p.dirs
  current : ∀ r ∈ p.dirs, r.used → r.Current

-- ---------------------------------------------------------------------------
-- Records
-- ---------------------------------------------------------------------------

theorem used_or (m : UInt8) (h : f &&& F_USED ≠ 0) : (f ||| m) &&& F_USED ≠ 0 := by
  intro hz
  apply h
  apply UInt8.eq_of_toBitVec_eq
  have hbits := congrArg UInt8.toBitVec hz
  simp only [UInt8.toBitVec_and, UInt8.toBitVec_or, BitVec.and_or_distrib_right, UInt8.toBitVec_zero,
    BitVec.or_eq_zero_iff] at hbits ⊢
  exact hbits.1

theorem used_set (f : UInt8) : (f ||| F_USED) &&& F_USED ≠ 0 := by
  intro hz
  have hbits := congrArg UInt8.toBitVec hz
  simp only [UInt8.toBitVec_and, UInt8.toBitVec_or, BitVec.and_or_distrib_right, UInt8.toBitVec_zero,
    BitVec.or_eq_zero_iff] at hbits
  exact absurd hbits.2 (by decide)

theorem routeless_used (f : UInt8) : (f &&& ~~~F_ROUTE) &&& F_USED = f &&& F_USED := by
  rw [UInt8.and_assoc]
  rfl

theorem routeless_edge (f : UInt8) : (f &&& ~~~F_ROUTE) &&& F_EDGE = f &&& F_EDGE := by
  rw [UInt8.and_assoc]
  rfl

theorem keyed_edge (f : UInt8) : (f ||| F_PUBKEY) &&& F_EDGE = f &&& F_EDGE := by
  apply UInt8.eq_of_toBitVec_eq
  simp only [UInt8.toBitVec_and, UInt8.toBitVec_or, BitVec.and_or_distrib_right]
  simp [F_PUBKEY, F_EDGE]

/-- Stores that leave a used record used, under its destination and up to date. -/
def Keeps (dest : Bytes) (stores : Stores) : Prop :=
  ∀ r : DirRec, r.used → r.dest = dest → r.Current →
    (stored stores r).used ∧ (stored stores r).dest = dest ∧ (stored stores r).Current

/-- Stores that make any record one of this destination. -/
def Makes (dest : Bytes) (stores : Stores) : Prop :=
  ∀ r : DirRec, (stored stores r).used ∧ (stored stores r).dest = dest ∧ (stored stores r).Current

theorem stored_append (more : Stores) : stored (stores ++ more) r = stored more (stored stores r) := by
  simp [stored]

theorem stored_written : stored (written stores) r = stored stores r := by
  simp [stored, written]

theorem stored_recClear : stored recClear r = .zero := rfl

theorem stored_memset : stored memset r = .zero := rfl

/-- What every store keeps, they keep together. -/
theorem stored_keeps {P : DirRec → Prop} (h : ∀ f, Store.put f ∈ stores → ∀ r, P r → P (f r)) (hr : P r) :
    P (stored stores r) := by
  induction stores generalizing r with
  | nil => exact hr
  | cons s stores ih =>
    have hrest : ∀ f, Store.put f ∈ stores → ∀ r, P r → P (f r) := fun f hf => h f (by simp [hf])
    cases s with
    | put f => exact ih hrest (h f (by simp) r hr)
    | enter | save | wipe | restore | leave => exact ih hrest hr

theorem Makes.keeps (h : Makes dest stores) : Keeps dest stores := fun r _ _ _ => h r

theorem Makes.after (h : Makes dest stores) : Makes dest (fresh ++ stores) := by
  intro r
  rw [stored_append]
  exact h _

theorem Makes.followed (h : Makes dest fresh) (hs : Keeps dest stores) : Makes dest (fresh ++ stores) := by
  intro r
  obtain ⟨hu, hd, hc⟩ := h r
  rw [stored_append]
  exact hs _ hu hd hc

theorem ingestStores_makes (dest : Bytes) (a : Announce) (now : UInt32) : Makes dest (ingestStores dest a now) := by
  intro r
  have hrest : ∀ f, Store.put f ∈ (ingestStores dest a now).tail →
      ∀ r : DirRec, r.dest = dest → (f r).dest = dest := by
    intro f hf r hr
    simp only [ingestStores, setFlags, setPrio, List.tail_cons, List.mem_cons, Store.put.injEq,
      List.not_mem_nil, or_false] at hf
    rcases hf with rfl | rfl | rfl | rfl | rfl | rfl | rfl | rfl | rfl | rfl | rfl | rfl | rfl | rfl <;>
      simp only <;> (try split) <;> exact hr
  have hdest : (stored (ingestStores dest a now).tail { r with dest }).dest = dest :=
    stored_keeps (P := fun r => r.dest = dest) hrest rfl
  exact ⟨decide_eq_true (used_set _), hdest, rfl⟩

/-- A claim leaves the flags and the destination alone and ends with the priority. -/
theorem claimStores_keeps (dest : Bytes) (c : Claim) (now : UInt32) (r : DirRec) (hu : r.used) (hd : r.dest = dest) :
    (stored (claimStores c now) r).used ∧ (stored (claimStores c now) r).dest = dest ∧
      (stored (claimStores c now) r).Current := by
  have hrest : ∀ f, Store.put f ∈ claimStores c now →
      ∀ r : DirRec, r.used = true ∧ r.dest = dest → (f r).used = true ∧ (f r).dest = dest := by
    intro f hf r hr
    simp only [claimStores, setClaims, setPrio, List.mem_cons, Store.put.injEq, List.not_mem_nil,
      or_false] at hf
    rcases hf with rfl | rfl | rfl | rfl | rfl | rfl <;> simp only <;> (try split) <;> exact hr
  have hkept := stored_keeps (P := fun r => r.used = true ∧ r.dest = dest) hrest ⟨hu, hd⟩
  exact ⟨hkept.1, hkept.2, rfl⟩

theorem claim_makes (dest : Bytes) (c : Claim) (now : UInt32) :
    Makes dest (recClear ++ [.put fun r => { r with dest }, setFlags F_USED, .put fun r => { r with lastHeard := now }]
      ++ claimStores c now) := by
  intro r
  rw [stored_append]
  exact claimStores_keeps dest c now _ (decide_eq_true (used_set _)) rfl

theorem claimDropStores_keeps (dest : Bytes) (consumer : UInt32) : Keeps dest (claimDropStores consumer) := by
  intro r hu hd _
  have hrest : ∀ f, Store.put f ∈ claimDropStores consumer →
      ∀ r : DirRec, r.used = true ∧ r.dest = dest → (f r).used = true ∧ (f r).dest = dest := by
    intro f hf r hr
    simp only [claimDropStores, setClaims, setPrio, List.mem_cons, Store.put.injEq, List.not_mem_nil,
      or_false] at hf
    rcases hf with rfl | rfl | rfl <;> simp only <;> (try split) <;> exact hr
  have hkept := stored_keeps (P := fun r => r.used = true ∧ r.dest = dest) hrest ⟨hu, hd⟩
  exact ⟨hkept.1, hkept.2, rfl⟩

theorem seed_keeps (dest pk : Bytes) : Keeps dest [.put fun r => { r with pubkey := pk }, setFlags F_PUBKEY] := by
  intro r hu hd hc
  refine ⟨decide_eq_true (used_or F_PUBKEY (of_decide_eq_true hu)), hd, ?_⟩
  simp only [DirRec.Current, stored, setFlags, List.foldl_cons, List.foldl_nil, dirStaticPrio, keyed_edge]
  exact hc

theorem seed_makes (dest pk : Bytes) (now : UInt32) :
    Makes dest (recClear ++ [.put fun r => { r with dest }, .put fun r => { r with lastHeard := now },
      setFlags F_USED, setPrio] ++ [.put fun r => { r with pubkey := pk }, setFlags F_PUBKEY]) :=
  Makes.followed (fun _ => ⟨decide_eq_true (used_set _), rfl, rfl⟩) (seed_keeps dest pk)

theorem touchUsed_keeps (dest : Bytes) (expires now : UInt32) :
    Keeps dest [.put fun r => { r with lastUsed := now },
      .put fun r => if expires > r.expires then { r with expires } else r] := by
  intro r hu hd hc
  simp only [stored, List.foldl_cons, List.foldl_nil]
  split
  · exact ⟨hu, hd, hc⟩
  · exact ⟨hu, hd, hc⟩

theorem clearRouteStores_keeps (dest : Bytes) : Keeps dest clearRouteStores := by
  intro r hu hd hc
  refine ⟨?_, hd, ?_⟩
  · simp only [DirRec.used, stored, clearRouteStores, List.foldl_cons, List.foldl_nil, routeless_used]
    exact hu
  · simp only [DirRec.Current, stored, clearRouteStores, List.foldl_cons, List.foldl_nil, dirStaticPrio,
      routeless_edge]
    exact hc

-- ---------------------------------------------------------------------------
-- Slots
-- ---------------------------------------------------------------------------

theorem setDir_eq (hr : p.dirs[i]? = some r) :
    setDir i stores p = { p with dirs := p.dirs.set i (stored stores r) } := by
  simp [setDir, hr]

/-- Stores on a record that is there. -/
theorem Consistent.keep (h : Consistent p) (hr : p.dirs[i]? = some r) (hu : r.used)
    (hk : Keeps r.dest stores) : Consistent (setDir i stores p) := by
  have hcur := h.current r (List.mem_of_getElem? hr) hu
  obtain ⟨hu', hd', hc'⟩ := hk r hu rfl hcur
  rw [setDir_eq hr]
  refine ⟨h.dirs.set_same hr hu fun _ => hd', h.blobs, h.guards, fun b hb hub => ?_, fun c hc huc => ?_⟩
  · exact (h.owned b hb hub).set hr fun _ hk => ⟨hu', hd'.trans hk⟩
  · obtain rfl | hc := Slots.mem_set_cases hc
    · exact hc'
    · exact h.current c hc huc

/-- A new record in a free slot. -/
theorem Consistent.make (h : Consistent p) (hr : p.dirs[i]? = some r) (hu : r.used = false)
    (hnew : dirFind dest p = none) (hm : Makes dest stores) : Consistent (setDir i stores p) := by
  obtain ⟨hu', hd', hc'⟩ := hm r
  rw [setDir_eq hr]
  refine ⟨h.dirs.set_new (by rw [hd']; exact hnew), h.blobs, h.guards, fun b hb hub => ?_, fun c hc huc => ?_⟩
  · exact (h.owned b hb hub).set hr fun hur => by simp [hu] at hur
  · obtain rfl | hc := Slots.mem_set_cases hc
    · exact hc'
    · exact h.current c hc huc

theorem blobZero_used (size : Nat) : (BlobSlot.zero size).used = false := by
  simp [BlobSlot.used, BlobSlot.zero]

theorem dirZero_used : DirRec.zero.used = false := rfl

theorem Consistent.freeBlob (h : Consistent p) (i : Nat) : Consistent (blobFree i p) := by
  refine ⟨h.dirs, h.blobs.set_free (blobZero_used _), h.guards, fun b hb hub => ?_, h.current⟩
  obtain rfl | hb := Slots.mem_set_cases hb
  · simp [blobZero_used] at hub
  · exact h.owned b hb hub

theorem freeBlobOf_dirs (dest : Bytes) (p : Pools) :
    (freeBlobOf dest p).dirs = p.dirs ∧ (freeBlobOf dest p).guards = p.guards := by
  unfold freeBlobOf
  split <;> exact ⟨rfl, rfl⟩

theorem Consistent.freeBlobOf (h : Consistent p) (dest : Bytes) : Consistent (freeBlobOf dest p) := by
  unfold Directory.freeBlobOf
  split
  · exact h
  · exact h.freeBlob _

/-- No blob of the destination is left. -/
theorem Consistent.not_has_blob (h : Consistent p) (dest : Bytes) :
    ¬ Slots.Has BlobSlot.used BlobSlot.dest dest (Directory.freeBlobOf dest p).blobs := by
  unfold Directory.freeBlobOf
  cases hf : blobFind dest p with
  | none => exact Slots.not_has_iff.2 hf
  | some i =>
    obtain ⟨b, hb, hu, rfl⟩ := Slots.find_eq_some hf
    exact h.blobs.not_has_set hb hu (blobZero_used _)

/-- A record wiped once its blob is freed. -/
theorem Consistent.wipe (h : Consistent p) (hr : p.dirs[i]? = some r) (hz : stored stores r = .zero) :
    Consistent (setDir i stores (Directory.freeBlobOf r.dest p)) := by
  have hq := h.freeBlobOf r.dest
  have hno := h.not_has_blob r.dest
  have hr' : (Directory.freeBlobOf r.dest p).dirs[i]? = some r := by
    rw [(freeBlobOf_dirs r.dest p).1, hr]
  generalize Directory.freeBlobOf r.dest p = q at hq hno hr'
  rw [setDir_eq hr', hz]
  refine ⟨hq.dirs.set_free dirZero_used, hq.blobs, hq.guards, fun b hb hub => ?_, fun c hc huc => ?_⟩
  · exact (hq.owned b hb hub).set hr' fun _ hk => absurd ⟨b, hb, hub, hk.symm⟩ hno
  · obtain rfl | hc := Slots.mem_set_cases hc
    · simp [dirZero_used] at huc
    · exact hq.current c hc huc

-- ---------------------------------------------------------------------------
-- Eviction and allocation
-- ---------------------------------------------------------------------------

theorem evictOneDir_eq_some (h : evictOneDir now p = some p') :
    ∃ i victim, p.dirs[i]? = some victim ∧ victim.used ∧
      (∀ r ∈ p.dirs, r.used → dirRank now victim ≤ dirRank now r) ∧
        p' = setDir i (written recClear) (freeBlobOf victim.dest p) := by
  obtain ⟨i, hv, rfl⟩ := Option.map_eq_some_iff.1 h
  obtain ⟨victim, hr, hu, hmin⟩ := Slots.victim_eq_some hv
  exact ⟨i, victim, hr, hu, hmin, by rw [hr]⟩

theorem evictOneBlob_eq_some (h : evictOneBlob now p = some p') :
    ∃ i b, p.blobs[i]? = some b ∧ b.used ∧
      (∀ c ∈ p.blobs, c.used → blobRank now p b ≤ blobRank now p c) ∧ p' = blobFree i p := by
  obtain ⟨i, hv, rfl⟩ := Option.map_eq_some_iff.1 h
  obtain ⟨b, hb, hu, hmin⟩ := Slots.victim_eq_some hv
  exact ⟨i, b, hb, hu, hmin, rfl⟩

theorem Consistent.evictOneDir (h : Consistent p) (he : evictOneDir now p = some p') : Consistent p' := by
  obtain ⟨i, victim, hr, -, -, rfl⟩ := evictOneDir_eq_some he
  exact h.wipe hr (stored_written.trans stored_recClear)

theorem Consistent.evictOneBlob (h : Consistent p) (he : evictOneBlob now p = some p') : Consistent p' := by
  obtain ⟨i, b, -, -, -, rfl⟩ := evictOneBlob_eq_some he
  exact h.freeBlob i

/-- An eviction brings in no destination. -/
theorem dirFind_evicted (he : evictOneDir now p = some p') (hf : dirFind dest p = none) :
    dirFind dest p' = none := by
  obtain ⟨i, victim, hr, -, -, rfl⟩ := evictOneDir_eq_some he
  have hr' : (freeBlobOf victim.dest p).dirs[i]? = some victim := by
    rw [(freeBlobOf_dirs victim.dest p).1, hr]
  rw [setDir_eq hr', stored_written, stored_recClear]
  refine Slots.find_eq_none.2 fun a ha hu => ?_
  obtain rfl | ha := Slots.mem_set_cases ha
  · simp [dirZero_used] at hu
  · rw [(freeBlobOf_dirs victim.dest p).1] at ha
    exact Slots.find_eq_none.1 hf a ha hu

theorem blobFind_evicted (he : evictOneBlob now p = some p') (hf : blobFind dest p = none) :
    blobFind dest p' = none := by
  obtain ⟨i, b, -, -, -, rfl⟩ := evictOneBlob_eq_some he
  refine Slots.find_eq_none.2 fun a ha hu => ?_
  obtain rfl | ha := Slots.mem_set_cases ha
  · simp [blobZero_used] at hu
  · exact Slots.find_eq_none.1 hf a ha hu

/-- Allocation gives a free slot, and evicts only where there is none. -/
theorem dirAlloc_eq_some (h : dirAlloc now p = some (p', i)) :
    (∃ r, p'.dirs[i]? = some r ∧ r.used = false) ∧
      (p' = p ∨ (∀ r ∈ p.dirs, r.used) ∧ evictOneDir now p = some p') := by
  unfold dirAlloc at h
  split at h
  · next hf =>
    cases h
    exact ⟨Slots.free_eq_some hf, .inl rfl⟩
  · next hf =>
    obtain ⟨q, hq, hmap⟩ := Option.bind_eq_some_iff.1 h
    obtain ⟨k, hk, he⟩ := Option.map_eq_some_iff.1 hmap
    cases he
    exact ⟨Slots.free_eq_some hk, .inr ⟨Slots.free_eq_none.1 hf, hq⟩⟩

theorem blobAlloc_eq_some (h : blobAlloc now p = some (p', i)) :
    (∃ b, p'.blobs[i]? = some b ∧ b.used = false) ∧
      (p' = p ∨ (∀ b ∈ p.blobs, b.used) ∧ evictOneBlob now p = some p') := by
  unfold blobAlloc at h
  split at h
  · next hf =>
    cases h
    exact ⟨Slots.free_eq_some hf, .inl rfl⟩
  · next hf =>
    obtain ⟨q, hq, hmap⟩ := Option.bind_eq_some_iff.1 h
    obtain ⟨k, hk, he⟩ := Option.map_eq_some_iff.1 hmap
    cases he
    exact ⟨Slots.free_eq_some hk, .inr ⟨Slots.free_eq_none.1 hf, hq⟩⟩

-- ---------------------------------------------------------------------------
-- Operations
-- ---------------------------------------------------------------------------

theorem Consistent.onDir (h : Consistent p) (hk : Keeps dest stores) : Consistent (onDir dest ok stores p) := by
  unfold Directory.onDir
  cases hf : dirFind dest p with
  | none => exact h
  | some i =>
    obtain ⟨r, hr, hu, rfl⟩ := Slots.find_eq_some hf
    simp only
    split
    · exact h.keep hr hu hk
    · exact h

theorem Consistent.onDirOrNew (h : Consistent p) (hk : Keeps dest stores)
    (hm : Makes dest (recClear ++ fresh ++ stores)) (he : onDirOrNew now dest fresh stores p = some p') :
    Consistent p' ∧ Slots.Has DirRec.used DirRec.dest dest p'.dirs := by
  unfold Directory.onDirOrNew at he
  cases hf : dirFind dest p with
  | some i =>
    obtain ⟨r, hr, hu, rfl⟩ := Slots.find_eq_some hf
    rw [hf] at he
    cases he
    refine ⟨h.keep hr hu hk, ?_⟩
    obtain ⟨hu', hd', -⟩ := hk r hu rfl (h.current r (List.mem_of_getElem? hr) hu)
    rw [setDir_eq hr]
    exact Slots.Has.set ⟨r, List.mem_of_getElem? hr, hu, rfl⟩ hr fun _ _ => ⟨hu', hd'⟩
  | none =>
    rw [hf] at he
    obtain ⟨⟨q, i⟩, hq, rfl⟩ := Option.map_eq_some_iff.1 he
    obtain ⟨⟨r, hr, hu⟩, hcase⟩ := dirAlloc_eq_some hq
    have hqc : Consistent q ∧ dirFind dest q = none := by
      obtain rfl | ⟨-, hev⟩ := hcase
      · exact ⟨h, hf⟩
      · exact ⟨h.evictOneDir hev, dirFind_evicted hev hf⟩
    refine ⟨hqc.1.make hr hu hqc.2 hm, ?_⟩
    obtain ⟨hu', hd', -⟩ := hm r
    have hhas : Slots.Has DirRec.used DirRec.dest (stored (recClear ++ fresh ++ stores) r).dest
        (q.dirs.set i (stored (recClear ++ fresh ++ stores) r)) :=
      Slots.has_set_self (List.getElem?_eq_some_iff.1 hr).1 hu'
    show Slots.Has DirRec.used DirRec.dest dest (setDir i (recClear ++ fresh ++ stores) q).dirs
    rwa [setDir_eq hr, ← hd']

theorem holding_used (size : Nat) (dest raw : Bytes) : (BlobSlot.holding size dest raw).used = true := by
  simp [BlobSlot.used, BlobSlot.holding]

/-- A blob written over the destination's own, or into a slot while it has none. -/
theorem Consistent.setBlob (h : Consistent p) (hhas : Slots.Has DirRec.used DirRec.dest dest p.dirs)
    (hi : (∃ b, p.blobs[i]? = some b ∧ b.used ∧ b.dest = dest) ∨ blobFind dest p = none) :
    Consistent { p with blobs := p.blobs.set i (.holding p.blobSlotSize dest raw) } := by
  refine ⟨h.dirs, ?_, h.guards, fun b hb hub => ?_, h.current⟩
  · obtain ⟨b, hb, hu, hd⟩ | hf := hi
    · exact h.blobs.set_same hb hu fun _ => hd.symm
    · exact h.blobs.set_new hf
  · obtain rfl | hb := Slots.mem_set_cases hb
    · exact hhas
    · exact h.owned b hb hub

theorem Consistent.ingestBlob (h : Consistent p) (hhas : Slots.Has DirRec.used DirRec.dest dest p.dirs) :
    Consistent (ingestBlob now dest raw p) := by
  unfold Directory.ingestBlob
  split
  · exact h
  · cases hf : blobFind dest p with
    | some i => exact h.setBlob hhas (.inl (Slots.find_eq_some hf))
    | none =>
      cases ha : blobAlloc now p with
      | none => exact h
      | some q =>
        obtain ⟨q, i⟩ := q
        obtain ⟨-, rfl | ⟨-, he⟩⟩ := blobAlloc_eq_some ha
        · exact h.setBlob hhas (.inr hf)
        · have hdirs : q.dirs = p.dirs := by
            obtain ⟨k, b, -, -, -, rfl⟩ := evictOneBlob_eq_some he
            rfl
          exact (h.evictOneBlob he).setBlob (by rwa [hdirs]) (.inr (blobFind_evicted he hf))

theorem Consistent.rdirIngest (h : Consistent p) (a : Announce) (raw : Option Bytes) (blobLayer : Bool) :
    Consistent (rdirIngest now dest a raw true blobLayer p) := by
  unfold Directory.rdirIngest
  simp only [if_true]
  cases he : Directory.onDirOrNew now dest [] (ingestStores dest a now) p with
  | none => exact h
  | some q =>
    have hmakes := ingestStores_makes dest a now
    obtain ⟨hq, hhas⟩ := h.onDirOrNew hmakes.keeps hmakes.after he
    cases raw with
    | none => exact hq
    | some raw =>
      simp only
      split
      · exact hq.ingestBlob hhas
      · exact hq

theorem Consistent.onDirOrNew_getD (h : Consistent p) (hk : Keeps dest stores)
    (hm : Makes dest (recClear ++ fresh ++ stores)) :
    Consistent ((Directory.onDirOrNew now dest fresh stores p).getD p) := by
  cases he : Directory.onDirOrNew now dest fresh stores p with
  | none => exact h
  | some q => exact (h.onDirOrNew hk hm he).1

theorem Consistent.evictDown {evict : Pools → Option Pools}
    (hev : ∀ p p', Consistent p → evict p = some p' → Consistent p') (n : Nat) (h : Consistent p) :
    Consistent (evictDown evict n p) := by
  induction n generalizing p with
  | zero => exact h
  | succ n ih =>
    unfold Directory.evictDown
    cases he : evict p with
    | none => exact h
    | some q => exact ih (hev p q h he)

theorem routeless_keeps (r : DirRec) :
    (stored clearRouteStores r).used = r.used ∧ (stored clearRouteStores r).dest = r.dest := by
  refine ⟨?_, rfl⟩
  simp only [DirRec.used, stored, clearRouteStores, List.foldl_cons, List.foldl_nil, routeless_used]

theorem Consistent.clearAllRoutes (h : Consistent p) : Consistent (rdirClearAllRoutes p) := by
  have hf : ∀ r : DirRec,
      (if r.used ∧ r.flags &&& F_ROUTE ≠ 0 then stored clearRouteStores r else r).used = r.used ∧
        (if r.used ∧ r.flags &&& F_ROUTE ≠ 0 then stored clearRouteStores r else r).dest = r.dest := by
    intro r
    split
    · exact routeless_keeps r
    · exact ⟨rfl, rfl⟩
  refine ⟨h.dirs.map hf, h.blobs, h.guards, fun b hb hub => (h.owned b hb hub).map hf, fun c hc huc => ?_⟩
  obtain ⟨r, hr, rfl⟩ := List.mem_map.1 hc
  rw [(hf r).1] at huc
  have hcur := h.current r hr huc
  split
  · exact (clearRouteStores_keeps r.dest r huc rfl hcur).2.2
  · exact hcur

theorem Consistent.guardFresh (h : Consistent p) (c : Check) :
    Consistent { p with guards := (rdirGuardFresh c p.guards).1 } := by
  refine ⟨h.dirs, h.blobs, ?_, h.owned, h.current⟩
  cases he : entryOf (dest4Of c.dest) p.guards with
  | some g =>
    obtain ⟨i, -, hg, hr⟩ := rdirGuardFresh_known he
    obtain ⟨-, hu, hk⟩ := entryOf_spec he
    rw [hr]
    exact h.guards.set_same hg hu fun _ => (GuardRec.check_dest4 hk).trans hk.symm
  | none =>
    rw [rdirGuardFresh_unknown he]
    cases guardAlloc c.minutes p.guards with
    | none => exact h.guards
    | some i => exact h.guards.set_new (guardFind_eq_none.2 he)

theorem Consistent.forget (h : Consistent p) (dest : Bytes) : Consistent (rdirForget dest p) := by
  unfold rdirForget Directory.onDir
  have hdirs := (freeBlobOf_dirs dest p).1
  cases hf : dirFind dest (Directory.freeBlobOf dest p) with
  | none => exact h.freeBlobOf dest
  | some i =>
    obtain ⟨r, hr, hu, rfl⟩ := Slots.find_eq_some hf
    simp only [hr, Option.any_some, if_true]
    exact h.wipe (by rwa [← hdirs]) stored_memset

/-- What one operation keeps. -/
theorem Consistent.step (h : Consistent p) (op : PoolOp) : Consistent (poolStep p op) := by
  cases op with
  | ingest now dest a raw blobLayer => exact h.rdirIngest a raw blobLayer
  | touchUsed now dest expires => exact h.onDir (touchUsed_keeps dest expires now)
  | markAlive now dest => exact h.onDir fun r hu hd hc => ⟨hu, hd, hc⟩
  | clearRoute dest => exact h.onDir (clearRouteStores_keeps dest)
  | clearAllRoutes => exact h.clearAllRoutes
  | forget dest => exact h.forget dest
  | claim now dest c =>
    simp only [poolStep, rdirClaim]
    split
    · exact h
    · exact h.onDirOrNew_getD (fun r hu hd _ => claimStores_keeps dest c now r hu hd) (claim_makes dest c now)
  | claimTouch now dest consumer =>
    simp only [poolStep, rdirClaimTouch]
    split
    · exact h
    · exact h.onDir fun r hu hd hc => ⟨hu, hd, hc⟩
  | claimDrop dest consumer =>
    simp only [poolStep, rdirClaimDrop]
    split
    · exact h
    · exact h.onDir (claimDropStores_keeps dest consumer)
  | seedPubkey now dest pk => exact h.onDirOrNew_getD (seed_keeps dest pk) (seed_makes dest pk now)
  | evictTo now dirTarget blobTarget =>
    exact Consistent.evictDown (fun _ _ h he => h.evictOneBlob he) _
      (Consistent.evictDown (fun _ _ h he => h.evictOneDir he) _ h)
  | guardFresh c => exact h.guardFresh c

end MicroReticulum.Directory
