import MicroReticulum.Directory.Consistency
import MicroReticulum.Directory.Snapshot

/-!
# Reachable stores

A store begins empty or with a snapshot of a reachable store, and goes on by the
writer's operations. Slots keep their sizes on the way, so that a snapshot reads
back what was written, and every reachable store is consistent.
-/

namespace MicroReticulum.Directory

open Lib Lib.Seqlock

variable {p p' : Pools} {a : Arena} {r : DirRec} {i : Nat} {now : UInt32} {dest raw : Bytes} {stores fresh : Stores}
  {ok : DirRec → Bool} {cap : Nat} {seqs : Nat → UInt16} {image : Bytes}

structure Announce.Sized (a : Announce) : Prop where
  pubkey : ∀ pk ∈ a.pubkey, pk.length = PUBKEY_LEN
  nameHash : ∀ n ∈ a.nameHash, n.length = NAME_HASH_LEN
  receivedFrom : ∀ f ∈ a.receivedFrom, f.length = DEST_LEN
  ifaceHash : ∀ f ∈ a.ifaceHash, f.length = DEST_LEN

/-- The byte strings an operation is given have the lengths it copies. -/
def PoolOp.Sized : PoolOp → Prop
  | .ingest _ dest a _ _ => dest.length = DEST_LEN ∧ a.Sized
  | .claim _ dest _ => dest.length = DEST_LEN
  | .seedPubkey _ dest pk => dest.length = DEST_LEN ∧ pk.length = PUBKEY_LEN
  | _ => True

inductive Reachable : Pools → Prop
  | empty (a : Arena) : Reachable a.empty
  | step (q : Pools) (op : PoolOp) (h : Reachable q) (hop : op.Sized) : Reachable (poolStep q op)
  | reload (a : Arena) (q : Pools) (image : Bytes) (h : Reachable q)
    (hs : ∃ now cap seqs, rdirSnapshot now cap seqs q = some image) : Reachable (rdirInit a (some image))

-- ---------------------------------------------------------------------------
-- Stores keep the sizes
-- ---------------------------------------------------------------------------

/-- Stores that keep a record's sizes. -/
def Fits (stores : Stores) : Prop := ∀ r : DirRec, r.Sized → (stored stores r).Sized

theorem zero_sized : DirRec.zero.Sized := ⟨rfl, rfl, rfl, rfl, rfl⟩

theorem blobZero_sized (size : Nat) : (BlobSlot.zero size).Sized size := ⟨rfl, List.length_replicate⟩

theorem ingestStores_fits (hd : dest.length = DEST_LEN) {a : Announce} (ha : a.Sized) (now : UInt32) :
    Fits (ingestStores dest a now) := by
  intro r hr
  refine stored_keeps (fun f hf r hr => ?_) hr
  obtain ⟨h₁, h₂, h₃, h₄, h₅⟩ := hr
  simp only [ingestStores, setFlags, setPrio, List.mem_cons, Store.put.injEq, List.not_mem_nil, or_false] at hf
  rcases hf with rfl | rfl | rfl | rfl | rfl | rfl | rfl | rfl | rfl | rfl | rfl | rfl | rfl | rfl | rfl
  · exact ⟨hd, h₂, h₃, h₄, h₅⟩
  · cases hpk : a.pubkey with
    | none => exact ⟨h₁, h₂, h₃, h₄, h₅⟩
    | some pk => exact ⟨h₁, ha.pubkey pk hpk, h₃, h₄, h₅⟩
  · simp only
    split <;> exact ⟨h₁, h₂, h₃, h₄, h₅⟩
  · cases hn : a.nameHash with
    | none => exact ⟨h₁, h₂, h₃, h₄, h₅⟩
    | some n => exact ⟨h₁, h₂, ha.nameHash n hn, h₄, h₅⟩
  · exact ⟨h₁, h₂, h₃, h₄, h₅⟩
  · exact ⟨h₁, h₂, h₃, h₄, h₅⟩
  · exact ⟨h₁, h₂, h₃, h₄, h₅⟩
  · exact ⟨h₁, h₂, h₃, h₄, h₅⟩
  · simp only
    split
    · next f _ hf _ => exact ⟨h₁, h₂, h₃, ha.receivedFrom f hf, h₅⟩
    · exact ⟨h₁, h₂, h₃, h₄, h₅⟩
  · simp only
    split
    · next _ f _ hf => exact ⟨h₁, h₂, h₃, h₄, ha.ifaceHash f hf⟩
    · exact ⟨h₁, h₂, h₃, h₄, h₅⟩
  · simp only
    split <;> exact ⟨h₁, h₂, h₃, h₄, h₅⟩
  · simp only
    split <;> exact ⟨h₁, h₂, h₃, h₄, h₅⟩
  · simp only
    split <;> exact ⟨h₁, h₂, h₃, h₄, h₅⟩
  · exact ⟨h₁, h₂, h₃, h₄, h₅⟩
  · exact ⟨h₁, h₂, h₃, h₄, h₅⟩

theorem claimStores_fits (c : Claim) (now : UInt32) : Fits (claimStores c now) := by
  intro r hr
  refine stored_keeps (fun f hf r hr => ?_) hr
  obtain ⟨h₁, h₂, h₃, h₄, h₅⟩ := hr
  simp only [claimStores, setClaims, setPrio, List.mem_cons, Store.put.injEq, List.not_mem_nil, or_false] at hf
  rcases hf with rfl | rfl | rfl | rfl | rfl | rfl <;> simp only <;> (try split) <;> exact ⟨h₁, h₂, h₃, h₄, h₅⟩

theorem claimDropStores_fits (consumer : UInt32) : Fits (claimDropStores consumer) := by
  intro r hr
  refine stored_keeps (fun f hf r hr => ?_) hr
  obtain ⟨h₁, h₂, h₃, h₄, h₅⟩ := hr
  simp only [claimDropStores, setClaims, setPrio, List.mem_cons, Store.put.injEq, List.not_mem_nil, or_false] at hf
  rcases hf with rfl | rfl | rfl <;> simp only <;> (try split) <;> exact ⟨h₁, h₂, h₃, h₄, h₅⟩

theorem clearRouteStores_fits : Fits clearRouteStores := fun _ hr => ⟨hr.dest, hr.pubkey, hr.nameHash, rfl, rfl⟩

theorem touchUsed_fits (expires now : UInt32) :
    Fits [.put fun r => { r with lastUsed := now },
      .put fun r => if expires > r.expires then { r with expires } else r] := by
  rintro r ⟨h₁, h₂, h₃, h₄, h₅⟩
  simp only [stored, List.foldl_cons, List.foldl_nil]
  split <;> exact ⟨h₁, h₂, h₃, h₄, h₅⟩

theorem Fits.append (h : Fits stores) (hf : Fits fresh) : Fits (fresh ++ stores) := by
  intro r hr
  rw [stored_append]
  exact h _ (hf r hr)

/-- A wiped record has the sizes, and so has what fitting stores make of it. -/
theorem Fits.cleared (h : Fits stores) (hf : Fits fresh) : Fits (recClear ++ fresh ++ stores) :=
  h.append (hf.append fun _ _ => zero_sized)

-- ---------------------------------------------------------------------------
-- Operations keep the sizes
-- ---------------------------------------------------------------------------

theorem Pools.Sized.setDir (h : p.Sized) (hf : Fits stores) (i : Nat) : (setDir i stores p).Sized := by
  unfold Directory.setDir
  split
  · exact h
  · next r hr =>
    refine ⟨fun c hc => ?_, h.blobs, h.prefix_le, h.size_le, by simpa using h.dirs_lt⟩
    obtain rfl | hc := Slots.mem_set_cases hc
    · exact hf r (h.dirs r (List.mem_of_getElem? hr))
    · exact h.dirs c hc

theorem Pools.Sized.setBlob (h : p.Sized) {b : BlobSlot} (hb : b.Sized p.blobSlotSize) (i : Nat) :
    ({ p with blobs := p.blobs.set i b } : Pools).Sized := by
  refine ⟨h.dirs, fun c hc => ?_, h.prefix_le, h.size_le, h.dirs_lt⟩
  obtain rfl | hc := Slots.mem_set_cases hc
  · exact hb
  · exact h.blobs c hc

theorem Pools.Sized.freeBlobOf (h : p.Sized) (dest : Bytes) : (freeBlobOf dest p).Sized := by
  unfold Directory.freeBlobOf
  split
  · exact h
  · exact h.setBlob (blobZero_sized _) _

theorem Pools.Sized.evictOneDir (h : p.Sized) (he : evictOneDir now p = some p') : p'.Sized := by
  obtain ⟨i, victim, -, -, -, rfl⟩ := evictOneDir_eq_some he
  refine (h.freeBlobOf victim.dest).setDir (fun r _ => ?_) i
  rw [stored_written, stored_recClear]
  exact zero_sized

theorem Pools.Sized.evictOneBlob (h : p.Sized) (he : evictOneBlob now p = some p') : p'.Sized := by
  obtain ⟨i, b, -, -, -, rfl⟩ := evictOneBlob_eq_some he
  exact h.setBlob (blobZero_sized _) i

theorem Pools.Sized.onDir (h : p.Sized) (hf : Fits stores) : (onDir dest ok stores p).Sized := by
  unfold Directory.onDir
  split
  · exact h
  · split
    · exact h.setDir hf _
    · exact h

theorem Pools.Sized.onDirOrNew (h : p.Sized) (hf : Fits fresh) (hs : Fits stores)
    (he : onDirOrNew now dest fresh stores p = some p') : p'.Sized := by
  unfold Directory.onDirOrNew at he
  cases hfind : dirFind dest p with
  | some i =>
    rw [hfind] at he
    cases he
    exact h.setDir hs i
  | none =>
    rw [hfind] at he
    obtain ⟨⟨q, i⟩, hq, rfl⟩ := Option.map_eq_some_iff.1 he
    obtain ⟨-, rfl | ⟨-, hev⟩⟩ := dirAlloc_eq_some hq
    · exact h.setDir (hs.cleared hf) i
    · exact (h.evictOneDir hev).setDir (hs.cleared hf) i

theorem Pools.Sized.onDirOrNew_getD (h : p.Sized) (hf : Fits fresh) (hs : Fits stores) :
    ((Directory.onDirOrNew now dest fresh stores p).getD p).Sized := by
  cases he : Directory.onDirOrNew now dest fresh stores p with
  | none => exact h
  | some q => exact h.onDirOrNew hf hs he

theorem holding_sized {size : Nat} (hd : dest.length = DEST_LEN) (hr : raw.length + BLOB_PREFIX ≤ size) :
    (BlobSlot.holding size dest raw).Sized size := by
  refine ⟨hd, ?_⟩
  simp only [BlobSlot.holding, List.length_append, List.length_replicate]
  omega

theorem Pools.Sized.ingestBlob (h : p.Sized) (hd : dest.length = DEST_LEN) : (ingestBlob now dest raw p).Sized := by
  unfold Directory.ingestBlob
  split
  · exact h
  · next hlen =>
    have hfit : raw.length + BLOB_PREFIX ≤ p.blobSlotSize := by
      rw [not_or, not_lt] at hlen
      exact hlen.2
    split
    · exact h.setBlob (holding_sized hd hfit) _
    · split
      · exact h
      · next q i ha =>
        obtain ⟨-, rfl | ⟨-, he⟩⟩ := blobAlloc_eq_some ha
        · exact h.setBlob (holding_sized hd hfit) i
        · obtain ⟨k, b, -, -, -, rfl⟩ := evictOneBlob_eq_some he
          exact (h.evictOneBlob he).setBlob (holding_sized hd hfit) i

theorem Pools.Sized.evictDown {evict : Pools → Option Pools}
    (hev : ∀ p p' : Pools, p.Sized → evict p = some p' → p'.Sized) (n : Nat) (h : p.Sized) :
    (evictDown evict n p).Sized := by
  induction n generalizing p with
  | zero => exact h
  | succ n ih =>
    unfold Directory.evictDown
    cases he : evict p with
    | none => exact h
    | some q => exact ih (hev p q h he)

theorem Pools.Sized.step (h : p.Sized) {op : PoolOp} (hop : op.Sized) : (poolStep p op).Sized := by
  cases op with
  | ingest now dest a raw blobLayer =>
    simp only [poolStep, rdirIngest, if_true]
    cases he : Directory.onDirOrNew now dest [] (ingestStores dest a now) p with
    | none => exact h
    | some q =>
      have hnone : Fits [] := fun _ hr => hr
      have hq : q.Sized := h.onDirOrNew hnone (ingestStores_fits hop.1 hop.2 now) he
      cases raw with
      | none => exact hq
      | some raw =>
        simp only
        split
        · exact hq.ingestBlob hop.1
        · exact hq
  | touchUsed now dest expires => exact h.onDir (touchUsed_fits expires now)
  | markAlive now dest => exact h.onDir fun r hr => ⟨hr.1, hr.2, hr.3, hr.4, hr.5⟩
  | clearRoute dest => exact h.onDir clearRouteStores_fits
  | clearAllRoutes =>
    refine ⟨fun r hr => ?_, h.blobs, h.prefix_le, h.size_le, by simpa [poolStep, rdirClearAllRoutes] using h.dirs_lt⟩
    obtain ⟨r₀, hr₀, rfl⟩ := List.mem_map.1 hr
    split
    · exact clearRouteStores_fits r₀ (h.dirs r₀ hr₀)
    · exact h.dirs r₀ hr₀
  | forget dest =>
    refine (h.freeBlobOf dest).onDir fun r _ => ?_
    rw [stored_memset]
    exact zero_sized
  | claim now dest c =>
    simp only [poolStep, rdirClaim]
    split
    · exact h
    · exact h.onDirOrNew_getD (fun r hr => ⟨hop, hr.2, hr.3, hr.4, hr.5⟩) (claimStores_fits c now)
  | claimTouch now dest consumer =>
    simp only [poolStep, rdirClaimTouch]
    split
    · exact h
    · exact h.onDir fun r hr => ⟨hr.1, hr.2, hr.3, hr.4, hr.5⟩
  | claimDrop dest consumer =>
    simp only [poolStep, rdirClaimDrop]
    split
    · exact h
    · exact h.onDir (claimDropStores_fits consumer)
  | seedPubkey now dest pk =>
    exact h.onDirOrNew_getD (fun r hr => ⟨hop.1, hr.2, hr.3, hr.4, hr.5⟩)
      (fun r hr => ⟨hr.1, hop.2, hr.3, hr.4, hr.5⟩)
  | evictTo now dirTarget blobTarget =>
    exact Pools.Sized.evictDown (fun _ _ h he => h.evictOneBlob he) _
      (Pools.Sized.evictDown (fun _ _ h he => h.evictOneDir he) _ h)
  | guardFresh c => exact ⟨h.dirs, h.blobs, h.prefix_le, h.size_le, h.dirs_lt⟩

-- ---------------------------------------------------------------------------
-- Loading
-- ---------------------------------------------------------------------------

theorem filter_unused {α : Type*} {used : α → Bool} {l : List α} {z : α} {n : Nat} (hl : ∀ x ∈ l, used x)
    (hz : used z = false) : (l ++ .replicate n z).filter used = l := by
  rw [List.filter_append, List.filter_eq_self.2 hl, List.filter_replicate_of_neg (by simp [hz]), List.append_nil]

theorem nodup_of_subperm {α : Type*} {l l' : List α} (h : l.Subperm l') (hd : l'.Nodup) : l.Nodup := by
  obtain ⟨m, hp, hs⟩ := h
  exact hp.nodup_iff.1 (hs.nodup hd)

theorem not_mem_unused {α : Type*} {used : α → Bool} {x z : α} {n : Nat} (hx : x ∈ List.replicate n z)
    (hz : used z = false) : used x = false := by
  rw [List.eq_of_mem_replicate hx, hz]

theorem guardZero_used : GuardRec.zero.used = false := rfl

theorem Pools.Sized.empty (a : Arena) : a.empty.Sized := by
  refine ⟨fun r hr => ?_, fun b hb => ?_, a.prefix_le, a.size_le, by simpa [Arena.empty, Pools.empty] using a.dirSlots_lt⟩
  · rw [List.eq_of_mem_replicate hr]
    exact zero_sized
  · rw [List.eq_of_mem_replicate hb]
    exact blobZero_sized _

theorem distinct_unused {α κ : Type*} {used : α → Bool} {key : α → κ} {z : α} {n : Nat} (hz : used z = false) :
    Slots.Distinct used key (.replicate n z) := by
  intro i j x y hx _ hux
  simp [not_mem_unused (List.mem_of_getElem? hx) hz] at hux

theorem Consistent.empty (a : Arena) : Consistent a.empty where
  dirs := distinct_unused dirZero_used
  blobs := distinct_unused (blobZero_used _)
  guards := distinct_unused guardZero_used
  owned b hb hub := by simp [not_mem_unused hb (blobZero_used _)] at hub
  current r hr hur := by simp [not_mem_unused hr dirZero_used] at hur

theorem savedDirs_nodup (h : Consistent p) : ((savedDirs now cap p).map DirRec.dest).Nodup := by
  obtain ⟨l, hp, hs⟩ := snapshotDirs_subperm now cap p
  exact nodup_of_subperm ⟨_, hp.map _, hs.map _⟩ (Slots.distinct_iff_nodup.1 h.dirs)

theorem Consistent.rdirInit (h : Consistent p) (hp : p.Sized) (hs : rdirSnapshot now cap seqs p = some image)
    (a : Arena) : Consistent (rdirInit a (some image)) := by
  by_cases ha : a.admits image
  · have hdirs : ∀ r ∈ savedDirs now cap p, r ∈ p.dirs ∧ r.used := fun r hr => snapshotDirs_mem hr
    have hblobs : ∀ b ∈ savedBlobs now cap p, _ := fun b hb => savedBlobs_mem hb
    have hnodup : ((savedDirs now cap p).map DirRec.dest).Nodup := savedDirs_nodup h
    rw [rdirInit_snapshot hs hp ha]
    refine ⟨?_, ?_, (Consistent.empty a).guards, fun b hb hub => ?_, fun r hr hur => ?_⟩
    · rw [Slots.distinct_iff_nodup, filter_unused (fun r hr => (hdirs r hr).2) dirZero_used]
      exact hnodup
    · rw [Slots.distinct_iff_nodup, filter_unused (fun b hb => (hblobs b hb).2.1) (blobZero_used _)]
      exact hnodup.sublist (snapshotBlobs_sublist p _ _)
    · obtain hb | hb := List.mem_append.1 hb
      · obtain ⟨-, -, r, hr, hd⟩ := hblobs b hb
        exact ⟨r, List.mem_append_left _ hr, (hdirs r hr).2, hd⟩
      · simp [not_mem_unused hb (blobZero_used _)] at hub
    · obtain hr | hr := List.mem_append.1 hr
      · exact h.current r (hdirs r hr).1 hur
      · simp [not_mem_unused hr dirZero_used] at hur
  · rw [Directory.rdirInit, if_neg ha]
    exact Consistent.empty a

theorem Pools.Sized.rdirInit (hp : p.Sized) (hs : rdirSnapshot now cap seqs p = some image) (a : Arena) :
    (rdirInit a (some image)).Sized := by
  by_cases ha : a.admits image
  · have hcount := (admits_spec ha).2.1
    have hz := Pools.Sized.empty a
    have hlt := a.dirSlots_lt
    rw [dirCount_snapshot hs hp] at hcount
    rw [rdirInit_snapshot hs hp ha]
    refine ⟨fun r hr => ?_, fun b hb => ?_, a.prefix_le, a.size_le, ?_⟩
    · obtain hr | hr := List.mem_append.1 hr
      · exact hp.dirs r (snapshotDirs_mem hr).1
      · rw [List.eq_of_mem_replicate hr]
        exact zero_sized
    · obtain hb | hb := List.mem_append.1 hb
      · rw [show ({ a.empty with dirs := _, blobs := _ } : Pools).blobSlotSize = p.blobSlotSize from blobSlotSize_admitted hs hp ha]
        exact hp.blobs b (savedBlobs_mem hb).1
      · rw [List.eq_of_mem_replicate hb]
        exact blobZero_sized _
    · simp only [List.length_append, List.length_replicate]
      omega
  · rw [Directory.rdirInit, if_neg ha]
    exact Pools.Sized.empty a

-- ---------------------------------------------------------------------------
-- Reachable stores
-- ---------------------------------------------------------------------------

theorem Reachable.invariant (h : Reachable p) : Consistent p ∧ p.Sized := by
  induction h with
  | empty a => exact ⟨.empty a, .empty a⟩
  | step q op h hop ih => exact ⟨ih.1.step op, ih.2.step hop⟩
  | reload a q image h hs ih =>
    obtain ⟨now, cap, seqs, hs⟩ := hs
    exact ⟨ih.1.rdirInit ih.2 hs a, ih.2.rdirInit hs a⟩

/-- Every destination is stored once, every blob belongs to a record and every
priority is up to date, in whatever order the writer's operations come. -/
theorem consistent_of_reachable (h : Reachable p) : Consistent p := h.invariant.1

/-- An arena with room for two records and one blob. -/
def smallArena : Arena where
  blobSlotSize := 84
  guardSlots := 2
  dirSlots := 2
  blobSlots := 1
  prefix_le := by decide
  size_le := by decide
  dirSlots_lt := by decide
  blobSlots_lt := by decide

/-- An announce without a route. -/
def plainAnnounce : Announce :=
  { pubkey := none, nameHash := none, receivedFrom := none, ifaceHash := none, hops := 1, edge := false,
    answerFor := false, timestamp := 0, expires := 0 }

theorem plainAnnounce_sized : plainAnnounce.Sized := ⟨nofun, nofun, nofun, nofun⟩

/-- Two records stored, then a third that evicts one of them. -/
theorem consistent_of_reachable_evicted :
    Consistent (poolStep (poolStep (poolStep smallArena.empty
      (.ingest 10 (.replicate 16 1) plainAnnounce (some [7]) true))
      (.ingest 11 (.replicate 16 2) plainAnnounce none false))
      (.ingest 12 (.replicate 16 3) plainAnnounce (some [9]) true)) :=
  consistent_of_reachable <|
    .step _ _ (.step _ _ (.step _ _ (.empty smallArena) ⟨rfl, plainAnnounce_sized⟩) ⟨rfl, plainAnnounce_sized⟩)
      ⟨rfl, plainAnnounce_sized⟩

end MicroReticulum.Directory
