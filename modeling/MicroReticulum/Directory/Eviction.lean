import MicroReticulum.Directory.Reachable

/-!
# Whom an eviction takes

An operation that finds the pool of records full drops the record that ranks
least, with its blob, and leaves the others as they are. The blob pool is the
smaller one: where it is full, a new blob costs the least of its blobs, too.
-/

namespace MicroReticulum.Directory

open Lib

variable {p q q' : Pools} {now : UInt32} {victim r : DirRec} {b : BlobSlot} {i n : Nat} {dest d raw : Bytes}
  {stores fresh : Stores} {op : PoolOp} {ops : List PoolOp}

/-- A record is dropped, and its blob with it. -/
structure DirEvicted (now : UInt32) (victim : DirRec) (p q : Pools) : Prop where
  held : recordOf victim.dest p = some victim
  least : ∀ r ∈ p.dirs, r.used → dirRank now victim ≤ dirRank now r
  gone : recordOf victim.dest q = none ∧ blobOf victim.dest q = none
  others : ∀ d, d ≠ victim.dest → recordOf d q = recordOf d p ∧ blobOf d q = blobOf d p
  guards : q.guards = p.guards

/-- A blob is dropped, by the rank of its record. -/
structure BlobEvicted (now : UInt32) (b : BlobSlot) (p q : Pools) : Prop where
  held : blobOf b.dest p = some b
  least : ∀ c ∈ p.blobs, c.used → blobRank now p b ≤ blobRank now p c
  gone : blobOf b.dest q = none
  others : ∀ d, d ≠ b.dest → blobOf d q = blobOf d p
  dirs : q.dirs = p.dirs
  guards : q.guards = p.guards

/-- Only the record of this destination is written; one that is there stays. -/
structure WritesRecord (dest : Bytes) (p q : Pools) : Prop where
  stays : recordOf dest p ≠ none → recordOf dest q ≠ none
  others : ∀ d, d ≠ dest → recordOf d q = recordOf d p
  blobs : q.blobs = p.blobs
  guards : q.guards = p.guards

/-- Only the blob of this destination is written. -/
structure WritesBlob (dest : Bytes) (p q : Pools) : Prop where
  others : ∀ d, d ≠ dest → blobOf d q = blobOf d p
  dirs : q.dirs = p.dirs
  guards : q.guards = p.guards

-- ---------------------------------------------------------------------------
-- Evictions
-- ---------------------------------------------------------------------------

theorem recordOf_of_slot (h : Consistent p) (hr : p.dirs[i]? = some r) (hu : r.used) :
    recordOf r.dest p = some r :=
  Slots.lookup_eq_some.2 ⟨i, h.dirs.find hr hu, hr⟩

theorem blobOf_of_slot (h : Consistent p) (hb : p.blobs[i]? = some b) (hu : b.used) : blobOf b.dest p = some b :=
  Slots.lookup_eq_some.2 ⟨i, h.blobs.find hb hu, hb⟩

/-- A slot written under its own destination matters to no other one. -/
theorem recordOf_setDir (hr : p.dirs[i]? = some r) (hold : r.used → r.dest = dest)
    (hnew : (stored stores r).used → (stored stores r).dest = dest) (hd : d ≠ dest) :
    recordOf d (setDir i stores p) = recordOf d p := by
  rw [setDir_eq hr]
  refine Slots.lookup_set_other (fun a ha hak => ?_) fun hb => ?_
  · cases hr.symm.trans ha
    exact hd (hak.2.symm.trans (hold hak.1))
  · exact hd (hb.2.symm.trans (hnew hb.1))

theorem blobOf_freed (hb : p.blobs[i]? = some b) (hd : d ≠ b.dest) : blobOf d (blobFree i p) = blobOf d p := by
  refine Slots.lookup_set_other (fun a ha hak => ?_) fun hz => ?_
  · cases hb.symm.trans ha
    exact hd hak.2.symm
  · simp [blobZero_used] at hz

theorem blobOf_freeBlobOf (hd : d ≠ dest) : blobOf d (freeBlobOf dest p) = blobOf d p := by
  unfold freeBlobOf
  cases hf : blobFind dest p with
  | none => rfl
  | some i =>
    obtain ⟨b, hb, -, rfl⟩ := Slots.find_eq_some hf
    exact blobOf_freed hb hd

theorem recordOf_freeBlobOf : recordOf d (freeBlobOf dest p) = recordOf d p := by
  rw [recordOf, (freeBlobOf_dirs dest p).1, recordOf]

theorem setDir_blobs : (setDir i stores p).blobs = p.blobs ∧ (setDir i stores p).guards = p.guards := by
  unfold setDir
  split <;> exact ⟨rfl, rfl⟩

theorem evictOneDir_evicted (h : Consistent p) (he : evictOneDir now p = some q) :
    ∃ victim, DirEvicted now victim p q := by
  obtain ⟨i, victim, hr, hu, hleast, rfl⟩ := evictOneDir_eq_some he
  have hr' : (freeBlobOf victim.dest p).dirs[i]? = some victim := by
    rw [(freeBlobOf_dirs victim.dest p).1, hr]
  have hzero : stored (written recClear) victim = .zero := stored_written.trans stored_recClear
  have hunused : (stored (written recClear) victim).used = false := by rw [hzero]; rfl
  refine ⟨victim, recordOf_of_slot h hr hu, hleast, ⟨?_, ?_⟩, fun d hd => ⟨?_, ?_⟩, ?_⟩
  · rw [recordOf, setDir_eq hr', Slots.lookup_eq_none, ← Slots.not_has_iff]
    exact (h.freeBlobOf victim.dest).dirs.not_has_set hr' hu hunused
  · rw [blobOf, setDir_blobs.1, Slots.lookup_eq_none, ← Slots.not_has_iff]
    exact h.not_has_blob victim.dest
  · rw [recordOf_setDir hr' (fun _ => rfl) (fun hu' => by simp [hunused] at hu') hd, recordOf_freeBlobOf]
  · rw [blobOf, setDir_blobs.1]
    exact blobOf_freeBlobOf hd
  · rw [setDir_blobs.2, (freeBlobOf_dirs victim.dest p).2]

theorem evictOneBlob_evicted (h : Consistent p) (he : evictOneBlob now p = some q) :
    ∃ b, BlobEvicted now b p q := by
  obtain ⟨i, b, hb, hu, hleast, rfl⟩ := evictOneBlob_eq_some he
  refine ⟨b, blobOf_of_slot h hb hu, hleast, ?_, fun d hd => blobOf_freed hb hd, rfl, rfl⟩
  rw [blobOf, Slots.lookup_eq_none, ← Slots.not_has_iff]
  exact h.blobs.not_has_set hb hu (blobZero_used _)

/-- An eviction down to a target: one after the other, and none at the target or below. -/
inductive Down (count : Pools → Nat) (target : Nat) (Evicted : Pools → Pools → Prop) : Pools → Pools → Prop
  | done (s : Pools) : Down count target Evicted s s
  | next (s t u : Pools) (hc : target < count s) (h : Evicted s t) (rest : Down count target Evicted t u) :
    Down count target Evicted s u

theorem evictDown_down {count : Pools → Nat} {evict : Pools → Option Pools} {Evicted : Pools → Pools → Prop}
    {target : Nat} (hkeep : ∀ p q, Consistent p → evict p = some q → Consistent q ∧ Evicted p q)
    (hcount : ∀ p q, Consistent p → evict p = some q → count p ≤ count q + 1) (h : Consistent p)
    (hn : n ≤ count p - target) : Down count target Evicted p (evictDown evict n p) := by
  induction n generalizing p with
  | zero => exact .done p
  | succ n ih =>
    unfold evictDown
    cases he : evict p with
    | none => exact .done p
    | some q =>
      obtain ⟨hq, hev⟩ := hkeep p q h he
      have hle := hcount p q h he
      exact .next p q _ (by omega) hev (ih hq (by omega))

-- ---------------------------------------------------------------------------
-- Operations
-- ---------------------------------------------------------------------------

/-- An operation on the record that is there. -/
theorem setDir_writes (h : Consistent p) (hr : p.dirs[i]? = some r) (hu : r.used) (hk : Keeps r.dest stores) :
    WritesRecord r.dest p (setDir i stores p) := by
  obtain ⟨hu', hd', -⟩ := hk r hu rfl (h.current r (List.mem_of_getElem? hr) hu)
  refine ⟨fun _ => ?_, fun d hd => recordOf_setDir hr (fun _ => rfl) (fun _ => hd') hd, setDir_blobs.1,
    setDir_blobs.2⟩
  rw [recordOf, setDir_eq hr, Slots.lookup_set_self (h.dirs.find hr hu) hu' hd']
  exact Option.some_ne_none _

/-- A record written into a free slot. -/
theorem setDir_writes_new (hr : p.dirs[i]? = some r) (hu : r.used = false) (hm : Makes dest stores)
    (hf : recordOf dest p = none) : WritesRecord dest p (setDir i stores p) :=
  ⟨fun hn => absurd hf hn, fun _ hd => recordOf_setDir hr (by simp [hu]) (fun _ => (hm r).2.1) hd, setDir_blobs.1,
    setDir_blobs.2⟩

/-- A record is evicted only where the destination is new and the pool is full. -/
def MadeRoom (now : UInt32) (dest : Bytes) (p q : Pools) : Prop :=
  q = p ∨ recordOf dest p = none ∧ (∀ r ∈ p.dirs, r.used) ∧ ∃ victim, DirEvicted now victim p q

theorem onDirOrNew_writes (h : Consistent p) (hk : Keeps dest stores) (hm : Makes dest (recClear ++ fresh ++ stores))
    (he : onDirOrNew now dest fresh stores p = some q') :
    ∃ q, MadeRoom now dest p q ∧ WritesRecord dest q q' := by
  unfold onDirOrNew at he
  cases hf : dirFind dest p with
  | some i =>
    obtain ⟨r, hr, hu, rfl⟩ := Slots.find_eq_some hf
    rw [hf] at he
    cases he
    exact ⟨p, .inl rfl, setDir_writes h hr hu hk⟩
  | none =>
    have hnone : recordOf dest p = none := Slots.lookup_eq_none.2 hf
    rw [hf] at he
    obtain ⟨⟨q, i⟩, hq, rfl⟩ := Option.map_eq_some_iff.1 he
    obtain ⟨⟨r, hr, hu⟩, rfl | ⟨hfull, hev⟩⟩ := dirAlloc_eq_some hq
    · exact ⟨q, .inl rfl, setDir_writes_new hr hu hm hnone⟩
    · refine ⟨q, .inr ⟨hnone, hfull, evictOneDir_evicted h hev⟩, setDir_writes_new hr hu hm ?_⟩
      exact Slots.lookup_eq_none.2 (dirFind_evicted hev hf)

/-- A blob of another destination is dropped only where this one has none and the pool is full. -/
def MadeBlobRoom (now : UInt32) (dest : Bytes) (p q : Pools) : Prop :=
  q = p ∨ blobOf dest p = none ∧ (∀ b ∈ p.blobs, b.used) ∧ ∃ b, BlobEvicted now b p q

theorem setBlob_writes (hb : p.blobs[i]? = some b) (hold : b.used → b.dest = dest) (raw : Bytes) :
    WritesBlob dest p { p with blobs := p.blobs.set i (.holding p.blobSlotSize dest raw) } := by
  refine ⟨fun d hd => Slots.lookup_set_other (fun a ha hak => ?_) fun hk => hd hk.2.symm, rfl, rfl⟩
  cases hb.symm.trans ha
  exact hd (hak.2.symm.trans (hold hak.1))

theorem ingestBlob_writes (h : Consistent p) :
    ∃ q, MadeBlobRoom now dest p q ∧ WritesBlob dest q (ingestBlob now dest raw p) := by
  unfold ingestBlob
  split
  · exact ⟨p, .inl rfl, fun _ _ => rfl, rfl, rfl⟩
  · cases hf : blobFind dest p with
    | some i =>
      obtain ⟨b, hb, -, hd⟩ := Slots.find_eq_some hf
      exact ⟨p, .inl rfl, setBlob_writes hb (fun _ => hd) raw⟩
    | none =>
      cases ha : blobAlloc now p with
      | none => exact ⟨p, .inl rfl, fun _ _ => rfl, rfl, rfl⟩
      | some e =>
        obtain ⟨q, i⟩ := e
        obtain ⟨⟨b, hb, hu⟩, rfl | ⟨hfull, he⟩⟩ := blobAlloc_eq_some ha
        · exact ⟨q, .inl rfl, setBlob_writes hb (by simp [hu]) raw⟩
        · exact ⟨q, .inr ⟨Slots.lookup_eq_none.2 hf, hfull, evictOneBlob_evicted h he⟩,
            setBlob_writes hb (by simp [hu]) raw⟩

/-- The operations that take a slot for a destination that has none, with their
time and destination. -/
def PoolOp.allocates : PoolOp → Option (UInt32 × Bytes)
  | .ingest now dest _ _ _ => some (now, dest)
  | .claim now dest _ => some (now, dest)
  | .seedPubkey now dest _ => some (now, dest)
  | _ => none

/-- An announce with its raw bytes, to be kept. -/
def PoolOp.keepsBlob : PoolOp → Bool
  | .ingest _ _ _ raw blobLayer => raw.isSome && blobLayer
  | _ => false

def PoolOp.isAnnounce : PoolOp → Bool
  | .ingest .. => true
  | _ => false

/-- What an operation that allocates does: room for the record, the record, room
for the blob, the blob. -/
def Takes (now : UInt32) (dest : Bytes) (keepsBlob : Bool) (p p' : Pools) : Prop :=
  ∃ q₁ q₂ q₃, MadeRoom now dest p q₁ ∧ WritesRecord dest q₁ q₂ ∧ MadeBlobRoom now dest q₂ q₃ ∧
    WritesBlob dest q₃ p' ∧ (keepsBlob = false → q₃ = q₂ ∧ p' = q₃)

theorem Takes.record {keeps : Bool} (hr : MadeRoom now dest p q) (hw : WritesRecord dest q q') :
    Takes now dest keeps p q' :=
  ⟨q, q', q', hr, hw, .inl rfl, ⟨fun _ _ => rfl, rfl, rfl⟩, fun _ => ⟨rfl, rfl⟩⟩

theorem Takes.refl {keeps : Bool} (p : Pools) : Takes now dest keeps p p :=
  .record (.inl rfl) ⟨id, fun _ _ => rfl, rfl, rfl⟩

theorem getD_takes {keeps : Bool} (h : Consistent p) (hk : Keeps dest stores)
    (hm : Makes dest (recClear ++ fresh ++ stores)) :
    Takes now dest keeps p ((onDirOrNew now dest fresh stores p).getD p) := by
  cases he : onDirOrNew now dest fresh stores p with
  | none => exact .refl p
  | some q' =>
    obtain ⟨q, hroom, hw⟩ := onDirOrNew_writes h hk hm he
    exact .record hroom hw

theorem ingest_takes (h : Consistent p) (a : Announce) (raw : Option Bytes) (blobLayer : Bool) :
    Takes now dest (raw.isSome && blobLayer) p (rdirIngest now dest a raw true blobLayer p) := by
  have hmakes := ingestStores_makes dest a now
  unfold rdirIngest
  simp only [if_true]
  cases he : onDirOrNew now dest [] (ingestStores dest a now) p with
  | none => exact .refl p
  | some q₂ =>
    obtain ⟨q₁, hroom, hw⟩ := onDirOrNew_writes h hmakes.keeps hmakes.after he
    have hq₂ := (h.onDirOrNew hmakes.keeps hmakes.after he).1
    cases raw with
    | none => exact .record hroom hw
    | some raw =>
      cases blobLayer with
      | false => exact .record hroom hw
      | true =>
        obtain ⟨q₃, hblob, hb⟩ : ∃ q, MadeBlobRoom now dest q₂ q ∧ WritesBlob dest q (ingestBlob now dest raw q₂) :=
          ingestBlob_writes hq₂
        exact ⟨q₁, q₂, q₃, hroom, hw, hblob, hb, by simp⟩

theorem allocates_takes (h : Consistent p) (ha : op.allocates = some (now, dest)) :
    Takes now dest op.keepsBlob p (poolStep p op) := by
  cases op with
  | ingest now dest a raw blobLayer =>
    cases ha
    exact ingest_takes h a raw blobLayer
  | claim now dest c =>
    cases ha
    simp only [poolStep, rdirClaim]
    split
    · exact .refl p
    · exact getD_takes h (fun r hu hd _ => claimStores_keeps dest c now r hu hd) (claim_makes dest c now)
  | seedPubkey now dest pk =>
    cases ha
    exact getD_takes h (seed_keeps dest pk) (seed_makes dest pk now)
  | touchUsed | markAlive | clearRoute | clearAllRoutes | forget | claimTouch | claimDrop | evictTo | guardFresh =>
    cases ha

theorem countP_set_le {α : Type*} {f : α → Bool} {l : List α} {i : Nat} {x : α} :
    l.countP f ≤ (l.set i x).countP f + 1 := by
  by_cases hi : i < l.length
  · rw [List.countP_set hi]
    split <;> omega
  · rw [List.set_eq_of_length_le (not_lt.1 hi)]
    exact Nat.le_succ _

/-- Down to the targets, records first. -/
theorem evictTo_down (h : Consistent p) (now : UInt32) (dirTarget blobTarget : Nat) :
    ∃ q, Down dirUsed dirTarget (fun s t => ∃ victim, DirEvicted now victim s t) p q ∧
      Down blobUsedCount blobTarget (fun s t => ∃ b, BlobEvicted now b s t) q
        (poolStep p (.evictTo now dirTarget blobTarget)) := by
  have hdirs : ∀ s t, Consistent s → evictOneDir now s = some t → dirUsed s ≤ dirUsed t + 1 := by
    intro s t _ he
    obtain ⟨i, victim, hr, -, -, rfl⟩ := evictOneDir_eq_some he
    have hr' : (freeBlobOf victim.dest s).dirs[i]? = some victim := by
      rw [(freeBlobOf_dirs victim.dest s).1, hr]
    rw [dirUsed, dirUsed, setDir_eq hr', (freeBlobOf_dirs victim.dest s).1]
    exact countP_set_le
  have hblobs : ∀ s t, Consistent s → evictOneBlob now s = some t → blobUsedCount s ≤ blobUsedCount t + 1 := by
    intro s t _ he
    obtain ⟨i, b, -, -, -, rfl⟩ := evictOneBlob_eq_some he
    exact countP_set_le
  have hkeep : ∀ s t, Consistent s → evictOneDir now s = some t → Consistent t ∧ ∃ victim, DirEvicted now victim s t :=
    fun s t hs he => ⟨hs.evictOneDir he, evictOneDir_evicted hs he⟩
  have hkeepBlob : ∀ s t, Consistent s → evictOneBlob now s = some t → Consistent t ∧ ∃ b, BlobEvicted now b s t :=
    fun s t hs he => ⟨hs.evictOneBlob he, evictOneBlob_evicted hs he⟩
  have hmid : Consistent (evictDown (evictOneDir now) (dirUsed p - dirTarget) p) :=
    h.evictDown (fun s t hs he => hs.evictOneDir he) _
  exact ⟨_, evictDown_down hkeep hdirs h le_rfl, evictDown_down hkeepBlob hblobs hmid le_rfl⟩

-- ---------------------------------------------------------------------------
-- Runs of announces
-- ---------------------------------------------------------------------------

/-- A record that an operation on another destination makes disappear ranked
least of all. -/
theorem Takes.least {keeps : Bool} (h : Takes now dest keeps p q) (hr : recordOf d p = some r)
    (hgone : recordOf d q = none) : ∀ c ∈ p.dirs, c.used → dirRank now r ≤ dirRank now c := by
  obtain ⟨q₁, q₂, q₃, hroom, hw, hblob, hb, -⟩ := h
  have hsame : q.dirs = q₂.dirs := by
    obtain rfl | ⟨-, -, b, he⟩ := hblob
    · exact hb.dirs
    · exact hb.dirs.trans he.dirs
  have hgone₂ : recordOf d q₂ = none := by
    rw [← hgone, recordOf, recordOf, hsame]
  by_cases hd : d = dest
  · subst hd
    obtain rfl | ⟨hnew, -⟩ := hroom
    · exact absurd hgone₂ (hw.stays (by simp [hr]))
    · simp [hnew] at hr
  · have hgone₁ : recordOf d q₁ = none := (hw.others d hd).symm.trans hgone₂
    obtain rfl | ⟨-, -, victim, he⟩ := hroom
    · simp [hr] at hgone₁
    · by_cases hv : d = victim.dest
      · subst hv
        cases hr.symm.trans he.held
        exact he.least
      · simp [(he.others d hv).1, hr] at hgone₁

theorem dirCategory_le {c : DirRec} (h : dirRank now r ≤ dirRank now c) : dirCategory now r ≤ dirCategory now c := by
  obtain hlt | ⟨heq, -⟩ := Prod.Lex.le_iff.1 h
  · exact UInt8.le_iff_toNat_le.2 hlt.le
  · exact UInt8.le_iff_toNat_le.2 heq.le

theorem consistent_run (h : Consistent p) (ops : List PoolOp) : Consistent (Runs.run poolStep p ops) :=
  Runs.invariant (fun _ op hs => hs.step op) h

/-- Two records, the older one without a blob, the younger with the only one. -/
def fullStore : Pools :=
  poolStep (poolStep smallArena.empty (.ingest 11 (.replicate 16 1) plainAnnounce (some [7]) true))
    (.ingest 10 (.replicate 16 2) plainAnnounce none false)

theorem fullStore_reachable : Reachable fullStore :=
  .step _ _ (.step _ _ (.empty smallArena) ⟨rfl, plainAnnounce_sized⟩) ⟨rfl, plainAnnounce_sized⟩

/-- A third destination and the blob it brings. -/
def newcomer : PoolOp := .ingest 12 (.replicate 16 3) plainAnnounce (some [9]) true

/-- One record goes with its blob, and nothing else changes but for the destination. -/
def EvictsOnly (now : UInt32) (dest : Bytes) (p q : Pools) : Prop :=
  ∃ victim, recordOf victim.dest p = some victim ∧ (∀ r ∈ p.dirs, r.used → dirRank now victim ≤ dirRank now r) ∧
    recordOf victim.dest q = none ∧ blobOf victim.dest q = none ∧
    ∀ d, d ≠ victim.dest → d ≠ dest → recordOf d q = recordOf d p ∧ blobOf d q = blobOf d p

end MicroReticulum.Directory
