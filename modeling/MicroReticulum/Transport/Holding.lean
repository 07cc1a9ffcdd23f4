import MicroReticulum.Transport.AnnounceTable

/-!
# Announces held back

What the table keeps of each destination: a record that is not held and one that
is, and for a held record the path response that is to release it. A record is
overwritten in two steps, by wiping its slot and storing in a free one.
-/

namespace MicroReticulum.AnnounceTable

open Lib Lib.Runs

variable {ring : Ring} {r b q p : AnnounceRec} {i j now maxsize : Nat} {d dest : Hash} {held : Bool}
  {accepted : Hash → Nat} {waived : Option Hash} {t : Table} {e : Entry} {h : Heard}

def recOf (dest : Hash) (held : Bool) (ring : Ring) : Option AnnounceRec :=
  Slots.lookup AnnounceRec.used AnnounceRec.key (dest, held) ring

/-- A record that is to release another. -/
def AnnounceRec.responds (p : AnnounceRec) : Prop := p.block = true ∧ p.retries = PATHFINDER_R

/-- No destination has two records of a kind, a held record has the response it
waits for, but at the destination waived, and no record has been overtaken by a
later announce. -/
structure Orderly (waived : Option Hash) (accepted : Hash → Nat) (ring : Ring) : Prop where
  distinct : Slots.Distinct AnnounceRec.used AnnounceRec.key ring
  response : ∀ d, waived ≠ some d → recOf d true ring ≠ none → ∃ p, recOf d false ring = some p ∧ p.responds
  current : ∀ d held r, recOf d held ring = some r → r.nth = accepted d

-- ---------------------------------------------------------------------------
-- Wiping and storing
-- ---------------------------------------------------------------------------

theorem zero_used : AnnounceRec.zero.used = false := rfl

theorem announceFind_eq_some (hf : announceFind dest held ring = some i) :
    ∃ r, ring[i]? = some r ∧ recOf dest held ring = some r ∧ r.used = true ∧ r.dest = dest ∧ r.held = held := by
  obtain ⟨r, hr, hu, hk⟩ := Slots.find_eq_some hf
  obtain ⟨hd, hh⟩ := Prod.mk.inj hk
  exact ⟨r, hr, Slots.lookup_eq_some.2 ⟨i, hf, hr⟩, hu, hd, hh⟩

theorem announceFind_eq_none : announceFind dest held ring = none ↔ recOf dest held ring = none :=
  Slots.lookup_eq_none.symm

theorem Orderly.recOf_at (ho : Orderly waived accepted ring) (hr : ring[i]? = some r) (hu : r.used = true) :
    recOf r.dest r.held ring = some r :=
  ho.distinct.lookup_eq_some.2 ⟨i, hr, hu, rfl⟩

theorem Orderly.recOf_wipe (ho : Orderly waived accepted ring) (hr : ring[i]? = some r) :
    recOf d held (wipe i ring) = if r.used = true ∧ r.key = (d, held) then none else recOf d held ring := by
  have hset := ho.distinct.lookup_set (b := .zero) (k := (d, held)) (ho.distinct.set_free zero_used) hr
  simpa [recOf, wipe, zero_used] using hset

theorem Orderly.waive (ho : Orderly none accepted ring) (d : Hash) : Orderly (some d) accepted ring :=
  ⟨ho.distinct, fun d' _ => ho.response d' nofun, ho.current⟩

/-- A slot may be wiped, but for a response something waits for. -/
theorem Orderly.wipe (ho : Orderly waived accepted ring) (hr : ring[i]? = some r)
    (hn : r.used = true → r.held = false → waived ≠ some r.dest → recOf r.dest true ring = none) :
    Orderly waived accepted (wipe i ring) where
  distinct := ho.distinct.set_free zero_used
  response := by
    intro d hw hheld
    rw [ho.recOf_wipe hr] at hheld ⊢
    split at hheld
    · exact absurd rfl hheld
    · obtain ⟨p, hp, hresp⟩ := ho.response d hw hheld
      rw [if_neg, hp]
      · exact ⟨p, rfl, hresp⟩
      · rintro ⟨hu, hk⟩
        obtain ⟨rfl, hh⟩ := Prod.mk.inj hk
        exact hheld (hn hu hh hw)
  current := by
    intro d held r' hr'
    rw [ho.recOf_wipe hr] at hr'
    split at hr'
    · cases hr'
    · exact ho.current d held r' hr'

section Store

variable (ho : Orderly waived accepted ring) (hr : ring[i]? = some r) (hfree : r.used = false) (hb : b.used = true)
  (hnone : recOf b.dest b.held ring = none) (hnth : b.nth = accepted b.dest)
include ho hr hfree hb hnone

theorem Orderly.set_distinct : Slots.Distinct AnnounceRec.used AnnounceRec.key (ring.set i b) :=
  ho.distinct.set_new (Slots.lookup_eq_none.1 hnone)

theorem Orderly.recOf_set :
    recOf d held (ring.set i b) = if b.key = (d, held) then some b else recOf d held ring := by
  have hset := ho.distinct.lookup_set (k := (d, held)) (ho.set_distinct hr hfree hb hnone) hr
  simpa [recOf, hfree, hb] using hset

include hnth

theorem Orderly.set_current (d : Hash) (held : Bool) (r' : AnnounceRec)
    (hr' : recOf d held (ring.set i b) = some r') : r'.nth = accepted d := by
  rw [ho.recOf_set hr hfree hb hnone] at hr'
  split at hr'
  · next hk =>
    obtain ⟨rfl, -⟩ := Prod.mk.inj hk
    cases hr'
    exact hnth
  · exact ho.current d held r' hr'

/-- A record may be stored where a response is needed only if it is one. -/
theorem Orderly.store (hheld : b.held = false) (hw : ∀ d, waived = some d → d = b.dest)
    (hresp : recOf b.dest true ring ≠ none → b.responds) : Orderly none accepted (ring.set i b) where
  distinct := ho.set_distinct hr hfree hb hnone
  current := ho.set_current hr hfree hb hnone hnth
  response := by
    intro d _ hd
    have hkey : b.key ≠ (d, true) := fun hk => by simpa [hheld] using (Prod.mk.inj hk).2
    rw [ho.recOf_set hr hfree hb hnone, if_neg hkey] at hd
    rw [ho.recOf_set hr hfree hb hnone]
    by_cases hdb : d = b.dest
    · subst hdb
      rw [if_pos (by rw [AnnounceRec.key, hheld])]
      exact ⟨b, rfl, hresp hd⟩
    · have hne : b.key ≠ (d, false) := fun hk => hdb (Prod.mk.inj hk).1.symm
      rw [if_neg hne]
      exact ho.response d (fun hwd => hdb (hw d hwd)) hd

/-- Held back, a record waits for a response that is not there yet. -/
theorem Orderly.store_held (hheld : b.held = true) (hw : waived = none) :
    Orderly (some b.dest) accepted (ring.set i b) where
  distinct := ho.set_distinct hr hfree hb hnone
  current := ho.set_current hr hfree hb hnone hnth
  response := by
    intro d hd hrec
    have hne : ∀ held, b.key ≠ (d, held) := fun held hk => hd (by rw [(Prod.mk.inj hk).1])
    rw [ho.recOf_set hr hfree hb hnone, if_neg (hne true)] at hrec
    rw [ho.recOf_set hr hfree hb hnone, if_neg (hne false)]
    exact ho.response d (by simp [hw]) hrec

end Store

theorem wipe_set (i : Nat) (b : AnnounceRec) (ring : Ring) : (wipe i ring).set i b = ring.set i b :=
  List.set_set ..

theorem wipe_getElem? (hr : ring[i]? = some r) : (wipe i ring)[i]? = some AnnounceRec.zero := by
  rw [wipe, List.getElem?_set_self (List.getElem?_eq_some_iff.1 hr).1]

theorem modify_eq_set (f : AnnounceRec → AnnounceRec) (hr : ring[i]? = some r) : ring.modify i f = ring.set i (f r) := by
  obtain ⟨hi, rfl⟩ := List.getElem?_eq_some_iff.1 hr
  rw [List.modify_eq_set_getElem?, List.getElem?_eq_getElem hi]
  rfl

theorem Orderly.recOf_wiped (ho : Orderly waived accepted ring) (hr : ring[i]? = some r) (hu : r.used = true) :
    recOf r.dest r.held (AnnounceTable.wipe i ring) = none := by
  rw [ho.recOf_wipe hr, if_pos ⟨hu, rfl⟩]

/-- What wiping one record of a destination leaves of the other. -/
theorem Orderly.recOf_kept (ho : Orderly waived accepted ring) (hr : ring[i]? = some r) (held : Bool)
    (hh : r.held ≠ held) : recOf d held (AnnounceTable.wipe i ring) = recOf d held ring := by
  rw [ho.recOf_wipe hr, if_neg]
  rintro ⟨-, hk⟩
  exact hh (Prod.mk.inj hk).2

/-- Nor does what is written where nothing was held. -/
theorem Orderly.recOf_held (ho : Orderly waived accepted ring)
    (hd : Slots.Distinct AnnounceRec.used AnnounceRec.key (ring.set i b)) (hr : ring[i]? = some r)
    (hh : r.held = false) (hheld : b.held = false) : recOf d true (ring.set i b) = recOf d true ring := by
  have hset := ho.distinct.lookup_set (k := (d, true)) hd hr
  simpa [recOf, AnnounceRec.key, hh, hheld] using hset

/-- A record that is not held is overwritten by one of the same announce. -/
theorem Orderly.replace (ho : Orderly none accepted ring) (hr : ring[i]? = some q) (hu : q.used = true)
    (hh : q.held = false) (hb : b.used = true) (hdest : b.dest = q.dest) (hheld : b.held = false)
    (hnth : b.nth = q.nth) (hresp : recOf q.dest true ring ≠ none → q.responds → b.responds) :
    Orderly none accepted (ring.set i b) := by
  have hq := ho.recOf_at hr hu
  have hwiped := (ho.waive q.dest).wipe hr fun _ _ hw => absurd rfl hw
  rw [← wipe_set]
  refine hwiped.store (wipe_getElem? hr) zero_used hb ?_ ?_ hheld (fun d hd => ?_) fun hwait => ?_
  · rw [hdest, hheld, ← hh]
    exact ho.recOf_wiped hr hu
  · rw [hnth, hdest]
    exact ho.current _ _ q hq
  · rw [hdest]
    exact (Option.some.inj hd).symm
  · rw [hdest, ho.recOf_kept hr true (by simp [hh])] at hwait
    obtain ⟨p, hp, hrespond⟩ := ho.response q.dest nofun hwait
    rw [hh, hp] at hq
    cases hq
    exact hresp hwait hrespond

/-- Once its response is gone, a held record can be released. -/
theorem Orderly.unhold (ho : Orderly (some dest) accepted ring) (hnone : recOf dest false ring = none) :
    Orderly none accepted (unhold dest ring) ∧ recOf dest true (unhold dest ring) = none := by
  unfold AnnounceTable.unhold
  split
  · next hf =>
    have hheld := announceFind_eq_none.1 hf
    refine ⟨⟨ho.distinct, fun d _ hd => ho.response d ?_ hd, ho.current⟩, hheld⟩
    rintro ⟨⟩
    exact hd hheld
  · next j hf =>
    obtain ⟨r, hr, hrec, hu, rfl, hh⟩ := announceFind_eq_some hf
    have hwiped := ho.wipe hr fun _ hno => absurd hno (by simp [hh])
    have hfree : recOf r.dest false (AnnounceTable.wipe j ring) = none := by
      rw [ho.recOf_kept hr false (by simp [hh]), hnone]
    have hgone : recOf r.dest true (AnnounceTable.wipe j ring) = none := by
      rw [← hh]
      exact ho.recOf_wiped hr hu
    rw [modify_eq_set _ hr, ← wipe_set]
    refine ⟨hwiped.store (wipe_getElem? hr) zero_used hu hfree (ho.current _ _ r hrec) rfl
      (fun d hd => (Option.some.inj hd).symm) fun hwait => absurd hgone hwait, ?_⟩
    rw [hwiped.recOf_set (wipe_getElem? hr) zero_used (b := { r with held := false }) hu hfree, if_neg (by simp [AnnounceRec.key])]
    exact hgone

theorem Orderly.emit (ho : Orderly none accepted ring) (hr : ring[i]? = some r) (hu : r.used = true)
    (hh : r.held = false) :
    Orderly none accepted (announceRecEmit now i ring) ∧ recOf r.dest true (announceRecEmit now i ring) = none := by
  have hq := ho.recOf_at hr hu
  simp only [announceRecEmit, hr]
  split
  · have hwiped := (ho.waive r.dest).wipe hr fun _ _ hw => absurd rfl hw
    refine hwiped.unhold ?_
    rw [← hh]
    exact ho.recOf_wiped hr hu
  · next hf =>
    have hnone := announceFind_eq_none.1 hf
    have hnew := ho.replace hr hu hh (b := { r with
      retransmitAt := now + PATHFINDER_G + PATHFINDER_RW, retries := r.retries + 1 })
      hu rfl hh rfl fun hwait => absurd hnone hwait
    refine ⟨hnew, ?_⟩
    rw [ho.recOf_held hnew.distinct hr hh hh]
    exact hnone

-- ---------------------------------------------------------------------------
-- What a step must spare
-- ---------------------------------------------------------------------------

/-- A response something is held back for. -/
def needed (ring : Ring) (r : AnnounceRec) : Bool := !r.held && (recOf r.dest true ring).isSome

/-- An eviction does not hit a response something is held back for. -/
def sparesOldest (ring : Ring) : Bool := ((oldest ring).bind (ring[·]?)).all (!needed ring ·)

def sparesAlloc (ring : Ring) : Bool := (Slots.free AnnounceRec.used ring).isSome || sparesOldest ring

def sparesDrops : Nat → Ring → Bool
  | 0, _ => true
  | n + 1, ring => sparesOldest ring && (oldest ring).all fun i => sparesDrops n (wipe i ring)

def sparesCull (maxsize : Nat) (ring : Ring) : Bool := sparesDrops (ring.countP AnnounceRec.used - maxsize) ring

/-- The step does not take a response away from under the announce it is to
release: no announce of the destination is accepted in between, no rebroadcast
heard makes the response superfluous, and it is not evicted or culled. -/
def Careful (t : Table) : Op → Prop
  | .answerHeard _ | .jobs .. | .timers _ | .resize _ => True
  | .repeatHeard h =>
    h.transported && h.transportEnabled && (recOf h.dest false t.ring).any (AnnounceRec.passedOn h) →
      recOf h.dest true t.ring = none
  | .accept e =>
    recOf e.dest true t.ring = none ∧
      (recOf e.dest false t.ring = none → sparesAlloc t.ring) ∧ sparesCull t.maxsize (acceptStored e t)
  | .answer e => sparesAlloc (hold e.dest t.ring) ∧ sparesCull t.maxsize (answerStored e t)

instance : ∀ (t : Table) (op : Op), Decidable (Careful t op)
  | _, .answerHeard _ | _, .jobs .. | _, .timers _ | _, .resize _ => .isTrue trivial
  | t, .repeatHeard h => inferInstanceAs (Decidable (_ → recOf h.dest true t.ring = none))
  | t, .accept e => inferInstanceAs (Decidable (recOf e.dest true t.ring = none ∧ (_ → _) ∧ _))
  | t, .answer e => inferInstanceAs (Decidable (_ ∧ _))

theorem Orderly.drop (ho : Orderly waived accepted ring) (hs : sparesOldest ring) (hi : oldest ring = some i) :
    Orderly waived accepted (AnnounceTable.wipe i ring) := by
  obtain ⟨r, hr, -⟩ := Slots.victim_eq_some hi
  refine ho.wipe hr fun _ hh _ => ?_
  simpa [sparesOldest, hi, hr, needed, hh] using hs

theorem Orderly.drops {n : Nat} (ho : Orderly waived accepted ring) (hs : sparesDrops n ring) :
    Orderly waived accepted (dropOldest n ring) := by
  induction n generalizing ring with
  | zero => exact ho
  | succ n ih =>
    rw [sparesDrops, Bool.and_eq_true] at hs
    rw [dropOldest]
    cases hi : oldest ring with
    | none => exact ho
    | some i =>
      rw [hi, Option.all_some] at hs
      exact ih (ho.drop hs.1 hi) hs.2

theorem Orderly.cull (ho : Orderly waived accepted ring) (hs : sparesCull maxsize ring) :
    Orderly waived accepted (cullAnnounceTable maxsize ring) := ho.drops hs

/-- A slot that was allocated is free, and no record has come of it. -/
theorem Orderly.alloc (ho : Orderly waived accepted ring) (hs : sparesAlloc ring) :
    Orderly waived accepted (announceAlloc ring).1 ∧
      (∀ i, (announceAlloc ring).2 = some i → ∃ r, (announceAlloc ring).1[i]? = some r ∧ r.used = false) ∧
      ((announceAlloc ring).2 = none → (announceAlloc ring).1 = []) ∧
      ∀ d held, recOf d held ring = none → recOf d held (announceAlloc ring).1 = none := by
  unfold announceAlloc
  cases hf : Slots.free AnnounceRec.used ring with
  | some i =>
    obtain ⟨r, hr, hu⟩ := Slots.free_eq_some hf
    refine ⟨ho, ?_, nofun, fun _ _ h => h⟩
    rintro _ ⟨⟩
    exact ⟨r, hr, hu⟩
  | none =>
    have hold : sparesOldest ring := by simpa [sparesAlloc, hf] using hs
    cases hi : oldest ring with
    | none =>
      refine ⟨ho, nofun, fun _ => ?_, fun _ _ h => h⟩
      rw [List.eq_nil_iff_forall_not_mem]
      intro r hr
      have hused := Slots.free_eq_none.1 hf r hr
      simp [Slots.victim_eq_none.1 hi r hr] at hused
    | some i =>
      obtain ⟨r, hr, -⟩ := Slots.victim_eq_some hi
      refine ⟨ho.drop hold hi, ?_, nofun, fun d held hnone => ?_⟩
      · rintro _ ⟨⟩
        exact ⟨_, wipe_getElem? hr, zero_used⟩
      · rw [ho.recOf_wipe hr, hnone]
        exact ite_self none

/-- Stored where `announce_alloc` says. -/
theorem Orderly.store_alloc (ho : Orderly waived accepted ring) (hs : sparesAlloc ring) (hb : b.used = true)
    (hheld : b.held = false) (hnone : recOf b.dest false ring = none) (hnth : b.nth = accepted b.dest)
    (hw : ∀ d, waived = some d → d = b.dest) (hresp : b.block = true → b.responds)
    (hwait : b.block = false → recOf b.dest true ring = none) :
    Orderly none accepted (announceStore (announceAlloc ring).2 b (announceAlloc ring).1) := by
  obtain ⟨ha, hslot, hempty, hkeep⟩ := ho.alloc hs
  cases hi : (announceAlloc ring).2 with
  | none =>
    rw [announceStore, hempty hi]
    exact ⟨fun i j a c h => absurd h (by simp), fun d _ h => absurd rfl h, fun d held r h => absurd h nofun⟩
  | some i =>
    obtain ⟨r, hr, hu⟩ := hslot i hi
    refine ha.store hr hu hb (by rw [hheld]; exact hkeep _ _ hnone) hnth hheld hw fun hneed => ?_
    cases hblock : b.block with
    | true => exact hresp hblock
    | false => exact absurd (hkeep _ _ (hwait hblock)) hneed

-- ---------------------------------------------------------------------------
-- Each operation
-- ---------------------------------------------------------------------------

theorem Orderly.recount (ho : Orderly waived accepted ring) (n : Nat) (hnone : ∀ held, recOf d held ring = none) :
    Orderly waived (Function.update accepted d n) ring := by
  refine ⟨ho.distinct, ho.response, fun d' held r hr => ?_⟩
  rw [Function.update_of_ne, ho.current d' held r hr]
  rintro rfl
  simp [hnone held] at hr

theorem Orderly.accept (ho : Orderly none t.accepted t.ring) (hc : Careful t (.accept e)) :
    Orderly none (AnnounceTable.accept e t).accepted (AnnounceTable.accept e t).ring := by
  obtain ⟨hheld, halloc, hcull⟩ := hc
  refine Orderly.cull ?_ hcull
  have hnth : t.accepted e.dest + 1 = Function.update t.accepted e.dest (t.accepted e.dest + 1) e.dest := by
    rw [Function.update_self]
  rw [acceptStored, slotFor]
  cases hf : announceFind e.dest false t.ring with
  | some i =>
    obtain ⟨r, hr, -, hu, hd, hh⟩ := announceFind_eq_some hf
    rw [← hd] at hheld
    have hwiped := ho.wipe hr fun _ _ _ => hheld
    have hgone := ho.recOf_wiped hr hu
    have hnone : ∀ held, recOf e.dest held (AnnounceTable.wipe i t.ring) = none := by
      rw [← hd, Bool.forall_bool]
      refine ⟨by rwa [hh] at hgone, ?_⟩
      rw [ho.recOf_kept hr true (by simp [hh]), hheld]
    have hcounted := hwiped.recount (t.accepted e.dest + 1) hnone
    have hstored := hcounted.store (b := e.record false (t.accepted e.dest + 1)) (wipe_getElem? hr) zero_used rfl
      (hnone false) hnth rfl nofun fun hneed => absurd (hnone true) hneed
    rwa [wipe_set] at hstored
  | none =>
    have hnone := announceFind_eq_none.1 hf
    have hboth : ∀ held, recOf e.dest held t.ring = none := by
      rw [Bool.forall_bool]
      exact ⟨hnone, hheld⟩
    exact (ho.recount _ hboth).store_alloc (halloc hnone) rfl rfl hnone hnth nofun nofun fun _ => hheld

theorem Orderly.dropStale (ho : Orderly none accepted ring) (dest : Hash) (hr : ring[i]? = some r) (hh : r.held = false) :
    Orderly none accepted (AnnounceTable.dropStale dest ring) ∧ (AnnounceTable.dropStale dest ring)[i]? = some r ∧
      recOf dest true (AnnounceTable.dropStale dest ring) = none := by
  unfold AnnounceTable.dropStale
  cases hf : announceFind dest true ring with
  | none => exact ⟨ho, hr, announceFind_eq_none.1 hf⟩
  | some j =>
    obtain ⟨s, hs, -, hu, rfl, hheld⟩ := announceFind_eq_some hf
    have hne : j ≠ i := by
      rintro rfl
      cases hs.symm.trans hr
      simp [hh] at hheld
    have hgone := ho.recOf_wiped hs hu
    rw [hheld] at hgone
    exact ⟨ho.wipe hs fun _ hno => absurd hno (by simp [hheld]), (List.getElem?_set_ne hne).trans hr, hgone⟩

/-- After `hold` the destination has no record but what is held. -/
theorem Orderly.hold (ho : Orderly none accepted ring) (dest : Hash) :
    Orderly (some dest) accepted (AnnounceTable.hold dest ring) ∧
      recOf dest false (AnnounceTable.hold dest ring) = none := by
  unfold AnnounceTable.hold
  cases hf : announceFind dest false ring with
  | none => exact ⟨ho.waive dest, announceFind_eq_none.1 hf⟩
  | some i =>
    obtain ⟨r, hr, -, hu, rfl, hh⟩ := announceFind_eq_some hf
    obtain ⟨ho', hr', hnone⟩ := ho.dropStale r.dest hr hh
    simp only
    have hrec := ho'.recOf_at hr' hu
    have hwiped := ho'.wipe hr' fun _ _ _ => hnone
    have hfree : recOf r.dest true (AnnounceTable.wipe i (AnnounceTable.dropStale r.dest ring)) = none := by
      rw [ho'.recOf_kept hr' true (by simp [hh]), hnone]
    rw [modify_eq_set _ hr', ← wipe_set]
    refine ⟨hwiped.store_held (b := { r with held := true }) (wipe_getElem? hr') zero_used hu hfree (ho'.current _ _ r hrec) rfl rfl, ?_⟩
    have hgone := ho'.recOf_wiped hr' hu
    rw [hh] at hgone
    rw [hwiped.recOf_set (b := { r with held := true }) (wipe_getElem? hr') zero_used hu hfree,
      if_neg (by simp [AnnounceRec.key])]
    exact hgone

theorem Orderly.answer (ho : Orderly none t.accepted t.ring) (hc : Careful t (.answer e)) :
    Orderly none (AnnounceTable.answer e t).accepted (AnnounceTable.answer e t).ring := by
  obtain ⟨halloc, hcull⟩ := hc
  obtain ⟨hheld, hnone⟩ := ho.hold e.dest
  refine Orderly.cull ?_ hcull
  exact hheld.store_alloc halloc rfl rfl hnone rfl (fun d hd => (Option.some.inj hd).symm) (fun _ => ⟨rfl, rfl⟩) nofun

theorem Orderly.dropAnswered (ho : Orderly none accepted ring) (h : Heard) :
    Orderly none accepted (AnnounceTable.dropAnswered h ring) := by
  unfold AnnounceTable.dropAnswered
  split
  · exact ho
  · next i hf =>
    split
    · obtain ⟨r, hr, -, hu, hd, hh⟩ := announceFind_eq_some hf
      have hgone := ho.recOf_wiped hr hu
      rw [hd, hh] at hgone
      refine Orderly.unhold (Orderly.wipe (ho.waive h.dest) hr fun _ _ hw => absurd ?_ hw) hgone |>.1
      rw [hd]
    · exact ho

theorem Orderly.dropRepeated (ho : Orderly none accepted ring)
    (hc : h.transported && h.transportEnabled && (recOf h.dest false ring).any (AnnounceRec.passedOn h) →
      recOf h.dest true ring = none) : Orderly none accepted (AnnounceTable.dropRepeated h ring) := by
  unfold AnnounceTable.dropRepeated
  split
  · next ht =>
    split
    · exact ho
    · next i hf =>
      obtain ⟨r, hr, hrec, hu, hd, hh⟩ := announceFind_eq_some hf
      rw [hr, Option.any_some]
      rw [ht, hrec, Option.any_some, Bool.true_and] at hc
      split
      · next hp =>
        refine ho.wipe hr fun _ _ _ => ?_
        rw [hd]
        exact hc hp
      · rw [modify_eq_set _ hr]
        unfold AnnounceRec.heardAgain
        split
        · exact ho.replace hr hu hh hu rfl hh rfl fun _ hresp => hresp
        · exact ho.replace hr hu hh hu rfl hh rfl fun _ hresp => hresp
  · exact ho

-- ---------------------------------------------------------------------------
-- Passes
-- ---------------------------------------------------------------------------

/-- A pass keeps the table orderly, and sends no record that was overtaken. -/
structure Newest (accepted : Hash → Nat) (s : Pass) : Prop where
  orderly : Orderly none accepted s.ring
  newest : ∀ r ∈ s.outgoing, r.nth = accepted r.dest

theorem AnnounceRec.timed_spec (ht : r.timed = true) : r.used = true ∧ r.held = false := by
  simp only [AnnounceRec.timed, Bool.and_eq_true, Bool.not_eq_true'] at ht
  exact ht.1

theorem Newest.emit {s : Pass} (hs : Newest accepted s) (hr : s.ring[i]? = some r) (hu : r.used = true)
    (hh : r.held = false) : Newest accepted ⟨announceRecEmit now i s.ring, s.outgoing ++ [r]⟩ where
  orderly := (hs.orderly.emit hr hu hh).1
  newest := by
    intro r' hr'
    obtain hr' | rfl := by simpa using hr'
    · exact hs.newest r' hr'
    · exact hs.orderly.current _ _ _ (hs.orderly.recOf_at hr hu)

theorem Newest.timerSlot {s : Pass} (hs : Newest accepted s) (i : Nat) : Newest accepted (timerSlot now s i) := by
  unfold AnnounceTable.timerSlot
  split
  · exact hs
  · next r hr =>
    split
    · next ht =>
      rw [Bool.and_eq_true] at ht
      obtain ⟨hu, hh⟩ := AnnounceRec.timed_spec ht.1
      exact hs.emit hr hu hh
    · exact hs

theorem Newest.timers (ho : Orderly none accepted ring) : Newest accepted (timers now ring) :=
  Runs.invariant (fun _ i hs => hs.timerSlot i) ⟨ho, by simp⟩

theorem AnnounceRec.responds.not_retired (hp : p.responds) : p.retired = false := by
  simp [AnnounceRec.retired, hp.2, PATHFINDER_R, LOCAL_REBROADCASTS_MAX]

theorem Newest.walkSlot {w : Walk} (hw : Newest accepted w.toPass) (k : Nat) :
    Newest accepted (walkSlot now w k).toPass := by
  unfold AnnounceTable.walkSlot
  split
  · exact hw
  · simp only
    split
    · exact hw
    · next r hr =>
      split
      · exact hw
      · next hlive =>
        simp only [Bool.or_eq_true, Bool.not_eq_true', not_or, Bool.not_eq_false, Bool.not_eq_true] at hlive
        obtain ⟨hu, hh⟩ := hlive
        split
        · next hret =>
          refine ⟨hw.orderly.wipe hr fun _ _ _ => ?_, hw.newest⟩
          -- a response still to be sent is not retired
          by_contra hwait
          obtain ⟨p, hp, hresp⟩ := hw.orderly.response r.dest nofun hwait
          have hrec := hw.orderly.recOf_at hr hu
          rw [hh, hp] at hrec
          cases hrec
          simp [hresp.not_retired] at hret
        · split
          · exact hw
          · exact hw.emit hr hu hh

theorem Newest.walk (ho : Orderly none accepted ring) (cursor : Nat) :
    Newest accepted (walk now cursor ring).toPass := by
  have hstep : ∀ (w : Walk) k, Newest accepted w.toPass → Newest accepted (AnnounceTable.walkSlot now w k).toPass :=
    fun _ k hw => hw.walkSlot k
  exact Runs.invariant hstep ⟨ho, by simp⟩

theorem orderly_unused (hu : ∀ r ∈ ring, r.used = false) : Orderly none accepted ring := by
  have hnone : ∀ d held, recOf d held ring = none := by
    intro d held
    refine Slots.lookup_eq_none.2 (Slots.find_eq_none.2 fun r hr hused => ?_)
    simp [hu r hr] at hused
  refine ⟨fun i j a b ha _ hua => ?_, fun d _ hd => absurd (hnone d true) hd, fun d held r hr => ?_⟩
  · simp [hu a (List.mem_of_getElem? ha)] at hua
  · simp [hnone] at hr

-- ---------------------------------------------------------------------------
-- Release
-- ---------------------------------------------------------------------------

/-- The record is no longer held back. -/
def Released (dest : Hash) (r : AnnounceRec) (ring : Ring) : Prop :=
  recOf dest true ring = none ∧ ∃ b, recOf dest false ring = some b ∧ b.data = r.data ∧ b.nth = r.nth

theorem recOf_unhold (ho : Orderly (some dest) accepted ring) (hnone : recOf dest false ring = none)
    (hr : recOf dest true ring = some r) : recOf dest false (unhold dest ring) = some { r with held := false } := by
  obtain ⟨j, hf, hj⟩ := Slots.lookup_eq_some.1 hr
  obtain ⟨r', hr', -, hu, rfl, hh⟩ := announceFind_eq_some hf
  cases hj.symm.trans hr'
  have hwiped := ho.wipe hj fun _ hno => absurd hno (by simp [hh])
  have hfree : recOf r.dest false (wipe j ring) = none := by rw [ho.recOf_kept hj false (by simp [hh]), hnone]
  have hfind : announceFind r.dest true ring = some j := hf
  rw [unhold, hfind]
  simp only
  rw [modify_eq_set _ hj, ← wipe_set]
  rw [hwiped.recOf_set (b := { r with held := false }) (wipe_getElem? hj) zero_used hu hfree]
  exact if_pos rfl

theorem unhold_getElem? (hr : ring[i]? = some r) (hh : r.held = false) : (unhold dest ring)[i]? = some r := by
  unfold unhold
  split
  · exact hr
  · next j hf =>
    obtain ⟨h, hj, -, -, -, hheld⟩ := announceFind_eq_some hf
    rw [List.getElem?_modify_ne, hr]
    rintro rfl
    cases hr.symm.trans hj
    simp [hh] at hheld

theorem emit_getElem? (hne : j ≠ i) (hr : ring[j]? = some p) (hh : p.held = false) :
    (announceRecEmit now i ring)[j]? = some p := by
  unfold announceRecEmit
  split
  · exact hr
  · split
    · refine unhold_getElem? ?_ hh
      exact (List.getElem?_set_ne (Ne.symm hne)).trans hr
    · exact (List.getElem?_set_ne (Ne.symm hne)).trans hr

theorem Orderly.recOf_unhold_other (ho : Orderly waived accepted ring) (hd : d ≠ dest) :
    recOf d held (AnnounceTable.unhold dest ring) = recOf d held ring := by
  unfold AnnounceTable.unhold
  split
  · rfl
  · next j hf =>
    obtain ⟨r, hr, -, hu, rfl, -⟩ := announceFind_eq_some hf
    rw [modify_eq_set _ hr]
    refine Slots.lookup_set_other (fun a ha hak => ?_) fun hb => hd (Prod.mk.inj hb.2).1.symm
    cases hr.symm.trans ha
    exact hd (Prod.mk.inj hak.2).1.symm

theorem Orderly.recOf_emit_other (ho : Orderly none accepted ring) (hr : ring[i]? = some r) (hd : d ≠ r.dest) :
    recOf d held (announceRecEmit now i ring) = recOf d held ring := by
  have hkey : r.key ≠ (d, held) := fun hk => hd (Prod.mk.inj hk).1.symm
  simp only [announceRecEmit, hr]
  split
  · rw [Orderly.recOf_unhold_other (Orderly.wipe (ho.waive r.dest) hr fun _ _ hw => absurd rfl hw) hd,
      ho.recOf_wipe hr, if_neg fun hk => hkey hk.2]
  · refine Slots.lookup_set_other (fun a ha hak => ?_) fun hb => hkey hb.2
    cases hr.symm.trans ha
    exact hkey hak.2

/-- The response's emission releases what waits for it. -/
theorem Orderly.emit_releases (ho : Orderly none accepted ring) (hp : ring[i]? = some p) (hu : p.used = true)
    (hh : p.held = false) (hr : recOf p.dest true ring = some r) :
    Released p.dest r (announceRecEmit now i ring) := by
  refine ⟨(ho.emit hp hu hh).2, ?_⟩
  have hwiped := Orderly.wipe (ho.waive p.dest) hp fun _ _ hw => absurd rfl hw
  have hgone := ho.recOf_wiped hp hu
  rw [hh] at hgone
  have hwait : recOf p.dest true (AnnounceTable.wipe i ring) = some r := by
    rw [ho.recOf_kept hp true (by simp [hh]), hr]
  simp only [announceRecEmit, hp]
  obtain ⟨j, hf, -⟩ := Slots.lookup_eq_some.1 hr
  have hfind : announceFind p.dest true ring = some j := hf
  rw [hfind]
  exact ⟨_, recOf_unhold hwiped hgone hwait, rfl, rfl⟩

/-- What has been released stays so through the rest of a pass. -/
theorem Released.timerSlot {s : Pass} (hs : Newest accepted s) (hrel : Released d r s.ring) (i : Nat) :
    Released d r (timerSlot now s i).ring := by
  unfold AnnounceTable.timerSlot
  split
  · exact hrel
  · next q hq =>
    split
    · next ht =>
      rw [Bool.and_eq_true] at ht
      obtain ⟨hu, hh⟩ := AnnounceRec.timed_spec ht.1
      obtain ⟨hnone, b, hb, hdata, hnth⟩ := hrel
      by_cases hd : d = q.dest
      · subst hd
        have hrec := hs.orderly.recOf_at hq hu
        rw [hh, hb] at hrec
        cases hrec
        refine ⟨(hs.orderly.emit hq hu hh).2, ?_⟩
        have hset : Slots.Distinct AnnounceRec.used AnnounceRec.key (announceRecEmit now i s.ring) :=
          (hs.orderly.emit hq hu hh).1.distinct
        simp only [announceRecEmit, hq, announceFind_eq_none.2 hnone] at hset ⊢
        have hi := (List.getElem?_eq_some_iff.1 hq).1
        exact ⟨_, hset.lookup_eq_some.2 ⟨i, List.getElem?_set_self hi, hu, by rw [AnnounceRec.key, hh]⟩, hdata, hnth⟩
      · refine ⟨?_, b, ?_, hdata, hnth⟩
        · rw [hs.orderly.recOf_emit_other hq hd, hnone]
        · rw [hs.orderly.recOf_emit_other hq hd, hb]
    · exact hrel

/-- Before its slot comes up, a pass leaves a response and what waits for it alone. -/
theorem timers_before (now : Nat) {l : List Nat} (hl : i ∉ l) {s : Pass} (hs : Newest accepted s) (hp : s.ring[i]? = some p)
    (hu : p.used = true) (hh : p.held = false) (hr : recOf p.dest true s.ring = some r) :
    let s' := run (timerSlot now) s l
    Newest accepted s' ∧ s'.ring[i]? = some p ∧ recOf p.dest true s'.ring = some r := by
  induction l generalizing s with
  | nil => exact ⟨hs, hp, hr⟩
  | cons k l ih =>
    obtain ⟨hik, hl⟩ := not_or.1 (mt List.mem_cons.2 hl)
    have hstep : (timerSlot now s k).ring[i]? = some p ∧ recOf p.dest true (timerSlot now s k).ring = some r := by
      unfold timerSlot
      split
      · exact ⟨hp, hr⟩
      · next q hq =>
        split
        · next ht =>
          rw [Bool.and_eq_true] at ht
          obtain ⟨huq, hhq⟩ := AnnounceRec.timed_spec ht.1
          have hd : p.dest ≠ q.dest := by
            intro hd
            have hkey : p.key = q.key := by rw [AnnounceRec.key, AnnounceRec.key, hd, hh, hhq]
            exact hik (hs.orderly.distinct i k p q hp hq hu huq hkey)
          refine ⟨emit_getElem? hik hp hh, ?_⟩
          rw [hs.orderly.recOf_emit_other hq hd, hr]
        · exact ⟨hp, hr⟩
    exact ih hl (hs.timerSlot k) hstep.1 hstep.2

/-- The first pass after a response is due releases what waits for it. -/
theorem timers_release (ho : Orderly none accepted ring) (hp : recOf dest false ring = some p)
    (hresp : p.responds) (hr : recOf dest true ring = some r) (hdue : p.retransmitAt < now) :
    Released dest r (timers now ring).ring := by
  obtain ⟨i, hi, hu, hk⟩ := ho.distinct.lookup_eq_some.1 hp
  obtain ⟨rfl, hh⟩ := Prod.mk.inj hk
  have hlt := (List.getElem?_eq_some_iff.1 hi).1
  have hsplit : List.range ring.length = List.range i ++ i :: (List.range' (i + 1) (ring.length - i - 1)) := by
    rw [List.range_eq_range', List.range_eq_range', ← List.range'_succ]
    have happend := List.range'_append_1 (s := 0) (m := i) (n := ring.length - i - 1 + 1)
    rw [Nat.zero_add] at happend
    rw [happend]
    congr 1
    omega
  have hstart : Newest accepted ⟨ring, []⟩ := ⟨ho, by simp⟩
  have hbefore := timers_before now (List.not_mem_range_self) hstart hi hu hh hr
  have htimers : timers now ring = run (timerSlot now) ⟨ring, []⟩ (List.range ring.length) := rfl
  rw [htimers, hsplit, run_append, run_cons]
  obtain ⟨hs, hslot, hwait⟩ := hbefore
  generalize run (timerSlot now) ⟨ring, []⟩ (List.range i) = s at hs hslot hwait ⊢
  have htimed : p.timed = true := by
    simp [AnnounceRec.timed, hu, hh, hresp.1, hresp.2, PATHFINDER_R, LOCAL_REBROADCASTS_MAX]
  have hemit : timerSlot now s i = ⟨announceRecEmit now i s.ring, s.outgoing ++ [p]⟩ := by
    simp [timerSlot, hslot, htimed, hdue]
  have hrel : Newest accepted (timerSlot now s i) ∧ Released p.dest r (timerSlot now s i).ring :=
    ⟨hs.timerSlot i, by rw [hemit]; exact hs.orderly.emit_releases hslot hu hh hwait⟩
  have hkept : ∀ s k, Newest accepted s ∧ Released p.dest r s.ring →
      Newest accepted (timerSlot now s k) ∧ Released p.dest r (timerSlot now s k).ring :=
    fun s k h => ⟨h.1.timerSlot k, h.2.timerSlot h.1 k⟩
  exact (invariant hkept hrel).2

-- ---------------------------------------------------------------------------
-- Runs
-- ---------------------------------------------------------------------------

/-- One record of a kind for each destination; a held one has a response that is
still to be sent, and that releases it once it is; and nothing was sent of a
destination that had announced itself anew. -/
structure Kept (t : Table) : Prop where
  one : Slots.Distinct AnnounceRec.used AnnounceRec.key t.ring
  response : ∀ d r, recOf d true t.ring = some r →
    ∃ p, recOf d false t.ring = some p ∧ p.block = true ∧ p.retired = false ∧
      ∀ now, p.retransmitAt < now → Released d r (timers now t.ring).ring
  newest : ∀ x ∈ t.sent, x.1.nth = x.2

structure Inv (t : Table) : Prop where
  orderly : Orderly none t.accepted t.ring
  newest : ∀ x ∈ t.sent, x.1.nth = x.2

theorem Inv.kept (hi : Inv t) : Kept t where
  one := hi.orderly.distinct
  newest := hi.newest
  response := by
    intro d r hr
    obtain ⟨p, hp, hresp⟩ := hi.orderly.response d nofun (by simp [hr])
    exact ⟨p, hp, hresp.1, hresp.not_retired, fun now => timers_release hi.orderly hp hresp hr⟩

theorem Inv.log {s : Pass} (hi : Inv t) (hs : Newest t.accepted s) : ∀ x ∈ t.log s.outgoing, x.1.nth = x.2 := by
  intro x hx
  obtain hx | hx := List.mem_append.1 hx
  · exact hi.newest x hx
  · obtain ⟨r, hr, rfl⟩ := List.mem_map.1 hx
    exact hs.newest r hr

theorem Inv.step (t : Table) (op : Op) (hi : Inv t) (hc : Careful t op) : Inv (step t op) := by
  cases op with
  | answerHeard h => exact ⟨hi.orderly.dropAnswered h, hi.newest⟩
  | repeatHeard h => exact ⟨hi.orderly.dropRepeated hc, hi.newest⟩
  | accept e => exact ⟨hi.orderly.accept hc, hi.newest⟩
  | answer e => exact ⟨hi.orderly.answer hc, hi.newest⟩
  | jobs transportEnabled now =>
    cases transportEnabled with
    | false => exact ⟨orderly_unused (by simp [AnnounceTable.step, jobs, zero_used]), hi.newest⟩
    | true =>
      have hw : Newest t.accepted (walk now t.cursor t.ring).toPass := Newest.walk hi.orderly t.cursor
      exact ⟨hw.orderly, hi.log hw⟩
  | timers now =>
    have hs : Newest t.accepted (timers now t.ring) := Newest.timers hi.orderly
    exact ⟨hs.orderly, hi.log hs⟩
  | resize maxsize => exact ⟨hi.orderly, hi.newest⟩

theorem inv_started (slots maxsize : Nat) : Inv (started slots maxsize) :=
  ⟨orderly_unused fun r hr => by rw [List.eq_of_mem_replicate hr, zero_used], by simp [started]⟩

/-- In every run that takes no response away from under what it is to release,
nothing is held back for good, and nothing held back is sent too late. -/
theorem held_released (slots maxsize : Nat) (ops : List Op)
    (hops : Guarded step Careful (started slots maxsize) ops) :
    Throughout step Kept (started slots maxsize) ops :=
  (hops.throughout Inv.step (inv_started slots maxsize)).mono fun _ hi => hi.kept

-- ---------------------------------------------------------------------------
-- Three runs
-- ---------------------------------------------------------------------------

def place : Hash := .replicate 16 1

/-- Something to send for the place, half a second after it is stored. -/
def entry (now : Nat) : Entry :=
  { now, dest := place, retransmitAt := now + 500, retries := 0, hops := 1, attachedIface := none, radio := false,
    data := [UInt8.ofNat now] }

def relayed (now : Nat) : Heard :=
  { now, dest := place, hops := 2, pathResponse := false, iface := none, transported := true, transportEnabled := true }

/-- An announce is held back for a response, and released by it. -/
def served : List Op := [.accept (entry 10), .answer (entry 20), .timers 600, .jobs true 700]

theorem held_released_served : Throughout step Kept (started 4 4) served :=
  held_released 4 4 served (by decide +kernel)

/-- Two rebroadcasts are heard while the response waits. -/
def abandoned : List Op :=
  [.accept (entry 10), .answer (entry 20), .repeatHeard (relayed 30), .repeatHeard (relayed 40)]

/-- The place announces itself anew while the response waits. -/
def overtaken : List Op :=
  [.accept (entry 10), .answer (entry 20), .accept (entry 30), .jobs true 600, .jobs true 700]

/-- The rebroadcasts take the response away, and what it was to release stays
held; the new announce takes its place, and the old one is sent after it. -/
theorem held_for_good :
    (recOf place true (run step (started 4 4) abandoned).ring ≠ none ∧
      recOf place false (run step (started 4 4) abandoned).ring = none) ∧
    ((run step (started 4 4) overtaken).sent.map fun x => (x.1.data, x.1.nth, x.2)) =
      [([30], 2, 2), ([10], 1, 2)] ∧
    ¬ ∀ slots maxsize ops, Throughout step Kept (started slots maxsize) ops := by
  have hstranded : recOf place true (run step (started 4 4) abandoned).ring ≠ none ∧
      recOf place false (run step (started 4 4) abandoned).ring = none := by decide +kernel
  refine ⟨hstranded, by decide +kernel, fun h => ?_⟩
  obtain ⟨r, hr⟩ := Option.ne_none_iff_exists'.1 hstranded.1
  obtain ⟨p, hp, -⟩ := (h 4 4 abandoned).last.response place r hr
  simp [hstranded.2] at hp

end MicroReticulum.AnnounceTable
