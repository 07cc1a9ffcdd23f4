import MicroReticulum.Bytes
import MicroReticulum.Lib.Ring
import MicroReticulum.Lib.Runs
import MicroReticulum.Lib.Slots

/-!
# The guard pool

`rdirGuardFresh`: which announces this node has heard before. An entry is kept
by the first four bytes of the destination, with a ring of fingerprints, the
emission it holds and a run of suppressions. Emissions are compared by the sign
of a 32-bit difference.
-/

namespace MicroReticulum.Directory

open Lib

/-- `RDIR_G_RUN_LIMIT`: consecutive suppressions before reset. -/
def G_RUN_LIMIT : Nat := 2

structure GuardRec where
  dest4 : UInt32
  ring : Ring Bytes 4
  emitted : UInt32
  localAge : UInt16
  used : Bool
  run : Nat
  deriving DecidableEq

def GuardRec.zero : GuardRec :=
  { dest4 := 0, ring := .empty [0, 0, 0, 0] (by decide), emitted := 0, localAge := 0, used := false, run := 0 }

-- ---------------------------------------------------------------------------
-- One check
-- ---------------------------------------------------------------------------

def dest4Of (dest : Bytes) : UInt32 :=
  .ofNat ((dest.byte 0 <<< 24) ||| (dest.byte 1 <<< 16) ||| (dest.byte 2 <<< 8) ||| dest.byte 3)

/-- The first four bytes of the random blob. -/
def fingerprint (blob : Bytes) : Bytes := blob.left 4

/-- `(int32_t)(emitted - held)`. -/
def elapsed (emitted held : UInt32) : Int := (emitted - held).toInt32.toInt

/-- One call of `rdirGuardFresh`, at a minute of the local clock. -/
structure Check where
  dest : Bytes
  blob : Bytes
  emitted : UInt32
  bypass : Bool
  minutes : UInt16
  deriving DecidableEq, Repr

structure GuardAnswer where
  fresh : Bool
  novel : Bool
  deriving DecidableEq, Repr

/-- An entry that holds this announce and nothing else. -/
def Check.entry (c : Check) : GuardRec :=
  { GuardRec.zero with
    dest4 := dest4Of c.dest, used := true, emitted := c.emitted, localAge := c.minutes
    ring := GuardRec.zero.ring.push (fingerprint c.blob) }

def GuardRec.seen (g : GuardRec) (c : Check) : Bool := g.ring.has (fingerprint c.blob)

/-- `runSet`, into two bits. -/
def runSet (v : Nat) (g : GuardRec) : GuardRec := { g with run := v % 4 }

/-- A requested path response comes from a relay's cache: always fresh. -/
def bypassed (c : Check) (g : GuardRec) : GuardRec :=
  runSet 0 { g with
    ring := if g.seen c then g.ring else g.ring.push (fingerprint c.blob)
    emitted := if elapsed c.emitted g.emitted > 0 then c.emitted else g.emitted
    localAge := c.minutes }

/-- A check that finds the entry. -/
def GuardRec.check (c : Check) (g : GuardRec) : GuardRec × GuardAnswer :=
  let novel := !g.seen c && elapsed c.emitted g.emitted ≥ 0
  if c.bypass then (bypassed c g, ⟨true, novel⟩)
  else if g.seen c then (runSet 0 { g with localAge := c.minutes }, ⟨false, novel⟩)
  else if elapsed c.emitted g.emitted < 0 then
    let run := g.run + 1
    if G_RUN_LIMIT ≤ run then (c.entry, ⟨true, novel⟩)
    else ({ runSet run g with localAge := c.minutes }, ⟨false, novel⟩)
  else
    (runSet 0 { g with
      emitted := c.emitted, localAge := c.minutes, ring := g.ring.push (fingerprint c.blob) },
      ⟨true, novel⟩)

theorem GuardRec.check_novel (c : Check) (g : GuardRec) :
    (g.check c).2.novel = (!g.seen c && elapsed c.emitted g.emitted ≥ 0) := by
  unfold GuardRec.check
  simp only
  split_ifs <;> rfl

/-- What a check can do to the entry it finds, and whether it says fresh. -/
inductive Checked (c : Check) (g : GuardRec) : GuardRec → Bool → Prop
  | bypass (h : c.bypass = true) : Checked c g (bypassed c g) true
  | seen (hb : c.bypass = false) (h : g.seen c = true) :
    Checked c g (runSet 0 { g with localAge := c.minutes }) false
  | reset (hb : c.bypass = false) (hs : g.seen c = false) (he : elapsed c.emitted g.emitted < 0)
    (hr : G_RUN_LIMIT ≤ g.run + 1) : Checked c g c.entry true
  | suppressed (hb : c.bypass = false) (hs : g.seen c = false) (he : elapsed c.emitted g.emitted < 0)
    (hr : g.run = 0) : Checked c g { runSet 1 g with localAge := c.minutes } false
  | accepted (hb : c.bypass = false) (hs : g.seen c = false) (he : 0 ≤ elapsed c.emitted g.emitted) :
    Checked c g (runSet 0 { g with
      emitted := c.emitted, localAge := c.minutes, ring := g.ring.push (fingerprint c.blob) }) true

theorem GuardRec.checked (c : Check) (g : GuardRec) : Checked c g (g.check c).1 (g.check c).2.fresh := by
  unfold GuardRec.check
  simp only
  split
  · next hb => exact .bypass hb
  · next hb =>
    have hb := Bool.eq_false_iff.2 hb
    split
    · next hs => exact .seen hb hs
    · next hs =>
      have hs := Bool.eq_false_iff.2 hs
      split
      · next he =>
        split
        · next hr => exact .reset hb hs he hr
        · next hr =>
          have hrun : g.run = 0 := by
            simp only [G_RUN_LIMIT] at hr
            omega
          simp only [hrun, Nat.zero_add]
          exact .suppressed hb hs he hrun
      · next he => exact .accepted hb hs (not_lt.1 he)

-- ---------------------------------------------------------------------------
-- The pool
-- ---------------------------------------------------------------------------

def guardFind (dest4 : UInt32) (guards : List GuardRec) : Option Nat :=
  Slots.find GuardRec.used GuardRec.dest4 dest4 guards

/-- `(uint16_t)(now - g->local_age)`, the oldest least. -/
def guardRank (minutes : UInt16) (g : GuardRec) : Nat := 65535 - (minutes - g.localAge).toNat

def guardAlloc (minutes : UInt16) (guards : List GuardRec) : Option Nat :=
  (Slots.free GuardRec.used guards).or (Slots.victim GuardRec.used (guardRank minutes) guards)

/-- With no slot at all every announce is fresh. -/
def rdirGuardFresh (c : Check) (guards : List GuardRec) : List GuardRec × GuardAnswer :=
  match guardFind (dest4Of c.dest) guards with
  | none =>
    match guardAlloc c.minutes guards with
    | none => (guards, ⟨true, true⟩)
    | some i => (guards.set i c.entry, ⟨true, true⟩)
  | some i =>
    match guards[i]? with
    | none => (guards, ⟨true, true⟩)      -- a slot that was found is there
    | some g => (guards.set i (g.check c).1, (g.check c).2)

-- ---------------------------------------------------------------------------
-- The entry of a key
-- ---------------------------------------------------------------------------

variable {c : Check} {g : GuardRec} {guards : List GuardRec} {k : UInt32}

def entryOf (dest4 : UInt32) (guards : List GuardRec) : Option GuardRec :=
  Slots.lookup GuardRec.used GuardRec.dest4 dest4 guards

/-- The check takes the slot of this key's entry for another destination. -/
def evicts (c : Check) (dest4 : UInt32) (guards : List GuardRec) : Bool :=
  guardFind (dest4Of c.dest) guards = none ∧ ((guardAlloc c.minutes guards).bind (guards[·]?)).any fun g =>
    g.used ∧ g.dest4 = dest4

/-- The check resets the entry: the last of a run of suppressions. -/
def resets (c : Check) (g : GuardRec) : Bool :=
  !c.bypass ∧ !g.seen c ∧ elapsed c.emitted g.emitted < 0 ∧ G_RUN_LIMIT ≤ g.run + 1

theorem GuardRec.check_used (h : g.used) : (g.check c).1.used := by
  have hc := GuardRec.checked c g
  generalize (g.check c).1 = g', (g.check c).2.fresh = fresh at hc ⊢
  cases hc with
  | reset => rfl
  | bypass | seen | suppressed | accepted => exact h

theorem GuardRec.check_dest4 (h : g.dest4 = dest4Of c.dest) : (g.check c).1.dest4 = dest4Of c.dest := by
  have hc := GuardRec.checked c g
  generalize (g.check c).1 = g', (g.check c).2.fresh = fresh at hc ⊢
  cases hc with
  | reset => rfl
  | bypass | seen | suppressed | accepted => exact h

theorem entryOf_spec (h : entryOf k guards = some g) : g ∈ guards ∧ g.used ∧ g.dest4 = k :=
  Slots.lookup_spec h

theorem rdirGuardFresh_known (h : entryOf (dest4Of c.dest) guards = some g) :
    ∃ i, guardFind (dest4Of c.dest) guards = some i ∧ guards[i]? = some g ∧
      rdirGuardFresh c guards = (guards.set i (g.check c).1, (g.check c).2) := by
  obtain ⟨i, hf, hg⟩ := Slots.lookup_eq_some.1 h
  have hfind : guardFind (dest4Of c.dest) guards = some i := hf
  exact ⟨i, hf, hg, by simp only [rdirGuardFresh, hfind, hg]⟩

theorem answer_known (h : entryOf (dest4Of c.dest) guards = some g) :
    (rdirGuardFresh c guards).2 = (g.check c).2 := by
  obtain ⟨i, -, -, hr⟩ := rdirGuardFresh_known h
  rw [hr]

theorem entryOf_known (h : entryOf (dest4Of c.dest) guards = some g) :
    entryOf (dest4Of c.dest) (rdirGuardFresh c guards).1 = some (g.check c).1 := by
  obtain ⟨i, hf, -, hr⟩ := rdirGuardFresh_known h
  obtain ⟨-, hu, hk⟩ := entryOf_spec h
  rw [hr]
  exact Slots.lookup_set_self hf (GuardRec.check_used hu) (GuardRec.check_dest4 hk)

theorem guardFind_eq_none : guardFind k guards = none ↔ entryOf k guards = none :=
  Slots.lookup_eq_none.symm

theorem rdirGuardFresh_unknown (h : entryOf (dest4Of c.dest) guards = none) :
    rdirGuardFresh c guards =
      (match guardAlloc c.minutes guards with
        | none => guards
        | some i => guards.set i c.entry, ⟨true, true⟩) := by
  rw [rdirGuardFresh, guardFind_eq_none.2 h]
  cases guardAlloc c.minutes guards <;> rfl

/-- There is always a slot to be had, unless there is none at all. -/
theorem guardAlloc_lt (minutes : UInt16) (h : guards ≠ []) :
    ∃ i, guardAlloc minutes guards = some i ∧ i < guards.length := by
  unfold guardAlloc
  cases hf : Slots.free GuardRec.used guards with
  | some i =>
    obtain ⟨a, ha, -⟩ := Slots.free_eq_some hf
    exact ⟨i, rfl, (List.getElem?_eq_some_iff.1 ha).1⟩
  | none =>
    cases hv : Slots.victim GuardRec.used (guardRank minutes) guards with
    | some i =>
      obtain ⟨a, ha, -⟩ := Slots.victim_eq_some hv
      exact ⟨i, rfl, (List.getElem?_eq_some_iff.1 ha).1⟩
    | none =>
      obtain ⟨a, ha⟩ := List.exists_mem_of_ne_nil guards h
      have hfree := Slots.victim_eq_none.1 hv a ha
      have hused := Slots.free_eq_none.1 hf a ha
      simp [hfree] at hused

theorem entryOf_unknown (h : entryOf (dest4Of c.dest) guards = none) (hne : guards ≠ []) :
    entryOf (dest4Of c.dest) (rdirGuardFresh c guards).1 = some c.entry := by
  obtain ⟨i, ha, hi⟩ := guardAlloc_lt c.minutes hne
  rw [rdirGuardFresh_unknown h, ha]
  exact Slots.lookup_set_new (b := c.entry) (guardFind_eq_none.2 h) hi rfl

/-- A check of another key leaves an entry alone, unless it evicts it. -/
theorem entryOf_other (hk : dest4Of c.dest ≠ k) (hev : evicts c k guards = false) :
    entryOf k (rdirGuardFresh c guards).1 = entryOf k guards := by
  cases h : entryOf (dest4Of c.dest) guards with
  | some g =>
    obtain ⟨i, -, hg, hr⟩ := rdirGuardFresh_known h
    obtain ⟨-, -, hkey⟩ := entryOf_spec h
    rw [hr]
    refine Slots.lookup_set_other (fun a ha hak => ?_) fun hb => ?_
    · cases ha.symm.trans hg
      exact hk (hkey.symm.trans hak.2)
    · exact hk ((GuardRec.check_dest4 hkey).symm.trans hb.2)
  | none =>
    rw [rdirGuardFresh_unknown h]
    cases ha : guardAlloc c.minutes guards with
    | none => rfl
    | some i =>
      refine Slots.lookup_set_other (fun a hslot hak => ?_) fun hb => hk hb.2
      simp [evicts, guardFind_eq_none.2 h, ha, hslot, hak] at hev

theorem rdirGuardFresh_length : (rdirGuardFresh c guards).1.length = guards.length := by
  unfold rdirGuardFresh
  split
  · split <;> simp
  · split <;> simp

end MicroReticulum.Directory
