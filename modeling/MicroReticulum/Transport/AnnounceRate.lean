import Mathlib.Tactic
import MicroReticulum.Bytes
import MicroReticulum.Lib.Runs
import MicroReticulum.Lib.Slots

/-!
# The announce rate rule

`announce_rate_blocked` over its table. A destination whose announces keep their
distance pays its violations back one by one; past the grace it is blocked until
the target has passed since the last announce let through. The times are whole
seconds in 32 bits, and so is the end of a block, which can wrap.
-/

namespace MicroReticulum.Transport.AnnounceRate

open Lib Lib.Runs

def DESTINATION_LENGTH : Nat := 16
def ANNOUNCE_RATE_TABLE_MAX : Nat := 128
def WORD : Nat := 2 ^ 32

structure AnnounceRateRec where
  dest : Bytes
  /-- The last announce let through. -/
  last : Nat
  blockedUntil : Nat
  violations : Nat
  used : Bool
  deriving DecidableEq, Repr

/-- What the receiving interface allows. -/
structure Rate where
  target : UInt32
  grace : UInt8
  penalty : UInt32

abbrev Table := List AnnounceRateRec

def AnnounceRateRec.blank : AnnounceRateRec := ⟨List.replicate DESTINATION_LENGTH 0, 0, 0, 0, false⟩

def AnnounceRateRec.bad (now : Nat) (r : AnnounceRateRec) : Bool := r.violations > 0 || r.blockedUntil > now

/-- One slot of the scan for the slot to give up. -/
def better (now : Nat) (best : Option (Nat × AnnounceRateRec)) (i : Nat) (r : AnnounceRateRec) :
    Option (Nat × AnnounceRateRec) :=
  match best with
  | none => some (i, r)
  | some (_, v) =>
    if !r.used then if v.used then some (i, r) else best
    else if !v.used then best
    else if (v.bad now && !r.bad now) || (v.bad now == r.bad now && r.last < v.last) then some (i, r)
    else best

def victim (now : Nat) (table : Table) : Option Nat :=
  ((table.zipIdx.foldl (fun best x => better now best x.2 x.1) none)).map Prod.fst

/-- What becomes of an announce and the record of its destination. -/
def judge (rate : Rate) (now : Nat) (r : AnnounceRateRec) : Bool × AnnounceRateRec :=
  if now ≤ r.blockedUntil then (true, r)
  else
    let violations :=
      if (now + WORD - r.last) % WORD < rate.target.toNat then (r.violations + 1) % 2 ^ 16
      else if r.violations > 0 then r.violations - 1 else r.violations
    if violations > rate.grace.toNat then
      (true, { r with violations, blockedUntil := (r.last + rate.target.toNat + rate.penalty.toNat) % WORD })
    else (false, { r with violations, last := now })

def find (dest : Bytes) (table : Table) : Option Nat := Slots.find (·.used) (·.dest) dest table

def lookup (dest : Bytes) (table : Table) : Option AnnounceRateRec := Slots.lookup (·.used) (·.dest) dest table

def announceRateBlocked (rate : Rate) (dest : Bytes) (now : Nat) (table : Table) : Bool × Table :=
  if rate.target = 0 ∨ dest.length ≠ DESTINATION_LENGTH then (false, table)
  else match find dest table with
    | some i =>
      let (blocked, r) := judge rate now (table.getD i .blank)
      (blocked, table.set i r)
    | none =>
      match victim now table with
      | none => (false, table)
      | some i => (false, table.set i { AnnounceRateRec.blank with dest, last := now, used := true })

-- ---------------------------------------------------------------------------
-- The announces of a destination
-- ---------------------------------------------------------------------------

/-- The table, and what has become of the announces of one destination: those let
through after a gap shorter than the target, after one of at least the target,
and those blocked. The first has no gap. -/
structure Heard where
  table : Table
  /-- Ghost: the time. -/
  clock : Nat := 0
  /-- Ghost: when the last one came, and when the last one was let through. -/
  came : Option Nat := none
  through : Option Nat := none
  early : Nat := 0
  late : Nat := 0
  blocked : Nat := 0
  deriving DecidableEq, Repr

structure Announce where
  dest : Bytes
  now : Nat
  deriving DecidableEq, Repr

variable (rate : Rate) (dest : Bytes)

def letThrough (s : Heard) (now : Nat) : Heard :=
  match s.through with
  | none => { s with through := some now }
  | some before =>
    if now - before < rate.target.toNat then { s with through := some now, early := s.early + 1 }
    else { s with through := some now, late := s.late + 1 }

def hear (s : Heard) (a : Announce) : Heard :=
  let verdict := announceRateBlocked rate a.dest a.now s.table
  let s := { s with table := verdict.2, clock := a.now }
  if a.dest ≠ dest then s
  else if verdict.1 then { s with came := some a.now, blocked := s.blocked + 1 }
  else letThrough rate { s with came := some a.now } a.now

/-- Transport after its start. -/
def fresh : Heard := { table := List.replicate ANNOUNCE_RATE_TABLE_MAX .blank }

/-- Time goes on, and is not over. -/
def InTime (s : Heard) (a : Announce) : Prop := s.clock ≤ a.now ∧ a.now < WORD

/-- An announce of another destination does not take the slot. -/
def KeepsSlot (s : Heard) (a : Announce) : Prop :=
  a.dest ≠ dest → lookup dest (announceRateBlocked rate a.dest a.now s.table).2 = lookup dest s.table

/-- Where the announce begins a block, its end is within the 32 bits. -/
def BlockEnds (s : Heard) (a : Announce) : Prop :=
  a.dest = dest → ∀ r ∈ lookup dest s.table, r.blockedUntil < a.now → a.now - r.last < rate.target.toNat →
    r.violations = rate.grace.toNat → r.last + rate.target.toNat + rate.penalty.toNat < WORD

/-- The destination does not announce faster than the target. -/
def Spaced (s : Heard) (a : Announce) : Prop :=
  a.dest = dest → ∀ t ∈ s.came, t + rate.target.toNat ≤ a.now

variable {rate} {dest} {s : Heard} {a : Announce} {table : Table} {r : AnnounceRateRec} {now i : Nat}

instance : Decidable (InTime s a) := inferInstanceAs (Decidable (_ ∧ _))

instance : Decidable (KeepsSlot rate dest s a) := inferInstanceAs (Decidable (_ → _))

instance : Decidable (BlockEnds rate dest s a) := inferInstanceAs (Decidable (_ → _))

instance : Decidable (Spaced rate dest s a) := inferInstanceAs (Decidable (_ → _))

-- ---------------------------------------------------------------------------
-- The table
-- ---------------------------------------------------------------------------

theorem better_cases (now : Nat) (best : Option (Nat × AnnounceRateRec)) (i : Nat) (r : AnnounceRateRec) :
    better now best i r = some (i, r) ∨ ∃ b, best = some b ∧ better now best i r = best := by
  cases best with
  | none => exact .inl rfl
  | some b =>
    unfold better
    dsimp only
    split_ifs
    all_goals first | exact .inl rfl | exact .inr ⟨b, rfl, rfl⟩

theorem foldl_better (now : Nat) {n : Nat} (rows : List (AnnounceRateRec × Nat)) (hrows : ∀ x ∈ rows, x.2 < n)
    {best : Option (Nat × AnnounceRateRec)} (hbest : ∀ b ∈ best, b.1 < n) (hsome : best.isSome ∨ rows ≠ []) :
    ∃ b, rows.foldl (fun best x => better now best x.2 x.1) best = some b ∧ b.1 < n := by
  induction rows generalizing best with
  | nil =>
    obtain ⟨b, rfl⟩ := Option.isSome_iff_exists.1 (hsome.resolve_right fun h => h rfl)
    exact ⟨b, rfl, hbest b rfl⟩
  | cons x rows ih =>
    have hnext : (∀ b ∈ better now best x.2 x.1, b.1 < n) ∧ (better now best x.2 x.1).isSome := by
      rcases better_cases now best x.2 x.1 with h | ⟨b, rfl, h⟩
      · rw [h]
        refine ⟨fun b hb => ?_, rfl⟩
        cases hb
        exact hrows x List.mem_cons_self
      · rw [h]
        exact ⟨hbest, rfl⟩
    exact ih (fun y hy => hrows y (List.mem_cons_of_mem _ hy)) hnext.1 (.inl hnext.2)

/-- A table with any slots has one to give up. -/
theorem victim_lt (now : Nat) (h : 0 < table.length) : ∃ i, victim now table = some i ∧ i < table.length := by
  have hrows : ∀ x ∈ table.zipIdx, x.2 < table.length := by
    intro x hx
    have hlt := (List.mem_zipIdx hx).2.1
    omega
  have hne : table.zipIdx ≠ [] := by
    intro hnil
    rw [← List.length_zipIdx (i := 0), hnil] at h
    cases h
  have hnone : ∀ b ∈ (none : Option (Nat × AnnounceRateRec)), b.1 < table.length := by simp
  obtain ⟨b, hb, hlt⟩ := foldl_better now table.zipIdx hrows hnone (.inr hne)
  exact ⟨b.1, by rw [victim, hb]; rfl, hlt⟩

@[simp] theorem judge_used : (judge rate now r).2.used = r.used := by
  unfold judge
  dsimp only
  split_ifs <;> rfl

@[simp] theorem judge_dest : (judge rate now r).2.dest = r.dest := by
  unfold judge
  dsimp only
  split_ifs <;> rfl

theorem length_blocked (rate : Rate) (dest : Bytes) (now : Nat) (table : Table) : (announceRateBlocked rate dest now table).2.length = table.length := by
  unfold announceRateBlocked
  split
  · rfl
  · split
    · simp
    · split
      · rfl
      · simp

theorem blocked_target (h : rate.target = 0) : announceRateBlocked rate dest now table = (false, table) := by
  rw [announceRateBlocked, if_pos (.inl h)]

/-- A destination that has a slot is judged by it. -/
theorem blocked_known (now : Nat) (ht : rate.target ≠ 0) (hd : dest.length = DESTINATION_LENGTH)
    (h : lookup dest table = some r) :
    (announceRateBlocked rate dest now table).1 = (judge rate now r).1 ∧
      lookup dest (announceRateBlocked rate dest now table).2 = some (judge rate now r).2 := by
  obtain ⟨i, hf, hi⟩ := Slots.lookup_eq_some.1 h
  obtain ⟨-, hu, hk⟩ := Slots.lookup_spec h
  have hget : table.getD i .blank = r := by simp [hi]
  have hfind : find dest table = some i := hf
  rw [announceRateBlocked, if_neg (by simp [ht, hd]), hfind]
  simp only [hget]
  exact ⟨trivial, Slots.lookup_set_self hf (by simpa using hu) (by simpa using hk)⟩

/-- One that has none gets one, and its announce is let through. -/
theorem blocked_new (now : Nat) (ht : rate.target ≠ 0) (hd : dest.length = DESTINATION_LENGTH)
    (h : lookup dest table = none) (hlen : 0 < table.length) :
    (announceRateBlocked rate dest now table).1 = false ∧
      lookup dest (announceRateBlocked rate dest now table).2 =
        some { AnnounceRateRec.blank with dest, last := now, used := true } := by
  have hf := Slots.lookup_eq_none.1 h
  have hfind : find dest table = none := hf
  obtain ⟨i, hv, hi⟩ := victim_lt now hlen
  have hset : Slots.lookup (·.used) (·.dest) dest (table.set i ⟨dest, now, 0, 0, true⟩) =
      some ⟨dest, now, 0, 0, true⟩ :=
    Slots.lookup_set_new (b := ⟨dest, now, 0, 0, true⟩) hf hi rfl
  rw [announceRateBlocked, if_neg (by simp [ht, hd]), hfind]
  simp only [hv]
  exact ⟨trivial, hset⟩

-- ---------------------------------------------------------------------------
-- One announce
-- ---------------------------------------------------------------------------

/-- The violations an announce leaves a destination that is not blocked. -/
def tally (rate : Rate) (now : Nat) (r : AnnounceRateRec) : Nat :=
  if now - r.last < rate.target.toNat then (r.violations + 1) % 2 ^ 16 else r.violations - 1

theorem judge_blocked (h : now ≤ r.blockedUntil) : judge rate now r = (true, r) := by
  rw [judge, if_pos h]

theorem judge_eq (h : r.blockedUntil < now) (hlast : r.last ≤ now) (hnow : now < WORD) :
    judge rate now r =
      if rate.grace.toNat < tally rate now r then
        (true, { r with violations := tally rate now r,
                        blockedUntil := (r.last + rate.target.toNat + rate.penalty.toNat) % WORD })
      else (false, { r with violations := tally rate now r, last := now }) := by
  have hgap : (now + WORD - r.last) % WORD = now - r.last := by
    rw [WORD] at hnow ⊢
    omega
  have htally : (if (now + WORD - r.last) % WORD < rate.target.toNat then (r.violations + 1) % 2 ^ 16
      else if r.violations > 0 then r.violations - 1 else r.violations) = tally rate now r := by
    rw [hgap, tally]
    split_ifs with hearly hpos
    · rfl
    · rfl
    · omega
  rw [judge, if_neg (not_le.2 h)]
  simp only [htally]

theorem letThrough_first (h : s.through = none) : letThrough rate s now = { s with through := some now } := by
  rw [letThrough, h]

theorem letThrough_early {before : Nat} (h : s.through = some before) (hgap : now - before < rate.target.toNat) :
    letThrough rate s now = { s with through := some now, early := s.early + 1 } := by
  rw [letThrough, h]
  exact if_pos hgap

theorem letThrough_late {before : Nat} (h : s.through = some before) (hgap : ¬ now - before < rate.target.toNat) :
    letThrough rate s now = { s with through := some now, late := s.late + 1 } := by
  rw [letThrough, h]
  exact if_neg hgap

theorem hear_other (h : a.dest ≠ dest) :
    hear rate dest s a =
      { s with table := (announceRateBlocked rate a.dest a.now s.table).2, clock := a.now } :=
  if_pos h

/-- The destination's own announce. -/
def own (rate : Rate) (dest : Bytes) (s : Heard) (now : Nat) : Heard :=
  { s with table := (announceRateBlocked rate dest now s.table).2, clock := now, came := some now }

theorem hear_blocked (h : (announceRateBlocked rate dest now s.table).1 = true) :
    hear rate dest s ⟨dest, now⟩ = { own rate dest s now with blocked := s.blocked + 1 } :=
  (if_neg (by simp)).trans (if_pos h)

theorem hear_through (h : (announceRateBlocked rate dest now s.table).1 = false) :
    hear rate dest s ⟨dest, now⟩ = letThrough rate (own rate dest s now) now :=
  (if_neg (by simp)).trans (if_neg (by simp [h]))

-- ---------------------------------------------------------------------------
-- The account of a destination
-- ---------------------------------------------------------------------------

/-- The early announces let through are covered by the late ones and the
violations on record, of which the grace counts in full. -/
structure Standing (rate : Rate) (s : Heard) (r : AnnounceRateRec) : Prop where
  through : s.through = some r.last
  past : r.last ≤ s.clock
  early_le : s.early ≤ s.late + min r.violations rate.grace.toNat
  violations_le : r.violations ≤ rate.grace.toNat + 1
  /-- A block lasts until the target has passed. -/
  block : r.violations = rate.grace.toNat + 1 → r.last + rate.target.toNat ≤ r.blockedUntil

/-- The destination has not been heard, or it has a record. -/
def Known (dest : Bytes) (P : Heard → AnnounceRateRec → Prop) (s : Heard) : Prop :=
  match lookup dest s.table with
  | none => s.came = none ∧ s.through = none ∧ s.early = 0 ∧ s.blocked = 0
  | some r => P s r

structure Account (dest : Bytes) (P : Heard → AnnounceRateRec → Prop) (s : Heard) : Prop where
  slots : s.table.length = ANNOUNCE_RATE_TABLE_MAX
  known : Known dest P s

theorem known_none {P : Heard → AnnounceRateRec → Prop} (h : lookup dest s.table = none) :
    Known dest P s ↔ s.came = none ∧ s.through = none ∧ s.early = 0 ∧ s.blocked = 0 := by
  rw [Known, h]

theorem known_some {P : Heard → AnnounceRateRec → Prop} (h : lookup dest s.table = some r) :
    Known dest P s ↔ P s r := by
  rw [Known, h]

theorem account_fresh (P : Heard → AnnounceRateRec → Prop) : Account dest P fresh := by
  have hnone : lookup dest fresh.table = none := by
    refine Slots.lookup_eq_none.2 (Slots.find_eq_none.2 fun r hr hu => ?_)
    rw [List.eq_of_mem_replicate hr] at hu
    cases hu
  exact ⟨List.length_replicate, (known_none hnone).2 ⟨rfl, rfl, rfl, rfl⟩⟩

/-- What holds of a record holds on if the other destinations leave it, and its
own announces and the first of them see to it. -/
theorem Account.hear {P : Heard → AnnounceRateRec → Prop} (h : Account dest P s) (ht : rate.target ≠ 0)
    (hd : dest.length = DESTINATION_LENGTH) (hkeep : KeepsSlot rate dest s a)
    (hclock : ∀ r now table, s.clock ≤ now → P s r → P { s with table, clock := now } r) (ha : s.clock ≤ a.now)
    (hfirst : lookup dest s.table = none → s.came = none → s.through = none → s.early = 0 → s.blocked = 0 →
      P { own rate dest s a.now with through := some a.now }
        { AnnounceRateRec.blank with dest, last := a.now, used := true })
    (hown : ∀ r, lookup dest s.table = some r → P s r → a.dest = dest →
      P (AnnounceRate.hear rate dest s a) (judge rate a.now r).2) :
    Account dest P (AnnounceRate.hear rate dest s a) := by
  have hlen : 0 < s.table.length := by
    rw [h.slots]
    decide
  obtain ⟨name, now⟩ := a
  by_cases hname : name = dest
  · subst hname
    have htable : (AnnounceRate.hear rate name s ⟨name, now⟩).table = (announceRateBlocked rate name now s.table).2 := by
      cases hb : (announceRateBlocked rate name now s.table).1 with
      | true => rw [hear_blocked hb, own]
      | false =>
        rw [hear_through hb, letThrough]
        split
        · rfl
        · split_ifs <;> rfl
    have hslots := length_blocked rate name now s.table
    refine ⟨by rw [htable, hslots, h.slots], ?_⟩
    cases hl : lookup name s.table with
    | none =>
      obtain ⟨hb, hset⟩ := blocked_new now ht hd hl hlen
      obtain ⟨hcame, hthrough, hearly, hblocked⟩ := (known_none hl).1 h.known
      rw [← htable] at hset
      rw [known_some hset, hear_through hb, letThrough_first (s := own rate name s now) hthrough]
      exact hfirst hl hcame hthrough hearly hblocked
    | some r =>
      have hset := (blocked_known now ht hd hl).2
      rw [← htable] at hset
      exact (known_some hset).2 (hown r hl ((known_some hl).1 h.known) rfl)
  · have hsame := hkeep hname
    rw [hear_other hname]
    refine ⟨(length_blocked ..).trans h.slots, ?_⟩
    cases hl : lookup dest s.table with
    | none => exact (known_none (hsame.trans hl)).2 ((known_none hl).1 h.known)
    | some r => exact (known_some (hsame.trans hl)).2 (hclock r _ _ ha ((known_some hl).1 h.known))

theorem Standing.hear (h : Standing rate s r) (hl : lookup dest s.table = some r) (ht : rate.target ≠ 0)
    (hd : dest.length = DESTINATION_LENGTH) (htime : InTime s ⟨dest, now⟩) (hends : BlockEnds rate dest s ⟨dest, now⟩) :
    Standing rate (hear rate dest s ⟨dest, now⟩) (judge rate now r).2 := by
  obtain ⟨hclock, hnow⟩ := htime
  have hlast : r.last ≤ now := h.past.trans hclock
  have hjudged := (blocked_known now ht hd hl).1
  obtain hblocked | hopen := le_or_gt now r.blockedUntil
  · rw [judge_blocked hblocked] at hjudged ⊢
    rw [hear_blocked hjudged]
    exact ⟨h.through, hlast, h.early_le, h.violations_le, h.block⟩
  have hgrace := rate.grace.toNat_lt
  have hle := h.early_le
  have hviol := h.violations_le
  rw [judge_eq hopen hlast hnow] at hjudged ⊢
  by_cases hearly : now - r.last < rate.target.toNat
  · -- within the target: a block that was begun would still hold
    have hgood : r.violations ≤ rate.grace.toNat := by
      by_contra hbad
      have hblock := h.block (by omega)
      omega
    have htally : tally rate now r = r.violations + 1 := by
      rw [tally, if_pos hearly]
      omega
    rw [htally] at hjudged ⊢
    split_ifs at hjudged ⊢ with hover
    · have hfull : r.violations = rate.grace.toNat := by omega
      have hend := hends rfl r hl hopen hearly hfull
      rw [hear_blocked hjudged]
      refine ⟨h.through, hlast, ?_, ?_, fun _ => ?_⟩
      · show s.early ≤ s.late + min (r.violations + 1) rate.grace.toNat
        omega
      · show r.violations + 1 ≤ rate.grace.toNat + 1
        omega
      · show r.last + rate.target.toNat ≤ (r.last + rate.target.toNat + rate.penalty.toNat) % WORD
        rw [Nat.mod_eq_of_lt hend]
        omega
    · rw [hear_through hjudged, letThrough_early (s := own rate dest s now) h.through hearly]
      refine ⟨rfl, le_rfl, ?_, ?_, fun hfull => ?_⟩
      · show s.early + 1 ≤ s.late + min (r.violations + 1) rate.grace.toNat
        omega
      · show r.violations + 1 ≤ rate.grace.toNat + 1
        omega
      · have hfull : r.violations + 1 = rate.grace.toNat + 1 := hfull
        omega
  · -- a late one pays a violation back
    have htally : tally rate now r = r.violations - 1 := if_neg hearly
    rw [htally] at hjudged ⊢
    rw [if_neg (by omega)] at hjudged ⊢
    rw [hear_through hjudged, letThrough_late (s := own rate dest s now) h.through hearly]
    refine ⟨rfl, le_rfl, ?_, ?_, fun hfull => ?_⟩
    · show s.early ≤ s.late + 1 + min (r.violations - 1) rate.grace.toNat
      omega
    · show r.violations - 1 ≤ rate.grace.toNat + 1
      omega
    · have hfull : r.violations - 1 = rate.grace.toNat + 1 := hfull
      omega

/-- The record of a destination that keeps its distance is clean. -/
structure Clean (s : Heard) (r : AnnounceRateRec) : Prop where
  through : s.through = some r.last
  came : s.came = some r.last
  past : r.last ≤ s.clock
  violations : r.violations = 0
  blockedUntil : r.blockedUntil = 0
  blocked : s.blocked = 0

theorem Clean.hear (h : Clean s r) (hl : lookup dest s.table = some r) (ht : rate.target ≠ 0)
    (hd : dest.length = DESTINATION_LENGTH) (htime : InTime s ⟨dest, now⟩) (hspaced : Spaced rate dest s ⟨dest, now⟩) :
    Clean (AnnounceRate.hear rate dest s ⟨dest, now⟩) (judge rate now r).2 := by
  obtain ⟨hclock, hnow⟩ := htime
  have hlast : r.last ≤ now := h.past.trans hclock
  have hpos : 0 < rate.target.toNat := Nat.pos_of_ne_zero fun h => ht (UInt32.toNat_inj.1 h)
  have hgap : r.last + rate.target.toNat ≤ now := hspaced rfl r.last h.came
  have hopen : r.blockedUntil < now := by
    rw [h.blockedUntil]
    omega
  have hjudged := (blocked_known now ht hd hl).1
  have hlate : ¬ now - r.last < rate.target.toNat := by omega
  have htally : tally rate now r = 0 := by
    rw [tally, if_neg hlate, h.violations]
  rw [judge_eq hopen hlast hnow, htally, if_neg (by omega)] at hjudged ⊢
  rw [hear_through hjudged, letThrough_late (s := own rate dest s now) h.through hlate]
  exact ⟨rfl, rfl, le_rfl, rfl, h.blockedUntil, h.blocked⟩

-- ---------------------------------------------------------------------------
-- Any run
-- ---------------------------------------------------------------------------

/-- Nothing was early and nothing blocked. -/
def Unlimited (s : Heard) : Prop := s.early = 0 ∧ s.blocked = 0

theorem Unlimited.hear (ht : rate.target = 0) (h : Unlimited s) : Unlimited (hear rate dest s a) := by
  obtain ⟨name, now⟩ := a
  by_cases hname : name = dest
  · subst hname
    rw [hear_through (by rw [blocked_target ht]), letThrough]
    split
    · exact h
    · rw [if_neg (by simp [ht])]
      exact h
  · rw [hear_other hname]
    exact h

theorem Standing.first : Standing rate { own rate dest s now with through := some now, early := 0 }
    { AnnounceRateRec.blank with dest, last := now, used := true } where
  through := rfl
  past := le_rfl
  early_le := Nat.zero_le _
  violations_le := Nat.zero_le _
  block := fun h => absurd h.symm (Nat.succ_ne_zero _)

theorem Account.standing (h : Account dest (Standing rate) s) (ht : rate.target ≠ 0)
    (hd : dest.length = DESTINATION_LENGTH)
    (hok : KeepsSlot rate dest s a ∧ InTime s a ∧ BlockEnds rate dest s a) :
    Account dest (Standing rate) (AnnounceRate.hear rate dest s a) := by
  obtain ⟨hkeep, htime, hends⟩ := hok
  apply h.hear ht hd hkeep
  · intro r now table hnow hr
    exact ⟨hr.through, hr.past.trans hnow, hr.early_le, hr.violations_le, hr.block⟩
  · exact htime.1
  · rintro - - - hearly -
    have hsame : { own rate dest s a.now with through := some a.now } =
        { own rate dest s a.now with through := some a.now, early := 0 } := by
      simp only [own, hearly]
    rw [hsame]
    exact .first
  · rintro r hl hr rfl
    exact hr.hear hl ht hd htime hends

theorem Account.clean (h : Account dest Clean s) (ht : rate.target ≠ 0) (hd : dest.length = DESTINATION_LENGTH)
    (hok : KeepsSlot rate dest s a ∧ InTime s a ∧ Spaced rate dest s a) :
    Account dest Clean (AnnounceRate.hear rate dest s a) := by
  obtain ⟨hkeep, htime, hspaced⟩ := hok
  apply h.hear ht hd hkeep
  · intro r now table hnow hr
    exact ⟨hr.through, hr.came, hr.past.trans hnow, hr.violations, hr.blockedUntil, hr.blocked⟩
  · exact htime.1
  · rintro - - - - hblocked
    exact ⟨rfl, rfl, le_rfl, rfl, rfl, hblocked⟩
  · rintro r hl hr rfl
    exact hr.hear hl ht hd htime hspaced

theorem Account.within (h : Account dest (Standing rate) s) : s.early ≤ s.late + rate.grace.toNat := by
  cases hl : lookup dest s.table with
  | none =>
    have hearly := ((known_none hl).1 h.known).2.2.1
    omega
  | some r =>
    have hle := ((known_some hl).1 h.known).early_le
    omega

theorem Account.unblocked (h : Account dest Clean s) : s.blocked = 0 := by
  cases hl : lookup dest s.table with
  | none => exact ((known_none hl).1 h.known).2.2.2
  | some r => exact ((known_some hl).1 h.known).blocked

variable {ops : List Announce}

def dest₀ : Bytes := List.replicate 16 7

/-- Two early announces are let through, a block of 300 seconds follows, and a
late one pays back. -/
def burst : List Announce :=
  [⟨dest₀, 1000⟩, ⟨dest₀, 1010⟩, ⟨dest₀, 1020⟩, ⟨dest₀, 1030⟩, ⟨dest₀, 1500⟩, ⟨dest₀, 2500⟩]

/-- A penalty that takes the end of a block round the 32 bits, to before it began. -/
def wrapping : Rate := ⟨900, 5, 4294966395⟩

theorem wrapping_limits : wrapping.target ≠ 0 := by decide

def again : Announce := ⟨dest₀, 1000⟩

/-- The destination is refused time after time, and never blocked. -/
def Refused (violations : Nat) (s : Heard) : Prop :=
  lookup dest₀ s.table = some ⟨dest₀, 1000, 999, violations, true⟩ ∧ s.through = some 1000 ∧ s.early = 5 ∧ s.late = 0

theorem judge_refused {v : Nat} :
    judge wrapping 1000 ⟨dest₀, 1000, 999, v, true⟩ =
      (decide (5 < (v + 1) % 2 ^ 16), ⟨dest₀, 1000, 999, (v + 1) % 2 ^ 16, true⟩) := by
  have hopen : (999 : Nat) < 1000 := by decide
  have hearly : 1000 - 1000 < wrapping.target.toNat := by decide
  have htally : tally wrapping 1000 ⟨dest₀, 1000, 999, v, true⟩ = (v + 1) % 2 ^ 16 := if_pos hearly
  have hend : (1000 + wrapping.target.toNat + wrapping.penalty.toNat) % WORD = 999 := by decide
  have hgrace : wrapping.grace.toNat = 5 := by decide
  rw [judge_eq hopen (le_refl 1000) (by decide), htally, hgrace]
  split_ifs with h
  · rw [decide_eq_true h, hend]
  · rw [decide_eq_false h]

theorem Refused.hear {v : Nat} (h : Refused v s) (hlow : 5 ≤ v) (hv : v + 1 < 2 ^ 16) :
    Refused (v + 1) (hear wrapping dest₀ s again) := by
  obtain ⟨hl, hthrough, hearly, hlate⟩ := h
  obtain ⟨hb, hset⟩ := blocked_known 1000 wrapping_limits (by decide) hl
  have hover : 5 < v + 1 := by omega
  rw [judge_refused, Nat.mod_eq_of_lt hv, decide_eq_true hover] at hb hset
  rw [again, hear_blocked hb]
  exact ⟨hset, hthrough, hearly, hlate⟩

theorem Refused.run {v : Nat} (n : Nat) (h : Refused v s) (hlow : 5 ≤ v) (hv : v + n < 2 ^ 16) :
    Refused (v + n) (run (AnnounceRate.hear wrapping dest₀) s (List.replicate n again)) := by
  induction n generalizing s v with
  | zero => exact h
  | succ n ih =>
    rw [List.replicate_succ, run_cons, show v + (n + 1) = v + 1 + n by omega]
    exact ih (h.hear hlow (by omega)) (by omega) (by omega)

/-- Once the violations have gone round as well, one more is let through. -/
theorem Refused.last (h : Refused 65535 s) : (AnnounceRate.hear wrapping dest₀ s again).early = 6 ∧
    (AnnounceRate.hear wrapping dest₀ s again).late = 0 := by
  obtain ⟨hl, hthrough, hearly, hlate⟩ := h
  have hb := (blocked_known 1000 wrapping_limits (by decide) hl).1
  rw [judge_refused] at hb
  rw [again, hear_through hb, letThrough_early (s := own wrapping dest₀ s 1000) hthrough (by decide)]
  exact ⟨congrArg (· + 1) hearly, hlate⟩

theorem hear_clock : (hear rate dest s a).clock = a.now := by
  unfold hear letThrough
  dsimp only
  split_ifs
  · rfl
  · rfl
  · split
    · rfl
    · split_ifs <;> rfl

end MicroReticulum.Transport.AnnounceRate
