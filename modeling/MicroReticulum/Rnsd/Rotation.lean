import MicroReticulum.Lib.Runs
import MicroReticulum.Lib.Spacing
import MicroReticulum.Rnsd.RatchetRecord

/-!
# Rotating ratchets across reboots

A node announces one of its destinations, is rebooted, and has its clock set. The
clock counts from the boot until it is set. The rotations are recorded with the
real time and with whether the clock was right then.
-/

namespace MicroReticulum.Rnsd

open Lib Lib.Runs Lib.Spacing
open MicroReticulum.MsgPack (Text)
open MicroReticulum.Announcing (RATCHETSIZE)
open MicroReticulum.Destinations

/-- What `generate_ratchet` gives. -/
structure Ratchet where
  bytes : Bytes
  length_eq : bytes.length = RATCHETSIZE

structure Rotation where
  time : Nat
  timeValid : Bool
  ratchet : Ratchet

/-- A node and one destination it hosts. -/
structure Host where
  now : Nat
  booted : Nat := now
  timeValid : Bool := false
  record : Text := []
  dest : Destination := enableRatchets [] 0 {}
  rotations : List Rotation := []

/-- `none` where no ratchet can be generated. -/
inductive HostOp
  | wait (dt : Nat)
  | setClock
  | reboot
  | announce (generated : Option Ratchet)

namespace Host

def clock (s : Host) : Nat := if s.timeValid then s.now else s.now - s.booted

/-- The destination as it is connected: with ratchets on, from what is stored. -/
def connect (s : Host) : Host :=
  let loaded := ourDestRatchetsLoad s.record
  { s with dest := enableRatchets loaded.1 loaded.2 {} }

/-- `announce` rotates first; what is rotated is stored at once. -/
def announce (generated : Option Ratchet) (s : Host) : Host :=
  match rotateRatchets s.clock (generated.map (·.bytes)) s.dest, generated with
  | (dest, true), some ratchet =>
    { s with
      dest := dest, record := ourDestRatchetsPersist s.timeValid dest.ratchets dest.latestRatchetTime
      rotations := ⟨s.now, s.timeValid, ratchet⟩ :: s.rotations }
  | (dest, _), _ => { s with dest := dest }

def step (s : Host) : HostOp → Host
  | .wait dt => { s with now := s.now + dt }
  | .setClock => { s with timeValid := true }
  | .reboot => connect { s with booted := s.now, timeValid := false }
  | .announce generated => s.announce generated

end Host

/-- Time passes in whole seconds, and no more of them than the stored record can say. -/
def WholeSeconds (s : Host) (op : HostOp) : Prop :=
  ∀ dt, op = .wait dt → second ∣ dt ∧ (s.now + dt) / second < 2 ^ 64

variable {s : Host} {op : HostOp} {ops : List HostOp} {r : Rotation} {rest : List Rotation}

/-- Each rotation on the clock that follows the last one. -/
abbrev Spaced (rotations : List Rotation) : Prop :=
  rotations.IsChain (After interval (·.time) (·.timeValid))

def keys (rotations : List Rotation) : List Bytes := (rotations.map (·.ratchet.bytes)).take RATCHET_COUNT

/-- When the destination takes its last rotation to have been. -/
def Due (s : Host) : Rotation → Prop := fun r =>
  if r.timeValid then s.dest.latestRatchetTime = r.time ∧ (s.timeValid ∨ r.time ≤ s.booted)
  else s.dest.latestRatchetTime = r.time - s.booted ∧ s.booted ≤ r.time ∨
    s.dest.latestRatchetTime = 0 ∧ r.time ≤ s.booted

structure Host.Sane (s : Host) : Prop where
  whole : second ∣ s.now ∧ second ∣ s.booted
  fits : s.now / second < 2 ^ 64
  booted : s.booted ≤ s.now
  single : s.dest.type = .SINGLE ∧ s.dest.ratchetsEnabled
  ratchets : s.dest.ratchets = keys s.rotations
  past : ∀ r ∈ s.rotations, r.time ≤ s.now ∧ second ∣ r.time
  spaced : Spaced s.rotations
  late : ∀ r ∈ s.rotations.dropLast, interval ≤ r.time
  last : ∀ r ∈ s.rotations.head?, Due s r ∧
    s.record = ourDestRatchetsPersist r.timeValid s.dest.ratchets r.time
  none : s.rotations = [] → s.record = []

-- ---------------------------------------------------------------------------
-- One operation
-- ---------------------------------------------------------------------------

theorem clock_le : s.clock ≤ s.now := by
  unfold Host.clock
  split
  · exact le_rfl
  · exact Nat.sub_le _ _

/-- An announce changes nothing, or it is due and rotates. -/
theorem announce_cases (s : Host) (generated : Option Ratchet) : s.announce generated = s ∨
    ∃ ratchet, generated = some ratchet ∧ rotates s.clock s.dest ∧
      s.announce generated = { s with
        dest := { s.dest with
          ratchets := (ratchet.bytes :: s.dest.ratchets).take RATCHET_COUNT, latestRatchetTime := s.clock }
        record := ourDestRatchetsPersist s.timeValid ((ratchet.bytes :: s.dest.ratchets).take RATCHET_COUNT) s.clock
        rotations := ⟨s.now, s.timeValid, ratchet⟩ :: s.rotations } := by
  unfold Host.announce
  cases hrot : rotateRatchets s.clock (generated.map (·.bytes)) s.dest with
  | mk dest changed =>
    rcases rotateRatchets_cases hrot with ⟨rfl, rfl⟩ | ⟨b, hb, rfl, hr, rfl⟩
    · exact .inl rfl
    · obtain ⟨ratchet, rfl, rfl⟩ := Option.map_eq_some_iff.1 hb
      exact .inr ⟨ratchet, rfl, hr, rfl⟩

theorem keys_cons (r : Rotation) (rotations : List Rotation) :
    (r.ratchet.bytes :: keys rotations).take RATCHET_COUNT = keys (r :: rotations) := by
  simp [keys, RATCHET_COUNT, List.take_take]

theorem mem_keys {b : Bytes} {rotations : List Rotation} (h : b ∈ keys rotations) : b.length = RATCHETSIZE := by
  obtain ⟨r, -, rfl⟩ := List.mem_map.1 (List.mem_of_mem_take h)
  exact r.ratchet.length_eq

theorem persist_invalid (privs : List Bytes) (t t' : Nat) :
    ourDestRatchetsPersist false privs t = ourDestRatchetsPersist false privs t' := rfl

/-- What is loaded after a reboot is what was there before it, and the time of the last rotation only
where it was known. -/
theorem Host.Sane.load (h : s.Sane) (hne : s.rotations = r :: rest) :
    ourDestRatchetsLoad s.record = (s.dest.ratchets, if r.timeValid then r.time else 0) := by
  obtain ⟨-, hrec⟩ := h.last r (by simp [hne])
  obtain ⟨hle, t, ht⟩ := h.past r (by simp [hne])
  have hfits : t < 2 ^ 64 := by
    refine lt_of_le_of_lt ?_ h.fits
    rw [Nat.le_div_iff_mul_le (by decide), Nat.mul_comm, ← ht]
    exact hle
  rw [hrec, ht, Nat.mul_comm]
  exact load_persist r.timeValid t hfits fun b hb => mem_keys (h.ratchets ▸ hb)

theorem Host.Sane.reboot (h : s.Sane) : (s.step .reboot).Sane := by
  have hbase : ∀ dest : Destination, dest.type = .SINGLE ∧ dest.ratchetsEnabled → dest.ratchets = keys s.rotations →
      (∀ r ∈ s.rotations.head?, dest.latestRatchetTime = if r.timeValid then r.time else 0) →
      Host.Sane { s with booted := s.now, timeValid := false, dest := dest } := by
    intro dest hsingle hkeys htime
    refine { h with
      whole := ⟨h.whole.1, h.whole.1⟩, booted := le_rfl, single := hsingle, ratchets := hkeys, last := fun r hr => ?_ }
    have hpast := (h.past r (List.mem_of_mem_head? hr)).1
    refine ⟨?_, ?_⟩
    · unfold Due
      have ht := htime r hr
      split
      · next hv =>
        rw [if_pos hv] at ht
        exact ⟨ht, .inr hpast⟩
      · next hv =>
        rw [if_neg hv] at ht
        exact .inr ⟨ht, hpast⟩
    · rw [hkeys, ← h.ratchets]
      exact (h.last r hr).2
  cases hrot : s.rotations with
  | nil =>
    refine hbase _ ⟨rfl, rfl⟩ ?_ ?_
    · rw [h.none hrot, hrot]
      rfl
    · simp [hrot]
  | cons r rest =>
    have hload := h.load hrot
    have hret : retained s.dest.ratchets = s.dest.ratchets := by
      refine retained_eq (fun b hb => mem_keys (h.ratchets ▸ hb)) ?_
      rw [h.ratchets]
      exact List.length_take_le _ _
    have hne : s.dest.ratchets ≠ [] := by
      rw [h.ratchets, hrot]
      exact nofun
    refine hbase _ ⟨rfl, rfl⟩ ?_ fun r' hr' => ?_
    · rw [hload]
      exact hret.trans h.ratchets
    · obtain rfl : r = r' := by simpa [hrot] using hr'
      rw [hload]
      refine if_neg ?_
      rw [hret]
      exact hne

/-- A rotation keeps its distance from the last one. -/
theorem Host.Sane.after (h : s.Sane) (hr : rotates s.clock s.dest) (hne : s.rotations = r :: rest) (ratchet : Ratchet) :
    After interval (·.time) (·.timeValid) (⟨s.now, s.timeValid, ratchet⟩ : Rotation) r ∧ interval ≤ s.now := by
  have hmem : r ∈ s.rotations := hne ▸ List.mem_cons_self
  have hpast := (h.past r hmem).1
  have hdue := (h.last r (by simp [hne])).1
  have hwait : s.dest.latestRatchetTime + interval ≤ s.clock := by
    refine (rotates_iff.1 hr).2.resolve_left ?_
    rw [h.ratchets, hne]
    exact nofun
  have hclock := clock_le (s := s)
  refine ⟨?_, (Nat.le_add_left _ _).trans (hwait.trans hclock)⟩
  unfold Due at hdue
  unfold Host.clock at hwait
  have hbooted := h.booted
  cases hold : r.timeValid with
  | true =>
    rw [if_pos hold] at hdue
    rw [hdue.1] at hwait
    cases hnew : s.timeValid with
    | true =>
      rw [if_pos hnew] at hwait
      exact .inr ⟨hwait, fun _ hn => absurd rfl hn⟩
    | false =>
      -- counted from a boot after the last rotation
      simp only [hnew, Bool.false_eq_true, if_false, false_or] at hwait hdue
      have hfar : 2 * r.time + interval ≤ s.now := by omega
      exact .inr ⟨(Nat.add_le_add_right (Nat.le_mul_of_pos_left _ two_pos) _).trans hfar, fun _ _ => hfar⟩
  | false =>
    simp only [hold, Bool.false_eq_true, if_false] at hdue
    cases hnew : s.timeValid with
    | true => exact .inl ⟨by simp [hold], rfl, hpast⟩
    | false =>
      simp only [hnew, Bool.false_eq_true, if_false] at hwait
      refine .inr ⟨?_, fun he => absurd he (by simp [hold])⟩
      change r.time + interval ≤ s.now
      rcases hdue with ⟨hlatest, hle⟩ | ⟨hlatest, hle⟩
      · omega
      · omega

theorem Host.Sane.announce (h : s.Sane) (generated : Option Ratchet) : (s.announce generated).Sane := by
  rcases announce_cases s generated with he | ⟨ratchet, -, hr, he⟩
  · rw [he]
    exact h
  rw [he]
  refine { h with ratchets := ?_, past := ?_, spaced := ?_, late := ?_, last := ?_, none := nofun }
  · rw [← keys_cons, ← h.ratchets]
  · intro r hmem
    rcases List.mem_cons.1 hmem with rfl | hmem
    · exact ⟨le_rfl, h.whole.1⟩
    · exact h.past r hmem
  · cases hrot : s.rotations with
    | nil => exact .singleton _
    | cons r rest => exact List.isChain_cons_cons.2 ⟨(h.after hr hrot ratchet).1, hrot ▸ h.spaced⟩
  · cases hrot : s.rotations with
    | nil => exact nofun
    | cons r rest =>
      intro r' hr'
      rw [List.dropLast_cons_cons] at hr'
      rcases List.mem_cons.1 hr' with rfl | hr'
      · exact (h.after hr hrot ratchet).2
      · exact h.late r' (hrot ▸ hr')
  · intro r hmem
    obtain rfl : ⟨s.now, s.timeValid, ratchet⟩ = r := by simpa using hmem
    refine ⟨?_, ?_⟩
    · unfold Due Host.clock
      cases hv : s.timeValid with
      | true => exact ⟨rfl, .inl rfl⟩
      | false => exact .inl ⟨rfl, h.booted⟩
    · unfold Host.clock
      cases hv : s.timeValid with
      | true => rfl
      | false => exact persist_invalid _ _ _

theorem Host.Sane.step (h : s.Sane) (hop : WholeSeconds s op) : (s.step op).Sane := by
  cases op with
  | wait dt =>
    obtain ⟨hdvd, hfits⟩ := hop dt rfl
    exact { h with
      whole := ⟨dvd_add h.whole.1 hdvd, h.whole.2⟩, fits := hfits, booted := Nat.le_add_right_of_le h.booted
      past := fun r hr => ⟨Nat.le_add_right_of_le (h.past r hr).1, (h.past r hr).2⟩ }
  | setClock =>
    refine { h with last := fun r hr => ⟨?_, (h.last r hr).2⟩ }
    have hdue := (h.last r hr).1
    unfold Due at hdue ⊢
    split
    · next hv =>
      rw [if_pos hv] at hdue
      exact ⟨hdue.1, .inl rfl⟩
    · next hv =>
      rw [if_neg hv] at hdue
      exact hdue
  | reboot => exact h.reboot
  | announce generated => exact h.announce generated

-- ---------------------------------------------------------------------------
-- Runs
-- ---------------------------------------------------------------------------

/-- A node that boots for the first time, so many seconds into the epoch. -/
def hosted (start : UInt64) : Host := { now := start.toNat * second }

theorem hosted_sane (start : UInt64) : (hosted start).Sane where
  whole := ⟨dvd_mul_left _ _, dvd_mul_left _ _⟩
  fits := by
    rw [hosted, Nat.mul_div_cancel _ (by decide)]
    exact start.toNat_lt
  booted := le_rfl
  single := ⟨rfl, rfl⟩
  ratchets := rfl
  past := nofun
  spaced := .nil
  late := nofun
  last := nofun
  none _ := rfl

theorem run_sane (h : s.Sane) (hg : Guarded Host.step WholeSeconds s ops) : (run Host.step s ops).Sane :=
  hg.invariant (fun _ _ h hop => h.step hop) h

theorem step_rotations (s : Host) (op : HostOp) : ∃ new, (s.step op).rotations = new ++ s.rotations := by
  cases op with
  | announce generated =>
    rcases announce_cases s generated with he | ⟨ratchet, -, -, he⟩
    · exact ⟨[], by rw [Host.step, he]; rfl⟩
    · exact ⟨[_], by rw [Host.step, he]; rfl⟩
  | _ => exact ⟨[], rfl⟩

theorem run_rotations (s : Host) (ops : List HostOp) : ∃ new, (run Host.step s ops).rotations = new ++ s.rotations := by
  induction ops generalizing s with
  | nil => exact ⟨[], rfl⟩
  | cons op ops ih =>
    obtain ⟨new, hnew⟩ := step_rotations s op
    obtain ⟨newer, hnewer⟩ := ih (s.step op)
    exact ⟨newer ++ new, by rw [run_cons, hnewer, hnew, List.append_assoc]⟩

/-- As long as the rotations that follow a ratchet are so few, it is retained. -/
theorem mem_keys_append {new rotations : List Rotation} (hlen : new.length < RATCHET_COUNT) :
    r.ratchet.bytes ∈ keys (new ++ r :: rotations) := by
  refine List.mem_take_iff_getElem.2 ⟨new.length, ?_, ?_⟩
  · simp [hlen]
  · simp

/-- A ratchet that was superseded is retained for all the intervals but two. -/
theorem Host.Sane.retains (h : s.Sane) {new : List Rotation} {newer older : Rotation}
    (hrot : s.rotations = new ++ newer :: older :: rest)
    (hnow : s.now < newer.time + (RATCHET_COUNT - 2) * interval) : older.ratchet.bytes ∈ s.dest.ratchets := by
  rw [h.ratchets, hrot]
  by_cases hlen : (new ++ [newer]).length < RATCHET_COUNT
  · have hmem : older.ratchet.bytes ∈ keys ((new ++ [newer]) ++ older :: rest) := mem_keys_append hlen
    rwa [List.append_assoc] at hmem
  · exfalso
    have hsplit : new ++ newer :: older :: rest = (new ++ [newer]) ++ older :: rest := by simp
    rw [hsplit] at hrot
    have hchain : Spaced (new ++ [newer]) := (hrot ▸ h.spaced).left_of_append
    have hlate : ∀ r ∈ new ++ [newer], interval ≤ r.time := by
      intro r hr
      refine h.late r ?_
      rw [hrot, List.dropLast_append_of_ne_nil (by simp)]
      exact List.mem_append_left _ hr
    cases hl : new ++ [newer] with
    | nil => simp at hl
    | cons a l =>
      rw [hl] at hchain hlate hlen
      have hlast : (a :: l).getLast? = some newer := by rw [← hl]; simp
      have hspread := (spread hchain hlate hlast).1
      have ha := (h.past a (by rw [hrot, hl]; simp)).1
      simp only [List.length_cons, RATCHET_COUNT, not_lt] at hlen hnow
      have hmul : 31 * interval ≤ l.length * interval := Nat.mul_le_mul_right _ (by omega)
      omega

/-- Storing and loading loses nothing; no period sees more than two rotations; a ratchet that was
superseded is kept for thirty periods. -/
theorem ratchets_kept :
    (∀ (timeValid : Bool) (privs : List Bytes) (t : UInt64), (∀ b ∈ privs, b.length = RATCHETSIZE) →
      ourDestRatchetsLoad (ourDestRatchetsPersist timeValid privs (t.toNat * second)) =
        (privs, if timeValid then t.toNat * second else 0)) ∧
    ∀ (start : UInt64) (ops : List HostOp), Guarded Host.step WholeSeconds (hosted start) ops →
      (∀ w, (within interval (·.time) w (run Host.step (hosted start) ops).rotations).length ≤ 2) ∧
      ∀ pre generated post ratchet, ops = pre ++ .announce generated :: post →
        (run Host.step (hosted start) pre).dest.ratchets.head? = some ratchet →
        (run Host.step (hosted start) (pre ++ [.announce generated])).dest.ratchets.head? ≠ some ratchet →
        (run Host.step (hosted start) ops).now <
          (run Host.step (hosted start) pre).now + (RATCHET_COUNT - 2) * interval →
        ratchet ∈ (run Host.step (hosted start) ops).dest.ratchets := by
  refine ⟨fun timeValid privs t hlen => load_persist timeValid t.toNat t.toNat_lt hlen, ?_⟩
  intro start ops hg
  have hsane := run_sane (hosted_sane start) hg
  refine ⟨fun w => length_within_le hsane.spaced, ?_⟩
  rintro pre generated post ratchet rfl hhead hnew hnow
  have hbefore := run_sane (hosted_sane start) (guarded_append.1 hg).1
  rw [run_concat] at hnew
  rw [run_append, run_cons] at hsane hnow ⊢
  generalize run Host.step (hosted start) pre = s at *
  rcases announce_cases s generated with he | ⟨r, -, -, he⟩
  · rw [Host.step, he] at hnew
    exact absurd hhead hnew
  rw [hbefore.ratchets] at hhead
  cases hrot : s.rotations with
  | nil =>
    rw [hrot] at hhead
    cases hhead
  | cons older rest =>
    rw [hrot] at hhead
    cases hhead
    obtain ⟨new, hlast⟩ := run_rotations (s.announce generated) post
    have hall : (run Host.step (s.announce generated) post).rotations =
        new ++ (⟨s.now, s.timeValid, r⟩ : Rotation) :: older :: rest := by
      rw [hlast, he, hrot]
    exact hsane.retains hall hnow

def k₁ : Ratchet := ⟨.replicate 32 1, rfl⟩

def k₂ : Ratchet := ⟨.replicate 32 2, rfl⟩

/-- A ratchet made before the clock is set, and another once it is. -/
def firstDay : List HostOp := [.announce (some k₁), .setClock, .wait (5 * second), .announce (some k₂), .reboot]

theorem ratchets_kept_firstDay :
    ourDestRatchetsLoad (ourDestRatchetsPersist true [k₁.bytes] (1700000000 * second)) =
      ([k₁.bytes], 1700000000 * second) ∧
    (within interval (·.time) (1700000000 * second)
      (run Host.step (hosted 1700000000) firstDay).rotations).length ≤ 2 ∧
    k₁.bytes ∈ (run Host.step (hosted 1700000000) firstDay).dest.ratchets := by
  obtain ⟨hload, hruns⟩ := ratchets_kept
  have hg : Guarded Host.step WholeSeconds (hosted 1700000000) firstDay := by
    refine ⟨nofun, nofun, ?_, nofun, nofun, trivial⟩
    intro dt hdt
    cases hdt
    exact ⟨dvd_mul_left _ _, by decide⟩
  obtain ⟨hwindow, hretain⟩ := hruns 1700000000 firstDay hg
  refine ⟨hload true [k₁.bytes] 1700000000 (by simp [k₁, RATCHETSIZE]), hwindow _, ?_⟩
  exact hretain [.announce (some k₁), .setClock, .wait (5 * second)] (some k₂) [.reboot] _ rfl (by decide) (by decide)
    (by decide)

end MicroReticulum.Rnsd
