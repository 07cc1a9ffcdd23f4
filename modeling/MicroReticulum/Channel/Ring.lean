import MicroReticulum.Lib.Circle
import MicroReticulum.Lib.Runs
import MicroReticulum.Channel.Receiving

/-!
# The order of the RX ring

How far an envelope is from the next awaited one, modulo the sequence space, is
where it belongs in the ring. The insertion goes by the raw numbers, which say
the same as long as nothing from past the wrap is in the way of a number before
it, and the guard lets in numbers of any distance that are not below the next.
-/

namespace MicroReticulum.Channel

open Lib.Circle
open Lib.Runs

variable {d : Channel} {env e : RxEnvelope} {ring ring' : List RxEnvelope} {raw : Bytes} {nextRx x y fuel : Nat}

-- ---------------------------------------------------------------------------
-- The specification
-- ---------------------------------------------------------------------------

/-- How far it is from the awaited sequence number on to another. -/
def distance (nextRx seq : Nat) : Nat := ahead SEQ_MODULUS nextRx seq

structure RingLaw (d : Channel) : Prop where
  distinct : (d.rxRing.map (·.sequence)).Nodup
  ordered : d.rxRing.Pairwise fun a b => distance d.nextRxSequence a.sequence < distance d.nextRxSequence b.sequence
  within : ∀ env ∈ d.rxRing, distance d.nextRxSequence env.sequence ≤ WINDOW_MAX
  awaited : ∀ env ∈ d.rxRing, env.sequence ≠ d.nextRxSequence

/-- Some envelope of the ring is farther than `seq`. -/
def Farther (d : Channel) (seq : Nat) (e : RxEnvelope) : Prop :=
  e ∈ d.rxRing ∧ distance d.nextRxSequence seq < distance d.nextRxSequence e.sequence

/-- What goes into the ring is at most a window ahead, and where envelopes of
the ring are farther, not all of those are from past the wrap. -/
def InPlace (d : Channel) (raw : Bytes) : Prop :=
  ∀ env, unpack raw = some env → outOfWindow env.sequence d.nextRxSequence ∨ env.sequence = d.nextRxSequence ∨
    (∃ e ∈ d.rxRing, e.sequence = env.sequence) ∨
    distance d.nextRxSequence env.sequence ≤ WINDOW_MAX ∧
      ((∃ e, Farther d env.sequence e) → ∃ e, Farther d env.sequence e ∧ d.nextRxSequence < e.sequence)

-- ---------------------------------------------------------------------------
-- Distances and raw numbers
-- ---------------------------------------------------------------------------

theorem distance_eq (hn : nextRx < SEQ_MODULUS) (hx : x < SEQ_MODULUS) :
    distance nextRx x = if nextRx ≤ x then x - nextRx else x + SEQ_MODULUS - nextRx := by
  rw [distance, ahead_eq hx, Nat.mod_eq_of_lt hn]

theorem distance_inj (hx : x < SEQ_MODULUS) (hy : y < SEQ_MODULUS) (h : distance nextRx x = distance nextRx y) :
    x = y := ahead_inj hx hy h

theorem distance_eq_zero (hn : nextRx < SEQ_MODULUS) (hx : x < SEQ_MODULUS) : distance nextRx x = 0 ↔ x = nextRx := by
  rw [distance_eq hn hx]
  split <;> omega

/-- The insertion's test: `x` goes before `y`. -/
def Before (nextRx x y : Nat) : Prop := x < y ∧ ¬ ((nextRx : Int) - x > (SEQ_MAX / 2 : Nat))

instance : Decidable (Before nextRx x y) := inferInstanceAs (Decidable (_ ∧ _))

/-- Of two numbers within the window, the one goes before the other if it is
nearer and neither is past the wrap. -/
theorem before_iff (hn : nextRx < SEQ_MODULUS) (hx : x < SEQ_MODULUS) (hy : y < SEQ_MODULUS)
    (hdx : distance nextRx x ≤ WINDOW_MAX) (hdy : distance nextRx y ≤ WINDOW_MAX) :
    Before nextRx x y ↔ distance nextRx x < distance nextRx y ∧ nextRx < y := by
  rw [distance_eq hn hx] at hdx ⊢
  rw [distance_eq hn hy] at hdy ⊢
  unfold Before
  simp only [SEQ_MODULUS, SEQ_MAX, WINDOW_MAX, WINDOW_MAX_FAST] at *
  split_ifs at hdx hdy ⊢ <;> omega

theorem rxEmplace_cons : rxEmplace env nextRx (e :: ring) =
    if env.sequence = e.sequence then none
    else if Before nextRx env.sequence e.sequence then some (env :: e :: ring)
    else (rxEmplace env nextRx ring).map (e :: ·) := rfl

-- ---------------------------------------------------------------------------
-- Insertion
-- ---------------------------------------------------------------------------

/-- The numbers of a ring that keeps the law, with the next one's. -/
structure Ordered (nextRx : Nat) (ring : List RxEnvelope) : Prop where
  next : nextRx < SEQ_MODULUS
  word : ∀ e ∈ ring, e.sequence < SEQ_MODULUS
  within : ∀ e ∈ ring, distance nextRx e.sequence ≤ WINDOW_MAX
  sorted : ring.Pairwise fun a b => distance nextRx a.sequence < distance nextRx b.sequence

theorem Ordered.tail (h : Ordered nextRx (e :: ring)) : Ordered nextRx ring :=
  ⟨h.next, fun x hx => h.word x (List.mem_cons_of_mem _ hx), fun x hx => h.within x (List.mem_cons_of_mem _ hx),
    (List.pairwise_cons.1 h.sorted).2⟩

/-- A number that is there already is met before any place for it. -/
theorem rxEmplace_duplicate (h : Ordered nextRx ring) (hmem : ∃ e ∈ ring, e.sequence = env.sequence) :
    rxEmplace env nextRx ring = none := by
  induction ring with
  | nil =>
    obtain ⟨e, he, -⟩ := hmem
    cases he
  | cons e ring ih =>
    rw [rxEmplace_cons]
    split
    · rfl
    · next hne =>
      obtain ⟨e', he', hseq⟩ := hmem
      rcases List.mem_cons.1 he' with rfl | he'
      · exact absurd hseq.symm hne
      · have hnear := (List.pairwise_cons.1 h.sorted).1 e' he'
        have hmem' := List.mem_cons_of_mem e he'
        rw [hseq] at hnear
        rw [if_neg, ih h.tail ⟨e', he', hseq⟩, Option.map_none]
        rw [before_iff h.next (hseq ▸ h.word e' hmem') (h.word e List.mem_cons_self) (hseq ▸ h.within e' hmem')
          (h.within e List.mem_cons_self)]
        exact fun hbefore => lt_asymm hnear hbefore.1

/-- Nothing to go before: to the end. -/
theorem rxEmplace_last (h : ∀ e ∈ ring, env.sequence ≠ e.sequence ∧ ¬ Before nextRx env.sequence e.sequence) :
    rxEmplace env nextRx ring = some (ring ++ [env]) := by
  induction ring with
  | nil => rfl
  | cons e ring ih =>
    obtain ⟨hne, hbefore⟩ := h e List.mem_cons_self
    rw [rxEmplace_cons, if_neg hne, if_neg hbefore, ih fun x hx => h x (List.mem_cons_of_mem _ hx)]
    rfl

/-- A new number finds a place. -/
theorem rxEmplace_isSome (h : ∀ e ∈ ring, env.sequence ≠ e.sequence) : ∃ ring', rxEmplace env nextRx ring = some ring' := by
  induction ring with
  | nil => exact ⟨_, rfl⟩
  | cons e ring ih =>
    rw [rxEmplace_cons, if_neg (h e List.mem_cons_self)]
    split
    · exact ⟨_, rfl⟩
    · obtain ⟨ring', hring⟩ := ih fun x hx => h x (List.mem_cons_of_mem _ hx)
      exact ⟨_, by rw [hring]; rfl⟩

/-- In its place, if the nearest of the farther ones is not from past the wrap. -/
theorem rxEmplace_ordered (h : Ordered nextRx ring) (hx : env.sequence < SEQ_MODULUS)
    (hdx : distance nextRx env.sequence ≤ WINDOW_MAX) (hnew : ∀ e ∈ ring, env.sequence ≠ e.sequence)
    (hplace : (∃ e ∈ ring, distance nextRx env.sequence < distance nextRx e.sequence) →
      ∃ e ∈ ring, distance nextRx env.sequence < distance nextRx e.sequence ∧ nextRx < e.sequence) :
    ∃ ring', rxEmplace env nextRx ring = some ring' ∧ Ordered nextRx ring' := by
  induction ring with
  | nil =>
    refine ⟨[env], rfl, h.next, ?_, ?_, List.pairwise_singleton _ _⟩
    all_goals
      intro e he
      obtain rfl := List.mem_singleton.1 he
      assumption
  | cons e ring ih =>
    have hword := h.word e List.mem_cons_self
    have hwithin := h.within e List.mem_cons_self
    obtain ⟨hnear, hsorted⟩ := List.pairwise_cons.1 h.sorted
    rw [rxEmplace_cons, if_neg (hnew e List.mem_cons_self)]
    by_cases hbefore : Before nextRx env.sequence e.sequence
    · rw [if_pos hbefore]
      rw [before_iff h.next hx hword hdx hwithin] at hbefore
      refine ⟨_, rfl, h.next, ?_, ?_, List.pairwise_cons.2 ⟨?_, h.sorted⟩⟩
      · exact List.forall_mem_cons.2 ⟨hx, h.word⟩
      · exact List.forall_mem_cons.2 ⟨hdx, h.within⟩
      · intro y hy
        rcases List.mem_cons.1 hy with rfl | hy
        · exact hbefore.1
        · exact hbefore.1.trans (hnear y hy)
    · rw [if_neg hbefore]
      rw [before_iff h.next hx hword hdx hwithin] at hbefore
      have hlt : distance nextRx e.sequence < distance nextRx env.sequence := by
        -- a farther head from past the wrap has only such behind it
        rcases Nat.lt_or_ge (distance nextRx env.sequence) (distance nextRx e.sequence) with hfar | hle
        · obtain ⟨f, hf, hfarther, hraw⟩ := hplace ⟨e, List.mem_cons_self, hfar⟩
          rcases List.mem_cons.1 hf with rfl | hf
          · exact absurd ⟨hfar, hraw⟩ hbefore
          · have hfe := hnear f hf
            have hfw := h.word f (List.mem_cons_of_mem _ hf)
            have hle : ¬ nextRx < e.sequence := fun hlt => hbefore ⟨hfar, hlt⟩
            rw [distance_eq h.next hword] at hfe hfar
            rw [distance_eq h.next hfw] at hfe
            rw [distance_eq h.next hx] at hfar
            simp only [SEQ_MODULUS] at *
            split_ifs at hfe hfar <;> omega
        · refine lt_of_le_of_ne hle fun heq => hnew e List.mem_cons_self ?_
          exact (distance_inj hword hx heq).symm
      obtain ⟨ring', hring, hordered⟩ := ih h.tail (fun y hy => hnew y (List.mem_cons_of_mem _ hy)) fun ⟨f, hf, hfar⟩ => by
        obtain ⟨g, hg, hgfar, hraw⟩ := hplace ⟨f, List.mem_cons_of_mem _ hf, hfar⟩
        rcases List.mem_cons.1 hg with rfl | hg
        · exact absurd hgfar hlt.not_gt
        · exact ⟨g, hg, hgfar, hraw⟩
      rw [hring]
      refine ⟨_, rfl, h.next, ?_, ?_, List.pairwise_cons.2 ⟨fun y hy => ?_, hordered.sorted⟩⟩
      · exact List.forall_mem_cons.2 ⟨hword, hordered.word⟩
      · exact List.forall_mem_cons.2 ⟨hwithin, hordered.within⟩
      · rcases List.mem_cons.1 ((rxEmplace_perm hring).mem_iff.1 hy) with rfl | hy
        · exact hlt
        · exact hnear y hy

-- ---------------------------------------------------------------------------
-- Delivery
-- ---------------------------------------------------------------------------

theorem Ordered.sub (h : Ordered nextRx ring) (hs : ring'.Sublist ring) : Ordered nextRx ring' :=
  ⟨h.next, fun e he => h.word e (hs.subset he), fun e he => h.within e (hs.subset he), h.sorted.sublist hs⟩

/-- With the awaited one gone, the others are one nearer. -/
theorem Ordered.advance (h : Ordered nextRx ring) (hne : ∀ e ∈ ring, e.sequence ≠ nextRx) :
    Ordered ((nextRx + 1) % SEQ_MODULUS) ring := by
  have hnear : ∀ e ∈ ring, distance ((nextRx + 1) % SEQ_MODULUS) e.sequence + 1 = distance nextRx e.sequence := by
    intro e he
    rw [distance, ahead_mod]
    exact ahead_succ (h.word e he) h.next (hne e he).symm
  refine ⟨Nat.mod_lt _ (by decide), h.word, fun e he => ?_, ?_⟩
  · have hle := h.within e he
    rw [← hnear e he] at hle
    exact Nat.le_of_succ_le hle
  · refine h.sorted.imp_of_mem fun {a b} ha hb hlt => ?_
    rw [← hnear a ha, ← hnear b hb] at hlt
    exact Nat.lt_of_succ_lt_succ hlt

/-- In order, only the head can be the awaited one. -/
theorem Ordered.erase (h : Ordered nextRx ring) (hmem : ∃ e ∈ ring, e.sequence = nextRx) :
    ∀ e ∈ ring.eraseP (·.sequence == nextRx), e.sequence ≠ nextRx := by
  obtain ⟨x, hx, hseq⟩ := hmem
  cases ring with
  | nil => cases hx
  | cons e ring =>
    obtain ⟨hnear, -⟩ := List.pairwise_cons.1 h.sorted
    have hhead : e.sequence = nextRx := by
      rcases List.mem_cons.1 hx with rfl | hx
      · exact hseq
      · have hlt := hnear x hx
        rw [(distance_eq_zero h.next (h.word x (List.mem_cons_of_mem _ hx))).2 hseq] at hlt
        exact absurd hlt (Nat.not_lt_zero _)
    rw [List.eraseP_cons_of_pos (by simpa using hhead)]
    intro y hy heq
    have hlt := hnear y hy
    rw [(distance_eq_zero h.next (h.word y (List.mem_cons_of_mem _ hy))).2 heq] at hlt
    exact absurd hlt (Nat.not_lt_zero _)

theorem drain_ordered (h : Ordered d.nextRxSequence d.rxRing) :
    Ordered (drain fuel d).nextRxSequence (drain fuel d).rxRing := by
  induction fuel generalizing d with
  | zero => exact h
  | succ fuel ih =>
    rw [drain]
    cases hf : d.rxRing.find? (·.sequence == d.nextRxSequence) with
    | none => exact h
    | some env =>
      refine ih ?_
      have hrest := h.sub (List.eraseP_sublist (p := (·.sequence == d.nextRxSequence)))
      exact hrest.advance (h.erase ⟨env, find_next hf⟩)

theorem drain_of_drained (h : Drained d) : drain fuel d = d := by
  cases fuel with
  | zero => rfl
  | succ fuel =>
    have hf : d.rxRing.find? (·.sequence == d.nextRxSequence) = none := by simpa [Drained] using h
    rw [drain, hf]

/-- What was put in somewhere is what is taken out. -/
theorem eraseP_emplaced (h : rxEmplace env nextRx ring = some ring') (hnew : ∀ e ∈ ring, e.sequence ≠ env.sequence) :
    ring'.eraseP (·.sequence == env.sequence) = ring := by
  induction ring generalizing ring' with
  | nil =>
    cases h
    simp
  | cons e ring ih =>
    rw [rxEmplace_cons, if_neg (hnew e List.mem_cons_self).symm] at h
    split at h
    · cases h
      exact List.eraseP_cons_of_pos (by simp)
    · obtain ⟨tail, ht, rfl⟩ := Option.map_eq_some_iff.1 h
      rw [List.eraseP_cons_of_neg (by simpa using hnew e List.mem_cons_self),
        ih ht fun x hx => hnew x (List.mem_cons_of_mem _ hx)]

-- ---------------------------------------------------------------------------
-- Receiving
-- ---------------------------------------------------------------------------

/-- The ring in order, with nothing left to hand over. -/
structure InRing (d : Channel) : Prop where
  ordered : Ordered d.nextRxSequence d.rxRing
  drained : Drained d

theorem InRing.law (h : InRing d) : RingLaw d where
  distinct := by
    refine List.pairwise_map.2 (h.ordered.sorted.imp fun hlt heq => ?_)
    rw [heq] at hlt
    exact lt_irrefl _ hlt
  ordered := h.ordered.sorted
  within := h.ordered.within
  awaited := h.drained

theorem unpack_word (h : unpack raw = some env) : env.sequence < SEQ_MODULUS := by
  unfold unpack at h
  split at h
  · cases h
  · cases h
    have hhi : raw.byte 2 < 2 ^ 8 := UInt8.toNat_lt _
    have hlo : raw.byte 3 < 2 ^ 16 := (UInt8.toNat_lt _).trans (by decide)
    refine Nat.or_lt_two_pow (n := 16) ?_ hlo
    rw [Nat.shiftLeft_eq]
    omega

/-- A new ring, handed over as far as it goes. -/
theorem receive_emplaced (hu : unpack raw = some env) (hin : ¬ outOfWindow env.sequence d.nextRxSequence)
    (hr : rxEmplace env d.nextRxSequence d.rxRing = some ring') :
    receive raw d = drain ring'.length { d with rxRing := ring' } := by
  unfold receive
  rw [hu]
  dsimp only
  rw [if_neg hin, hr]

theorem receive_refused (hu : unpack raw = some env) (h : outOfWindow env.sequence d.nextRxSequence ∨
    rxEmplace env d.nextRxSequence d.rxRing = none) : receive raw d = d := by
  unfold receive
  rw [hu]
  dsimp only
  split
  · rfl
  · next hin => rw [h.resolve_left hin]

theorem InRing.next (h : InRing d) (hu : unpack raw = some env) (hseq : env.sequence = d.nextRxSequence) :
    InRing (receive raw d) := by
  have hin : ¬ outOfWindow env.sequence d.nextRxSequence := by
    rw [hseq]
    simp [outOfWindow]
  have hnew : ∀ e ∈ d.rxRing, e.sequence ≠ env.sequence := fun e he => hseq ▸ h.drained e he
  obtain ⟨ring', hr⟩ : ∃ ring', rxEmplace env d.nextRxSequence d.rxRing = some ring' :=
    rxEmplace_isSome fun e he => (hnew e he).symm
  have hperm := rxEmplace_perm hr
  have hfind : ring'.find? (·.sequence == d.nextRxSequence) = some env := by
    cases hf : ring'.find? (·.sequence == d.nextRxSequence) with
    | none =>
      have hnone := List.find?_eq_none.1 hf env (hperm.mem_iff.2 List.mem_cons_self)
      exact absurd (by simpa using hseq) hnone
    | some e =>
      have hkey : e.sequence = d.nextRxSequence := by simpa using List.find?_some hf
      rcases List.mem_cons.1 (hperm.mem_iff.1 (List.mem_of_find?_eq_some hf)) with rfl | he
      · rfl
      · exact absurd hkey (h.drained e he)
  have herase : ring'.eraseP (·.sequence == d.nextRxSequence) = d.rxRing := hseq ▸ eraseP_emplaced hr hnew
  rw [receive_emplaced hu hin hr, hperm.length_eq, List.length_cons, drain]
  dsimp only
  rw [hfind]
  dsimp only [handOver]
  rw [herase]
  exact ⟨drain_ordered (h.ordered.advance h.drained), drain_drained le_rfl⟩

theorem InRing.receive (h : InRing d) (hok : InPlace d raw) : InRing (receive raw d) := by
  cases hu : unpack raw with
  | none =>
    have hsame : Channel.receive raw d = d := by rw [Channel.receive, hu]
    rwa [hsame]
  | some env =>
    have hword := unpack_word hu
    rcases hok env hu with hout | hseq | hdup | ⟨hdx, hplace⟩
    · rwa [receive_refused hu (.inl hout)]
    · exact h.next hu hseq
    · rwa [receive_refused hu (.inr (rxEmplace_duplicate h.ordered hdup))]
    · by_cases hout : outOfWindow env.sequence d.nextRxSequence = true
      · rwa [receive_refused hu (.inl hout)]
      · by_cases hdup : ∃ e ∈ d.rxRing, e.sequence = env.sequence
        · rwa [receive_refused hu (.inr (rxEmplace_duplicate h.ordered hdup))]
        · have hfarther : (∃ e ∈ d.rxRing, distance d.nextRxSequence env.sequence < distance d.nextRxSequence e.sequence) →
              ∃ e ∈ d.rxRing, distance d.nextRxSequence env.sequence < distance d.nextRxSequence e.sequence ∧
                d.nextRxSequence < e.sequence := by
            intro hbehind
            obtain ⟨f, ⟨hf, hfar⟩, hraw⟩ := hplace hbehind
            exact ⟨f, hf, hfar, hraw⟩
          obtain ⟨ring', hr, hordered⟩ := rxEmplace_ordered h.ordered hword hdx
            (fun e he heq => hdup ⟨e, he, heq.symm⟩) hfarther
          rw [receive_emplaced hu hout hr]
          exact ⟨drain_ordered hordered, drain_drained le_rfl⟩

/-- An envelope that is not the awaited one, once in the ring, is there after the call. -/
theorem receive_stays (h : InRing d) (hu : unpack raw = some env)
    (hin : ¬ outOfWindow env.sequence d.nextRxSequence) (hseq : env.sequence ≠ d.nextRxSequence)
    (hr : rxEmplace env d.nextRxSequence d.rxRing = some ring') : receive raw d = { d with rxRing := ring' } := by
  rw [receive_emplaced hu hin hr]
  refine drain_of_drained fun e he => ?_
  rcases List.mem_cons.1 ((rxEmplace_perm hr).mem_iff.1 he) with rfl | he
  · exact hseq
  · exact h.drained e he

/-- Out of its place, an envelope goes behind one that is farther. -/
theorem InRing.breaks (h : InRing d) (hbad : ¬ InPlace d raw) : ¬ RingLaw (Channel.receive raw d) := by
  simp only [InPlace, not_forall, not_or, not_and] at hbad
  obtain ⟨env, hu, hin, hseq, hdup, hplace⟩ := hbad
  have hword := unpack_word hu
  have hnew : ∀ e ∈ d.rxRing, env.sequence ≠ e.sequence := fun e he heq => hdup ⟨e, he, heq.symm⟩
  by_cases hdx : distance d.nextRxSequence env.sequence ≤ WINDOW_MAX
  · obtain ⟨⟨f, hf, hfar⟩, hwrapped⟩ := hplace hdx
    have hlast : rxEmplace env d.nextRxSequence d.rxRing = some (d.rxRing ++ [env]) := by
      refine rxEmplace_last fun e he => ⟨hnew e he, fun hbefore => ?_⟩
      rw [before_iff h.ordered.next hword (h.ordered.word e he) hdx (h.ordered.within e he)] at hbefore
      exact hwrapped ⟨e, ⟨he, hbefore.1⟩, hbefore.2⟩
    rw [receive_stays h hu hin hseq hlast]
    intro hlaw
    have hlt := (List.pairwise_append.1 hlaw.ordered).2.2 f hf env List.mem_cons_self
    exact lt_asymm hlt hfar
  · obtain ⟨ring', hr⟩ : ∃ ring', rxEmplace env d.nextRxSequence d.rxRing = some ring' := rxEmplace_isSome hnew
    rw [receive_stays h hu hin hseq hr]
    intro hlaw
    exact hdx (hlaw.within env ((rxEmplace_perm hr).mem_iff.2 List.mem_cons_self))

theorem inRing_fresh (mdu : UInt16) : InRing { linkMdu := mdu } :=
  ⟨⟨Nat.zero_lt_succ _, nofun, nofun, .nil⟩, nofun⟩

/-- The ring keeps its law exactly as long as every packet's envelope is at most
a window ahead and finds its place by the raw numbers. -/
theorem ring_in_order (mdu : UInt16) (packets : List Bytes) :
    Throughout (fun d raw => receive raw d) RingLaw { linkMdu := mdu } packets ↔
      Guarded (fun d raw => receive raw d) InPlace { linkMdu := mdu } packets :=
  throughout_iff (fun _ _ h hok => h.receive hok) (fun _ h => h.law) (fun _ _ h hbad => h.breaks hbad)
    (inRing_fresh mdu)

/-- On a fresh channel, number 100 is let in. -/
theorem ring_holds_hundred :
    let d := receive (pack 100 ⟨0x0100, []⟩) { linkMdu := 431 }
    d.rxRing.map (·.sequence) = [100] ∧ d.nextRxSequence = 0 ∧ ¬ RingLaw d := by
  have h : let d := receive (pack 100 ⟨0x0100, []⟩) { linkMdu := 431 }
      d.rxRing = [⟨100, ⟨0x0100, []⟩⟩] ∧ d.nextRxSequence = 0 := by decide +kernel
  obtain ⟨hring, hnext⟩ := h
  refine ⟨by rw [hring]; rfl, hnext, fun hlaw => ?_⟩
  have hle := hlaw.within ⟨100, ⟨0x0100, []⟩⟩ (by rw [hring]; exact List.mem_cons_self)
  rw [hnext] at hle
  exact absurd hle (by decide)

end MicroReticulum.Channel
