import Mathlib.Tactic
import MicroReticulum.Resource.Inputs
import MicroReticulum.Resource.Budget

/-!
# The receiver's window

What rounds, rates and timeouts do to `_window`, its floor and its ceiling. All
of them keep the three in order but one: the second very slow round puts the
ceiling where the window may not have been brought down to.
-/

namespace MicroReticulum.Resource.Incoming

open Lib (Outcome)
open Lib.Runs
open MsgPack (SIZE ResourceAdvertisement)

variable {c : Codec} {d d' : Incoming} {i : Input} {env : Env} {part : Bytes} {rate : ℚ}

-- ---------------------------------------------------------------------------
-- The specification
-- ---------------------------------------------------------------------------

structure WindowLaw (d : Incoming) : Prop where
  least : WINDOW_MIN ≤ d.windowMin
  floor : d.windowMin ≤ d.window
  ceiling : d.window ≤ d.windowMax

/-- The difference a growing window is measured by is one. -/
def GrowsExactly (d : Incoming) : Prop :=
  d.window < d.windowMax → d.windowMin ≤ d.window + 1 ∧ 1 ≤ d.windowFlexibility

/-- So are those of a timeout. -/
def NarrowsExactly (d : Incoming) : Prop :=
  d.windowMin < d.window → 1 ≤ d.window ∧ (d.windowMin < d.windowMax → 1 ≤ d.windowMax ∧
    d.window - 1 ≤ d.windowMax - 1 ∧ 1 ≤ d.windowFlexibility ∧
    (d.windowFlexibility - 1 < d.windowMax - 1 - (d.window - 1) → 1 ≤ d.windowMax - 1))

/-- No subtraction on the window's fields wraps. -/
def NoWrap (d : Incoming) : Input → Prop
  | .part env data => (d.heard env data).GrowsExactly
  | .watchdog _ => d.NarrowsExactly
  | .hashmapUpdate .. | .cancel _ => True

/-- The part is the last of those asked for, and others are missing. -/
def EndsRound (c : Codec) (env : Env) (part : Bytes) (d : Incoming) : Prop :=
  (d.findSlot (c.mapHash d.randomHash part)).isSome ∧ ¬ (d.progressCallback ∧ env.progressThrows) ∧
    d.received + 1 < d.totalParts ∧ d.waitingHmu = false ∧ d.outstandingParts ≤ 1

/-- It comes fast enough to answer the request at the fast rate. -/
def AnswersFast (env : Env) (part : Bytes) (d : Incoming) : Prop :=
  d.reqResp < 0 ∧ (part.length + d.reqSentBytes : ℚ) / (env.now - d.reqSent) > RATE_FAST

/-- The round it ends is the second at a very slow rate. -/
def SecondVerySlow (env : Env) (part : Bytes) (d : Incoming) : Prop :=
  0 < d.reqSent ∧ d.reqSent < env.now ∧ d.fastRateRounds = 0 ∧ ¬ d.AnswersFast env part ∧
    (sizeSub (d.rttRxdBytes + part.length) d.rttRxdBytesAtPartReq : ℚ) / (env.now - d.reqSent) < RATE_VERY_SLOW ∧
    d.verySlowRateRounds + 1 = VERY_SLOW_RATE_THRESHOLD

/-- The second very slow round finds the window below the very slow ceiling. -/
def SlowInTime (c : Codec) (d : Incoming) : Input → Prop
  | .part env data => d.EndsRound c env data → d.SecondVerySlow env data →
      d.window < WINDOW_MAX_VERY_SLOW ∨ d.windowMax ≤ WINDOW_MAX_VERY_SLOW
  | _ => True

-- ---------------------------------------------------------------------------
-- What the window hangs on
-- ---------------------------------------------------------------------------

/-- The window with its bounds. -/
def tiers (d : Incoming) : Nat × Nat × Nat × Nat := (d.window, d.windowMax, d.windowMin, d.windowFlexibility)

theorem tiers_aloof : Aloof tiers := ⟨fun _ _ _ => rfl, fun _ _ _ => rfl⟩

/-- The law in a state that has not lost it. -/
structure Level (d : Incoming) : Prop extends WindowLaw d where
  limit : d.windowMax ≤ WINDOW_MAX_FAST
  flexibility : d.windowFlexibility = WINDOW_FLEXIBILITY

theorem WindowLaw.of_tiers (h : WindowLaw d) (ht : d'.tiers = d.tiers) : WindowLaw d' := by
  simp only [tiers, Prod.mk.injEq] at ht
  obtain ⟨hw, hmax, hmin, -⟩ := ht
  exact ⟨hmin ▸ h.least, by rw [hw, hmin]; exact h.floor, by rw [hw, hmax]; exact h.ceiling⟩

theorem Level.of_tiers (h : Level d) (ht : d'.tiers = d.tiers) : Level d' := by
  refine ⟨h.toWindowLaw.of_tiers ht, ?_, ?_⟩
  all_goals simp only [tiers, Prod.mk.injEq] at ht
  · exact ht.2.1 ▸ h.limit
  · exact ht.2.2.2 ▸ h.flexibility

theorem sizeSub_exact {a b : Nat} (h : b ≤ a) (ha : a < SIZE) : sizeSub a b = a - b := by
  unfold sizeSub
  rw [Nat.sub_add_comm h, Nat.add_mod_right, Nat.mod_eq_of_lt (by omega)]

theorem requestWindow_tiers : (d.requestWindow env).Leaves (tiers · = tiers d) := by
  unfold requestWindow
  split
  · exact Outcome.leaves_done.2 rfl
  · generalize d.wanted d.window (d.consec + 1).toNat = want
    obtain ⟨requested, exhausted⟩ := want
    dsimp only
    split
    · exact Outcome.leaves_done.2 rfl
    · refine Outcome.Leaves.andThen (transmit_view tiers_aloof.deaf) fun d' h => ?_
      exact Outcome.leaves_done.2 h

theorem store_tiers (mhs : List Bytes) (idx : Nat) : (d.store mhs idx).tiers = d.tiers := by
  induction mhs generalizing d idx with
  | nil => rfl
  | cons mh mhs ih =>
    unfold store
    split
    · rfl
    · split
      · exact ih _
      · exact ih _

theorem hashmapUpdatePacket_tiers {plaintext : Bytes} :
    (d.hashmapUpdatePacket env plaintext).All (tiers · = tiers d) := by
  unfold hashmapUpdatePacket
  split
  · exact Outcome.all_done.2 rfl
  · extract_lets e
    split
    · next segment hm _ =>
      let known := { e.store (hashesIn hm) (segment % SIZE * HASHMAP_MAX_LEN % SIZE) with waitingHmu := false }
      have hrequest : (known.requestWindow env).Leaves (tiers · = tiers known) := requestWindow_tiers
      obtain ⟨d', hd', ht⟩ := hrequest
      intro d'' hd''
      cases hd'.symm.trans hd''
      exact ht.trans (store_tiers _ _)
    · exact Outcome.all_done.2 rfl
    · exact Outcome.all_done.2 rfl
    · exact Outcome.all_aborted

-- ---------------------------------------------------------------------------
-- Steps that keep the law
-- ---------------------------------------------------------------------------

theorem Level.countFast (h : Level d) (rate : ℚ) : Level (d.countFast rate) := by
  unfold Incoming.countFast
  split
  · have hlimit := h.limit
    refine ⟨⟨h.least, h.floor, ?_⟩, ?_, h.flexibility⟩
    · dsimp only
      split
      · exact h.ceiling.trans hlimit
      · exact h.ceiling
    · dsimp only
      split
      · exact le_rfl
      · exact hlimit
  · exact h

theorem Level.heard (h : Level d) (env : Env) (part : Bytes) : Level (d.heard env part) := by
  unfold Incoming.heard
  extract_lets
  split
  · split
    · refine Level.countFast ?_ _
      exact h.of_tiers rfl
    · exact h.of_tiers rfl
  · exact h.of_tiers rfl

theorem Level.grown (h : Level d) : Level d.grown := by
  obtain ⟨⟨hleast, hfloor, hceil⟩, hlimit, hflex⟩ := h
  unfold Incoming.grown
  split
  · next hlt =>
    have hsize : sizeSub (d.window + 1) d.windowMin = d.window + 1 - d.windowMin := by
      apply sizeSub_exact (by omega)
      exact (Nat.succ_le_of_lt hlt).trans_lt (hlimit.trans_lt (by norm_num [WINDOW_MAX_FAST]))
    refine ⟨⟨?_, ?_, hlt⟩, hlimit, hflex⟩
    all_goals
      dsimp only
      rw [hsize, hflex, WINDOW_FLEXIBILITY]
      split <;> omega
  · exact ⟨⟨hleast, hfloor, hceil⟩, hlimit, hflex⟩

/-- The window grows no further than the ceiling. -/
theorem grown_window (h : d.window ≤ d.windowMax) :
    d.grown.window ≤ WINDOW_MAX_VERY_SLOW ↔
      d.window < WINDOW_MAX_VERY_SLOW ∨ d.windowMax ≤ WINDOW_MAX_VERY_SLOW := by
  unfold grown
  split
  · dsimp only
    omega
  · omega

theorem Level.narrow (h : Level d) : Level d.narrow := by
  obtain ⟨⟨hleast, hfloor, hceil⟩, hlimit, hflex⟩ := h
  unfold Incoming.narrow
  split
  · next hlt =>
    have hroom : d.windowMax > d.windowMin := lt_of_lt_of_le hlt hceil
    have hsize : sizeSub (d.windowMax - 1) (d.window - 1) = d.windowMax - 1 - (d.window - 1) := by
      apply sizeSub_exact (by omega)
      exact (Nat.sub_le _ 1).trans_lt (hlimit.trans_lt (by norm_num [WINDOW_MAX_FAST]))
    dsimp only
    rw [if_pos hroom, hsize, hflex, WINDOW_FLEXIBILITY]
    refine ⟨⟨hleast, by dsimp only; omega, ?_⟩, ?_, rfl⟩
    all_goals
      dsimp only
      split <;> omega
  · exact ⟨⟨hleast, hfloor, hceil⟩, hlimit, hflex⟩

theorem Level.growsExactly (h : Level d) : d.GrowsExactly := by
  intro _
  refine ⟨h.floor.trans (Nat.le_succ _), ?_⟩
  rw [h.flexibility, WINDOW_FLEXIBILITY]
  norm_num

theorem Level.narrowsExactly (h : Level d) : d.NarrowsExactly := by
  intro hlt
  have hceil := h.ceiling
  have hflex := h.flexibility
  rw [WINDOW_FLEXIBILITY] at hflex
  refine ⟨by omega, fun hroom => ⟨by omega, by omega, by omega, fun _ => by omega⟩⟩

-- ---------------------------------------------------------------------------
-- The very slow ceiling
-- ---------------------------------------------------------------------------

/-- The ceiling comes down with this round. -/
def CountsVerySlow (env : Env) (d : Incoming) : Prop :=
  0 < d.reqSent ∧ d.reqSent < env.now ∧ d.fastRateRounds = 0 ∧ d.roundRate env < RATE_VERY_SLOW ∧
    d.verySlowRateRounds + 1 = VERY_SLOW_RATE_THRESHOLD

theorem countFast_slow (h : rate < RATE_VERY_SLOW) : d.countFast rate = d := by
  unfold countFast
  refine if_neg fun hfast => ?_
  have hlt : RATE_VERY_SLOW < RATE_FAST := by norm_num [RATE_VERY_SLOW, RATE_FAST]
  exact absurd (hfast.1.trans (h.trans hlt)) (lt_irrefl _)

theorem Level.countVerySlow (h : Level d)
    (hin : d.verySlowRateRounds + 1 = VERY_SLOW_RATE_THRESHOLD → d.fastRateRounds = 0 → rate < RATE_VERY_SLOW →
      d.window ≤ WINDOW_MAX_VERY_SLOW) : Level (d.countVerySlow rate) := by
  unfold Incoming.countVerySlow
  split
  · next hc =>
    refine ⟨⟨h.least, h.floor, ?_⟩, ?_, h.flexibility⟩
    all_goals
      dsimp only
      split
    · next hsecond => exact hin hsecond hc.1 hc.2.1
    · exact h.ceiling
    · norm_num [WINDOW_MAX_VERY_SLOW, WINDOW_MAX_FAST]
    · exact h.limit
  · exact h

theorem Level.counted (h : Level d) (hin : d.CountsVerySlow env → d.window ≤ WINDOW_MAX_VERY_SLOW) :
    Level (d.counted env) := by
  unfold Incoming.counted
  split
  · next hpos =>
    have he : Level (d.rated env) := h.of_tiers rfl
    refine (he.countFast _).countVerySlow fun hsecond hfast hrate => ?_
    rw [countFast_slow hrate] at hsecond hfast ⊢
    exact hin ⟨hpos.1, sub_pos.1 hpos.2, hfast, hrate, hsecond⟩
  · exact h

/-- The second very slow round leaves a ceiling of four over any window. -/
theorem counted_ceiling (h : d.CountsVerySlow env) :
    (d.counted env).window = d.window ∧ (d.counted env).windowMax = WINDOW_MAX_VERY_SLOW := by
  obtain ⟨hsent, hnow, hfast, hrate, hsecond⟩ := h
  have hcount : (d.rated env).verySlowRateRounds < VERY_SLOW_RATE_THRESHOLD := Nat.lt_of_succ_le hsecond.le
  unfold counted
  rw [if_pos ⟨hsent, sub_pos.2 hnow⟩, countFast_slow hrate, Incoming.countVerySlow, if_pos ⟨hfast, hrate, hcount⟩]
  exact ⟨rfl, if_pos hsecond⟩

-- ---------------------------------------------------------------------------
-- Parts
-- ---------------------------------------------------------------------------

/-- What of a part's arrival the next window hangs on. -/
def arrived (env : Env) (part : Bytes) (d : Incoming) : Incoming :=
  { d.heard env part with rttRxdBytes := (d.heard env part).rttRxdBytes + part.length }

/-- The slots and the counts of parts beside the window. -/
def beside (d : Incoming) (parts : List Bytes) (received : Nat) (consec : Int) (outstandingParts : Nat)
    (log : List Event) : Incoming :=
  { d with parts, received, consec, outstandingParts, log }

section

variable (parts : List Bytes) (received : Nat) (consec : Int) (outstandingParts : Nat) (log : List Event)

theorem ite_beside {p : Prop} [Decidable p] (a b : Incoming) :
    (if p then a else b).beside parts received consec outstandingParts log =
      if p then a.beside parts received consec outstandingParts log
      else b.beside parts received consec outstandingParts log := by
  split <;> rfl

theorem grown_beside (d : Incoming) : (d.beside parts received consec outstandingParts log).grown =
    d.grown.beside parts received consec outstandingParts log := by
  unfold grown
  rw [ite_beside]
  rfl

theorem countFast_beside (d : Incoming) : (d.beside parts received consec outstandingParts log).countFast rate =
    (d.countFast rate).beside parts received consec outstandingParts log := by
  unfold countFast
  rw [ite_beside]
  rfl

theorem countVerySlow_beside (d : Incoming) :
    (d.beside parts received consec outstandingParts log).countVerySlow rate =
      (d.countVerySlow rate).beside parts received consec outstandingParts log := by
  unfold countVerySlow
  rw [ite_beside]
  rfl

theorem counted_beside (d : Incoming) : (d.beside parts received consec outstandingParts log).counted env =
    (d.counted env).beside parts received consec outstandingParts log := by
  unfold counted
  rw [ite_beside, ← countVerySlow_beside, ← countFast_beside]
  rfl

theorem adapt_beside (d : Incoming) : (d.beside parts received consec outstandingParts log).adapt env =
    (d.adapt env).beside parts received consec outstandingParts log := by
  rw [adapt_eq, adapt_eq, grown_beside, counted_beside]

end

/-- The next window is asked for at the end of a round. -/
theorem requestNext_tiers :
    (d.requestNext env).Leaves fun d' =>
      (d.received < d.totalParts ∧ d.waitingHmu = false ∧ d.outstandingParts = 0 → d'.tiers = (d.adapt env).tiers) ∧
        (¬ (d.received < d.totalParts ∧ d.waitingHmu = false ∧ d.outstandingParts = 0) → d'.tiers = d.tiers) := by
  unfold requestNext
  simp only [Bool.not_eq_true']
  split
  · next h => exact requestWindow_tiers.mono fun _ ht => ⟨fun _ => ht, fun hn => absurd h hn⟩
  · next h => exact Outcome.leaves_done.2 ⟨fun hy => absurd hy h, fun _ => rfl⟩

/-- A round's end, and no other part, moves the window. -/
theorem receivePart_tiers : (d.receivePart c env part).1.Leaves fun d' =>
    (d.EndsRound c env part → d'.tiers = ((d.arrived env part).adapt env).tiers) ∧
      (¬ d.EndsRound c env part → d'.tiers = (d.heard env part).tiers) := by
  cases hslot : d.findSlot (c.mapHash d.randomHash part) with
  | none =>
    rw [receivePart_missed hslot]
    refine Outcome.leaves_done.2 ⟨fun h => ?_, fun _ => rfl⟩
    have hsome := h.1
    rw [hslot] at hsome
    cases hsome
  | some i =>
    rw [receivePart_taken hslot]
    obtain ⟨_, _, _, _, _, _, he⟩ := heard_fields env d part
    have hcb : ((d.heard env part).fill i part).progressCallback = d.progressCallback := by rw [he]; rfl
    have hends : d.EndsRound c env part ↔ ¬ (d.progressCallback ∧ env.progressThrows) ∧
        ((d.heard env part).fill i part).received < ((d.heard env part).fill i part).totalParts ∧
        ((d.heard env part).fill i part).waitingHmu = false ∧
        ((d.heard env part).fill i part).outstandingParts = 0 := by
      have h0 : ((d.heard env part).fill i part).outstandingParts = d.outstandingParts - 1 := by rw [he]; rfl
      have h1 : ((d.heard env part).fill i part).received = d.received + 1 := by rw [he]; rfl
      have h2 : ((d.heard env part).fill i part).totalParts = d.totalParts := by rw [he]; rfl
      have h3 : ((d.heard env part).fill i part).waitingHmu = d.waitingHmu := by rw [he]; rfl
      rw [h0, h1, h2, h3, Nat.sub_eq_zero_iff_le]
      unfold EndsRound
      simp [hslot]
    have hadapt : ∀ log, ({ (d.heard env part).fill i part with log }.adapt env).tiers =
        ((d.arrived env part).adapt env).tiers := by
      intro log
      let e := (d.heard env part).fill i part
      have hbeside : { e with log } =
          (d.arrived env part).beside e.parts e.received e.consec e.outstandingParts log := rfl
      rw [hbeside, adapt_beside]
      rfl
    by_cases hthrow : d.progressCallback ∧ env.progressThrows
    · rw [notify_threw (hcb.symm ▸ hthrow)]
      exact Outcome.leaves_threw.2 ⟨fun h => absurd hthrow h.2.1, fun _ => rfl⟩
    · obtain ⟨log, hnotify⟩ : ∃ log, ((d.heard env part).fill i part).notify env =
          .done { (d.heard env part).fill i part with log } := by
        rcases notify_done (by rwa [hcb]) with hsame | hnote
        · exact ⟨_, hsame⟩
        · exact ⟨_, hnote⟩
      rw [hnotify, Outcome.andThen_done]
      refine Outcome.Leaves.andThen (requestNext_tiers.mono fun d' h => ⟨fun hy => ?_, fun hn => ?_⟩) fun d' h => ?_
      · exact (h.1 (hends.1 hy).2).trans (hadapt log)
      · exact h.2 fun hy => hn (hends.2 ⟨hthrow, hy⟩)
      · refine (assembleFull_view tiers_aloof).mono fun _ ht => ?_
        have hsame := ht.trans (ite_self (tiers d'))
        exact ⟨fun hy => hsame.trans (h.1 hy), fun hn => hsame.trans (h.2 hn)⟩

-- ---------------------------------------------------------------------------
-- The second very slow round
-- ---------------------------------------------------------------------------

theorem heard_slow (hnow : d.reqSent < env.now) (h : ¬ d.AnswersFast env part) :
    (d.heard env part).fastRateRounds = d.fastRateRounds ∧ (d.heard env part).windowMax = d.windowMax := by
  unfold heard
  dsimp only
  split
  · next hresp =>
    rw [if_pos (sub_pos.2 hnow), countFast, if_neg fun hfast => h ⟨hresp, hfast.1⟩]
    exact ⟨rfl, rfl⟩
  · exact ⟨rfl, rfl⟩

theorem heard_fast (hnow : d.reqSent < env.now) (hzero : d.fastRateRounds = 0) (h : d.AnswersFast env part) :
    (d.heard env part).fastRateRounds = 1 := by
  unfold heard
  dsimp only
  rw [if_pos h.1, if_pos (sub_pos.2 hnow), countFast, if_pos ⟨h.2, by rw [hzero]; decide⟩]
  exact congrArg (· + 1) hzero

theorem heard_fastRateRounds_pos (h : d.fastRateRounds ≠ 0) : (d.heard env part).fastRateRounds ≠ 0 := by
  unfold heard countFast
  dsimp only
  repeat' split
  all_goals first | exact Nat.succ_ne_zero _ | exact h

theorem arrived_countsVerySlow : (d.arrived env part).CountsVerySlow env ↔ d.SecondVerySlow env part := by
  obtain ⟨_, _, _, _, rounds, _, he⟩ := heard_fields env d part
  have hsent : (d.arrived env part).reqSent = d.reqSent := by rw [arrived, he]
  have hrate : (d.arrived env part).roundRate env =
      (sizeSub (d.rttRxdBytes + part.length) d.rttRxdBytesAtPartReq : ℚ) / (env.now - d.reqSent) := by
    rw [roundRate, arrived, he]
  have hslow : (d.arrived env part).verySlowRateRounds = d.verySlowRateRounds := by rw [arrived, he]
  have hrounds : (d.arrived env part).fastRateRounds = (d.heard env part).fastRateRounds := rfl
  unfold CountsVerySlow SecondVerySlow
  rw [hsent, hrate, hslow, hrounds]
  constructor
  · rintro ⟨hpos, hnow, hfast, hrest⟩
    have hzero : d.fastRateRounds = 0 := by
      by_contra hn
      exact heard_fastRateRounds_pos hn hfast
    refine ⟨hpos, hnow, hzero, fun ha => ?_, hrest⟩
    rw [heard_fast hnow hzero ha] at hfast
    cases hfast
  · rintro ⟨hpos, hnow, hzero, hno, hrest⟩
    exact ⟨hpos, hnow, (heard_slow hnow hno).1.trans hzero, hrest⟩

theorem grown_countsVerySlow : d.grown.CountsVerySlow env ↔ d.CountsVerySlow env := by
  unfold grown
  split <;> exact Iff.rfl

/-- What the second very slow round finds decides whether the ceiling stays above. -/
theorem arrived_grown (h : Level d) (hslow : d.SecondVerySlow env part) :
    (d.arrived env part).grown.window ≤ WINDOW_MAX_VERY_SLOW ↔
      d.window < WINDOW_MAX_VERY_SLOW ∨ d.windowMax ≤ WINDOW_MAX_VERY_SLOW := by
  have hmax : (d.arrived env part).windowMax = d.windowMax := (heard_slow hslow.2.1 hslow.2.2.2.1).2
  have hwindow : (d.arrived env part).window = d.window := by
    obtain ⟨_, _, _, _, _, _, he⟩ := heard_fields env d part
    rw [arrived, he]
  rw [grown_window (by rw [hwindow, hmax]; exact h.ceiling), hwindow, hmax]

theorem Level.takePart (h : Level d) (hok : SlowInTime c d (.part env part)) : Level (d.take c (.part env part)) := by
  refine take_of_leaves (P := Level) (Outcome.Leaves.mono receivePart_tiers fun d' hd' => ?_)
  by_cases hends : d.EndsRound c env part
  · refine Level.of_tiers ?_ (hd'.1 hends)
    have harrived : Level (d.arrived env part) := (h.heard env part).of_tiers rfl
    rw [adapt_eq]
    refine harrived.grown.counted fun hcounts => ?_
    have hslow := arrived_countsVerySlow.1 (grown_countsVerySlow.1 hcounts)
    exact (arrived_grown h hslow).2 (hok hends hslow)
  · exact (h.heard env part).of_tiers (hd'.2 hends)

theorem Level.breaks (h : Level d) (hbad : ¬ SlowInTime c d (.part env part)) :
    ¬ WindowLaw (d.take c (.part env part)) := by
  simp only [SlowInTime, Classical.not_imp] at hbad
  obtain ⟨hends, hslow, hwide⟩ := hbad
  refine take_of_leaves (P := fun d => ¬ WindowLaw d) (Outcome.Leaves.mono receivePart_tiers fun d' hd' hlaw => ?_)
  have hcounted := counted_ceiling (grown_countsVerySlow.2 (arrived_countsVerySlow.2 hslow))
  rw [← adapt_eq] at hcounted
  have hceil := (hlaw.of_tiers (hd'.1 hends).symm).ceiling
  rw [hcounted.1, hcounted.2] at hceil
  exact hwide ((arrived_grown h hslow).1 hceil)

-- ---------------------------------------------------------------------------
-- The window law
-- ---------------------------------------------------------------------------

theorem watchdog_tiers : (d.watchdog env).Leaves fun d' => d'.tiers = d.tiers ∨ d'.tiers = d.narrow.tiers := by
  unfold watchdog
  split
  · exact Outcome.leaves_done.2 (.inl rfl)
  · dsimp only
    split
    · exact Outcome.leaves_done.2 (.inl rfl)
    · split
      · refine requestWindow_tiers.mono fun d' h => .inr (h.trans ?_)
        unfold narrow updateEifr
        dsimp only
        split
        · split <;> rfl
        · rfl
      · exact (cancel_view tiers_aloof).mono fun _ h => .inl h

theorem Level.take (h : Level d) (hok : SlowInTime c d i) : Level (d.take c i) := by
  cases i with
  | part env data => exact h.takePart hok
  | hashmapUpdate env plaintext =>
    exact take_of_all (P := Level) (hashmapUpdatePacket_tiers.mono fun _ ht => h.of_tiers ht) h
  | watchdog env =>
    refine take_of_leaves (P := Level) (watchdog_tiers.mono fun d' hd' => ?_)
    rcases hd' with ht | ht
    · exact h.of_tiers ht
    · exact h.narrow.of_tiers ht
  | cancel env => exact take_of_leaves (P := Level) ((cancel_view tiers_aloof).mono fun _ ht => h.of_tiers ht)

theorem Level.noWrap (h : Level d) : NoWrap d i := by
  cases i with
  | part env data => exact (h.heard env data).growsExactly
  | watchdog env => exact h.narrowsExactly
  | hashmapUpdate env plaintext => trivial
  | cancel env => trivial

theorem accepted_level (env : Env) (adv : ResourceAdvertisement) (requestId : Bytes)
    (concludedCallback progressCallback : Bool) :
    Level (accepted env adv requestId concludedCallback progressCallback) := by
  refine accepted_of_leaves (P := Level) (requestWindow_tiers.mono fun d' ht => Level.of_tiers ?_ ht)
  refine ⟨⟨le_rfl, ?_, ?_⟩, ?_, rfl⟩
  · change WINDOW_MIN ≤ WINDOW
    decide
  · change WINDOW ≤ WINDOW_MAX_SLOW
    decide
  · change WINDOW_MAX_SLOW ≤ WINDOW_MAX_FAST
    decide

/-- The law holds, with nothing wrapping, exactly as long as no second very
slow round finds the window past the very slow ceiling. -/
theorem receiver_window_law (c : Codec) (env : Env) (adv : ResourceAdvertisement) (requestId : Bytes)
    (concludedCallback progressCallback : Bool) (inputs : List Input) :
    Throughout (take c) WindowLaw (accepted env adv requestId concludedCallback progressCallback) inputs ∧
        Guarded (take c) NoWrap (accepted env adv requestId concludedCallback progressCallback) inputs ↔
      Guarded (take c) (SlowInTime c) (accepted env adv requestId concludedCallback progressCallback) inputs := by
  have hstart := accepted_level env adv requestId concludedCallback progressCallback
  have hstep : ∀ d i, Level d → SlowInTime c d i → Level (d.take c i) := fun _ _ h hok => h.take hok
  have hbreaks : ∀ d i, Level d → ¬ SlowInTime c d i → ¬ WindowLaw (d.take c i) := by
    intro d i h hbad
    cases i with
    | part env data => exact h.breaks hbad
    | _ => exact absurd trivial hbad
  refine ⟨fun h => (throughout_iff hstep (fun _ h => h.toWindowLaw) hbreaks hstart).1 h.1, fun h => ⟨?_, ?_⟩⟩
  · exact (throughout_iff hstep (fun _ h => h.toWindowLaw) hbreaks hstart).2 h
  · exact h.mono_inv hstep (fun _ _ h _ => h.noWrap) hstart

/-- A resource of twelve parts, the hashes all known. -/
def twelveParts : ResourceAdvertisement :=
  { n := 12, t := 12, d := 12, h := List.replicate 32 0, r := List.replicate 4 0
    m := (List.range 12).flatMap fun k => [.ofNat (k + 1), 0, 0, 0] }

/-- Two rounds of a quarter of an hour each. -/
def slowRounds : List Input :=
  [1, 2, 3, 4].map (fun k => .part (Intake.clear 1001) [k]) ++ [5, 6, 7, 8, 9].map fun k => .part (Intake.clear 2001) [k]

/-- The window is at six when the ceiling comes down to four, and the next
timeout takes one difference of them below zero: the ceiling ends up below the floor. -/
theorem slowRounds_wrap :
    let d := run (take Intake.byFirst) (accepted (Intake.clear 1) twelveParts [] false false) slowRounds
    let late := Input.watchdog (Intake.clear 1000000000)
    d.window = 6 ∧ d.windowMax = 4 ∧ ¬ WindowLaw d ∧ ¬ NoWrap d late ∧
      (d.take Intake.byFirst late).windowMax = 2 ∧ (d.take Intake.byFirst late).windowMin = 3 := by
  have h : let d := run (take Intake.byFirst) (accepted (Intake.clear 1) twelveParts [] false false) slowRounds
      let late := Input.watchdog (Intake.clear 1000000000)
      d.window = 6 ∧ d.windowMax = 4 ∧ d.windowMin = 3 ∧
        (d.take Intake.byFirst late).windowMax = 2 ∧ (d.take Intake.byFirst late).windowMin = 3 := by
    decide +kernel
  obtain ⟨hw, hmax, hmin, hlate⟩ := h
  refine ⟨hw, hmax, fun hlaw => ?_, fun hexact => ?_, hlate⟩
  · have hceil := hlaw.ceiling
    rw [hw, hmax] at hceil
    exact absurd hceil (by decide)
  · have hnarrow := (hexact (by rw [hw, hmin]; decide)).2 (by rw [hmax, hmin]; decide)
    have hle := hnarrow.2.1
    rw [hw, hmax] at hle
    exact absurd hle (by decide)

end MicroReticulum.Resource.Incoming
