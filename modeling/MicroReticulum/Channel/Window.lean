import Mathlib.Tactic
import MicroReticulum.Channel.Delivery

/-!
# The sender's window

`channelWindowOpen` and `channelWindowClose` under every order of deliveries,
retries and round trips. The ceiling never leaves its bounds and the gap to the
floor is never closed below the flexibility; the floor, though, is raised to
its tier without a look at the window.
-/

namespace MicroReticulum.Channel

open Lib.Runs

/-- What moves the window: an envelope proved, one sent again, and the round
trip the link measures. -/
inductive WindowEvent where
  | delivered
  | retried
  | roundTrip (rtt : ℚ)
  deriving DecidableEq, Repr

variable {d d' d'' : Channel} {e : WindowEvent} {s : Pair} {op : Op} {kept rest : List TxEnvelope}
  {now : ℚ} {carried : Nat → Bool}

def windowStep (d : Channel) : WindowEvent → Channel
  | .delivered => windowOpen d
  | .retried => windowClose d
  | .roundTrip rtt => { d with rtt }

structure WindowLaw (d : Channel) : Prop where
  positive : 1 ≤ d.windowMin
  floor : d.windowMin ≤ d.window
  ceiling : d.window ≤ d.windowMax
  limit : d.windowMax ≤ WINDOW_MAX_FAST

/-- The slack between floor and ceiling, where a step may not take it below the
flexibility. -/
def KeepsGap (d d' : Channel) : Prop :=
  min WINDOW_FLEXIBILITY (d.windowMax - d.windowMin) ≤ d'.windowMax - d'.windowMin

-- ---------------------------------------------------------------------------
-- Tiers
-- ---------------------------------------------------------------------------

/-- The next delivery is the tenth in a row inside the medium round trip. -/
def EarnsMedium (d : Channel) : Prop :=
  d.rtt ≠ 0 ∧ RTT_FAST < d.rtt ∧ d.rtt ≤ RTT_MEDIUM ∧ d.windowMax < WINDOW_MAX_MEDIUM ∧
    (d.mediumRateRounds + 1) % 65536 = FAST_RATE_THRESHOLD

/-- The next delivery is the tenth in a row inside the fast round trip. -/
def EarnsFast (d : Channel) : Prop :=
  d.rtt ≠ 0 ∧ d.rtt ≤ RTT_FAST ∧ d.windowMax < WINDOW_MAX_FAST ∧
    (d.fastRateRounds + 1) % 65536 = FAST_RATE_THRESHOLD

instance : Decidable (EarnsMedium d) := inferInstanceAs (Decidable (_ ∧ _))

instance : Decidable (EarnsFast d) := inferInstanceAs (Decidable (_ ∧ _))

theorem windowOpen_window :
    (windowOpen d).window = if d.window < d.windowMax then d.window + 1 else d.window := by
  unfold windowOpen
  dsimp only
  split_ifs <;> rfl

/-- All a delivery can do to the bounds. -/
theorem windowOpen_bounds :
    (EarnsFast d ∧ (windowOpen d).windowMax = WINDOW_MAX_FAST ∧
        (windowOpen d).windowMin = WINDOW_MIN_LIMIT_FAST) ∨
      (EarnsMedium d ∧ ¬ EarnsFast d ∧ (windowOpen d).windowMax = WINDOW_MAX_MEDIUM ∧
        (windowOpen d).windowMin = WINDOW_MIN_LIMIT_MEDIUM) ∨
      (¬ EarnsMedium d ∧ ¬ EarnsFast d ∧ (windowOpen d).windowMax = d.windowMax ∧
        (windowOpen d).windowMin = d.windowMin) := by
  unfold windowOpen
  generalize (if d.window < d.windowMax then d.window + 1 else d.window) = opened
  dsimp only
  split_ifs with h0 hf hm ht ht
  · exact .inr (.inr ⟨fun h => h.1 h0, fun h => h.1 h0, rfl, rfl⟩)
  · exact .inr (.inr ⟨fun h => h.2.2.1.not_gt hm, fun h => h.2.1.not_gt hf, rfl, rfl⟩)
  · exact .inr (.inl ⟨⟨h0, hf, not_lt.1 hm, ht⟩, fun h => h.2.1.not_gt hf, rfl, rfl⟩)
  · exact .inr (.inr ⟨fun h => ht h.2.2.2, fun h => h.2.1.not_gt hf, rfl, rfl⟩)
  · exact .inl ⟨⟨h0, not_lt.1 hf, ht⟩, rfl, rfl⟩
  · exact .inr (.inr ⟨fun h => hf h.2.1, fun h => ht h.2.2, rfl, rfl⟩)

-- ---------------------------------------------------------------------------
-- What holds in every order
-- ---------------------------------------------------------------------------

/-- All of the law but the floor. -/
structure Bounds (d : Channel) : Prop where
  positive : 1 ≤ d.windowMin
  open_ : 1 ≤ d.window
  room : d.windowMin ≤ d.windowMax
  ceiling : d.window ≤ d.windowMax
  slow : WINDOW_MAX_SLOW ≤ d.windowMax
  limit : d.windowMax ≤ WINDOW_MAX_FAST

theorem Bounds.windowOpen (h : Bounds d) : Bounds (windowOpen d) ∧ KeepsGap d (windowOpen d) := by
  obtain ⟨hp, ho, hr, hc, hs, hl⟩ := h
  simp only [KeepsGap, WINDOW_FLEXIBILITY]
  simp only [WINDOW_MAX_FAST, WINDOW_MAX_SLOW] at hs hl
  have hw := windowOpen_window (d := d)
  rcases windowOpen_bounds (d := d) with ⟨-, hmax, hmin⟩ | ⟨hm, -, hmax, hmin⟩ | ⟨-, -, hmax, hmin⟩
  · rw [hmax, hmin]
    refine ⟨⟨?_, ?_, ?_, ?_, ?_, ?_⟩, ?_⟩ <;> grind [WINDOW_MAX_FAST, WINDOW_MIN_LIMIT_FAST, WINDOW_MAX_SLOW]
  · have hlt := hm.2.2.2.1
    rw [hmax, hmin]
    refine ⟨⟨?_, ?_, ?_, ?_, ?_, ?_⟩, ?_⟩ <;>
      grind [WINDOW_MAX_FAST, WINDOW_MAX_MEDIUM, WINDOW_MIN_LIMIT_MEDIUM, WINDOW_MAX_SLOW]
  · rw [hmax, hmin]
    refine ⟨⟨?_, ?_, ?_, ?_, ?_, ?_⟩, ?_⟩ <;> grind [WINDOW_MAX_FAST, WINDOW_MAX_SLOW]

/-- All a retry can do: the ceiling follows the window down while there is more
than the flexibility's slack. -/
theorem Bounds.windowClose_cases (h : Bounds d) :
    windowClose d = d ∨
      (d.windowMin < d.window ∧ (windowClose d).window = d.window - 1 ∧
        (windowClose d).windowMin = d.windowMin ∧ (windowClose d).windowMax =
          if d.windowMin + WINDOW_FLEXIBILITY < d.windowMax then d.windowMax - 1 else d.windowMax) := by
  have hroom := h.room.trans h.limit
  have hmod : (d.windowMin + WINDOW_FLEXIBILITY) % 65536 = d.windowMin + WINDOW_FLEXIBILITY := by
    apply Nat.mod_eq_of_lt
    simp only [WINDOW_FLEXIBILITY, WINDOW_MAX_FAST] at hroom ⊢
    omega
  unfold Channel.windowClose
  split
  · exact .inl rfl
  · next hlt => exact .inr ⟨not_le.1 hlt, rfl, rfl, by simp only [hmod, gt_iff_lt]⟩

theorem Bounds.windowClose (h : Bounds d) : Bounds (windowClose d) ∧ KeepsGap d (windowClose d) := by
  rcases h.windowClose_cases with heq | ⟨hlt, hw, hmin, hmax⟩
  · rw [heq]
    exact ⟨h, min_le_right _ _⟩
  · obtain ⟨hp, ho, hr, hc, hs, hl⟩ := h
    simp only [WINDOW_MAX_SLOW] at hs
    simp only [KeepsGap]
    rw [hmax, hmin]
    refine ⟨⟨?_, ?_, ?_, ?_, ?_, ?_⟩, ?_⟩ <;> grind [WINDOW_FLEXIBILITY, WINDOW_MAX_SLOW]

theorem Bounds.step (h : Bounds d) : Bounds (windowStep d e) ∧ KeepsGap d (windowStep d e) := by
  cases e with
  | delivered => exact h.windowOpen
  | retried => exact h.windowClose
  | roundTrip rtt =>
    exact ⟨⟨h.positive, h.open_, h.room, h.ceiling, h.slow, h.limit⟩, min_le_right _ _⟩

theorem bounds_fresh (mdu : UInt16) : Bounds { linkMdu := mdu } := by
  constructor <;> simp [WINDOW, WINDOW_MIN, WINDOW_MAX_SLOW, WINDOW_MAX_FAST]

-- ---------------------------------------------------------------------------
-- The floor
-- ---------------------------------------------------------------------------

/-- No delivery earns the fast tier, and the medium tier finds its floor
reached by the window it opens. -/
def FloorReached (d : Channel) : WindowEvent → Prop
  | .delivered => ¬ EarnsFast d ∧ (EarnsMedium d → WINDOW_MIN_LIMIT_MEDIUM ≤ d.window + 1)
  | _ => True

/-- Where the window stands while the fast tier has not been earned. -/
structure Level (d : Channel) : Prop extends Bounds d where
  floor : d.windowMin ≤ d.window
  medium : d.windowMax ≤ WINDOW_MAX_MEDIUM

theorem Level.law (h : Level d) : WindowLaw d := ⟨h.positive, h.floor, h.ceiling, h.limit⟩

theorem Level.windowOpen (h : Level d) (hok : FloorReached d .delivered) : Level (windowOpen d) := by
  have hw := windowOpen_window (d := d)
  have hf := h.floor
  have hm := h.medium
  have hs := h.slow
  simp only [WINDOW_MAX_SLOW] at hs
  rcases windowOpen_bounds (d := d) with ⟨hfast, -⟩ | ⟨hmed, -, hmax, hmin⟩ | ⟨-, -, hmax, hmin⟩
  · exact absurd hfast hok.1
  · have hreach := hok.2 hmed
    simp only [WINDOW_MIN_LIMIT_MEDIUM] at hreach hmin
    refine ⟨h.toBounds.windowOpen.1, ?_, hmax.le⟩
    rw [hw, hmin]
    split <;> omega
  · refine ⟨h.toBounds.windowOpen.1, ?_, hmax.trans_le hm⟩
    rw [hw, hmin]
    split <;> omega

theorem Level.windowClose (h : Level d) : Level (windowClose d) := by
  rcases h.toBounds.windowClose_cases with heq | ⟨hlt, hw, hmin, hmax⟩
  · rwa [heq]
  · have hm := h.medium
    refine ⟨h.toBounds.windowClose.1, ?_, ?_⟩
    · rw [hw, hmin]
      omega
    · rw [hmax]
      split <;> omega

theorem Level.step (h : Level d) (hok : FloorReached d e) : Level (windowStep d e) := by
  cases e with
  | delivered => exact h.windowOpen hok
  | retried => exact h.windowClose
  | roundTrip rtt => exact ⟨h.toBounds.step.1, h.floor, h.medium⟩

/-- A floor raised past the window shows at once. -/
theorem Level.breaks (h : Level d) (hbad : ¬ FloorReached d e) : ¬ WindowLaw (windowStep d e) := by
  cases e with
  | delivered =>
    intro hlaw
    have hfl : (Channel.windowOpen d).windowMin ≤ (Channel.windowOpen d).window := hlaw.floor
    have hw := windowOpen_window (d := d)
    have hm := h.medium
    have hc := h.ceiling
    rw [hw] at hfl
    rcases windowOpen_bounds (d := d) with ⟨-, -, hmin⟩ | ⟨-, hno, -, hmin⟩ | ⟨hno, hno', -⟩
    · -- the fast floor is above the medium ceiling
      simp only [hmin, WINDOW_MIN_LIMIT_FAST, WINDOW_MAX_MEDIUM] at hfl hm
      split at hfl <;> omega
    · refine hbad ⟨hno, fun _ => ?_⟩
      rw [hmin] at hfl
      split at hfl <;> omega
    · exact hbad ⟨hno', fun hmed => absurd hmed hno⟩
  | retried => exact absurd trivial hbad
  | roundTrip rtt => exact absurd trivial hbad

theorem level_fresh (mdu : UInt16) : Level { linkMdu := mdu } :=
  ⟨bounds_fresh mdu, by simp [WINDOW, WINDOW_MIN], by simp [WINDOW_MAX_SLOW, WINDOW_MAX_MEDIUM]⟩

-- ---------------------------------------------------------------------------
-- The window of a channel in use
-- ---------------------------------------------------------------------------

/-- Two channels whose windows have the same past. -/
structure SameWindow (d d' : Channel) : Prop where
  rtt : d.rtt = d'.rtt
  window : d.window = d'.window
  windowMax : d.windowMax = d'.windowMax
  windowMin : d.windowMin = d'.windowMin
  fastRateRounds : d.fastRateRounds = d'.fastRateRounds
  mediumRateRounds : d.mediumRateRounds = d'.mediumRateRounds

@[refl] theorem SameWindow.refl (d : Channel) : SameWindow d d := ⟨rfl, rfl, rfl, rfl, rfl, rfl⟩

theorem SameWindow.trans (h : SameWindow d d') (h' : SameWindow d' d'') : SameWindow d d'' :=
  ⟨h.1.trans h'.1, h.2.trans h'.2, h.3.trans h'.3, h.4.trans h'.4, h.5.trans h'.5, h.6.trans h'.6⟩

theorem SameWindow.windowOpen (h : SameWindow d d') : SameWindow (windowOpen d) (windowOpen d') := by
  cases d
  cases d'
  obtain ⟨rfl, rfl, rfl, rfl, rfl, rfl⟩ := h
  unfold Channel.windowOpen
  dsimp only
  split_ifs <;> exact ⟨rfl, rfl, rfl, rfl, rfl, rfl⟩

theorem SameWindow.windowClose (h : SameWindow d d') : SameWindow (windowClose d) (windowClose d') := by
  cases d
  cases d'
  obtain ⟨rfl, rfl, rfl, rfl, rfl, rfl⟩ := h
  unfold Channel.windowClose
  dsimp only
  split <;> exact ⟨rfl, rfl, rfl, rfl, rfl, rfl⟩

theorem SameWindow.step (h : SameWindow d d') : SameWindow (windowStep d e) (windowStep d' e) := by
  cases e with
  | delivered => exact h.windowOpen
  | retried => exact h.windowClose
  | roundTrip rtt => exact ⟨rfl, h.2, h.3, h.4, h.5, h.6⟩

theorem SameWindow.run (h : SameWindow d d') (events : List WindowEvent) :
    SameWindow (run windowStep d events) (run windowStep d' events) := by
  induction events generalizing d d' with
  | nil => exact h
  | cons e events ih => exact ih h.step

/-- The window of `d'` is that of `d` after some deliveries, retries and round
trips. -/
def Moved (d d' : Channel) : Prop := ∃ events, SameWindow d' (run windowStep d events)

theorem Moved.of_same (h : SameWindow d' d) : Moved d d' := ⟨[], h⟩

theorem Moved.of_step (h : SameWindow d' (windowStep d e)) : Moved d d' := ⟨[e], h⟩

theorem Moved.trans (h : Moved d d') (h' : Moved d' d'') : Moved d d'' := by
  obtain ⟨events, h⟩ := h
  obtain ⟨more, h'⟩ := h'
  refine ⟨events ++ more, h'.trans ?_⟩
  rw [run_append]
  exact h.run more

theorem transmit_sender {raw : Bytes} {ok : Bool} {n : Nat} : (s.transmit ok raw n).sender = s.sender := by
  cases ok <;> rfl

theorem pollFrom_moved : Moved s.sender (s.pollFrom now carried kept rest).sender := by
  induction rest generalizing kept s with
  | nil => exact .of_same (.refl _)
  | cons env rest ih =>
    rw [Pair.pollFrom]
    split
    · refine Moved.trans (.of_step (e := .delivered) ?_) ih
      exact ⟨rfl, rfl, rfl, rfl, rfl, rfl⟩
    · split
      · split
        · exact .of_same ⟨rfl, rfl, rfl, rfl, rfl, rfl⟩
        · dsimp only
          split
          · exact .of_step (e := .retried) ⟨rfl, rfl, rfl, rfl, rfl, rfl⟩
          · refine Moved.trans (.of_step (e := .retried) ?_) ih
            exact ⟨rfl, rfl, rfl, rfl, rfl, rfl⟩
      · exact ih

theorem send_same {m : Message} {ok : Bool} : SameWindow (s.send m now ok).sender s.sender := by
  unfold Pair.send
  dsimp only
  split
  · rfl
  · split
    · rfl
    · exact ⟨rfl, rfl, rfl, rfl, rfl, rfl⟩

theorem step_moved : Moved s.sender (s.step op).sender := by
  have hconclude : ∀ i status, (s.conclude i status).sender = s.sender := by
    intro i status
    unfold Pair.conclude
    split <;> rfl
  cases op with
  | send m now ok => exact .of_same send_same
  | poll now carried => exact pollFrom_moved
  | arrive i =>
    have h : (s.arrive i).sender = s.sender := by
      unfold Pair.arrive
      split
      · rfl
      · split <;> rfl
    exact .of_same (h ▸ .refl _)
  | proofArrives i =>
    refine .of_same ?_
    simp only [Pair.step]
    split
    · rw [hconclude]
    · rfl
  | receiptTimesOut i => exact .of_same (hconclude i _ ▸ .refl _)
  | receiptCulled i => exact .of_same (hconclude i _ ▸ .refl _)
  | linkMoves active rtt => exact .of_step (e := .roundTrip rtt) ⟨rfl, rfl, rfl, rfl, rfl, rfl⟩
  | closeSender => exact .of_same ⟨rfl, rfl, rfl, rfl, rfl, rfl⟩
  | closeReceiver => exact .of_same (.refl _)

theorem run_moved (ops : List Op) : Moved s.sender (run Pair.step s ops).sender := by
  induction ops generalizing s with
  | nil => exact .of_same (.refl _)
  | cons op ops ih => exact step_moved.trans ih

-- ---------------------------------------------------------------------------
-- The window law
-- ---------------------------------------------------------------------------

/-- The envelopes whose receipt is not delivered. -/
def Pair.outstanding (s : Pair) : Nat :=
  s.sender.txRing.countP (fun env => s.statusOf env ≠ .delivered)

/-- `send` returns true only with room in the window. -/
theorem send_accepts {m : Message} {ok : Bool} (h : (s.send m now ok).accepted ≠ s.accepted) :
    s.outstanding < s.sender.window := by
  unfold Pair.send at h
  split at h
  · exact absurd rfl h
  · next hready =>
    simp only [Bool.not_eq_true', Bool.not_eq_false, Pair.isReadyToSend, Bool.and_eq_true,
      decide_eq_true_eq] at hready
    exact hready.2

/-- The floor is the one part of the law a delivery can break: it is kept from
the floor of a tier up exactly when no delivery earns one beyond the window. -/
theorem sender_window_law (mdu peer : UInt16) (events : List WindowEvent) (ops : List Op) :
    (Throughout windowStep WindowLaw { linkMdu := mdu } events ↔
      Guarded windowStep FloorReached { linkMdu := mdu } events) ∧
    (∀ past e, past ++ [e] <+: events →
      KeepsGap (run windowStep { linkMdu := mdu } past) (run windowStep { linkMdu := mdu } (past ++ [e]))) ∧
    Moved { linkMdu := mdu } (run Pair.step (Pair.init mdu peer) ops).sender ∧
    ∀ past m now ok, past ++ [.send m now ok] <+: ops →
      (run Pair.step (Pair.init mdu peer) (past ++ [.send m now ok])).accepted ≠
        (run Pair.step (Pair.init mdu peer) past).accepted →
      (run Pair.step (Pair.init mdu peer) past).outstanding <
        (run Pair.step (Pair.init mdu peer) past).sender.window := by
  refine ⟨?_, fun past e _ => ?_, run_moved ops, fun past m now ok _ hacc => ?_⟩
  · exact throughout_iff (fun _ _ h hok => h.step hok) (fun _ h => h.law) (fun _ _ h hbad => h.breaks hbad)
      (level_fresh mdu)
  · have hb : Bounds (run windowStep { linkMdu := mdu } past) :=
      invariant (fun _ _ h => h.step.1) (bounds_fresh mdu)
    rw [run_concat]
    exact hb.step.2
  · rw [run_concat] at hacc
    exact send_accepts hacc

/-- Ten quick rounds: the tenth proof earns the fast floor, which the window
does not reach. -/
def quickRounds : List Op := .linkMoves true (1 / 10) :: (List.range 10).flatMap (round hello)

theorem quickRounds_below_floor :
    let d := (run Pair.step (Pair.init 431 431) quickRounds).sender
    d.window = 5 ∧ d.windowMin = 16 ∧ d.windowMax = 48 ∧ ¬ WindowLaw d := by
  have h : (run Pair.step (Pair.init 431 431) quickRounds).sender.window = 5 ∧
      (run Pair.step (Pair.init 431 431) quickRounds).sender.windowMin = 16 ∧
      (run Pair.step (Pair.init 431 431) quickRounds).sender.windowMax = 48 := by
    decide +kernel
  exact ⟨h.1, h.2.1, h.2.2, fun hlaw => absurd hlaw.floor (by omega)⟩

end MicroReticulum.Channel
