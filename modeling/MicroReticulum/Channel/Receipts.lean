import Mathlib.Tactic
import MicroReticulum.Channel.Delivery

/-!
# What a proof tells the sender

`Link::receive` proves a CHANNEL packet before the channel has looked at it, so
the proof of a packet the receiver then turns away settles its envelope all the
same. A settled message is delivered, or waits behind a gap, in every run in
which the receiver turns away nothing it has not got.
-/

namespace MicroReticulum.Channel

open Lib.Sequence
open Lib.Runs (run Guarded Throughout)

variable {s s' : Pair} {op : Op} {ops : List Op} {d : Channel} {i n k : Nat}

/-- Handed over as accepted, or in the RX ring with an earlier message missing. -/
def Settled (s : Pair) (n : Nat) : Prop :=
  n < s.receiver.handed.length ∧ s.receiver.handed[n]? = s.accepted[n]? ∨
    Waits s.accepted s.receiver n ∧ ∃ k < n, ¬ Received s.accepted s.receiver k

/-- A copy is taken in if its message is still awaited, and turned away only if
the receiver has the message; and the receiving link does not close over
messages that wait. -/
def Sound (s : Pair) : Op → Prop
  | .arrive i => ∀ t ∈ s.wire[i]?, s.receiver.held →
      if verdict t.raw s.receiver = .taken then Awaited s.receiver t.num
      else Received s.accepted s.receiver t.num
  | .closeReceiver => s.receiver.rxRing = []
  | _ => True

/-- The out-of-window guard has nothing to say to the copy. -/
def InWindow (s : Pair) : Op → Prop
  | .arrive i => ∀ t ∈ s.wire[i]?, s.receiver.held → verdict t.raw s.receiver ≠ .outOfWindow
  | _ => True

structure Accounted (s : Pair) : Prop where
  delivering : Delivering s
  proved : ∀ i ∈ s.proved, ∀ t ∈ s.wire[i]?, Received s.accepted s.receiver t.num

-- ---------------------------------------------------------------------------
-- Steps
-- ---------------------------------------------------------------------------

theorem Received.mono (h : Received stream d n) (hs : stream <+: stream') : Received stream' d n := by
  rcases h with h | ⟨hle, hlt, env, he, hn, hmsg⟩
  · exact .inl h
  · exact .inr ⟨hle, hlt, env, he, hn, getElem?_of_prefix hs hmsg⟩

theorem Sound.inStep (h : Sound s op) : InStep s op := by
  cases op with
  | arrive i => exact fun t ht hheld hv => by simpa [hv] using h t ht hheld
  | _ => trivial

theorem extends_accounted (h : Accounted s) (hd : Delivering s') (he : Extends s s') :
    Accounted s' := by
  refine ⟨hd, fun i hi t ht => ?_⟩
  rw [he.proved] at hi
  have hlt := h.delivering.onAir.proved i hi
  have ht' : s.wire[i]? = some t := by
    obtain ⟨rest, hrest⟩ := he.wire
    rwa [← hrest, Option.mem_def, List.getElem?_append_left hlt] at ht
  rw [he.receiver]
  exact (h.proved i hi t ht').mono he.accepted

theorem arrive_accounted (h : Accounted s) (hg : Sound s (.arrive i)) : Accounted (s.arrive i) := by
  have hd := arrive_delivering h.delivering hg.inStep
  rcases arrive_cases s i with hs | ⟨t, ht, hheld, hs⟩
  · rwa [hs]
  · -- what was received stays so, and the message of this copy is, whichever way it went
    have hkeep : (∀ k, Received s.accepted s.receiver k →
        Received s.accepted (s.receiver.receive t.raw) k) ∧
        Received s.accepted (s.receiver.receive t.raw) t.num := by
      have hgt := hg t ht hheld
      by_cases hv : verdict t.raw s.receiver = .taken
      · have hstamp := h.delivering.onAir.wire t (List.mem_of_getElem? ht)
        rw [if_pos hv] at hgt
        obtain ⟨-, -, hn, hk⟩ := receive_taken (h.delivering.inOrder hheld) hstamp hgt hv
        exact ⟨hk, hn⟩
      · rw [if_neg hv] at hgt
        rw [receive_dropped hv]
        exact ⟨fun _ => id, hgt⟩
    refine ⟨hd, fun j hj u hu => ?_⟩
    rw [hs] at hj hu ⊢
    rcases List.mem_append.1 hj with hj | hj
    · exact hkeep.1 _ (h.proved j hj u hu)
    · obtain rfl := List.mem_singleton.1 hj
      obtain rfl : t = u := Option.some.inj (ht.symm.trans hu)
      exact hkeep.2

theorem step_accounted (h : Accounted s) (hg : Sound s op) : Accounted (s.step op) := by
  have hd := step_delivering h.delivering hg.inStep
  by_cases ha : ∃ i, op = .arrive i
  · obtain ⟨i, rfl⟩ := ha
    exact arrive_accounted h hg
  · by_cases hc : op = .closeReceiver
    · subst hc
      refine ⟨hd, fun i hi t ht => ?_⟩
      rcases h.proved i hi t ht with hr | ⟨-, -, env, he, -⟩
      · exact .inl hr
      · rw [show s.receiver.rxRing = [] from hg] at he
        cases he
    · exact extends_accounted h hd
        (step_extends h.delivering.onAir (fun i hi => ha ⟨i, hi⟩) hc).2

/-- A message the sender holds for settled has been received. -/
theorem Accounted.settled (h : Accounted s) (hn : n ∈ s.acked) : Settled s n := by
  obtain ⟨i, hi, t, ht, rfl⟩ := h.delivering.onAir.acked n hn
  rcases h.proved i hi t ht with hr | hw
  · refine .inl ⟨hr, ?_⟩
    have := List.getElem?_eq_getElem hr
    rw [this, getElem?_of_prefix h.delivering.handed this]
  · have hgap := h.delivering.gap
    obtain ⟨hle, hlt, env, he, hn, hmsg⟩ := hw
    refine .inr ⟨⟨hle, hlt, env, he, hn, hmsg⟩, s.receiver.handed.length, ?_, ?_⟩
    · exact lt_of_le_of_ne hle fun hR => hgap env he (hR ▸ hn)
    · rintro (hr | ⟨-, -, e, hme, hne, -⟩)
      · exact absurd hr (lt_irrefl _)
      · exact hgap e hme hne

theorem init_accounted (a b : UInt16) : Accounted (Pair.init a b) :=
  ⟨init_delivering a b, by simp [Pair.init]⟩

/-- No packet that the out-of-window guard rejected has been proved. -/
def RejectedUnproved (s : Pair) : Prop :=
  ∀ a ∈ s.arrivals, a.verdict = .outOfWindow → a.proved = false

theorem rejectedUnproved_arrive :
    RejectedUnproved (s.arrive i) ↔ RejectedUnproved s ∧ InWindow s (.arrive i) := by
  unfold Pair.arrive InWindow
  cases ht : s.wire[i]? with
  | none => simp [ht]
  | some t =>
    by_cases hheld : s.receiver.held
    · simp [RejectedUnproved, ht, hheld, or_imp, forall_and]
    · simp [hheld]

theorem rejectedUnproved_step (h : OnAir s) :
    RejectedUnproved (s.step op) ↔ RejectedUnproved s ∧ InWindow s op := by
  by_cases ha : ∃ i, op = .arrive i
  · obtain ⟨i, rfl⟩ := ha
    exact rejectedUnproved_arrive
  · have harr : (s.step op).arrivals = s.arrivals := by
      by_cases hc : op = .closeReceiver
      · subst hc
        rfl
      · exact (step_extends h (fun i hi => ha ⟨i, hi⟩) hc).2.arrivals
    have hw : InWindow s op := by
      cases op with
      | arrive i => exact absurd ⟨i, rfl⟩ ha
      | _ => trivial
    simp [RejectedUnproved, harr, hw]

theorem rejectedUnproved_run (h : OnAir s) :
    RejectedUnproved (run Pair.step s ops) ↔ RejectedUnproved s ∧ Guarded Pair.step InWindow s ops := by
  induction ops generalizing s with
  | nil => simp
  | cons op ops ih =>
    rw [Lib.Runs.run_cons, ih (step_onAir h), rejectedUnproved_step h, Lib.Runs.guarded_cons, and_assoc]

-- ---------------------------------------------------------------------------
-- Runs
-- ---------------------------------------------------------------------------

/-- In every run in which the receiver turns away nothing it has not got, a
message settled by its proof is handed over or waits behind a gap, at every
moment; and a rejected packet goes unproved exactly in the runs in which the
guard rejects none. -/
theorem settled_of_sound (a b : UInt16) (ops : List Op) :
    (Guarded Pair.step Sound (Pair.init a b) ops →
      Throughout Pair.step (fun s => ∀ n ∈ s.acked, Settled s n) (Pair.init a b) ops) ∧
    (RejectedUnproved (run Pair.step (Pair.init a b) ops) ↔
      Guarded Pair.step InWindow (Pair.init a b) ops) := by
  constructor
  · intro h
    exact (h.throughout (fun _ _ => step_accounted) (init_accounted a b)).mono
      fun _ hs _ hn => hs.settled hn
  · have hinit : RejectedUnproved (Pair.init a b) := by simp [RejectedUnproved, Pair.init]
    simp [rejectedUnproved_run (init_onAir a b), hinit]

theorem settled_of_duplicate :
    ∀ n ∈ (run Pair.step (Pair.init 431 431) [.send hello 0 true, .arrive 0, .proofArrives 0,
      .poll 0 fun _ => true]).acked,
    Settled (run Pair.step (Pair.init 431 431) [.send hello 0 true, .arrive 0, .proofArrives 0,
      .poll 0 fun _ => true]) n :=
  ((settled_of_sound 431 431 _).1 (by
    refine ⟨trivial, fun t ht _ => ?_, trivial, trivial, trivial⟩
    obtain rfl : (⟨pack 0 hello, 0⟩ : Transmission) = t := by
      exact Option.some.inj ht
    rw [if_pos (by decide +kernel)]
    decide +kernel)).last

/-- The copy out of the last lap takes the place of the message that is due;
when that one arrives it is turned away, proved, and settled. -/
theorem settled_message_lost :
    let s := run Pair.step (Pair.init 431 431) (staleCopy hello ++ round ⟨7, []⟩ SEQ_MODULUS)
    (∃ n ∈ s.acked, ¬ Settled s n) ∧ ¬ RejectedUnproved s := by
  obtain ⟨s, hs, hrun, hrecv, hacc⟩ := staleCopy_step (m := hello) (by decide)
  obtain ⟨-, hacc', -, hrecv', hacked, harr⟩ :=
    round_idle (m := ⟨7, []⟩) (hs.idle.arrive (i := 0)) (by simp)
  have hz : SEQ_MODULUS % SEQ_MODULUS = 0 := Nat.mod_self _
  have hv : verdict (pack 0 ⟨7, []⟩) (s.arrive 0).receiver = .outOfWindow := by
    have hu : unpack (pack 0 ⟨7, []⟩) = some ⟨0, ⟨7, []⟩⟩ := unpack_pack (by norm_num [SEQ_MODULUS]) (by simp)
    rw [hrecv]
    simp only [verdict, hu]
    rw [if_pos (by decide)]
  rw [hz] at harr hrecv'
  rw [receive_dropped (by rw [hv]; simp), hrecv] at hrecv'
  rw [Lib.Runs.run_append, hrun]
  refine ⟨⟨SEQ_MODULUS, by rw [hacked]; simp, ?_⟩, fun h => ?_⟩
  · rintro (⟨-, hget⟩ | ⟨⟨-, -, e, he, -⟩, -⟩)
    · rw [hrecv', hacc', hacc, hs.accepted, List.replicate_succ', List.getElem?_append_right (by simp),
        List.getElem?_append_right (by simp)] at hget
      simp [hello] at hget
    · rw [hrecv'] at he
      simp [hs.rxRing] at he
  · have := h ⟨SEQ_MODULUS, .outOfWindow, true⟩ (by rw [harr, hv]; simp) rfl
    simp at this

end MicroReticulum.Channel
