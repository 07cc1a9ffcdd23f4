import Mathlib.Tactic
import MicroReticulum.Channel.Sending

/-!
# What a channel hands over

The receiving callback's history against what `send` accepted, over any run of
the network. It stays a prefix as long as every copy the receiver takes in is
of a message it still awaits. The stale-copy guard does not see to that: it
compares 16-bit numbers, and lets through any copy whose number is not below
the next awaited one, from whichever lap of the sequence space it is.
-/

namespace MicroReticulum.Channel

open Lib.Sequence
open Lib.Runs (run Guarded Throughout)

variable {s : Pair} {op : Op} {ops : List Op} {d : Channel} {m : Message} {i n N : Nat}

/-- A copy that passes the guard and the duplicate test carries a message the
receiver is still missing. -/
def InStep (s : Pair) : Op → Prop
  | .arrive i => ∀ t ∈ s.wire[i]?, s.receiver.held → verdict t.raw s.receiver = .taken →
      Awaited s.receiver t.num
  | _ => True

instance (s : Pair) : ∀ op, Decidable (InStep s op)
  | .arrive i => inferInstanceAs (Decidable (∀ t ∈ s.wire[i]?, _ → _ → Awaited _ _))
  | .send .. | .poll .. | .proofArrives _ | .receiptTimesOut _ | .receiptCulled _ | .linkMoves ..
  | .closeSender | .closeReceiver => .isTrue trivial

structure Delivering (s : Pair) : Prop where
  onAir : OnAir s
  handed : s.receiver.handed <+: s.accepted
  inOrder : s.receiver.held → InOrder s.accepted s.receiver
  /-- The next message to hand over is not in the ring. -/
  gap : ∀ env ∈ s.receiver.rxRing, env.sequence ≠ s.receiver.handed.length % SEQ_MODULUS

-- ---------------------------------------------------------------------------
-- Steps
-- ---------------------------------------------------------------------------

theorem InOrder.mono (h : InOrder stream d) (hs : stream <+: stream') : InOrder stream' d where
  receiving := h.receiving
  next := h.next
  handed := h.handed.trans hs
  ring env he := by
    obtain ⟨n, hle, hlt, hn, hmsg⟩ := h.ring env he
    exact ⟨n, hle, hlt, hn, getElem?_of_prefix hs hmsg⟩
  nodup := h.nodup

theorem drain_held : (drain fuel d).held = d.held := by
  induction fuel generalizing d with
  | zero => rfl
  | succ fuel ih =>
    rw [drain]
    split
    · rfl
    · rw [ih]
      rfl

@[simp] theorem receive_held : (receive raw d).held = d.held := by
  by_cases hv : verdict raw d = .taken
  · unfold receive
    split
    · rfl
    · split
      · rfl
      · split
        · rfl
        · exact drain_held
  · rw [receive_dropped hv]

theorem extends_delivering (h : Delivering s) (he : OnAir s' ∧ Extends s s') : Delivering s' where
  onAir := he.1
  handed := he.2.receiver ▸ h.handed.trans he.2.accepted
  inOrder hh := he.2.receiver ▸ (h.inOrder (he.2.receiver ▸ hh)).mono he.2.accepted
  gap := he.2.receiver ▸ h.gap

theorem arrive_delivering (h : Delivering s) (hg : InStep s (.arrive i)) :
    Delivering (s.arrive i) := by
  have ha := arrive_onAir (i := i) h.onAir
  rcases arrive_cases s i with hs | ⟨t, ht, hheld, hs⟩
  · rwa [hs]
  · by_cases hv : verdict t.raw s.receiver = .taken
    · have hstamp := h.onAir.wire t (List.mem_of_getElem? ht)
      obtain ⟨hin, hdr, -, -⟩ := receive_taken (h.inOrder hheld) hstamp (hg t ht hheld hv) hv
      rw [hs] at ha ⊢
      exact ⟨ha, hin.handed, fun _ => hin, fun env he => hin.next ▸ hdr env he⟩
    · have hr := receive_dropped hv
      rw [hs] at ha ⊢
      refine ⟨ha, ?_, fun _ => ?_, ?_⟩ <;> simp only [hr]
      · exact h.handed
      · exact h.inOrder hheld
      · exact h.gap

theorem step_delivering (h : Delivering s) (hg : InStep s op) : Delivering (s.step op) := by
  by_cases ha : ∃ i, op = .arrive i
  · obtain ⟨i, rfl⟩ := ha
    exact arrive_delivering h hg
  · by_cases hc : op = .closeReceiver
    · subst hc
      exact ⟨step_onAir h.onAir, h.handed, by simp [Pair.step, shutdown],
        by simp [Pair.step, shutdown]⟩
    · exact extends_delivering h (step_extends h.onAir (fun i hi => ha ⟨i, hi⟩) hc)

theorem init_delivering (a b : UInt16) : Delivering (Pair.init a b) :=
  ⟨init_onAir a b, List.prefix_rfl, fun _ => ⟨rfl, rfl, List.prefix_rfl, by simp [Pair.init],
    by simp [Pair.init]⟩, by simp [Pair.init]⟩

/-- In every run in which the receiver takes in nothing but messages it still
awaits, what it has handed over is at every moment a prefix of what `send` has
accepted. -/
theorem handed_prefix_of_accepted (a b : UInt16) (ops : List Op)
    (h : Guarded Pair.step InStep (Pair.init a b) ops) :
    Throughout Pair.step (fun s => s.receiver.handed <+: s.accepted) (Pair.init a b) ops :=
  (h.throughout (fun _ _ => step_delivering) (init_delivering a b)).mono fun _ hs => hs.handed

def hello : Message := ⟨0x0100, [104, 105]⟩

/-- Two messages whose packets arrive in the wrong order, the second twice. -/
theorem handed_prefix_of_swapped :
    (run Pair.step (Pair.init 431 431) [.send hello 0 true, .send ⟨7, []⟩ 0 true, .arrive 1, .arrive 1,
      .arrive 0]).receiver.handed <+:
    (run Pair.step (Pair.init 431 431) [.send hello 0 true, .send ⟨7, []⟩ 0 true, .arrive 1, .arrive 1,
      .arrive 0]).accepted :=
  (handed_prefix_of_accepted 431 431 _ (by decide +kernel)).last

-- ---------------------------------------------------------------------------
-- Laps of the sequence space
-- ---------------------------------------------------------------------------

/-- The sender has had everything proved: `N` messages in `N` transmissions. -/
structure Idle (s : Pair) (N : Nat) : Prop where
  active : s.sender.linkActive = true
  mdu : s.sender.linkMdu = 431
  txRing : s.sender.txRing = []
  window : 0 < s.sender.window
  next : s.sender.nextSequence = N % SEQ_MODULUS
  accepted : s.accepted.length = N
  wire : s.wire.length = N
  receipts : s.receipts.length = N
  held : s.receiver.held = true

theorem Idle.arrive (h : Idle s N) : Idle (s.arrive i) N := by
  rcases arrive_cases s i with hs | ⟨t, -, -, hs⟩
  · rwa [hs]
  · rw [hs]
    exact ⟨h.active, h.mdu, h.txRing, h.window, h.next, h.accepted, h.wire, h.receipts,
      by simpa using h.held⟩

/-- A message sent, delivered, proved and settled, as on a good link. -/
def round (m : Message) (N : Nat) : List Op :=
  [.send m 0 true, .arrive N, .proofArrives N, .poll 0 fun _ => true]

@[simp] theorem windowOpen_linkActive : (windowOpen d).linkActive = d.linkActive := by
  unfold windowOpen
  dsimp only
  split_ifs <;> rfl

@[simp] theorem windowOpen_linkMdu : (windowOpen d).linkMdu = d.linkMdu := by
  unfold windowOpen
  dsimp only
  split_ifs <;> rfl

theorem windowOpen_pos (h : 0 < d.window) : 0 < (windowOpen d).window := by
  unfold windowOpen
  dsimp only
  split_ifs <;> dsimp only <;> omega

theorem send_idle (h : Idle s N) (hm : m.data.length ≤ 425) :
    s.send m 0 true = { s with
      sender := { s.sender with
        nextSequence := (N + 1) % SEQ_MODULUS, txRing := [s.newEnvelope m 0 true] }
      wire := s.wire ++ [⟨pack (N % SEQ_MODULUS) m, N⟩]
      receipts := s.receipts ++ [.sent]
      accepted := s.accepted ++ [m] } := by
  have hready : s.isReadyToSend = true := by
    simp [Pair.isReadyToSend, h.active, h.txRing, h.window]
  have hsize : ¬ (s.sender.linkMdu = 0 ∨
      (s.newEnvelope m 0 true).raw.length > s.sender.linkMdu.toNat) := by
    simp [h.mdu, Pair.newEnvelope, pack]
    omega
  simp only [Pair.send, hready, Bool.not_true, Bool.false_eq_true, if_false, if_neg hsize]
  simp only [Pair.transmit, Pair.newEnvelope, if_true, h.next, h.txRing, List.nil_append, h.accepted,
    h.wire, Nat.mod_add_mod]

/-- Whatever the receiver makes of the packet, the sender has it proved. -/
theorem round_idle (h : Idle s N) (hm : m.data.length ≤ 425) :
    Idle (run Pair.step s (round m N)) (N + 1) ∧
      (run Pair.step s (round m N)).accepted = s.accepted ++ [m] ∧
      (run Pair.step s (round m N)).wire = s.wire ++ [⟨pack (N % SEQ_MODULUS) m, N⟩] ∧
      (run Pair.step s (round m N)).receiver = s.receiver.receive (pack (N % SEQ_MODULUS) m) ∧
      (run Pair.step s (round m N)).acked = s.acked ++ [N] ∧
      (run Pair.step s (round m N)).arrivals =
        s.arrivals ++ [⟨N, verdict (pack (N % SEQ_MODULUS) m) s.receiver, true⟩] := by
  have hstep : run Pair.step s (round m N) = { s with
      sender := { windowOpen { s.sender with
        nextSequence := (N + 1) % SEQ_MODULUS, txRing := [s.newEnvelope m 0 true] } with txRing := [] }
      wire := s.wire ++ [⟨pack (N % SEQ_MODULUS) m, N⟩]
      receipts := (s.receipts ++ [ReceiptStatus.sent]).set N ReceiptStatus.delivered
      proved := s.proved ++ [N]
      accepted := s.accepted ++ [m]
      acked := s.acked ++ [N]
      receiver := s.receiver.receive (pack (N % SEQ_MODULUS) m)
      arrivals := s.arrivals ++ [⟨N, verdict (pack (N % SEQ_MODULUS) m) s.receiver, true⟩] } := by
    have hw : (s.wire ++ [⟨pack (N % SEQ_MODULUS) m, N⟩])[N]? =
        some (⟨pack (N % SEQ_MODULUS) m, N⟩ : Transmission) := by simp [← h.wire]
    have hr : (s.receipts ++ [ReceiptStatus.sent])[N]? = some .sent := by simp [← h.receipts]
    have hd : ((s.receipts ++ [ReceiptStatus.sent]).set N ReceiptStatus.delivered).getD N .failed =
        .delivered := by simp [List.getD_eq_getElem?_getD, ← h.receipts]
    simp only [round, Lib.Runs.run_cons, Lib.Runs.run_nil, Pair.step, send_idle h hm, Pair.arrive, hw,
      h.held, if_true, List.mem_append, List.mem_singleton, or_true, Pair.conclude, hr, Pair.poll,
      Pair.pollFrom, Pair.statusOf, Pair.newEnvelope, h.wire, hd, h.accepted, List.nil_append]
  rw [hstep]
  refine ⟨⟨?_, ?_, rfl, ?_, ?_, ?_, ?_, ?_, ?_⟩, rfl, rfl, rfl, rfl, rfl⟩
  · simpa using h.active
  · simpa using h.mdu
  · exact windowOpen_pos h.window
  · simp
  · simp [h.accepted]
  · simp [h.wire]
  · simp [h.receipts]
  · simpa using h.held

/-- The next message into an empty ring goes straight through. -/
theorem receive_next (hc : d.receiving = true) (hr : d.rxRing = [])
    (hn : d.nextRxSequence = n % SEQ_MODULUS) (hm : m.data.length < 65536) :
    receive (pack (n % SEQ_MODULUS) m) d =
      { d with nextRxSequence := (n + 1) % SEQ_MODULUS, handed := d.handed ++ [m] } := by
  have hu := unpack_pack (Nat.mod_lt n (by decide : 0 < SEQ_MODULUS)) hm
  have ho : outOfWindow (n % SEQ_MODULUS) (n % SEQ_MODULUS) = false := by simp [outOfWindow]
  simp [receive, hu, hn, ho, hr, rxEmplace, drain, handOver, hc]

/-- Both sides after `N` messages that met no trouble. -/
structure Lap (m : Message) (s : Pair) (N : Nat) : Prop where
  idle : Idle s N
  accepted : s.accepted = List.replicate N m
  handed : s.receiver.handed = List.replicate N m
  receiving : s.receiver.receiving = true
  rxRing : s.receiver.rxRing = []
  next : s.receiver.nextRxSequence = N % SEQ_MODULUS
  first : 0 < N → s.wire[0]? = some ⟨pack 0 m, 0⟩

def laps (m : Message) (N : Nat) : List Op := (List.range N).flatMap (round m)

theorem laps_lap (hm : m.data.length ≤ 425) (N : Nat) :
    Lap m (run Pair.step (Pair.init 431 431) (laps m N)) N := by
  induction N with
  | zero => exact ⟨⟨rfl, rfl, rfl, Nat.zero_lt_two, rfl, rfl, rfl, rfl, rfl⟩, rfl, rfl, rfl, rfl, rfl, by simp⟩
  | succ N ih =>
    have hl : laps m (N + 1) = laps m N ++ round m N := by simp [laps, List.range_succ]
    obtain ⟨hi, hacc, hw, hrecv, -, -⟩ := round_idle ih.idle hm
    rw [receive_next ih.receiving ih.rxRing ih.next (by omega)] at hrecv
    rw [hl, Lib.Runs.run_append]
    refine ⟨hi, ?_, ?_, ?_, ?_, ?_, fun _ => ?_⟩
    · rw [hacc, ih.accepted, List.replicate_succ']
    · rw [hrecv, ih.handed, List.replicate_succ']
    · rw [hrecv, ih.receiving]
    · rw [hrecv, ih.rxRing]
    · rw [hrecv]
    · rw [hw]
      cases N with
      | zero => simp [List.length_eq_zero_iff.1 ih.idle.wire]
      | succ N => exact getElem?_of_prefix (List.prefix_append ..) (ih.first (by omega))

/-- A message out of the last lap: its copy arrives when its number is due again. -/
def staleCopy (m : Message) : List Op := laps m SEQ_MODULUS ++ [.arrive 0]

theorem staleCopy_step (hm : m.data.length ≤ 425) :
    ∃ s, Lap m s SEQ_MODULUS ∧ run Pair.step (Pair.init 431 431) (staleCopy m) = s.arrive 0 ∧
      (s.arrive 0).receiver = { s.receiver with
        nextRxSequence := 1, handed := List.replicate (SEQ_MODULUS + 1) m } ∧
      (s.arrive 0).accepted = s.accepted := by
  obtain ⟨s, hs⟩ : ∃ s, run Pair.step (Pair.init 431 431) (laps m SEQ_MODULUS) = s := ⟨_, rfl⟩
  have hl : Lap m s SEQ_MODULUS := hs ▸ laps_lap hm SEQ_MODULUS
  have hpos : 0 < SEQ_MODULUS := by norm_num [SEQ_MODULUS]
  have hz : SEQ_MODULUS % SEQ_MODULUS = 0 := Nat.mod_self _
  have h1 : (SEQ_MODULUS + 1) % SEQ_MODULUS = 1 := by norm_num [SEQ_MODULUS]
  have hr := receive_next (m := m) (n := SEQ_MODULUS) hl.receiving hl.rxRing hl.next (by omega)
  rw [hz, h1, hl.handed, ← List.replicate_succ'] at hr
  refine ⟨s, hl, by rw [staleCopy, Lib.Runs.run_concat, hs]; rfl, ?_, ?_⟩
  · simp only [Pair.arrive, hl.first hpos, hl.idle.held, if_true, hr]
  · simp only [Pair.arrive, hl.first hpos, hl.idle.held, if_true]

/-- After one trouble-free lap of the sequence space, a late copy of the very
first packet is delivered once more: 65537 messages for 65536 accepted. -/
theorem stale_copy_delivered_again :
    ¬ (run Pair.step (Pair.init 431 431) (staleCopy hello)).receiver.handed <+:
      (run Pair.step (Pair.init 431 431) (staleCopy hello)).accepted := by
  obtain ⟨s, hs, hrun, hrecv, hacc⟩ := staleCopy_step (m := hello) (by decide)
  rw [hrun, hrecv, hacc, hs.accepted]
  intro h
  have := h.length_le
  simp only [List.length_replicate] at this
  omega

end MicroReticulum.Channel
