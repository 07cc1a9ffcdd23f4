import MicroReticulum.Channel.Ends
import MicroReticulum.Rnsd.ChannelStream

/-!
# What a channel's consumers can rely on

Whatever happens, the frames a writer's slot has taken are the messages its
channel has accepted and then the outbox, in the order they were written. Where
the reader's channel takes in nothing but messages it still awaits, its consumer
gets them in that order too, and gets all of them if its pipe never overflows.
-/

namespace MicroReticulum.Rnsd.ChannelStream

open Channel (Pair Message TxEnvelope MAX_TRIES Fits send_accepted send_refused Tracked OnAir Onward)
open Lib.Runs (run Guarded Throughout run_append)

variable {s s' : State} {op : Op} {ops : List Op} {buf data : Bytes} {bufs rest : List Bytes} {m : Message}
  {ms : List Message} {carried resent room : Nat → Bool} {ok : Bool} {n : Nat}

-- ---------------------------------------------------------------------------
-- Frames
-- ---------------------------------------------------------------------------

theorem frame_message (h : CHAN_MSGTYPE_PREFIX ≤ buf.length) : frame (message buf) = buf := by
  match buf, h with
  | a :: b :: data, _ =>
    have ha : a.toNat < 256 := a.toNat_lt
    have hb : b.toNat < 2 ^ 8 := b.toNat_lt
    have hword : a.toNat <<< 8 ||| b.toNat = a.toNat * 256 + b.toNat := by
      rw [← Nat.shiftLeft_add_eq_or_of_lt hb, Nat.shiftLeft_eq]
    have htype : (message (a :: b :: data)).msgtype.toNat = a.toNat * 256 + b.toNat := by
      simp only [message, Bytes.byte, List.getD_cons_zero, List.getD_cons_succ, hword, UInt16.toNat_ofNat']
      omega
    have hhi : UInt8.ofNat ((a.toNat * 256 + b.toNat) >>> 8) = a := by
      rw [Nat.shiftRight_eq_div_pow, show (a.toNat * 256 + b.toNat) / 2 ^ 8 = a.toNat by omega, UInt8.ofNat_toNat]
    have hlo : UInt8.ofNat (a.toNat * 256 + b.toNat) = b := by
      apply UInt8.toNat_inj.1
      rw [UInt8.toNat_ofNat']
      omega
    rw [frame, htype, hhi, hlo]
    rfl

theorem length_frame (m : Message) : (frame m).length = m.data.length + CHAN_MSGTYPE_PREFIX := rfl

-- ---------------------------------------------------------------------------
-- What each function can do
-- ---------------------------------------------------------------------------

/-- The channel takes the frame now. -/
def Takes (s : State) (buf : Bytes) : Prop := s.pair.isReadyToSend ∧ Fits s.pair.sender.linkMdu (message buf)

theorem framed_sent (ok : Bool) (hlen : CHAN_MSGTYPE_PREFIX ≤ buf.length) (h : Takes s buf) :
    chanSendFramed buf ok s = (true, { s with pair := s.pair.send (message buf) s.clock ok }) ∧
      (s.pair.send (message buf) s.clock ok).accepted = s.pair.accepted ++ [message buf] := by
  have hacc : (s.pair.send (message buf) s.clock ok).accepted = s.pair.accepted ++ [message buf] := by
    rw [send_accepted h.1 h.2]
  refine ⟨?_, hacc⟩
  simp [chanSendFramed, hlen.not_gt, hacc]

theorem framed_refused (hlen : CHAN_MSGTYPE_PREFIX ≤ buf.length) (h : ¬ Takes s buf) :
    chanSendFramed buf ok s = (false, s) := by
  have hsame : s.pair.send (message buf) s.clock ok = s.pair := send_refused h
  simp [chanSendFramed, hlen.not_gt, hsame]

/-- What comes of a write. -/
inductive Wrote (s : State) (buf : Bytes) (ok : Bool) : State → Prop where
  | ignored : Wrote s buf ok s
  | refused (e : Error) : Wrote s buf ok { s with lastError := some e }
  | buffered : CHAN_MSGTYPE_PREFIX ≤ buf.length → s.phase ≠ .free → s.outbox.length < RNSD_CHAN_MAX_OUTBOX →
    Wrote s buf ok { s with outbox := s.outbox ++ [buf], taken := s.taken ++ [buf] }
  | sent : CHAN_MSGTYPE_PREFIX ≤ buf.length → s.phase = .active → s.outbox = [] → Takes s buf →
    Wrote s buf ok { s with
      pair := s.pair.send (message buf) s.clock ok
      txMsgs := s.txMsgs + 1
      taken := s.taken ++ [buf] }

theorem wrote_buffer (hlen : CHAN_MSGTYPE_PREFIX ≤ buf.length) (hp : s.phase ≠ .free) :
    Wrote s buf ok (buffer buf s) := by
  unfold buffer
  split
  · next hroom => exact .buffered hlen hp hroom
  · exact .refused _

theorem wrote (data : Bytes) (ok : Bool) (s : State) : Wrote s (data.take FRAME_MAX) ok (onChannelRecv data ok s) := by
  simp only [onChannelRecv]
  generalize data.take FRAME_MAX = buf
  split
  · exact .ignored
  · next hgone =>
    have hp : s.phase ≠ .free := fun h => hgone (.inl h)
    split
    · exact .ignored
    · next hlen =>
      rw [not_lt] at hlen
      split
      · next hactive =>
        split
        · exact .refused _
        · split
          · next hnow =>
            by_cases htakes : Takes s buf
            · rw [(framed_sent ok hlen htakes).1]
              exact .sent hlen hactive hnow.1 htakes
            · rw [framed_refused hlen htakes]
              exact wrote_buffer hlen hp
          · exact wrote_buffer hlen hp
      · exact wrote_buffer hlen hp

/-- Some of the outbox has gone to the channel. -/
structure Flushed (s s' : State) (sent : List Bytes) : Prop where
  outbox : s.outbox = sent ++ s'.outbox
  accepted : s'.pair.accepted = s.pair.accepted ++ sent.map message
  linkMdu : s'.pair.sender.linkMdu = s.pair.sender.linkMdu
  fits : ∀ buf ∈ sent, Fits s.pair.sender.linkMdu (message buf)
  rest : s' = { s with pair := s'.pair, outbox := s'.outbox, txMsgs := s.txMsgs + sent.length }
  /-- It stops at a frame that the channel does not take. -/
  stops : ∀ buf ∈ s'.outbox.head?, ¬ Takes s' buf

theorem flush_spec (carried : Nat → Bool) (hs : s.outbox = bufs)
    (hlen : ∀ buf ∈ bufs, CHAN_MSGTYPE_PREFIX ≤ buf.length) :
    ∃ sent, Flushed s (flush carried bufs s) sent := by
  induction bufs generalizing s with
  | nil => exact ⟨[], rfl, (List.append_nil _).symm, rfl, by simp, rfl, by simp [flush, hs]⟩
  | cons m bufs ih =>
    have hstop : ¬ Takes s m → Flushed s s [] := fun h =>
      ⟨rfl, by simp, rfl, by simp, rfl, by simpa [hs] using h⟩
    obtain ⟨hm, hrest⟩ := List.forall_mem_cons.1 hlen
    rw [flush]
    split
    · next hready =>
      by_cases htakes : Takes s m
      · obtain ⟨hsent, hacc⟩ := framed_sent (carried s.pair.accepted.length) hm htakes
        rw [hsent]
        simp only [if_true]
        obtain ⟨sent, hf⟩ := ih (s := { s with
          pair := s.pair.send (message m) s.clock (carried s.pair.accepted.length), outbox := bufs,
          txMsgs := s.txMsgs + 1 }) rfl hrest
        have hmdu : (s.pair.send (message m) s.clock (carried s.pair.accepted.length)).sender.linkMdu =
            s.pair.sender.linkMdu := by rw [send_accepted htakes.1 htakes.2]
        refine ⟨m :: sent, ?_, ?_, hf.linkMdu.trans hmdu, ?_, ?_, hf.stops⟩
        · rw [hs, List.cons_append, ← hf.outbox]
        · rw [hf.accepted, hacc, List.append_assoc]
          rfl
        · refine List.forall_mem_cons.2 ⟨htakes.2, fun buf hbuf => ?_⟩
          have hfits := hf.fits buf hbuf
          rwa [hmdu] at hfits
        · refine hf.rest.trans ?_
          rw [List.length_cons, Nat.add_assoc, Nat.add_comm 1]
      · rw [framed_refused hm htakes]
        exact ⟨[], hstop htakes⟩
    · next hready => exact ⟨[], hstop fun h => hready h.1⟩

/-- What sending does not touch. -/
structure Aside (s s' : State) : Prop where
  phase : s'.phase = s.phase
  clock : s'.clock = s.clock
  taken : s'.taken = s.taken
  consumed : s'.consumed = s.consumed
  rxMsgs : s'.rxMsgs = s.rxMsgs
  rxError : s'.rxError = s.rxError

theorem Aside.refl (s : State) : Aside s s := ⟨rfl, rfl, rfl, rfl, rfl, rfl⟩

theorem Aside.trans {s'' : State} (h : Aside s s') (h' : Aside s' s'') : Aside s s'' :=
  ⟨h'.1.trans h.1, h'.2.trans h.2, h'.3.trans h.3, h'.4.trans h.4, h'.5.trans h.5, h'.6.trans h.6⟩

theorem framed_aside (buf : Bytes) (ok : Bool) (s : State) : Aside s (chanSendFramed buf ok s).2 := by
  unfold chanSendFramed
  split <;> exact ⟨rfl, rfl, rfl, rfl, rfl, rfl⟩

theorem flush_aside (carried : Nat → Bool) (bufs : List Bytes) (s : State) : Aside s (flush carried bufs s) := by
  induction bufs generalizing s with
  | nil => exact .refl s
  | cons m bufs ih =>
    have hframed := framed_aside m (carried s.pair.accepted.length) s
    rw [flush]
    split
    · dsimp only
      split
      · have hkept : Aside s { (chanSendFramed m (carried s.pair.accepted.length) s).2 with
            outbox := bufs, txMsgs := (chanSendFramed m (carried s.pair.accepted.length) s).2.txMsgs + 1 } :=
          ⟨hframed.1, hframed.2, hframed.3, hframed.4, hframed.5, hframed.6⟩
        exact hkept.trans (ih _)
      · exact hframed
    · exact .refl s

/-- What comes of a poll of an active slot. -/
inductive PolledAll (s : State) (resent carried : Nat → Bool) : State → Prop where
  | threw : PolledAll s resent carried { s with pair := s.pair.poll s.clock resent, phase := .dead }
  | tornDown (e : Option Error) : (s.pair.poll s.clock resent).sender.held = false →
    PolledAll s resent carried { s with pair := s.pair.poll s.clock resent, phase := .closed, lastError := e }
  | flushed {s' : State} : (s.pair.poll s.clock resent).sender.held →
    s' = chanFlushOutbox carried { s with pair := s.pair.poll s.clock resent } →
    PolledAll s resent carried { s' with outstanding := some s'.pair.sender.txRing.length }

theorem polledAll (resent carried : Nat → Bool) (h : s.phase = .active) :
    PolledAll s resent carried (channelPollAll resent carried s) := by
  simp only [channelPollAll, if_pos h]
  by_cases hthrows : pollThrows s.pair s.clock
  · rw [if_pos hthrows]
    exact .threw
  · rw [if_neg hthrows]
    by_cases hheld : (s.pair.poll s.clock resent).sender.held
    · rw [if_pos hheld]
      exact .flushed hheld rfl
    · rw [if_neg hheld]
      exact .tornDown _ (Bool.eq_false_iff.2 hheld)

-- ---------------------------------------------------------------------------
-- Where a poll ends
-- ---------------------------------------------------------------------------

/-- The test of `pollEnd`. -/
def Stops (pair : Pair) (now : ℚ) (env : TxEnvelope) : Bool :=
  Due pair now env && (decide (MAX_TRIES ≤ env.tries) || !env.sent)

/-- A receipt that a poll makes is neither delivered nor culled. -/
theorem due_transmit {p p' : Pair} {now : ℚ} {raw : Bytes} {env : TxEnvelope}
    (h : p'.receipts = (p.transmit ok raw n).receipts) : Due p' now env ↔ Due p now env := by
  have hstatus : ∀ st, st ≠ .sent → st ≠ .failed → (p'.statusOf env = st ↔ p.statusOf env = st) := by
    intro st hsent hfailed
    unfold Pair.statusOf
    cases env.receipt with
    | none => rfl
    | some i =>
      simp only [h, Pair.transmit]
      split
      · simp only [List.getD_eq_getElem?_getD]
        rcases Nat.lt_trichotomy i p.receipts.length with hi | rfl | hi
        · rw [List.getElem?_append_left hi]
        · simp [hsent.symm, hfailed.symm]
        · rw [List.getElem?_eq_none (by simpa using hi), List.getElem?_eq_none hi.le]
      · rfl
  simp only [Due, ne_eq, hstatus .delivered (by simp) (by simp), hstatus .culled (by simp) (by simp)]

theorem stops_transmit (p p' : Pair) {now : ℚ} {raw : Bytes} (h : p'.receipts = (p.transmit ok raw n).receipts) :
    Stops p' now = Stops p now := by
  funext env
  unfold Stops
  rw [decide_eq_decide.2 (due_transmit h)]

theorem pollFrom_held {p : Pair} {now : ℚ} {kept ring : List TxEnvelope} (hh : p.sender.held) :
    (p.pollFrom now resent kept ring).sender.held ↔
      ∀ env, ring.find? (Stops p now) = some env → env.tries < MAX_TRIES := by
  induction ring generalizing kept p with
  | nil => simpa [Pair.pollFrom] using hh
  | cons env ring ih =>
    rw [Pair.pollFrom, List.find?_cons]
    split
    · next hdel =>
      have hgo : Stops p now env = false := by simp [Stops, Due, hdel]
      rw [hgo, ih (by exact (Channel.windowOpen_held _).trans hh)]
      rfl
    · next hopen =>
      split
      · next hdue =>
        have hd : Due p now env := ⟨hopen, hdue⟩
        split
        · next hspent =>
          have hstop : Stops p now env = true := by simp [Stops, hd, hspent]
          simp [hstop, Channel.shutdown, hspent]
        · next hspent =>
          dsimp only
          split
          · next hunsent =>
            have hstop : Stops p now env = true := by simpa [Stops, hd, hspent] using hunsent
            simpa [hstop, Channel.windowClose_held, hh] using hspent
          · next hsent =>
            have hgo : Stops p now env = false := by simpa [Stops, hd, hspent] using hsent
            let p₁ : Pair := { p.transmit (resent env.sequence) env.raw env.num with
              sender := { Channel.windowClose p.sender with
                txRing := kept ++ { env with
                  tries := env.tries + 1
                  sent := resent env.sequence
                  receipt := if resent env.sequence then some p.wire.length else env.receipt
                  deadline := now + Channel.timeoutTime (Channel.windowClose p.sender) (env.tries + 1) } :: ring } }
            have hstops : Stops p₁ now = Stops p now := stops_transmit p p₁ rfl
            rw [hgo, ← hstops]
            exact ih (p := p₁) ((Channel.windowClose_held _).trans hh)
      · next hearly =>
        have hgo : Stops p now env = false := by simp [Stops, Due, hopen, hearly]
        rw [hgo, ih hh]

/-- `pollEnd` says where the loop ends: an active slot goes on if it does not end early, is closed if an
envelope has had all its tries, and takes its node down if one that has not been sent is to be sent again. -/
theorem pollAll_phase (h : s.phase = .active) (hh : s.pair.sender.held) :
    (channelPollAll resent carried s).phase = match pollEnd s.pair s.clock with
      | none => .active
      | some env => if env.tries < MAX_TRIES then .dead else .closed := by
  have hheld : (s.pair.poll s.clock resent).sender.held ↔
      ∀ env, pollEnd s.pair s.clock = some env → env.tries < MAX_TRIES := pollFrom_held hh
  simp only [channelPollAll, if_pos h, pollThrows]
  cases hend : pollEnd s.pair s.clock with
  | none =>
    rw [hend] at hheld
    rw [if_neg (by simp), if_pos (hheld.2 (by simp))]
    exact (flush_aside ..).phase.trans h
  | some env =>
    rw [hend] at hheld
    by_cases htries : env.tries < MAX_TRIES
    · simp [htries]
    · have hlost : ¬ (s.pair.poll s.clock resent).sender.held := fun hp => htries (hheld.1 hp env rfl)
      simp [htries, hlost]

-- ---------------------------------------------------------------------------
-- The channel pair under the slots
-- ---------------------------------------------------------------------------

/-- An operation of the writer's end, or of its receipts. -/
def Own : Channel.Op → Prop
  | .arrive _ | .closeReceiver => False
  | _ => True

/-- The pair is where some operations of the writer's end lead. -/
def Goes (p p' : Pair) : Prop := ∃ l : List Channel.Op, (∀ o ∈ l, Own o) ∧ p' = run Pair.step p l

theorem Goes.refl (p : Pair) : Goes p p := ⟨[], by simp, rfl⟩

theorem Goes.one {p : Pair} {o : Channel.Op} (h : Own o) : Goes p (p.step o) := ⟨[o], by simpa using h, rfl⟩

theorem Goes.trans {p p' p'' : Pair} (h : Goes p p') (h' : Goes p' p'') : Goes p p'' := by
  obtain ⟨l, hl, rfl⟩ := h
  obtain ⟨l', hl', rfl⟩ := h'
  refine ⟨l ++ l', fun o ho => ?_, run_append.symm⟩
  rcases List.mem_append.1 ho with ho | ho
  · exact hl o ho
  · exact hl' o ho

/-- What own operations keep. -/
theorem Goes.keeps {P : Pair → Prop} {p p' : Pair} (h : Goes p p') (hstep : ∀ p o, Own o → P p → P (p.step o))
    (hp : P p) : P p' := by
  obtain ⟨l, hl, rfl⟩ := h
  induction l generalizing p with
  | nil => exact hp
  | cons o l ih => exact ih (hstep p o (hl o List.mem_cons_self) hp) fun o ho => hl o (List.mem_cons_of_mem _ ho)

theorem goes_framed : Goes s.pair (chanSendFramed buf ok s).2.pair := by
  unfold chanSendFramed
  split
  · exact .refl _
  · exact .one (o := .send (message buf) s.clock ok) trivial

theorem goes_flush (carried : Nat → Bool) (bufs : List Bytes) (s : State) :
    Goes s.pair (flush carried bufs s).pair := by
  induction bufs generalizing s with
  | nil => exact .refl _
  | cons m bufs ih =>
    rw [flush]
    split
    · dsimp only
      split
      · exact goes_framed.trans (ih _)
      · exact goes_framed
    · exact .refl _

theorem goes_poll : Goes s.pair (s.pair.poll s.clock resent) := .one (o := .poll s.clock resent) trivial

theorem handOver_pair : (handOver room n ms s).pair = s.pair := by
  induction ms generalizing n s with
  | nil => rfl
  | cons m ms ih =>
    rw [handOver, ih]
    unfold onChannelMsgCb
    split_ifs <;> rfl

theorem step_pair (s : State) (op : Op) : Goes s.pair (step s op).pair ∨
    (∃ i room, op = .arrive i room ∧ (step s op).pair = s.pair.step (.arrive i)) ∨
    (op = .closeReader ∧ (step s op).pair = s.pair.step .closeReceiver) := by
  cases op with
  | wait d => exact .inl (.refl _)
  | write data ok =>
    refine .inl ?_
    rw [step]
    generalize onChannelRecv data ok s = s', wrote data ok s = hw
    cases hw with
    | sent => exact .one (o := .send (message _) s.clock ok) trivial
    | _ => exact .refl _
  | established carried =>
    refine .inl ?_
    simp only [step, onChanLinkEstablishedCb, chanFlushOutbox]
    split
    · exact goes_flush carried s.outbox { s with phase := .active, lastError := none }
    · exact .refl _
  | pollAll resent carried =>
    refine .inl ?_
    rw [step]
    by_cases hactive : s.phase = .active
    · generalize channelPollAll resent carried s = s', polledAll resent carried hactive = hp
      cases hp with
      | flushed _ hs =>
        subst hs
        exact goes_poll.trans (goes_flush ..)
      | _ => exact goes_poll
    · rw [channelPollAll, if_neg hactive]
      exact .refl _
  | closed error =>
    refine .inl ?_
    simp only [step, onChanLinkClosedCb]
    split
    · exact .one (o := .closeSender) trivial
    · exact .refl _
  | free =>
    refine .inl ?_
    simp only [step, chanFreeSlot]
    split
    · exact .refl _
    · exact .one (o := .closeSender) trivial
  | arrive i room => exact .inr (.inl ⟨i, room, rfl, handOver_pair⟩)
  | proofArrives i => exact .inl (.one (o := .proofArrives i) trivial)
  | receiptTimesOut i => exact .inl (.one (o := .receiptTimesOut i) trivial)
  | receiptCulled i => exact .inl (.one (o := .receiptCulled i) trivial)
  | linkMoves active rtt => exact .inl (.one (o := .linkMoves active rtt) trivial)
  | closeReader => exact .inr (.inr ⟨rfl, rfl⟩)

/-- What the pair's steps keep, the slots' steps keep. -/
theorem step_always {P : Pair → Prop} (hstep : ∀ p o, P p → P (p.step o)) (h : P s.pair) : P (step s op).pair := by
  rcases step_pair s op with hgoes | ⟨i, room, -, hpair⟩ | ⟨-, hpair⟩
  · exact hgoes.keeps (fun p o _ => hstep p o) h
  · exact hpair ▸ hstep _ _ h
  · exact hpair ▸ hstep _ _ h

/-- A condition on what happens at the reader's channel. -/
def Meets (Ok : Pair → Channel.Op → Prop) (s : State) : Op → Prop
  | .arrive i _ => Ok s.pair (.arrive i)
  | .closeReader => Ok s.pair .closeReceiver
  | _ => True

/-- And what they keep under such a condition. -/
theorem step_keeps {P : Pair → Prop} {Ok : Pair → Channel.Op → Prop} (hstep : ∀ p o, P p → Ok p o → P (p.step o))
    (hown : ∀ p o, Own o → Ok p o) (h : P s.pair) (hok : Meets Ok s op) : P (step s op).pair := by
  rcases step_pair s op with hgoes | ⟨i, room, rfl, hpair⟩ | ⟨rfl, hpair⟩
  · exact hgoes.keeps (fun p o ho hp => hstep p o hp (hown p o ho)) h
  · rw [hpair]
    exact hstep _ _ h hok
  · rw [hpair]
    exact hstep _ _ h hok

theorem Goes.onward {p p' : Pair} (h : Goes p p') : Onward p p' := by
  obtain ⟨l, -, rfl⟩ := h
  exact Channel.run_onward l

theorem Goes.receiver {p p' : Pair} (h : Goes p p') (ho : OnAir p) : p'.receiver = p.receiver := by
  have hkeep : OnAir p' ∧ p'.receiver = p.receiver := by
    refine h.keeps (P := fun q => OnAir q ∧ q.receiver = p.receiver) ?_ ⟨ho, rfl⟩
    rintro q o hown ⟨hq, hsame⟩
    have hext : OnAir (q.step o) ∧ Channel.Extends q (q.step o) :=
      Channel.step_extends hq (fun i hi => by rwa [hi] at hown) fun hc => by rwa [hc] at hown
    exact ⟨hext.1, hext.2.receiver.trans hsame⟩
  exact hkeep.2

-- ---------------------------------------------------------------------------
-- The writer's side
-- ---------------------------------------------------------------------------

structure Writing (s : State) : Prop where
  order : s.taken = s.pair.accepted.map frame ++ (s.outbox ++ s.cleared)
  bounded : s.outbox.length ≤ RNSD_CHAN_MAX_OUTBOX
  framed : ∀ buf ∈ s.taken, CHAN_MSGTYPE_PREFIX ≤ buf.length ∧ buf.length ≤ FRAME_MAX
  fits : ∀ m ∈ s.pair.accepted, Fits s.pair.sender.linkMdu m
  counted : s.phase ≠ .free → s.txMsgs = s.pair.accepted.length
  kept : s.phase ≠ .free → s.cleared = []

/-- Nothing goes in or out. -/
theorem Writing.congr (h : Writing s) (hacc : s'.pair.accepted = s.pair.accepted)
    (hmdu : s'.pair.sender.linkMdu = s.pair.sender.linkMdu) (hsame : s'.outbox = s.outbox ∧ s'.taken = s.taken ∧
      s'.cleared = s.cleared ∧ s'.txMsgs = s.txMsgs ∧ (s'.phase ≠ .free → s.phase ≠ .free)) : Writing s' := by
  obtain ⟨hout, htaken, hcleared, htx, hphase⟩ := hsame
  refine ⟨?_, ?_, ?_, ?_, fun hp => ?_, fun hp => ?_⟩
  · rw [htaken, hacc, hout, hcleared]
    exact h.order
  · exact hout ▸ h.bounded
  · exact htaken ▸ h.framed
  · rw [hacc, hmdu]
    exact h.fits
  · rw [htx, hacc]
    exact h.counted (hphase hp)
  · exact hcleared ▸ h.kept (hphase hp)

theorem Writing.outbox_framed (h : Writing s) (hbuf : buf ∈ s.outbox) : CHAN_MSGTYPE_PREFIX ≤ buf.length := by
  have hmem : buf ∈ s.taken := by
    rw [h.order]
    exact List.mem_append_right _ (List.mem_append_left _ hbuf)
  exact (h.framed buf hmem).1

theorem Writing.wrote (h : Writing s) (hmax : buf.length ≤ FRAME_MAX) (hw : Wrote s buf ok s') : Writing s' := by
  cases hw with
  | ignored => exact h
  | refused e => exact h.congr rfl rfl ⟨rfl, rfl, rfl, rfl, id⟩
  | buffered hlen hp hroom =>
    refine ⟨?_, ?_, ?_, h.fits, h.counted, h.kept⟩
    · simp [h.order, h.kept hp]
    · simpa using hroom
    · exact List.forall_mem_append.2 ⟨h.framed, by simpa using ⟨hlen, hmax⟩⟩
  | sent hlen hp hempty htakes =>
    have hfree : s.phase ≠ .free := by simp [hp]
    have hacc := (framed_sent ok hlen htakes).2
    have hmdu : (s.pair.send (message buf) s.clock ok).sender.linkMdu = s.pair.sender.linkMdu := by
      rw [send_accepted htakes.1 htakes.2]
    refine ⟨?_, h.bounded, ?_, ?_, fun _ => ?_, h.kept⟩
    · simp [h.order, h.kept hfree, hempty, hacc, frame_message hlen]
    · exact List.forall_mem_append.2 ⟨h.framed, by simpa using ⟨hlen, hmax⟩⟩
    · rw [hacc, hmdu]
      exact List.forall_mem_append.2 ⟨h.fits, by simpa using htakes.2⟩
    · rw [hacc, h.counted hfree, List.length_append, List.length_singleton]

theorem Writing.flushed {sent : List Bytes} (h : Writing s) (hf : Flushed s s' sent) : Writing s' := by
  have hframes : (sent.map message).map frame = sent := by
    rw [List.map_map]
    refine (List.map_congr_left fun buf hbuf => ?_).trans (List.map_id _)
    exact frame_message (h.outbox_framed (hf.outbox ▸ List.mem_append_left _ hbuf))
  have hrest := hf.rest
  refine ⟨?_, ?_, ?_, ?_, fun hp => ?_, fun hp => ?_⟩
  · rw [hf.accepted, List.map_append, hframes, hrest]
    simp only
    rw [h.order, hf.outbox]
    simp
  · have hle := h.bounded
    rw [hf.outbox, List.length_append] at hle
    exact le_trans (Nat.le_add_left _ _) hle
  · rw [hrest]
    exact h.framed
  · rw [hf.accepted, hf.linkMdu]
    refine List.forall_mem_append.2 ⟨h.fits, fun m hm => ?_⟩
    obtain ⟨buf, hbuf, rfl⟩ := List.mem_map.1 hm
    exact hf.fits buf hbuf
  · rw [hrest] at hp
    rw [hf.accepted, hrest, List.length_append, List.length_map]
    exact congrArg (· + _) (h.counted hp)
  · rw [hrest] at hp ⊢
    exact h.kept hp

theorem Writing.flush (h : Writing s) (carried : Nat → Bool) : Writing (chanFlushOutbox carried s) := by
  obtain ⟨sent, hf⟩ := flush_spec carried rfl fun buf hbuf => h.outbox_framed (s := s) hbuf
  exact h.flushed hf

theorem poll_same (p : Pair) (now : ℚ) (resent : Nat → Bool) : (p.poll now resent).accepted = p.accepted ∧
    (p.poll now resent).sender.linkMdu = p.sender.linkMdu := by
  rcases Channel.poll_spec p now resent with hlost | ⟨_, _, -, hleaves⟩
  · exact ⟨hlost.accepted, hlost.linkMdu⟩
  · exact ⟨hleaves.accepted, hleaves.linkMdu⟩

theorem Writing.polledAll (h : Writing s) (hactive : s.phase = .active) (hp : PolledAll s resent carried s') :
    Writing s' := by
  obtain ⟨hacc, hmdu⟩ := poll_same s.pair s.clock resent
  have hfree : s.phase ≠ .free := by simp [hactive]
  cases hp with
  | threw => exact h.congr hacc hmdu ⟨rfl, rfl, rfl, rfl, fun _ => hfree⟩
  | tornDown e hheld => exact h.congr hacc hmdu ⟨rfl, rfl, rfl, rfl, fun _ => hfree⟩
  | flushed hheld hs =>
    have hpolled : Writing { s with pair := s.pair.poll s.clock resent } := h.congr hacc hmdu ⟨rfl, rfl, rfl, rfl, id⟩
    have hflush := hpolled.flush carried
    rw [← hs] at hflush
    exact hflush.congr rfl rfl ⟨rfl, rfl, rfl, rfl, id⟩

theorem handOver_writer (room : Nat → Bool) (n : Nat) (ms : List Message) (s : State) :
    (handOver room n ms s).outbox = s.outbox ∧ (handOver room n ms s).taken = s.taken ∧
    (handOver room n ms s).cleared = s.cleared ∧ (handOver room n ms s).txMsgs = s.txMsgs ∧
    (handOver room n ms s).phase = s.phase := by
  induction ms generalizing n s with
  | nil => exact ⟨rfl, rfl, rfl, rfl, rfl⟩
  | cons m ms ih =>
    obtain ⟨h₁, h₂, h₃, h₄, h₅⟩ := ih (n + 1) (onChannelMsgCb (room n) m s)
    rw [handOver, h₁, h₂, h₃, h₄, h₅]
    unfold onChannelMsgCb
    split_ifs <;> exact ⟨rfl, rfl, rfl, rfl, rfl⟩

theorem Writing.step (h : Writing s) : Writing (step s op) := by
  cases op with
  | wait d => exact h.congr rfl rfl ⟨rfl, rfl, rfl, rfl, id⟩
  | write data ok => exact h.wrote (List.length_take_le _ _) (ChannelStream.wrote data ok s)
  | established carried =>
    simp only [ChannelStream.step, onChanLinkEstablishedCb]
    split
    · next hw =>
      have hup : Writing { s with phase := .active, lastError := none } :=
        h.congr rfl rfl ⟨rfl, rfl, rfl, rfl, fun _ => by simp [hw]⟩
      exact hup.flush carried
    · exact h
  | pollAll resent carried =>
    by_cases hactive : s.phase = .active
    · exact h.polledAll hactive (ChannelStream.polledAll resent carried hactive)
    · rw [ChannelStream.step, channelPollAll, if_neg hactive]
      exact h
  | closed error =>
    simp only [ChannelStream.step, onChanLinkClosedCb]
    split
    · next hw => exact h.congr rfl rfl ⟨rfl, rfl, rfl, rfl, fun _ => by rcases hw with hw | hw <;> simp [hw]⟩
    · exact h
  | free =>
    simp only [ChannelStream.step, chanFreeSlot]
    split
    · exact h
    · next hw =>
      have hfree : s.phase ≠ .free := fun hp => hw (.inl hp)
      refine ⟨?_, Nat.zero_le _, h.framed, h.fits, fun hp => absurd rfl hp, fun hp => absurd rfl hp⟩
      simp [h.order, h.kept hfree, Pair.step]
  | arrive i room =>
    obtain ⟨h₁, h₂, h₃, h₄, h₅⟩ := handOver_writer room s.pair.receiver.handed.length
      ((s.pair.step (.arrive i)).receiver.handed.drop s.pair.receiver.handed.length)
      { s with pair := s.pair.step (.arrive i) }
    have hsides := Channel.step_sides s.pair (.arrive i) (by simp) (by simp) (by simp)
    refine h.congr ?_ ?_ ⟨h₁, h₂, h₃, h₄, fun hp => by rwa [← h₅]⟩
    · rw [ChannelStream.step, arrive, handOver_pair]
      exact hsides.1
    · rw [ChannelStream.step, arrive, handOver_pair]
      exact hsides.2.2.2.2
  | proofArrives i =>
    have hsides := Channel.step_sides s.pair (.proofArrives i) (by simp) (by simp) (by simp)
    exact h.congr hsides.1 hsides.2.2.2.2 ⟨rfl, rfl, rfl, rfl, id⟩
  | receiptTimesOut i =>
    have hsides := Channel.step_sides s.pair (.receiptTimesOut i) (by simp) (by simp) (by simp)
    exact h.congr hsides.1 hsides.2.2.2.2 ⟨rfl, rfl, rfl, rfl, id⟩
  | receiptCulled i =>
    have hsides := Channel.step_sides s.pair (.receiptCulled i) (by simp) (by simp) (by simp)
    exact h.congr hsides.1 hsides.2.2.2.2 ⟨rfl, rfl, rfl, rfl, id⟩
  | linkMoves active rtt => exact h.congr rfl rfl ⟨rfl, rfl, rfl, rfl, id⟩
  | closeReader => exact h.congr rfl rfl ⟨rfl, rfl, rfl, rfl, id⟩

-- ---------------------------------------------------------------------------
-- The reader's side
-- ---------------------------------------------------------------------------

structure Reading (s : State) : Prop where
  tallied : s.rxMsgs = s.consumed.length
  passed : s.consumed.Sublist (s.pair.receiver.handed.map frame)
  whole : s.rxError = none → s.consumed = s.pair.receiver.handed.map frame
  /-- What came too big did not come from here. -/
  oversize : s.rxError = some .rxOversize → ∃ m ∈ s.pair.receiver.handed, FRAME_MAX < (frame m).length

theorem Reading.congr (h : Reading s) (hh : s'.pair.receiver.handed = s.pair.receiver.handed)
    (hsame : s'.consumed = s.consumed ∧ s'.rxMsgs = s.rxMsgs ∧ s'.rxError = s.rxError) : Reading s' := by
  obtain ⟨hc, hr, he⟩ := hsame
  refine ⟨?_, ?_, ?_, ?_⟩
  · rw [hr, hc]
    exact h.tallied
  · rw [hc, hh]
    exact h.passed
  · rw [he, hc, hh]
    exact h.whole
  · rw [he, hh]
    exact h.oversize

/-- The messages that have been handed over up to a call, and the slot after it. -/
structure Called (had : List Message) (s : State) : Prop where
  counted : s.rxMsgs = s.consumed.length
  passed : s.consumed.Sublist (had.map frame)
  whole : s.rxError = none → s.consumed = had.map frame
  fits : s.rxError = some .rxOversize → ∃ m ∈ had, FRAME_MAX < (frame m).length

theorem Called.call {had : List Message} (h : Called had s) (m : Message) (ok : Bool) :
    Called (had ++ [m]) (onChannelMsgCb ok m s) := by
  have hskip : s.consumed.Sublist ((had ++ [m]).map frame) := by
    rw [List.map_append]
    exact h.passed.trans (List.sublist_append_left _ _)
  unfold onChannelMsgCb
  split_ifs with hbig hok
  · exact ⟨h.counted, hskip, by simp, fun _ => ⟨m, by simp, hbig⟩⟩
  · refine ⟨?_, ?_, fun he => ?_, fun he => ?_⟩
    · simp [h.counted]
    · rw [List.map_append]
      exact h.passed.append (List.Sublist.refl _)
    · simp [h.whole he]
    · obtain ⟨m', hm', hbig'⟩ := h.fits he
      exact ⟨m', List.mem_append_left _ hm', hbig'⟩
  · exact ⟨h.counted, hskip, by simp, by simp⟩

theorem Called.calls {had : List Message} (h : Called had s) (room : Nat → Bool) (n : Nat) (ms : List Message) :
    Called (had ++ ms) (handOver room n ms s) := by
  induction ms generalizing had n s with
  | nil => rwa [List.append_nil]
  | cons m ms ih =>
    have hnext := ih (h.call m (room n)) (n + 1)
    rwa [List.append_assoc] at hnext

theorem Called.reading (h : Called s.pair.receiver.handed s) : Reading s := ⟨h.1, h.2, h.3, h.4⟩

theorem drain_handed {d : Channel} {fuel : Nat} : d.handed <+: (Channel.drain fuel d).handed := by
  induction fuel generalizing d with
  | zero => exact List.prefix_rfl
  | succ fuel ih =>
    rw [Channel.drain]
    split
    · exact List.prefix_rfl
    · refine List.IsPrefix.trans ?_ ih
      unfold Channel.handOver
      dsimp only
      split
      · exact List.prefix_append _ _
      · exact List.prefix_rfl

theorem receive_handed {d : Channel} {raw : Bytes} : d.handed <+: (d.receive raw).handed := by
  unfold Channel.receive
  split
  · exact List.prefix_rfl
  · split
    · exact List.prefix_rfl
    · split
      · exact List.prefix_rfl
      · next ring _ => exact drain_handed (d := { d with rxRing := ring })

theorem arrive_handed (p : Pair) (i : Nat) : p.receiver.handed <+: (p.step (.arrive i)).receiver.handed := by
  rw [Pair.step]
  rcases Channel.arrive_cases p i with h | ⟨t, -, -, h⟩
  · rw [h]
  · rw [h]
    exact receive_handed

theorem Reading.arrive (h : Reading s) (i : Nat) (room : Nat → Bool) : Reading (arrive i room s) := by
  obtain ⟨new, hnew⟩ := arrive_handed s.pair i
  have hcalled : Called s.pair.receiver.handed { s with pair := s.pair.step (.arrive i) } := ⟨h.1, h.2, h.3, h.4⟩
  have hcalls := hcalled.calls room s.pair.receiver.handed.length new
  have hnow : ChannelStream.arrive i room s =
      handOver room s.pair.receiver.handed.length new { s with pair := s.pair.step (.arrive i) } := by
    simp only [ChannelStream.arrive, ← hnew, List.drop_left]
  rw [hnow]
  refine Called.reading ?_
  rw [handOver_pair, ← hnew]
  exact hcalls

/-- Only an arrival has to do with the reader's consumer. -/
theorem step_reader (h : ∀ i room, op ≠ .arrive i room) : (step s op).consumed = s.consumed ∧
    (step s op).rxMsgs = s.rxMsgs ∧ (step s op).rxError = s.rxError := by
  cases op with
  | arrive i room => exact absurd rfl (h i room)
  | write data ok =>
    rw [step]
    generalize onChannelRecv data ok s = s', wrote data ok s = hw
    cases hw <;> exact ⟨rfl, rfl, rfl⟩
  | established carried =>
    simp only [step, onChanLinkEstablishedCb]
    split
    · have hflush := flush_aside carried s.outbox { s with phase := .active, lastError := none }
      exact ⟨hflush.consumed, hflush.rxMsgs, hflush.rxError⟩
    · exact ⟨rfl, rfl, rfl⟩
  | pollAll resent carried =>
    rw [step]
    by_cases hactive : s.phase = .active
    · generalize channelPollAll resent carried s = s', polledAll resent carried hactive = hp
      cases hp with
      | flushed _ hs =>
        subst hs
        have hflush := flush_aside carried s.outbox { s with pair := s.pair.poll s.clock resent }
        exact ⟨hflush.consumed, hflush.rxMsgs, hflush.rxError⟩
      | _ => exact ⟨rfl, rfl, rfl⟩
    · rw [channelPollAll, if_neg hactive]
      exact ⟨rfl, rfl, rfl⟩
  | closed error =>
    simp only [step, onChanLinkClosedCb]
    split <;> exact ⟨rfl, rfl, rfl⟩
  | free =>
    simp only [step, chanFreeSlot]
    split <;> exact ⟨rfl, rfl, rfl⟩
  | _ => exact ⟨rfl, rfl, rfl⟩

theorem Reading.step (h : Reading s) (ho : OnAir s.pair) : Reading (step s op) := by
  by_cases ha : ∃ i room, op = .arrive i room
  · obtain ⟨i, room, rfl⟩ := ha
    exact h.arrive i room
  · push Not at ha
    refine h.congr ?_ (step_reader ha)
    rcases step_pair s op with hgoes | ⟨i, room, rfl, -⟩ | ⟨-, hpair⟩
    · rw [hgoes.receiver ho]
    · exact absurd rfl (ha i room)
    · rw [hpair]
      rfl

-- ---------------------------------------------------------------------------
-- Every run
-- ---------------------------------------------------------------------------

theorem step_onAir (h : OnAir s.pair) : OnAir (step s op).pair := step_always (fun _ _ => Channel.step_onAir) h

theorem step_tracked (h : Tracked s.pair) : Tracked (step s op).pair := step_always (fun _ _ h => h.step) h

structure Streaming (s : State) : Prop extends Writing s, Reading s where
  onAir : OnAir s.pair

theorem Streaming.step (h : Streaming s) : Streaming (step s op) where
  toWriting := h.toWriting.step
  toReading := h.toReading.step h.onAir
  onAir := step_onAir h.onAir

theorem streaming_boot (out : Bool) (mdu peer : UInt16) (t : ℚ) : Streaming (boot out mdu peer t) := by
  refine ⟨⟨rfl, Nat.zero_le _, ?_, ?_, fun _ => rfl, fun _ => rfl⟩, ⟨rfl, List.Sublist.refl _, fun _ => rfl, ?_⟩,
    Channel.init_onAir _ _⟩
  · simp [boot]
  · simp [boot, Pair.init]
  · simp [boot]

/-- The reader's consumer gets what the writer's slot has taken, in its order. -/
structure Ordered (s : State) : Prop where
  handed : s.pair.receiver.handed.map frame <+: s.taken
  consumed : s.consumed.Sublist s.taken
  fits : s.rxError ≠ some .rxOversize
  whole : s.rxError = none → s.consumed <+: s.taken

theorem Streaming.ordered (h : Streaming s) (hd : Channel.Delivering s.pair) : Ordered s := by
  have hhanded : s.pair.receiver.handed.map frame <+: s.taken := by
    rw [h.order]
    exact (hd.handed.map frame).trans (List.prefix_append _ _)
  refine ⟨hhanded, h.passed.trans hhanded.sublist, fun he => ?_, fun he => h.whole he ▸ hhanded⟩
  obtain ⟨m, hm, hbig⟩ := h.oversize he
  have hmem := hhanded.subset (List.mem_map_of_mem hm)
  exact absurd (h.framed _ hmem).2 hbig.not_ge

theorem own_inStep {p : Pair} {o : Channel.Op} (h : Own o) : Channel.InStep p o := by
  cases o with
  | arrive i => exact absurd h id
  | _ => trivial

/-- What the slot has taken is what its channel has accepted and then what waits, in order, and the reader's
consumer gets it in that order in every run in which its channel takes in nothing but what it awaits. -/
theorem stream_in_order (out : Bool) (mdu peer : UInt16) (t : ℚ) (ops : List Op) :
    Throughout step Streaming (boot out mdu peer t) ops ∧
      (Guarded step (Meets Channel.InStep) (boot out mdu peer t) ops →
        Throughout step Ordered (boot out mdu peer t) ops) := by
  have hstream := streaming_boot out mdu peer t
  refine ⟨fun pre _ => Lib.Runs.invariant (fun _ _ h => h.step) hstream, fun hg => ?_⟩
  have hboth : ∀ s op, Streaming s ∧ Channel.Delivering s.pair → Meets Channel.InStep s op →
      Streaming (step s op) ∧ Channel.Delivering (step s op).pair := by
    rintro s op ⟨hs, hd⟩ hok
    refine ⟨hs.step, ?_⟩
    exact step_keeps (fun _ _ => Channel.step_delivering) (fun _ _ => own_inStep) hd hok
  exact (hg.throughout hboth ⟨hstream, Channel.init_delivering _ _⟩).mono fun _ h => h.1.ordered h.2

/-- A frame is written before the link is up, arrives, and is proved. -/
def aGreeting : List Op :=
  [.write [1, 0, 104, 105] true, .established fun _ => true, .arrive 0 fun _ => true, .proofArrives 0]

theorem stream_in_order_aGreeting : Throughout step Ordered (boot true 431 431 0) aGreeting := by
  refine (stream_in_order true 431 431 0 aGreeting).2 ⟨trivial, trivial, fun t ht _ _ => ?_, trivial, trivial⟩
  obtain rfl : (⟨Channel.pack 0 (message [1, 0, 104, 105]), 0⟩ : Channel.Transmission) = t := Option.some.inj ht
  decide +kernel

-- ---------------------------------------------------------------------------
-- When nothing is outstanding
-- ---------------------------------------------------------------------------

theorem bounds_moved {d d' : Channel} (h : Channel.Bounds d) (hm : Channel.Moved d d') : Channel.Bounds d' := by
  obtain ⟨events, hsame⟩ := hm
  have hrun : Channel.Bounds (run Channel.windowStep d events) := Lib.Runs.invariant (fun _ _ h => h.step.1) h
  refine ⟨?_, ?_, ?_, ?_, ?_, ?_⟩ <;> simp only [hsame.window, hsame.windowMax, hsame.windowMin]
  · exact hrun.positive
  · exact hrun.open_
  · exact hrun.room
  · exact hrun.ceiling
  · exact hrun.slow
  · exact hrun.limit

theorem step_bounds (h : Channel.Bounds s.pair.sender) : Channel.Bounds (step s op).pair.sender :=
  step_always (P := fun p => Channel.Bounds p.sender) (fun _ _ hp => bounds_moved hp Channel.step_moved) h

theorem flush_held : (flush carried bufs s).pair.sender.held = s.pair.sender.held := by
  have hframed : ∀ {s : State} {buf : Bytes} {ok : Bool},
      (chanSendFramed buf ok s).2.pair.sender.held = s.pair.sender.held := by
    intro s buf ok
    unfold chanSendFramed
    split
    · rfl
    · by_cases h : Takes s buf
      · simp only [send_accepted h.1 h.2]
      · simp only [send_refused h]
  induction bufs generalizing s with
  | nil => rfl
  | cons m bufs ih =>
    rw [flush]
    split
    · dsimp only
      split
      · exact ih.trans hframed
      · exact hframed
    · rfl

/-- A slot that is not over has its channel. -/
def Holds (s : State) : Prop := s.phase = .waiting ∨ s.phase = .active → s.pair.sender.held

theorem step_holds (h : Holds s) : Holds (step s op) := by
  cases op with
  | write data ok =>
    rw [step]
    generalize onChannelRecv data ok s = s', wrote data ok s = hw
    cases hw with
    | sent _ hactive _ htakes =>
      intro _
      simp only [send_accepted htakes.1 htakes.2]
      exact h (.inr hactive)
    | _ => exact h
  | established carried =>
    simp only [step, onChanLinkEstablishedCb, chanFlushOutbox]
    split
    · next hw =>
      intro _
      rw [flush_held]
      exact h (.inl hw)
    · exact h
  | pollAll resent carried =>
    rw [step]
    by_cases hactive : s.phase = .active
    · generalize channelPollAll resent carried s = s', polledAll resent carried hactive = hp
      cases hp with
      | threw => simp [Holds]
      | tornDown => simp [Holds]
      | flushed hheld hs =>
        subst hs
        intro _
        exact flush_held.trans hheld
    · rw [channelPollAll, if_neg hactive]
      exact h
  | closed error =>
    simp only [step, onChanLinkClosedCb]
    split
    · simp [Holds]
    · exact h
  | free =>
    simp only [step, chanFreeSlot]
    split
    · exact h
    · simp [Holds]
  | arrive i room =>
    have hheld := (Channel.step_sides s.pair (.arrive i) (by simp) (by simp) (by simp)).2.2.2.1
    have hphase := (handOver_writer room s.pair.receiver.handed.length
      ((s.pair.step (.arrive i)).receiver.handed.drop s.pair.receiver.handed.length)
      { s with pair := s.pair.step (.arrive i) }).2.2.2.2
    intro hp
    rw [step, arrive, handOver_pair, hheld]
    exact h (by rwa [step, arrive, hphase] at hp)
  | proofArrives i =>
    have hheld := (Channel.step_sides s.pair (.proofArrives i) (by simp) (by simp) (by simp)).2.2.2.1
    exact fun hp => hheld.trans (h hp)
  | receiptTimesOut i => exact fun hp => (congrArg (·.held) (Channel.conclude_sides i _).1).trans (h hp)
  | receiptCulled i => exact fun hp => (congrArg (·.held) (Channel.conclude_sides i _).1).trans (h hp)
  | wait d => exact h
  | linkMoves active rtt => exact h
  | closeReader => exact h

theorem own_sound {p : Pair} {o : Channel.Op} (h : Own o) : Channel.Sound p o := by
  cases o with
  | arrive i => exact absurd h id
  | closeReceiver => exact absurd h id
  | _ => trivial

theorem settled_received {p : Pair} (h : Channel.Settled p n) :
    Channel.Received p.accepted p.receiver n := by
  rcases h with h | h
  · exact .inl h.1
  · exact .inr h.1

/-- Where the messages up to one are settled, that one has been handed over. -/
theorem handed_of_acked {p : Pair} (h : Channel.Accounted p) (hall : ∀ k ≤ n, k ∈ p.acked) :
    n < p.receiver.handed.length := by
  rcases h.settled (hall n le_rfl) with hn | ⟨-, k, hk, hmissing⟩
  · exact hn.1
  · exact absurd (settled_received (h.settled (hall k hk.le))) hmissing

/-- What a run keeps under `Sound`. -/
structure Accounts (s : State) : Prop where
  streaming : Streaming s
  tracked : Tracked s.pair
  bounds : Channel.Bounds s.pair.sender
  holds : Holds s

theorem Accounts.step (h : Accounts s) (op : Op) : Accounts (step s op) :=
  ⟨h.streaming.step, step_tracked h.tracked, step_bounds h.bounds, step_holds h.holds⟩

theorem accounts_boot (out : Bool) (mdu peer : UInt16) (t : ℚ) : Accounts (boot out mdu peer t) :=
  ⟨streaming_boot out mdu peer t, Channel.tracked_init _ _, Channel.bounds_fresh mdu, fun _ => rfl⟩

/-- A channel whose link is active and has nothing outstanding takes what fits. -/
theorem Accounts.takes (h : Accounts s) (hl : s.pair.sender.linkActive) (hr : s.pair.sender.txRing = [])
    (hf : Fits s.pair.sender.linkMdu (message buf)) : Takes s buf := by
  refine ⟨?_, hf⟩
  have hopen := h.bounds.open_
  simp only [Pair.isReadyToSend, hl, hr, List.countP_nil, Bool.true_and, decide_eq_true_eq]
  omega

/-- Everything has been handed over, and what waits has a reason to. -/
structure Settled (s : State) : Prop where
  handed : s.pair.receiver.handed = s.pair.accepted
  waits : ∀ buf ∈ s.outbox.head?, s.pair.sender.linkActive = false ∨ ¬ Fits s.pair.sender.linkMdu (message buf)
  whole : s.outbox = [] → s.pair.receiver.handed.map frame = s.taken
  consumed : s.outbox = [] → s.rxError = none → s.consumed = s.taken

/-- A poll that publishes that nothing is outstanding. -/
theorem settled_of_none_outstanding (h : Accounts s) (ha : Channel.Accounted (step s (.pollAll resent carried)).pair)
    (hp : (step s (.pollAll resent carried)).phase = .active)
    (hz : (step s (.pollAll resent carried)).outstanding = some 0) : Settled (step s (.pollAll resent carried)) := by
  have hacc := h.step (.pollAll resent carried)
  have hactive : s.phase = .active := by
    by_contra hne
    rw [ChannelStream.step, channelPollAll, if_neg hne] at hp
    exact hne hp
  -- the poll has come to its end, and the flush after it has stopped
  obtain ⟨hring, hstops⟩ : (step s (.pollAll resent carried)).pair.sender.txRing = [] ∧
      ∀ buf ∈ (step s (.pollAll resent carried)).outbox.head?, ¬ Takes (step s (.pollAll resent carried)) buf := by
    rw [step] at hp hz ⊢
    generalize channelPollAll resent carried s = s', polledAll resent carried hactive = hpolled at hp hz ⊢
    cases hpolled with
    | threw => cases hp
    | tornDown => cases hp
    | @flushed s' hheld hs =>
      refine ⟨List.eq_nil_of_length_eq_zero (Option.some.inj hz), ?_⟩
      obtain ⟨sent, hf⟩ := flush_spec carried (s := { s with pair := s.pair.poll s.clock resent }) rfl
        fun buf hbuf => h.streaming.toWriting.outbox_framed (s := s) hbuf
      subst hs
      exact hf.stops
  generalize step s (.pollAll resent carried) = s' at *
  have hheld : s'.pair.sender.held := hacc.holds (.inr hp)
  have hall : ∀ i < s'.pair.accepted.length, i ∈ s'.pair.acked := by
    intro i hi
    have hplaced := hacc.tracked.placed hheld i hi
    rw [hring] at hplaced
    exact hplaced.resolve_right List.not_mem_nil
  have hhanded : s'.pair.receiver.handed = s'.pair.accepted := by
    refine ha.delivering.handed.eq_of_length_le ?_
    by_contra hshort
    rw [not_le] at hshort
    have hlast := handed_of_acked (n := s'.pair.receiver.handed.length) ha fun k hk => hall k (lt_of_le_of_lt hk hshort)
    exact lt_irrefl _ hlast
  have hwhole : s'.outbox = [] → s'.pair.receiver.handed.map frame = s'.taken := by
    intro hempty
    have hfree : s'.phase ≠ .free := by simp [hp]
    rw [hacc.streaming.order, hempty, hacc.streaming.kept hfree, hhanded]
    simp
  refine ⟨hhanded, fun buf hbuf => ?_, hwhole, fun hempty he => ?_⟩
  · by_contra hnone
    rw [not_or, Bool.not_eq_false, not_not] at hnone
    exact hstops buf hbuf (hacc.takes hnone.1 hring hnone.2)
  · rw [hacc.streaming.whole he]
    exact hwhole hempty

theorem step_accounted (h : Channel.Accounted s.pair) (hok : Meets Channel.Sound s op) :
    Channel.Accounted (step s op).pair :=
  step_keeps (fun _ _ => Channel.step_accounted) (fun _ _ => own_sound) h hok

/-- When a poll has published that nothing is outstanding, the reader has got every message the channel has
accepted; and the outbox is empty, or the link is stale, or its first frame is too big for it. -/
theorem received_when_none_outstanding (out : Bool) (mdu peer : UInt16) (t : ℚ) (ops : List Op)
    (resent carried : Nat → Bool)
    (hg : Guarded step (Meets Channel.Sound) (boot out mdu peer t) (ops ++ [.pollAll resent carried]))
    (hp : (run step (boot out mdu peer t) (ops ++ [.pollAll resent carried])).phase = .active)
    (hz : (run step (boot out mdu peer t) (ops ++ [.pollAll resent carried])).outstanding = some 0) :
    Settled (run step (boot out mdu peer t) (ops ++ [.pollAll resent carried])) := by
  have hstep : ∀ s op, Channel.Accounted s.pair → Meets Channel.Sound s op → Channel.Accounted (step s op).pair :=
    fun _ _ => step_accounted
  have ha : Channel.Accounted (run step (boot out mdu peer t) (ops ++ [.pollAll resent carried])).pair :=
    hg.invariant hstep (Channel.init_accounted _ _)
  have hacc : Accounts (run step (boot out mdu peer t) ops) :=
    Lib.Runs.invariant (fun _ op h => h.step op) (accounts_boot out mdu peer t)
  rw [Lib.Runs.run_concat] at *
  exact settled_of_none_outstanding hacc ha hp hz

theorem received_when_none_outstanding_aGreeting :
    Settled (run step (boot true 431 431 0) (aGreeting ++ [.pollAll (fun _ => true) fun _ => true])) := by
  refine received_when_none_outstanding true 431 431 0 aGreeting _ _ ?_ (by decide +kernel) (by decide +kernel)
  refine ⟨trivial, trivial, fun t ht _ => ?_, trivial, trivial, trivial⟩
  obtain rfl : (⟨Channel.pack 0 (message [1, 0, 104, 105]), 0⟩ : Channel.Transmission) = t := Option.some.inj ht
  rw [if_pos (by decide +kernel)]
  decide +kernel

end MicroReticulum.Rnsd.ChannelStream
