import MicroReticulum.Rnsd.Streaming

/-!
# The ends of a frame

Where the slots are polled again and again at times past every bound, and the
polls do not find the link stale for ever, a frame the slot has taken does not
stay unproved: its message is proved in the end, or the slot is over. One kind
of frame is the exception, with all that come behind it: one that is too big for
the link, taken while the link was not up yet.
-/

namespace MicroReticulum.Rnsd.ChannelStream

open Channel (Pair Message Fits Tracked Onward Presses pressing rank due nums)
open Lib.Progress (states Ticking Leaves states_invariant)

variable {s s' : State} {op : Op} {ops : ℕ → Op} {buf : Bytes} {bufs : List Bytes} {carried resent : Nat → Bool}
  {s₀ : State} {out : Bool} {mdu peer : UInt16} {t : ℚ} {n k j p q : ℕ}

-- ---------------------------------------------------------------------------
-- What a step leads to
-- ---------------------------------------------------------------------------

def Op.Polls : Op → Prop
  | .pollAll .. => True
  | _ => False

/-- The slot has closed or is free, or its node has gone down. -/
def Over (s : State) : Prop := s.phase = .closed ∨ s.phase = .free ∨ s.phase = .dead

/-- The link has come up, and is not stale. -/
def Up (s : State) : Prop := s.phase ≠ .waiting ∧ (s.phase = .active → s.pair.sender.linkActive)

theorem step_onward : Onward s.pair (step s op).pair :=
  step_always (P := fun p => Onward s.pair p) (fun _ _ h => h.trans Channel.step_onward) (.refl _)

theorem step_presses (h : Tracked s.pair) (hn : n ≤ s.pair.accepted.length) (hheld : (step s op).pair.sender.held) :
    Presses n s.pair.sender.txRing (step s op).pair.sender.txRing := by
  rcases step_pair s op with ⟨l, -, hpair⟩ | ⟨i, room, -, hpair⟩ | ⟨-, hpair⟩
  · rw [hpair] at hheld ⊢
    exact Channel.run_presses h hn hheld
  · rw [hpair] at hheld ⊢
    exact Channel.step_presses h hn hheld
  · rw [hpair] at hheld ⊢
    exact Channel.step_presses h hn hheld

theorem step_phase (h : s.phase = .active) : (step s op).phase = .active ∨ Over (step s op) := by
  cases op with
  | write data ok =>
    rw [step]
    generalize onChannelRecv data ok s = s', wrote data ok s = hw
    cases hw <;> exact .inl h
  | established carried => exact .inl (by simp [step, onChanLinkEstablishedCb, h])
  | pollAll resent carried =>
    rw [step]
    generalize channelPollAll resent carried s = s', polledAll resent carried h = hp
    cases hp with
    | threw => exact .inr (.inr (.inr rfl))
    | tornDown => exact .inr (.inl rfl)
    | flushed _ hs =>
      subst hs
      exact .inl ((flush_aside ..).phase.trans h)
  | closed error =>
    simp only [step, onChanLinkClosedCb]
    split
    · exact .inr (.inl rfl)
    · exact .inl h
  | free =>
    simp only [step, chanFreeSlot]
    split
    · exact .inl h
    · exact .inr (.inr (.inl rfl))
  | arrive i room => exact .inl ((handOver_writer ..).2.2.2.2.trans h)
  | _ => exact .inl h

theorem step_taken : s.taken <+: (step s op).taken := by
  have hsame : ∀ {s' : State}, s'.taken = s.taken → s.taken <+: s'.taken := fun h => h ▸ List.prefix_rfl
  cases op with
  | write data ok =>
    rw [step]
    generalize onChannelRecv data ok s = s', wrote data ok s = hw
    cases hw with
    | ignored => exact List.prefix_rfl
    | refused e => exact List.prefix_rfl
    | buffered => exact List.prefix_append _ _
    | sent => exact List.prefix_append _ _
  | established carried =>
    simp only [step, onChanLinkEstablishedCb]
    split
    · exact hsame (flush_aside carried s.outbox { s with phase := .active, lastError := none }).taken
    · exact List.prefix_rfl
  | pollAll resent carried =>
    rw [step]
    by_cases hactive : s.phase = .active
    · generalize channelPollAll resent carried s = s', polledAll resent carried hactive = hp
      cases hp with
      | flushed _ hs =>
        subst hs
        exact hsame (flush_aside carried s.outbox { s with pair := s.pair.poll s.clock resent }).taken
      | _ => exact List.prefix_rfl
    · rw [channelPollAll, if_neg hactive]
  | closed error =>
    simp only [step, onChanLinkClosedCb]
    split <;> exact List.prefix_rfl
  | free =>
    simp only [step, chanFreeSlot]
    split <;> exact List.prefix_rfl
  | arrive i room => exact hsame (handOver_writer ..).2.1
  | _ => exact List.prefix_rfl

-- ---------------------------------------------------------------------------
-- Envelopes come to an end
-- ---------------------------------------------------------------------------

/-- An envelope of the first `n` messages is in the ring. -/
structure Pressed (n : Nat) (s : State) : Prop where
  active : s.phase = .active
  accepted : n ≤ s.pair.accepted.length
  pressing : pressing n s.pair.sender.txRing ≠ []

theorem moves (h : Accounts s) (hin : Pressed n s) (hin' : Pressed n (step s op)) :
    rank n (step s op).pair.sender.txRing < rank n s.pair.sender.txRing ∨
      rank n (step s op).pair.sender.txRing = rank n s.pair.sender.txRing ∧
        due n (step s op).pair.sender.txRing = due n s.pair.sender.txRing := by
  have hheld := (h.step op).holds (.inr hin'.active)
  refine (step_presses h.tracked hin.accepted hheld).imp_right fun heq => ?_
  rw [rank, due, heq]
  exact ⟨rfl, rfl⟩

theorem ticks (h : Accounts s) (hin : Pressed n s) (hp : op.Polls) (hdue : due n s.pair.sender.txRing ≤ s.clock)
    (hin' : Pressed n (step s op)) : rank n (step s op).pair.sender.txRing < rank n s.pair.sender.txRing := by
  cases op with
  | pollAll resent carried =>
    have hactive' := hin'.active
    have hheld' := (h.step (.pollAll resent carried)).holds (.inr hactive')
    rw [step] at hactive' hheld' ⊢
    generalize channelPollAll resent carried s = s', polledAll resent carried hin.active = hpolled
      at hactive' hheld' ⊢
    cases hpolled with
    | threw => cases hactive'
    | tornDown => cases hactive'
    | flushed hheld hs =>
      have hfall := Channel.poll_falls resent h.tracked hin.pressing hdue hheld
      refine lt_of_le_of_lt ?_ hfall
      obtain ⟨l, -, hpair⟩ := goes_flush carried s.outbox { s with pair := s.pair.poll s.clock resent }
      subst hs
      have hacc := (poll_same s.pair s.clock resent).1
      have hpresses : Presses n (s.pair.poll s.clock resent).sender.txRing
          (chanFlushOutbox carried { s with pair := s.pair.poll s.clock resent }).pair.sender.txRing := by
        rw [chanFlushOutbox, hpair] at hheld' ⊢
        exact Channel.run_presses h.tracked.poll (hacc ▸ hin.accepted) hheld'
      exact hpresses.le
  | _ => exact absurd hp id

theorem leaves (n : Nat) : Leaves step Accounts Op.Polls State.clock (Pressed n)
    (fun s => rank n s.pair.sender.txRing) (fun s => due n s.pair.sender.txRing) where
  moves _ _ h hin hin' := moves h hin hin'
  ticks _ _ h hin hp hdue hin' := ticks h hin hp hdue hin'

-- ---------------------------------------------------------------------------
-- Runs
-- ---------------------------------------------------------------------------

theorem accounts_states (h : Accounts s₀) (ops : ℕ → Op) (k : ℕ) : Accounts (states step s₀ ops k) :=
  states_invariant (fun _ op h => h.step op) h k

theorem onward_states (s₀ : State) (ops : ℕ → Op) (k d : ℕ) :
    Onward (states step s₀ ops k).pair (states step s₀ ops (k + d)).pair := by
  induction d with
  | zero => exact .refl _
  | succ d ih => exact ih.trans step_onward

theorem taken_states (s₀ : State) (ops : ℕ → Op) (k d : ℕ) :
    (states step s₀ ops k).taken <+: (states step s₀ ops (k + d)).taken := by
  induction d with
  | zero => exact List.prefix_rfl
  | succ d ih => exact ih.trans step_taken

theorem taken_same (d : ℕ) (hq : q < (states step s₀ ops k).taken.length) :
    (states step s₀ ops (k + d)).taken[q]? = (states step s₀ ops k).taken[q]? := by
  obtain ⟨more, hmore⟩ := taken_states s₀ ops k d
  rw [← hmore, List.getElem?_append_left hq]

theorem linkMdu_states (s₀ : State) (ops : ℕ → Op) (k : ℕ) :
    (states step s₀ ops k).pair.sender.linkMdu = s₀.pair.sender.linkMdu := by
  have honward := onward_states s₀ ops 0 k
  rw [Nat.zero_add] at honward
  exact honward.linkMdu

/-- At any time polls are to come at times past every bound, when the link has come up and is not stale. -/
def Attended (s : State) (ops : ℕ → Op) : Prop :=
  ∀ j u, ∃ j' ≥ j, (ops j').Polls ∧ u ≤ (states step s ops j').clock ∧ Up (states step s ops j')

theorem Attended.ticking (h : Attended s₀ ops) : Ticking step Op.Polls State.clock s₀ ops := by
  intro j u
  obtain ⟨j', hj, hp, hu, -⟩ := h j u
  exact ⟨j', hj, hp, hu⟩

/-- From here on the slot is active for good. -/
structure Lasts (s : State) (ops : ℕ → Op) (k : ℕ) : Prop where
  accounts : Accounts s
  attended : Attended s ops
  active : ∀ j ≥ k, (states step s ops j).phase = .active

theorem Lasts.mono (h : Lasts s₀ ops k) (hj : k ≤ j) : Lasts s₀ ops j :=
  ⟨h.accounts, h.attended, fun i hi => h.active i (hj.trans hi)⟩

/-- A slot that is never over comes up, and stays so. -/
theorem lasts_of_not_over (h₀ : Accounts s₀) (ha : Attended s₀ ops) (h : ∀ j ≥ k, ¬ Over (states step s₀ ops j)) :
    ∃ j ≥ k, Lasts s₀ ops j := by
  obtain ⟨j, hj, -, -, hup⟩ := ha k 0
  refine ⟨j, hj, h₀, ha, fun i hi => ?_⟩
  obtain ⟨d, rfl⟩ := Nat.exists_eq_add_of_le hi
  induction d with
  | zero =>
    have hover := h j hj
    cases hphase : (states step s₀ ops j).phase with
    | waiting => exact absurd hphase hup.1
    | active => rfl
    | closed => exact absurd (.inl hphase) hover
    | free => exact absurd (.inr (.inl hphase)) hover
    | dead => exact absurd (.inr (.inr hphase)) hover
  | succ d ih => exact (step_phase (ih (Nat.le_add_right _ _))).resolve_right (h (j + (d + 1)) (hj.trans hi))

/-- The envelopes of messages that were accepted by now are gone some day. -/
theorem Lasts.unpressed (h : Lasts s₀ ops k) (hn : n ≤ (states step s₀ ops k).pair.accepted.length) :
    ∃ j ≥ k, pressing n (states step s₀ ops j).pair.sender.txRing = [] := by
  obtain ⟨j, hj, hnot⟩ := (leaves n).ends (accounts_states h.accounts ops) h.attended.ticking k
  refine ⟨j, hj, ?_⟩
  obtain ⟨d, rfl⟩ := Nat.exists_eq_add_of_le hj
  by_contra hsome
  exact hnot ⟨h.active _ hj, hn.trans (onward_states _ _ k d).accepted.length_le, hsome⟩

/-- And do not come back. -/
theorem Lasts.stays_unpressed (h : Lasts s₀ ops k) (hn : n ≤ (states step s₀ ops k).pair.accepted.length)
    (hnone : pressing n (states step s₀ ops k).pair.sender.txRing = []) (d : ℕ) :
    pressing n (states step s₀ ops (k + d)).pair.sender.txRing = [] := by
  induction d with
  | zero => exact hnone
  | succ d ih =>
    have hactive := h.active (k + (d + 1)) (Nat.le_add_right _ _)
    have hheld := (accounts_states h.accounts ops (k + (d + 1))).holds (.inr hactive)
    have hn' := hn.trans (onward_states _ _ k d).accepted.length_le
    rcases step_presses (accounts_states h.accounts ops (k + d)).tracked hn' hheld with hlt | heq
    · rw [rank, rank, ih] at hlt
      exact absurd hlt (Nat.not_lt_zero _)
    · exact heq.trans ih

/-- What has been accepted is proved in the end. -/
theorem Lasts.acked (h : Lasts s₀ ops k) (hn : n ≤ (states step s₀ ops k).pair.accepted.length) :
    ∃ j ≥ k, ∀ i < n, i ∈ (states step s₀ ops j).pair.acked := by
  obtain ⟨j, hj, hnone⟩ := h.unpressed hn
  obtain ⟨d, rfl⟩ := Nat.exists_eq_add_of_le hj
  refine ⟨k + d, hj, fun i hi => ?_⟩
  have hacc := accounts_states h.accounts ops (k + d)
  have hlt := hi.trans_le (hn.trans (onward_states _ _ k d).accepted.length_le)
  refine (hacc.tracked.placed (hacc.holds (.inr (h.active _ hj))) i hlt).resolve_right fun hring => ?_
  obtain ⟨env, henv, rfl⟩ := List.mem_map.1 hring
  have hmem : env ∈ pressing n (states step s₀ ops (k + d)).pair.sender.txRing :=
    List.mem_filter.2 ⟨henv, decide_eq_true hi⟩
  rw [hnone] at hmem
  cases hmem

-- ---------------------------------------------------------------------------
-- The outbox comes to an end
-- ---------------------------------------------------------------------------

/-- A flush sends its first frame if the channel takes it. -/
theorem flush_sends {rest : List Bytes} (hout : s.outbox = buf :: rest) (hlen : CHAN_MSGTYPE_PREFIX ≤ buf.length)
    (h : Takes s buf) : s.pair.accepted.length < (chanFlushOutbox carried s).pair.accepted.length := by
  obtain ⟨hsent, hacc⟩ := framed_sent (carried s.pair.accepted.length) hlen h
  rw [chanFlushOutbox, hout, flush, if_pos h.1, hsent]
  simp only [if_true]
  refine lt_of_lt_of_le ?_ (goes_flush ..).onward.accepted.length_le
  simp only [hacc, List.length_append, List.length_singleton]
  exact Nat.lt_succ_self _

/-- So does a poll of a slot that has nothing outstanding, on a link that is not stale. -/
theorem polled_sends (h : Accounts s) {rest : List Bytes} (hactive : s.phase = .active)
    (hring : s.pair.sender.txRing = []) (hlink : s.pair.sender.linkActive) (hout : s.outbox = buf :: rest)
    (hfits : Fits s.pair.sender.linkMdu (message buf)) (hafter : (step s (.pollAll resent carried)).phase = .active) :
    s.pair.accepted.length < (step s (.pollAll resent carried)).pair.accepted.length := by
  rw [step] at hafter ⊢
  generalize channelPollAll resent carried s = s', polledAll resent carried hactive = hpolled at hafter ⊢
  cases hpolled with
  | threw => cases hafter
  | tornDown => cases hafter
  | flushed hheld hs =>
    obtain ⟨hacc, hmdu⟩ := poll_same s.pair s.clock resent
    have hmem : buf ∈ s.outbox := by simp [hout]
    have hlen := h.streaming.toWriting.outbox_framed hmem
    have htakes : Takes { s with pair := s.pair.poll s.clock resent } buf := by
      refine ⟨?_, by rwa [hmdu]⟩
      have hmoved : Channel.Moved s.pair.sender (s.pair.poll s.clock resent).sender := Channel.pollFrom_moved
      have hopen := (bounds_moved h.bounds hmoved).open_
      rcases Channel.poll_spec s.pair s.clock resent with hlost | ⟨ring', gone, hpoll, hleaves⟩
      · exact absurd (hlost.held.symm.trans hheld) Bool.false_ne_true
      · rw [hring] at hpoll
        cases hpoll
        simp only [Pair.isReadyToSend, hleaves.linkActive, hleaves.txRing, hlink, List.countP_nil, Bool.true_and,
          decide_eq_true_eq]
        exact hopen
    subst hs
    rw [← hacc]
    exact flush_sends (s := { s with pair := s.pair.poll s.clock resent }) hout hlen htakes

/-- What is taken is accepted if it fits, and all before it does. -/
def Passable (mdu : UInt16) (taken : List Bytes) (p : ℕ) : Prop :=
  ∀ q ≤ p, ∀ buf, taken[q]? = some buf → Fits mdu (message buf)

/-- Something more is accepted. -/
theorem Lasts.accepts (h : Lasts s₀ ops k) (hp : p < (states step s₀ ops k).taken.length)
    (hpass : Passable s₀.pair.sender.linkMdu (states step s₀ ops k).taken p)
    (hn : (states step s₀ ops k).pair.accepted.length ≤ p) :
    ∃ j ≥ k, (states step s₀ ops k).pair.accepted.length < (states step s₀ ops j).pair.accepted.length := by
  by_contra hnever
  push Not at hnever
  generalize hlen : (states step s₀ ops k).pair.accepted.length = n at hnever hn
  have hsame : ∀ d, (states step s₀ ops (k + d)).pair.accepted.length = n := fun d =>
    le_antisymm (hnever _ (Nat.le_add_right _ _)) (hlen ▸ (onward_states _ _ k d).accepted.length_le)
  -- the ring runs empty, and a poll after that finds the link up
  obtain ⟨j, hj, hnone⟩ := h.unpressed hlen.ge
  obtain ⟨d, rfl⟩ := Nat.exists_eq_add_of_le hj
  obtain ⟨j', hj', hpolls, -, hup⟩ := h.attended (k + d) 0
  obtain ⟨e, rfl⟩ := Nat.exists_eq_add_of_le hj'
  have hnone' := (h.mono hj).stays_unpressed (hsame d).ge hnone e
  have hactive := h.active (k + d + e) (by omega)
  have hacc := accounts_states h.accounts ops (k + d + e)
  have hcount := hsame (d + e)
  rw [← Nat.add_assoc] at hcount
  have hring : (states step s₀ ops (k + d + e)).pair.sender.txRing = [] := by
    rw [List.eq_nil_iff_forall_not_mem]
    intro env henv
    have hnum := hacc.tracked.numbered env.num (List.mem_map_of_mem henv)
    rw [hcount] at hnum
    have hmem : env ∈ pressing n (states step s₀ ops (k + d + e)).pair.sender.txRing :=
      List.mem_filter.2 ⟨henv, decide_eq_true hnum⟩
    rw [hnone'] at hmem
    cases hmem
  -- and a frame in the outbox that fits
  have hnth := taken_same (d + e) (lt_of_le_of_lt hn hp : n < (states step s₀ ops k).taken.length)
  rw [← Nat.add_assoc] at hnth
  have hfree : (states step s₀ ops (k + d + e)).phase ≠ .free := by simp [hactive]
  have horder := hacc.streaming.order
  rw [hacc.streaming.kept hfree, List.append_nil] at horder
  cases hout : (states step s₀ ops (k + d + e)).outbox with
  | nil =>
    rw [horder, hout, List.append_nil, List.getElem?_eq_none (by simp [hcount])] at hnth
    exact absurd (List.getElem?_eq_none_iff.1 hnth.symm) (lt_of_le_of_lt hn hp).not_ge
  | cons buf rest =>
    have hbuf : (states step s₀ ops k).taken[n]? = some buf := by
      rw [← hnth, horder, hout, List.getElem?_append_right (by simp [hcount])]
      simp [hcount]
    have hmdu := linkMdu_states s₀ ops (k + d + e)
    have hfits := hpass n hn buf hbuf
    rw [← hmdu] at hfits
    cases hop : ops (k + d + e) with
    | pollAll resent carried =>
      have hafter := h.active (k + d + e + 1) (by omega)
      rw [states, hop] at hafter
      have hmore := polled_sends hacc hactive hring (hup.2 hactive) hout hfits hafter
      rw [hcount, ← hop] at hmore
      exact absurd (hnever (k + d + e + 1) (by omega)) hmore.not_ge
    | _ =>
      rw [hop] at hpolls
      exact absurd hpolls id

theorem Lasts.accepted (h : Lasts s₀ ops k) (hp : p < (states step s₀ ops k).taken.length)
    (hpass : Passable s₀.pair.sender.linkMdu (states step s₀ ops k).taken p) :
    ∃ j ≥ k, p < (states step s₀ ops j).pair.accepted.length := by
  -- how many are still to be accepted
  generalize hmissing : p + 1 - (states step s₀ ops k).pair.accepted.length = missing
  induction missing using Nat.strong_induction_on generalizing k with
  | _ missing ih =>
    rcases Nat.lt_or_ge p (states step s₀ ops k).pair.accepted.length with hdone | hn
    · exact ⟨k, le_rfl, hdone⟩
    · obtain ⟨j, hj, hmore⟩ := h.accepts hp hpass hn
      obtain ⟨d, rfl⟩ := Nat.exists_eq_add_of_le hj
      have hlt := hp.trans_le (taken_states _ _ k d).length_le
      have hpass' : Passable s₀.pair.sender.linkMdu (states step s₀ ops (k + d)).taken p := fun q hq buf hbuf =>
        hpass q hq buf (taken_same d (lt_of_le_of_lt hq hp) ▸ hbuf)
      obtain ⟨j', hj', hdone⟩ := ih _ (by omega) (h.mono hj) hlt hpass' rfl
      exact ⟨j', hj.trans hj', hdone⟩

-- ---------------------------------------------------------------------------
-- The two ends
-- ---------------------------------------------------------------------------

theorem accounted_states (h : Channel.Accounted s₀.pair)
    (hs : ∀ i, Meets Channel.Sound (states step s₀ ops i) (ops i)) (k : ℕ) :
    Channel.Accounted (states step s₀ ops k).pair := by
  induction k with
  | zero => exact h
  | succ k ih => exact step_accounted ih (hs k)

/-- A message that is settled was accepted. -/
theorem Accounts.acked_lt (h : Accounts s) (hn : n ∈ s.pair.acked) : n < s.pair.accepted.length := by
  obtain ⟨i, -, tr, htr, rfl⟩ := h.streaming.onAir.acked n hn
  obtain ⟨m, hm, -⟩ := h.streaming.onAir.wire tr (List.mem_of_getElem? htr)
  exact (List.getElem?_eq_some_iff.1 hm).1

/-- What is accepted fits. -/
theorem Accounts.passable (h : Accounts s) (hn : p < s.pair.accepted.length) :
    Passable s.pair.sender.linkMdu s.taken p := by
  intro q hq buf hbuf
  have hlt : q < s.pair.accepted.length := lt_of_le_of_lt hq hn
  rw [h.streaming.order, List.getElem?_append_left (by simpa using hlt), List.getElem?_map,
    List.getElem?_eq_getElem hlt] at hbuf
  have hfits := h.streaming.toWriting.fits _ (List.getElem_mem hlt)
  rw [Option.map_some, Option.some.injEq] at hbuf
  rw [← hbuf]
  exact hfits

/-- In a run that is attended to, a frame that the slot has taken and that nothing too big is in the way of is
proved in the end, unless the slot is over, and the reader has got it where its channel loses nothing; one that
is too big, or behind one that is, is never proved. -/
theorem write_ends (ha : Attended (boot out mdu peer t) ops)
    (hp : p < (states step (boot out mdu peer t) ops k).taken.length) :
    (Passable mdu (states step (boot out mdu peer t) ops k).taken p →
      ∃ j ≥ k, Over (states step (boot out mdu peer t) ops j) ∨
        (∀ q ≤ p, q ∈ (states step (boot out mdu peer t) ops j).pair.acked) ∧
        ((∀ i, Meets Channel.Sound (states step (boot out mdu peer t) ops i) (ops i)) →
          p < (states step (boot out mdu peer t) ops j).pair.receiver.handed.length)) ∧
    (¬ Passable mdu (states step (boot out mdu peer t) ops k).taken p →
      ∀ j, p ∉ (states step (boot out mdu peer t) ops j).pair.acked) := by
  constructor
  · intro hpass
    by_contra hnever
    push Not at hnever
    obtain ⟨j, hj, hlasts⟩ := lasts_of_not_over (accounts_boot out mdu peer t) ha fun j hj => (hnever j hj).1
    obtain ⟨d, rfl⟩ := Nat.exists_eq_add_of_le hj
    have hlt := hp.trans_le (taken_states _ _ k d).length_le
    have hpass' : Passable mdu (states step (boot out mdu peer t) ops (k + d)).taken p := fun q hq buf hbuf =>
      hpass q hq buf (taken_same d (lt_of_le_of_lt hq hp) ▸ hbuf)
    obtain ⟨j₁, hj₁, hacc⟩ := hlasts.accepted hlt hpass'
    obtain ⟨j₂, hj₂, hacked⟩ := (hlasts.mono hj₁).acked (Nat.succ_le_of_lt hacc)
    have hall : ∀ q ≤ p, q ∈ (states step (boot out mdu peer t) ops j₂).pair.acked := fun q hq =>
      hacked q (Nat.lt_succ_of_le hq)
    obtain ⟨hs, hmissing⟩ := (hnever j₂ (hj.trans (hj₁.trans hj₂))).2 hall
    exact absurd (handed_of_acked (accounted_states (Channel.init_accounted _ _) hs j₂) hall) hmissing.not_gt
  · intro hbad j hmem
    refine hbad fun q hq buf hbuf => ?_
    have hlt := ((accounts_states (accounts_boot out mdu peer t) ops j).acked_lt hmem).trans_le
      (onward_states _ _ j k).accepted.length_le
    have hfits := (accounts_states (accounts_boot out mdu peer t) ops (j + k)).passable hlt q hq buf
    rw [linkMdu_states, Nat.add_comm j k, taken_same j (lt_of_le_of_lt hq hp)] at hfits
    exact hfits hbuf

/-- The greeting, and then seconds that pass with a poll after each. -/
def aTalk : ℕ → Op
  | 0 => .write [1, 0, 104, 105] true
  | 1 => .established fun _ => true
  | 2 => .arrive 0 fun _ => true
  | 3 => .proofArrives 0
  | k + 4 => if k % 2 = 0 then .wait 1 else .pollAll (fun _ => true) fun _ => true

/-- Nothing is to be done. -/
structure Idle (s : State) : Prop where
  active : s.phase = .active
  linkActive : s.pair.sender.linkActive
  held : s.pair.sender.held
  txRing : s.pair.sender.txRing = []
  outbox : s.outbox = []
  outstanding : s.outstanding = some 0

theorem Idle.polled (h : Idle s) : channelPollAll resent carried s = s := by
  obtain ⟨hactive, -, hheld, hring, hout, hz⟩ := h
  have hpoll : s.pair.poll s.clock resent = s.pair := by rw [Pair.poll, hring, Pair.pollFrom]
  cases s
  simp only at hactive hheld hring hout hz hpoll
  subst hactive hout hz
  simp [channelPollAll, pollThrows, pollEnd, chanFlushOutbox, flush, hring, hpoll, hheld]

theorem idle_aTalk (k : ℕ) : Idle (states step (boot true 431 431 0) aTalk (2 * k + 6)) ∧
    (states step (boot true 431 431 0) aTalk (2 * k + 6)).clock = k + 1 := by
  induction k with
  | zero => exact ⟨by constructor <;> decide +kernel, by decide +kernel⟩
  | succ k ih =>
    have hwait : aTalk (2 * k + 6) = .wait 1 := by simp [aTalk]
    have hpoll : aTalk (2 * k + 7) = .pollAll (fun _ => true) fun _ => true := by
      simp [aTalk, show (2 * k + 3) % 2 = 1 by omega]
    have hidle : Idle (states step (boot true 431 431 0) aTalk (2 * k + 7)) := by
      rw [states, hwait]
      exact ⟨ih.1.1, ih.1.2, ih.1.3, ih.1.4, ih.1.5, ih.1.6⟩
    have hclock : (states step (boot true 431 431 0) aTalk (2 * k + 7)).clock = k + 1 + 1 := by
      rw [states, hwait, step, ih.2]
      rfl
    rw [show 2 * (k + 1) + 6 = 2 * k + 8 by ring, states, hpoll, step, hidle.polled]
    exact ⟨hidle, by rw [hclock]; push_cast; rfl⟩

theorem attended_aTalk : Attended (boot true 431 431 0) aTalk := by
  intro j u
  obtain ⟨hidle, hclock⟩ := idle_aTalk (max j ⌈u⌉₊)
  have hpoll : aTalk (2 * max j ⌈u⌉₊ + 7) = .pollAll (fun _ => true) fun _ => true := by
    simp [aTalk, show (2 * max j ⌈u⌉₊ + 3) % 2 = 1 by omega]
  have hwait : aTalk (2 * max j ⌈u⌉₊ + 6) = .wait 1 := by simp [aTalk]
  have hlate : u ≤ ((max j ⌈u⌉₊ : ℕ) : ℚ) + 1 + 1 := by
    have hceil := Nat.le_ceil u
    have hmax : (⌈u⌉₊ : ℚ) ≤ ((max j ⌈u⌉₊ : ℕ) : ℚ) := by exact_mod_cast le_max_right j ⌈u⌉₊
    linarith
  refine ⟨2 * max j ⌈u⌉₊ + 7, by omega, by rw [hpoll]; trivial, ?_, ?_⟩
  · rw [states, hwait, step, hclock]
    exact hlate
  · rw [states, hwait, step]
    exact ⟨by simp [hidle.active], fun _ => hidle.linkActive⟩

theorem write_ends_aTalk : ∃ j ≥ 1, Over (states step (boot true 431 431 0) aTalk j) ∨
    (∀ q ≤ 0, q ∈ (states step (boot true 431 431 0) aTalk j).pair.acked) ∧
    ((∀ i, Meets Channel.Sound (states step (boot true 431 431 0) aTalk i) (aTalk i)) →
      0 < (states step (boot true 431 431 0) aTalk j).pair.receiver.handed.length) := by
  refine (write_ends attended_aTalk (k := 1) (p := 0) (by decide +kernel)).1 fun q hq buf hbuf => ?_
  obtain rfl := Nat.le_zero.1 hq
  obtain rfl : [1, 0, 104, 105] = buf := Option.some.inj hbuf
  decide

end MicroReticulum.Rnsd.ChannelStream
