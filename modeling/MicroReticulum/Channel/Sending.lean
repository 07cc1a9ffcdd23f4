import Mathlib.Tactic
import MicroReticulum.Channel.Receiving
import MicroReticulum.Channel.Pair

/-!
# What is on the air

For every run, guarded or not: each transmission carries an accepted message
under its own number, each receipt belongs to the envelope that holds it, and
an envelope leaves the TX ring as delivered only if a transmission of its
message was proved.
-/

namespace MicroReticulum.Channel

open Lib.Sequence

variable {s s' : Pair} {op : Op} {kept rest : List TxEnvelope} {env : TxEnvelope} {m : Message}
  {now : ℚ} {raw : Bytes} {i n : Nat} {ok : Bool} {carried : Nat → Bool}

/-- The envelope is one of an accepted message, and its receipt, if any, is
that of a transmission of the same message. -/
def Honest (s : Pair) (env : TxEnvelope) : Prop :=
  Stamped s.accepted env.raw env.num ∧
    ∀ i, env.receipt = some i → ∃ t, s.wire[i]? = some t ∧ t.num = env.num

structure OnAir (s : Pair) : Prop where
  next : s.sender.nextSequence = s.accepted.length % SEQ_MODULUS
  wire : ∀ t ∈ s.wire, Stamped s.accepted t.raw t.num
  ring : ∀ env ∈ s.sender.txRing, Honest s env
  proved : ∀ i ∈ s.proved, i < s.wire.length
  delivered : ∀ i, s.receipts[i]? = some .delivered → i ∈ s.proved
  acked : ∀ n ∈ s.acked, ∃ i ∈ s.proved, ∃ t, s.wire[i]? = some t ∧ t.num = n

/-- What the sending side never takes back, and what it never touches. -/
structure Extends (s s' : Pair) : Prop where
  accepted : s.accepted <+: s'.accepted
  wire : s.wire <+: s'.wire
  proved : s'.proved = s.proved
  receiver : s'.receiver = s.receiver
  arrivals : s'.arrivals = s.arrivals

theorem Extends.refl (s : Pair) : Extends s s := ⟨List.prefix_rfl, List.prefix_rfl, rfl, rfl, rfl⟩

theorem Extends.trans (h : Extends s s') (h' : Extends s' s'') : Extends s s'' :=
  ⟨h.1.trans h'.1, h.2.trans h'.2, h'.3.trans h.3, h'.4.trans h.4, h'.5.trans h.5⟩

theorem Stamped.mono (h : Stamped l raw n) (hl : l <+: l') : Stamped l' raw n := by
  obtain ⟨m, hm, hraw, hlen⟩ := h
  exact ⟨m, getElem?_of_prefix hl hm, hraw, hlen⟩

theorem Honest.mono (h : Honest s env) (he : Extends s s') : Honest s' env := by
  refine ⟨h.1.mono he.accepted, fun i hi => ?_⟩
  obtain ⟨t, ht, hn⟩ := h.2 i hi
  exact ⟨t, getElem?_of_prefix he.wire ht, hn⟩

-- ---------------------------------------------------------------------------
-- Transmission
-- ---------------------------------------------------------------------------

theorem transmit_extends : Extends s (s.transmit ok raw n) := by
  cases ok
  · exact Extends.refl s
  · exact ⟨List.prefix_rfl, List.prefix_append .., rfl, rfl, rfl⟩

@[simp] theorem transmit_accepted : (s.transmit ok raw n).accepted = s.accepted := by
  cases ok <;> rfl

/-- What a step of the sender has to show for the air to stay honest: the rest
of `OnAir` speaks of things it does not touch, or only adds to. -/
theorem OnAir.extend (h : OnAir s) (he : Extends s s')
    (hnext : s'.sender.nextSequence = s'.accepted.length % SEQ_MODULUS)
    (hwire : ∀ t ∈ s'.wire, t ∈ s.wire ∨ Stamped s'.accepted t.raw t.num)
    (hring : ∀ env ∈ s'.sender.txRing, env ∈ s.sender.txRing ∨ Honest s' env)
    (hdel : ∀ i : Nat, s'.receipts[i]? = some .delivered → s.receipts[i]? = some .delivered)
    (hacked : ∀ n ∈ s'.acked, n ∈ s.acked ∨
      ∃ env ∈ s.sender.txRing, env.num = n ∧ s.statusOf env = .delivered) : OnAir s' where
  next := hnext
  wire t ht := (hwire t ht).elim (fun h' => (h.wire t h').mono he.accepted) id
  ring env hm := (hring env hm).elim (fun h' => (h.ring env h').mono he) id
  proved i hi := lt_of_lt_of_le (h.proved i (he.proved ▸ hi)) he.wire.length_le
  delivered i hi := he.proved ▸ h.delivered i (hdel i hi)
  acked n hn := by
    rw [he.proved]
    rcases hacked n hn with hn | ⟨env, hm, rfl, hst⟩
    · obtain ⟨i, hi, t, ht, htn⟩ := h.acked n hn
      exact ⟨i, hi, t, getElem?_of_prefix he.wire ht, htn⟩
    · cases hr : env.receipt with
      | none => simp [Pair.statusOf, hr] at hst
      | some i =>
        have hd : s.receipts[i]? = some .delivered := by
          simp only [Pair.statusOf, hr, List.getD_eq_getElem?_getD] at hst
          cases hg : s.receipts[i]? <;> simp_all
        obtain ⟨t, ht, htn⟩ := (h.ring env hm).2 i hr
        exact ⟨i, h.delivered i hd, t, getElem?_of_prefix he.wire ht, htn⟩

theorem transmit_wire (h : t ∈ (s.transmit ok raw n).wire) : t ∈ s.wire ∨ t = ⟨raw, n⟩ := by
  cases ok with
  | false => exact .inl h
  | true => simpa [Pair.transmit] using h

theorem transmit_receipts (h : (s.transmit ok raw n).receipts[i]? = some .delivered) :
    s.receipts[i]? = some .delivered := by
  cases ok with
  | false => exact h
  | true =>
    simp only [Pair.transmit, if_true] at h
    rcases Nat.lt_or_ge i s.receipts.length with hi | hi
    · rwa [List.getElem?_append_left hi] at h
    · rw [List.getElem?_append_right hi, List.getElem?_singleton] at h
      split at h <;> cases h

/-- The transmission just made is the last on the wire. -/
theorem transmit_last : (s.transmit true raw n).wire[s.wire.length]? = some ⟨raw, n⟩ := by
  simp [Pair.transmit]

-- ---------------------------------------------------------------------------
-- Sending and polling
-- ---------------------------------------------------------------------------

theorem send_step (h : OnAir s) : OnAir (s.send m now ok) ∧ Extends s (s.send m now ok) := by
  unfold Pair.send
  split
  · exact ⟨h, Extends.refl s⟩
  · dsimp only
    split
    · exact ⟨h, Extends.refl s⟩
    · next hsize =>
      let env := s.newEnvelope m now ok
      have hraw : Stamped (s.accepted ++ [m]) env.raw env.num := by
        refine ⟨m, by simp [env, Pair.newEnvelope], by simp [env, Pair.newEnvelope, h.next], ?_⟩
        have := s.sender.linkMdu.toNat_lt
        simp only [Pair.newEnvelope, not_or, not_lt, pack, List.length_append] at hsize
        omega
      have ht : Extends s (s.transmit ok env.raw env.num) := transmit_extends
      have he : Extends s { s.transmit ok env.raw env.num with
          sender := { s.sender with
            nextSequence := (s.sender.nextSequence + 1) % SEQ_MODULUS
            txRing := s.sender.txRing ++ [env] }
          accepted := s.accepted ++ [m] } :=
        ⟨List.prefix_append .., ht.wire, ht.proved, ht.receiver, ht.arrivals⟩
      refine ⟨h.extend he ?_ ?_ ?_ ?_ ?_, he⟩
      · simp [h.next]
      · intro t ht
        exact (transmit_wire ht).imp_right (by rintro rfl; exact hraw)
      · intro e hm
        refine (List.mem_append.1 hm).imp_right fun hm => ?_
        obtain rfl := List.mem_singleton.1 hm
        refine ⟨hraw, fun i hi => ?_⟩
        cases ok with
        | false => simp [env, Pair.newEnvelope] at hi
        | true =>
          obtain rfl : s.wire.length = i := by simpa [env, Pair.newEnvelope] using hi
          exact ⟨_, transmit_last, rfl⟩
      · exact fun i => transmit_receipts
      · intro n hn
        cases ok <;> exact .inl hn

@[simp] theorem windowOpen_nextSequence (d : Channel) :
    (windowOpen d).nextSequence = d.nextSequence := by
  unfold windowOpen
  dsimp only
  split_ifs <;> rfl

@[simp] theorem windowClose_nextSequence (d : Channel) :
    (windowClose d).nextSequence = d.nextSequence := by
  unfold windowClose
  split <;> rfl

/-- One envelope of the ring replaced by itself with another count, deadline
or receipt. -/
theorem mem_replaced {e e' : TxEnvelope} (hr : s.sender.txRing = kept ++ env :: rest)
    (hm : e ∈ kept ++ e' :: rest) : e ∈ s.sender.txRing ∨ e = e' := by
  simp only [hr, List.mem_append, List.mem_cons] at hm ⊢
  tauto

theorem pollFrom_step (h : OnAir s) (hr : s.sender.txRing = kept ++ rest) :
    OnAir (s.pollFrom now carried kept rest) ∧ Extends s (s.pollFrom now carried kept rest) := by
  induction rest generalizing kept s with
  | nil => exact ⟨h, Extends.refl s⟩
  | cons env rest ih =>
    have hmem : env ∈ s.sender.txRing := by simp [hr]
    rw [Pair.pollFrom]
    split
    · next hdel =>
      -- proved: the envelope leaves the ring
      let s₁ : Pair := { s with
        sender := { windowOpen s.sender with txRing := kept ++ rest }, acked := s.acked ++ [env.num] }
      have he : Extends s s₁ := ⟨List.prefix_rfl, List.prefix_rfl, rfl, rfl, rfl⟩
      have h₁ : OnAir s₁ := by
        refine h.extend he (by simpa [s₁] using h.next) (fun t ht => .inl ht) (fun e hm => .inl ?_)
          (fun _ => id) fun n hn => ?_
        · simp only [hr, s₁, List.mem_append, List.mem_cons] at hm ⊢
          tauto
        · refine (List.mem_append.1 hn).imp_right fun hn => ?_
          exact ⟨env, hmem, (List.mem_singleton.1 hn).symm, hdel⟩
      exact ⟨(ih h₁ rfl).1, he.trans (ih h₁ rfl).2⟩
    · split
      · split
        · -- out of tries: the channel shuts down and the link with it
          have he : Extends s { s with sender := s.sender.shutdown } :=
            ⟨List.prefix_rfl, List.prefix_rfl, rfl, rfl, rfl⟩
          exact ⟨h.extend he h.next (fun t ht => .inl ht) (by simp [shutdown]) (fun _ => id)
            fun n hn => .inl hn, he⟩
        · dsimp only
          have honest := h.ring env hmem
          split
          · -- the resend throws
            let s₁ : Pair := { s with sender := { windowClose s.sender with
              txRing := kept ++ { env with tries := env.tries + 1 } :: rest } }
            have he : Extends s s₁ := ⟨List.prefix_rfl, List.prefix_rfl, rfl, rfl, rfl⟩
            refine ⟨h.extend he (by simpa using h.next) (fun t ht => .inl ht) (fun e hm => ?_)
              (fun _ => id) fun n hn => .inl hn, he⟩
            exact (mem_replaced hr hm).imp_right (by rintro rfl; exact honest)
          · -- the resend is a transmission of its own
            generalize hok : carried env.sequence = ok
            let env₁ : TxEnvelope := { env with
              tries := env.tries + 1
              sent := ok
              receipt := if ok then some s.wire.length else env.receipt
              deadline := now + timeoutTime (windowClose s.sender) (env.tries + 1) }
            let s₁ : Pair := { s.transmit ok env.raw env.num with
              sender := { windowClose s.sender with txRing := kept ++ env₁ :: rest } }
            have ht : Extends s (s.transmit ok env.raw env.num) := transmit_extends
            have he : Extends s s₁ := ⟨ht.1, ht.2, ht.3, ht.4, ht.5⟩
            have h₁ : OnAir s₁ := by
              refine h.extend he ?_ (fun t ht => ?_) (fun e hm => ?_) (fun _ => transmit_receipts)
                fun n hn => ?_
              · simpa [s₁] using h.next
              · exact (transmit_wire ht).imp_right (by rintro rfl; exact honest.1.mono he.accepted)
              · refine (mem_replaced hr hm).imp_right ?_
                rintro rfl
                refine ⟨honest.1.mono he.accepted, fun i hi => ?_⟩
                cases ok with
                | false => exact (honest.mono he).2 i hi
                | true =>
                  obtain rfl : s.wire.length = i := by simpa [env₁] using hi
                  exact ⟨_, transmit_last, rfl⟩
              · cases ok <;> exact .inl hn
            have hr₁ : s₁.sender.txRing = (kept ++ [env₁]) ++ rest := by simp [s₁]
            exact ⟨(ih h₁ hr₁).1, he.trans (ih h₁ hr₁).2⟩
      · exact ih h (by simp [hr])

theorem poll_step (h : OnAir s) : OnAir (s.poll now carried) ∧ Extends s (s.poll now carried) :=
  pollFrom_step h rfl

-- ---------------------------------------------------------------------------
-- Every step
-- ---------------------------------------------------------------------------

theorem conclude_step (h : OnAir s) (hd : status = .delivered → i ∈ s.proved) :
    OnAir (s.conclude i status) ∧ Extends s (s.conclude i status) := by
  unfold Pair.conclude
  split
  · refine ⟨⟨h.next, h.wire, h.ring, h.proved, fun j hj => ?_, h.acked⟩,
      List.prefix_rfl, List.prefix_rfl, rfl, rfl, rfl⟩
    rw [List.getElem?_set] at hj
    split at hj
    · next hij =>
      split at hj
      · exact hij ▸ hd (Option.some.inj hj)
      · cases hj
    · exact h.delivered j hj
  · exact ⟨h, Extends.refl s⟩

theorem arrive_cases (s : Pair) (i : Nat) :
    s.arrive i = s ∨ ∃ t, s.wire[i]? = some t ∧ s.receiver.held = true ∧ s.arrive i = { s with
      proved := s.proved ++ [i]
      receiver := s.receiver.receive t.raw
      arrivals := s.arrivals ++ [⟨i, verdict t.raw s.receiver, true⟩] } := by
  unfold Pair.arrive
  split
  · exact .inl rfl
  · next t ht =>
    split
    · next hheld => exact .inr ⟨t, ht, hheld, rfl⟩
    · exact .inl rfl

theorem arrive_onAir (h : OnAir s) : OnAir (s.arrive i) := by
  rcases arrive_cases s i with hs | ⟨t, ht, -, hs⟩
  · rwa [hs]
  · rw [hs]
    refine ⟨h.next, h.wire, h.ring, fun j hj => ?_, fun j hj => ?_, fun n hn => ?_⟩
    · rcases List.mem_append.1 hj with hj | hj
      · exact h.proved j hj
      · exact List.mem_singleton.1 hj ▸ (List.getElem?_eq_some_iff.1 ht).1
    · exact List.mem_append_left _ (h.delivered j hj)
    · obtain ⟨j, hj, hw⟩ := h.acked n hn
      exact ⟨j, List.mem_append_left _ hj, hw⟩

/-- Apart from an arrival and the receiver's own closing, a step only extends. -/
theorem step_extends (h : OnAir s) (ha : ∀ i, op ≠ .arrive i) (hc : op ≠ .closeReceiver) :
    OnAir (s.step op) ∧ Extends s (s.step op) := by
  cases op with
  | send m now ok => exact send_step h
  | poll now carried => exact poll_step h
  | arrive i => exact absurd rfl (ha i)
  | proofArrives i =>
    simp only [Pair.step]
    split
    · next hi => exact conclude_step h fun _ => hi
    · exact ⟨h, Extends.refl s⟩
  | receiptTimesOut i => exact conclude_step h nofun
  | receiptCulled i => exact conclude_step h nofun
  | linkMoves active rtt =>
    exact ⟨⟨h.next, h.wire, h.ring, h.proved, h.delivered, h.acked⟩,
      List.prefix_rfl, List.prefix_rfl, rfl, rfl, rfl⟩
  | closeSender =>
    exact ⟨⟨h.next, h.wire, by simp [Pair.step, shutdown], h.proved, h.delivered, h.acked⟩,
      List.prefix_rfl, List.prefix_rfl, rfl, rfl, rfl⟩
  | closeReceiver => exact absurd rfl hc

theorem step_onAir (h : OnAir s) : OnAir (s.step op) := by
  by_cases ha : ∃ i, op = .arrive i
  · obtain ⟨i, rfl⟩ := ha
    exact arrive_onAir h
  · by_cases hc : op = .closeReceiver
    · subst hc
      exact ⟨h.next, h.wire, h.ring, h.proved, h.delivered, h.acked⟩
    · exact (step_extends h (fun i hi => ha ⟨i, hi⟩) hc).1

theorem init_onAir (a b : UInt16) : OnAir (Pair.init a b) :=
  ⟨rfl, by simp [Pair.init], by simp [Pair.init], by simp [Pair.init], by simp [Pair.init],
    by simp [Pair.init]⟩

end MicroReticulum.Channel
