import Mathlib.Tactic
import MicroReticulum.Lib.Sequence
import MicroReticulum.Channel.Endpoint

/-!
# The receiving side against the stream it receives

`InOrder` ties the RX ring and the callback's history to a stream of messages
numbered from 0: what was handed over is the stream's beginning, and every
envelope in the ring is one of the next `SEQ_MODULUS` messages. Delivery keeps
it, and so does an envelope the receiver takes in, provided it carries a
message still awaited.
-/

namespace MicroReticulum.Channel

open Lib.Sequence

variable {stream : List Message} {d : Channel} {env : RxEnvelope} {ring ring' : List RxEnvelope}
  {m : Message} {raw : Bytes} {n k seq nextRx fuel w : Nat}

/-- Message `n` of the stream sits in the RX ring. -/
def Waits (stream : List Message) (d : Channel) (n : Nat) : Prop :=
  d.handed.length ≤ n ∧ n < d.handed.length + SEQ_MODULUS ∧
    ∃ env ∈ d.rxRing, env.sequence = n % SEQ_MODULUS ∧ stream[n]? = some env.message

def Received (stream : List Message) (d : Channel) (n : Nat) : Prop :=
  n < d.handed.length ∨ Waits stream d n

/-- Message `n` is one of those the receiver is still missing, and near enough
for its sequence number to be its own. -/
def Awaited (d : Channel) (n : Nat) : Prop :=
  d.handed.length ≤ n ∧ n < d.handed.length + SEQ_MODULUS ∧
    ∀ env ∈ d.rxRing, env.sequence ≠ n % SEQ_MODULUS

instance : Decidable (Awaited d n) := inferInstanceAs (Decidable (_ ∧ _ ∧ _))

structure InOrder (stream : List Message) (d : Channel) : Prop where
  receiving : d.receiving = true
  next : d.nextRxSequence = d.handed.length % SEQ_MODULUS
  handed : d.handed <+: stream
  ring : ∀ env ∈ d.rxRing, ∃ n, d.handed.length ≤ n ∧ n < d.handed.length + SEQ_MODULUS ∧
    env.sequence = n % SEQ_MODULUS ∧ stream[n]? = some env.message
  nodup : (d.rxRing.map (·.sequence)).Nodup

/-- Nothing in the ring could be handed over. -/
def Drained (d : Channel) : Prop := ∀ env ∈ d.rxRing, env.sequence ≠ d.nextRxSequence

-- ---------------------------------------------------------------------------
-- Envelopes
-- ---------------------------------------------------------------------------

theorem word_of_bytes (h : w < 65536) :
    (UInt8.ofNat (w >>> 8)).toNat <<< 8 ||| (UInt8.ofNat w).toNat = w := by
  have hlo : (UInt8.ofNat w).toNat < 2 ^ 8 := UInt8.toNat_lt _
  rw [← Nat.shiftLeft_add_eq_or_of_lt hlo, Nat.shiftLeft_eq]
  simp only [UInt8.toNat_ofNat', Nat.shiftRight_eq_div_pow]
  omega

theorem unpack_pack (hs : seq < SEQ_MODULUS) (hm : m.data.length < 65536) :
    unpack (pack seq m) = some ⟨seq, m⟩ := by
  have htype : (pack seq m).byte 0 <<< 8 ||| (pack seq m).byte 1 = m.msgtype.toNat :=
    word_of_bytes m.msgtype.toNat_lt
  have hseq : (pack seq m).byte 2 <<< 8 ||| (pack seq m).byte 3 = seq := word_of_bytes hs
  have hlen : (pack seq m).byte 4 <<< 8 ||| (pack seq m).byte 5 = m.data.length % 65536 :=
    word_of_bytes (Nat.mod_lt _ (by omega))
  have hsize : (pack seq m).length = m.data.length + 6 := by simp [pack]
  have hdata : (pack seq m).drop 6 = m.data := rfl
  simp only [unpack, htype, hseq, hlen, hsize, hdata, Nat.mod_eq_of_lt hm, Nat.add_sub_cancel]
  simp

-- ---------------------------------------------------------------------------
-- Delivery
-- ---------------------------------------------------------------------------

theorem find_next (hf : d.rxRing.find? (·.sequence == d.nextRxSequence) = some env) :
    env ∈ d.rxRing ∧ env.sequence = d.nextRxSequence :=
  ⟨List.mem_of_find?_eq_some hf, by simpa using List.find?_some hf⟩

theorem InOrder.next_num (h : InOrder stream d) (he : env ∈ d.rxRing)
    (hseq : env.sequence = d.nextRxSequence) : stream[d.handed.length]? = some env.message := by
  obtain ⟨n, hle, hlt, hn, hmsg⟩ := h.ring env he
  have : n = d.handed.length := eq_of_mod_eq (hn.symm.trans (hseq.trans h.next)) hle hlt
  exact this ▸ hmsg

theorem InOrder.handOver (h : InOrder stream d) (he : env ∈ d.rxRing)
    (hseq : env.sequence = d.nextRxSequence) : InOrder stream (handOver env d) where
  receiving := h.receiving
  next := by simp [Channel.handOver, h.receiving, h.next]
  handed := by simpa [Channel.handOver, h.receiving] using concat_prefix h.handed (h.next_num he hseq)
  ring := by
    intro e hmem
    have hne := key_ne_of_mem_eraseP h.nodup hmem
    obtain ⟨n, hle, hlt, hn, hmsg⟩ := h.ring e (List.mem_of_mem_eraseP hmem)
    have hnR : n ≠ d.handed.length := fun hnR => hne (by rw [hn, hnR, h.next])
    refine ⟨n, ?_, ?_, hn, hmsg⟩ <;>
      simp only [Channel.handOver, h.receiving, if_true, List.length_append, List.length_singleton] <;>
      omega
  nodup := nodup_eraseP h.nodup

theorem Received.handOver (h : InOrder stream d) (hr : Received stream d n) :
    Received stream (handOver env d) n := by
  have hlen : (Channel.handOver env d).handed.length = d.handed.length + 1 := by
    simp [Channel.handOver, h.receiving]
  rcases hr with hr | ⟨hle, hlt, e, he, hn, hmsg⟩
  · exact .inl (by omega)
  · by_cases hR : n = d.handed.length
    · exact .inl (by omega)
    · refine .inr ⟨by omega, by omega, e, mem_eraseP_of_key_ne he fun hk => hR ?_, hn, hmsg⟩
      exact eq_of_mod_eq (hn.symm.trans (hk.trans h.next)) hle hlt

theorem drain_inOrder (h : InOrder stream d) :
    InOrder stream (drain fuel d) ∧ ∀ n, Received stream d n → Received stream (drain fuel d) n := by
  induction fuel generalizing d with
  | zero => exact ⟨h, fun _ => id⟩
  | succ fuel ih =>
    rw [drain]
    cases hf : d.rxRing.find? (·.sequence == d.nextRxSequence) with
    | none => exact ⟨h, fun _ => id⟩
    | some env =>
      have h' := h.handOver (find_next hf).1 (find_next hf).2
      exact ⟨(ih h').1, fun n hr => (ih h').2 n (hr.handOver h)⟩

theorem drain_drained (h : d.rxRing.length ≤ fuel) : Drained (drain fuel d) := by
  induction fuel generalizing d with
  | zero =>
    have : d.rxRing = [] := List.length_eq_zero_iff.1 (by omega)
    simp [drain, Drained, this]
  | succ fuel ih =>
    rw [drain]
    cases hf : d.rxRing.find? (·.sequence == d.nextRxSequence) with
    | none => simpa [Drained] using hf
    | some env =>
      refine ih ?_
      have := List.length_eraseP_of_mem (p := fun e => e.sequence == d.nextRxSequence)
        (find_next hf).1 (by simpa using (find_next hf).2)
      simp only [handOver]
      omega

-- ---------------------------------------------------------------------------
-- Taking an envelope in
-- ---------------------------------------------------------------------------

theorem rxEmplace_perm (h : rxEmplace env nextRx ring = some ring') :
    ring'.Perm (env :: ring) := by
  induction ring generalizing ring' with
  | nil =>
    cases h
    exact .refl _
  | cons e ring ih =>
    rw [rxEmplace] at h
    split at h
    · cases h
    · split at h
      · cases h
        exact .refl _
      · obtain ⟨tail, ht, rfl⟩ := Option.map_eq_some_iff.1 h
        exact ((ih ht).cons e).trans (.swap ..)

theorem InOrder.emplace (h : InOrder stream d) (hn : Awaited d n) (hmsg : stream[n]? = some m)
    (he : rxEmplace ⟨n % SEQ_MODULUS, m⟩ nextRx d.rxRing = some ring) :
    InOrder stream { d with rxRing := ring } where
  receiving := h.receiving
  next := h.next
  handed := h.handed
  ring := by
    intro e hmem
    rcases List.mem_cons.1 ((rxEmplace_perm he).mem_iff.1 hmem) with rfl | hmem
    · exact ⟨n, hn.1, hn.2.1, rfl, hmsg⟩
    · exact h.ring e hmem
  nodup := by
    refine ((rxEmplace_perm he).map _).nodup_iff.2 (List.nodup_cons.2 ⟨fun hmem => ?_, h.nodup⟩)
    obtain ⟨e, he, hseq⟩ := List.mem_map.1 hmem
    exact hn.2.2 e he hseq

theorem Received.emplace (hr : Received stream d k)
    (he : rxEmplace env nextRx d.rxRing = some ring) : Received stream { d with rxRing := ring } k := by
  rcases hr with hr | ⟨hle, hlt, e, hmem, hseq, hmsg⟩
  · exact .inl hr
  · exact .inr ⟨hle, hlt, e, (rxEmplace_perm he).mem_iff.2 (List.mem_cons_of_mem _ hmem), hseq, hmsg⟩

theorem Waits.emplaced (hn : Awaited d n) (hmsg : stream[n]? = some m)
    (he : rxEmplace ⟨n % SEQ_MODULUS, m⟩ nextRx d.rxRing = some ring) :
    Waits stream { d with rxRing := ring } n :=
  ⟨hn.1, hn.2.1, ⟨n % SEQ_MODULUS, m⟩, (rxEmplace_perm he).mem_iff.2 (by simp), rfl, hmsg⟩

-- ---------------------------------------------------------------------------
-- A packet
-- ---------------------------------------------------------------------------

theorem receive_dropped (h : verdict raw d ≠ .taken) : receive raw d = d := by
  unfold receive
  unfold verdict at h
  split
  · rfl
  · next hu =>
    split
    · rfl
    · next hw =>
      split
      · rfl
      · next he => simp [hu, hw, he] at h

/-- The bytes are those of message `n` of the stream. -/
def Stamped (stream : List Message) (raw : Bytes) (n : Nat) : Prop :=
  ∃ m, stream[n]? = some m ∧ raw = pack (n % SEQ_MODULUS) m ∧ m.data.length < 65536

theorem receive_taken (h : InOrder stream d) (hs : Stamped stream raw n) (hn : Awaited d n)
    (hv : verdict raw d = .taken) :
    InOrder stream (receive raw d) ∧ Drained (receive raw d) ∧ Received stream (receive raw d) n ∧
      ∀ k, Received stream d k → Received stream (receive raw d) k := by
  obtain ⟨m, hmsg, rfl, hlen⟩ := hs
  have hu := unpack_pack (Nat.mod_lt n (by decide : 0 < SEQ_MODULUS)) hlen
  simp only [verdict, hu] at hv
  by_cases hw : outOfWindow (n % SEQ_MODULUS) d.nextRxSequence
  · simp [hw] at hv
  · cases he : rxEmplace ⟨n % SEQ_MODULUS, m⟩ d.nextRxSequence d.rxRing with
    | none => simp [hw, he] at hv
    | some ring =>
      have hr : receive (pack (n % SEQ_MODULUS) m) d = drain ring.length { d with rxRing := ring } := by
        simp [receive, hu, hw, he]
      have hin := h.emplace hn hmsg he
      rw [hr]
      exact ⟨(drain_inOrder hin).1, drain_drained le_rfl,
        (drain_inOrder hin).2 n (.inr (.emplaced hn hmsg he)),
        fun k hk => (drain_inOrder hin).2 k (hk.emplace he)⟩

end MicroReticulum.Channel
