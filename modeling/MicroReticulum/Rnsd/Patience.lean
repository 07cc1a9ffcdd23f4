import MicroReticulum.Lib.Progress
import MicroReticulum.Rnsd.Deliveries

/-!
# How long opportunistic sends wait

A send waits for its path for six hours at most, and asks for it ever less
often. Then it waits for its proof until its deadline. Ticks enforce both, so
while they come no send waits for ever.
-/

namespace MicroReticulum.Rnsd.Opportunistic

open Lib Lib.Log Lib.Log.Transition Lib.Balance Lib.Machine Lib.Progress
open Hosted (RNSD_MAX_OUR_DESTS)
open ProofCounters (PacketReceipt proofWindow)

variable {s s' : State} {log new : List Event} {i j i' j' no : Nat} {p : Pending} {a : Awaited} {c : OurDest} {conn : Conn}
  {sendId : UInt16} {hops : UInt8} {bytes hash : Bytes} {turn : Turn}

-- ---------------------------------------------------------------------------
-- What sending leaves alone
-- ---------------------------------------------------------------------------

/-- The connections stay as they are, and no time passes. -/
def Aside (s s' : State) (_ : List Event) : Prop := s'.ourDests = s.ourDests ∧ s'.clock = s.clock

theorem aside_composes : Composes Aside where
  refl _ := ⟨rfl, rfl⟩
  comp h₁ h₂ := ⟨h₂.1.trans h₁.1, h₂.2.trans h₁.2⟩

theorem aside_free : Aside s (s.ourDestReceiptFree j) new := ⟨State.ourDests_free, State.clock_free⟩

theorem fst_settle (hs : s.slot j = some a) (status : Status) (rtt : UInt32) :
    (ourDestReceiptSettle j status rtt s).1 = s.ourDestReceiptFree j := by
  rw [ourDestReceiptSettle, hs]
  simp only
  split
  · split <;> rfl
  · rfl

theorem settle_aside {status : Status} {rtt : UInt32} : Meets Aside (ourDestReceiptSettle j status rtt) := by
  intro s
  cases hs : s.slot j with
  | none =>
    rw [ourDestReceiptSettle, hs]
    exact ⟨rfl, rfl⟩
  | some a =>
    rw [fst_settle hs]
    exact aside_free

theorem track_aside {receipt : Nat} {window : Int} : Meets Aside (ourDestReceiptTrack no conn sendId hops receipt window) := by
  intro s
  unfold ourDestReceiptTrack
  split
  · exact ⟨rfl, rfl⟩
  · split
    · exact ⟨rfl, rfl⟩
    · split
      · exact ⟨rfl, rfl⟩
      · refine aside_composes.andThen ?_ (aside_composes.andThen settle_aside ?_) s
        · exact fun _ => ⟨rfl, rfl⟩
        · exact fun _ => ⟨rfl, rfl⟩

theorem sendOut_aside {setting : Int} : Meets Aside (sendOut conn no sendId bytes hash hops setting) := by
  intro s
  refine aside_composes.andThen ?_ (aside_composes.andThen ?_ (aside_composes.andThen ?_ track_aside)) s
  · exact fun _ => ⟨rfl, rfl⟩
  · exact fun _ => ⟨rfl, rfl⟩
  · exact fun _ => ⟨rfl, rfl⟩

theorem trySend_aside (look : Look) : Meets Aside (ourDestTrySend conn no sendId bytes look).2 := by
  have h : Tries conn no sendId bytes look (ourDestTrySend conn no sendId bytes look) := trySend_tries look
  generalize ourDestTrySend conn no sendId bytes look = tried at h
  cases h with
  | pending | failed => exact fun _ => ⟨rfl, rfl⟩
  | sent => exact sendOut_aside

-- ---------------------------------------------------------------------------
-- Ticks
-- ---------------------------------------------------------------------------

theorem parked_park {o : Option Pending} (h : (s.park j i o).parked j' i' = some p) :
    (j' = j ∧ i' = i) ∧ o = some p ∨ ¬ (j' = j ∧ i' = i) ∧ s.parked j' i' = some p := by
  obtain ⟨c', hc', hp⟩ := State.parked_eq_some.1 h
  rw [State.dest_park] at hc'
  split at hc'
  · next hj =>
    obtain ⟨c, hc, rfl⟩ := Option.map_eq_some_iff.1 hc'
    rcases Slots.getElem?_set_cases hp with ⟨hi, ho⟩ | ⟨hi, hold⟩
    · exact .inl ⟨⟨hj, hi⟩, ho.symm⟩
    · exact .inr ⟨fun hn => hi hn.2, State.parked_eq_some.2 ⟨c, hj ▸ hc, hold⟩⟩
  · next hj => exact .inr ⟨fun hn => hj hn.1, State.parked_eq_some.2 ⟨c', hc', hp⟩⟩

theorem parked_congr (h : s'.ourDests = s.ourDests) : s'.parked j i = s.parked j i := by
  rw [State.parked, State.parked, State.dest_congr h]

/-- What a turn leaves in its slot has not waited too long. -/
theorem parked_pendingTurn (h : (pendingTurn j i turn s).1.parked j' i' = some p) :
    (j' = j ∧ i' = i → s.clock < p.firstSeenAt + RNSD_OUR_DEST_PATH_GIVEUP_S) ∧
      (¬ (j' = j ∧ i' = i) → s.parked j' i' = some p) := by
  unfold pendingTurn at h
  split at h
  · next c p₀ hc hp =>
    have hunpark : ∀ {s' : State}, s'.ourDests = (s.unpark j i).ourDests → s'.parked j' i' = some p →
        (j' = j ∧ i' = i → s.clock < p.firstSeenAt + RNSD_OUR_DEST_PATH_GIVEUP_S) ∧
          (¬ (j' = j ∧ i' = i) → s.parked j' i' = some p) := by
      intro s' hs' hp'
      rw [parked_congr hs'] at hp'
      rcases parked_park hp' with ⟨-, hn⟩ | ⟨hne, hold⟩
      · cases hn
      · exact ⟨fun hn => absurd hn hne, fun _ => hold⟩
    split at h
    · refine hunpark (aside_composes.andThen (trySend_aside turn.toLook) ?_ (s.unpark j i)).1 h
      split <;> exact fun _ => ⟨rfl, rfl⟩
    · split at h
      · exact hunpark rfl h
      · next hgive =>
        have hyoung : s.clock < p₀.firstSeenAt + RNSD_OUR_DEST_PATH_GIVEUP_S := by
          linarith [not_le.1 hgive]
        split at h
        · rcases parked_park h with ⟨hsame, hn⟩ | ⟨hne, hold⟩
          · cases hn
            exact ⟨fun _ => hyoung, fun hn => absurd hsame hn⟩
          · exact ⟨fun hn => absurd hn hne, fun _ => hold⟩
        · refine ⟨?_, fun _ => h⟩
          rintro ⟨rfl, rfl⟩
          rw [skip_apply, hp] at h
          cases h
          exact hyoung
  · next hnone =>
    refine ⟨?_, fun _ => h⟩
    rintro ⟨rfl, rfl⟩
    obtain ⟨c, hc, -⟩ := State.parked_eq_some.1 h
    exact absurd h (hnone c p hc)

theorem clock_pendingTurn : (pendingTurn j i turn s).1.clock = s.clock := by
  unfold pendingTurn
  split
  · split
    · refine (aside_composes.andThen (trySend_aside turn.toLook) ?_ (s.unpark _ i)).2
      split <;> exact fun _ => ⟨rfl, rfl⟩
    · split
      · rfl
      · split <;> rfl
  · rfl

/-- What is parked after it was so before, or has not waited too long. -/
def Ages (s s' : State) (_ : List Event) : Prop := s'.clock = s.clock ∧
  ∀ j i p, s'.parked j i = some p → s.parked j i = some p ∨ s.clock < p.firstSeenAt + RNSD_OUR_DEST_PATH_GIVEUP_S

theorem ages_composes : Composes Ages where
  refl _ := ⟨rfl, fun _ _ _ h => .inl h⟩
  comp h₁ h₂ := by
    refine ⟨h₂.1.trans h₁.1, fun j i p hp => ?_⟩
    rcases h₂.2 j i p hp with hp | hy
    · exact h₁.2 j i p hp
    · exact .inr (h₁.1 ▸ hy)

theorem pendingTurn_ages : Meets Ages (pendingTurn j i turn) := by
  intro s
  refine ⟨clock_pendingTurn, fun j' i' p hp => ?_⟩
  obtain ⟨hhere, hthere⟩ := parked_pendingTurn hp
  by_cases hsame : j' = j ∧ i' = i
  · exact .inr (hhere hsame)
  · exact .inl (hthere hsame)

/-- A tick leaves nobody who has waited for six hours. -/
theorem parked_tick {turns : Nat → Nat → Turn} (h : Shaped (ourDestTickPending turns s).1)
    (hp : (ourDestTickPending turns s).1.parked j i = some p) :
    s.clock < p.firstSeenAt + RNSD_OUR_DEST_PATH_GIVEUP_S := by
  obtain ⟨c, hc, hi⟩ := State.parked_eq_some.1 hp
  have hj : j ∈ List.range RNSD_MAX_OUR_DESTS := by
    rw [List.mem_range, ← h.dests]
    exact (List.getElem?_eq_some_iff.1 (State.dest_eq_some.1 hc)).1
  have hi : i ∈ List.range RNSD_OUR_DEST_MAX_PENDING := by
    rw [List.mem_range, ← h.rooms hc]
    exact (List.getElem?_eq_some_iff.1 hi).1
  have hinner : ∀ j, ∀ u ∈ (List.range RNSD_OUR_DEST_MAX_PENDING).map (fun i => pendingTurn j i (turns j i)), Meets Ages u := by
    intro j u hu
    obtain ⟨i, -, rfl⟩ := List.mem_map.1 hu
    exact pendingTurn_ages
  have houter : ∀ u ∈ (List.range RNSD_MAX_OUR_DESTS).map (fun j =>
      all ((List.range RNSD_OUR_DEST_MAX_PENDING).map fun i => pendingTurn j i (turns j i))), Meets Ages u := by
    intro u hu
    obtain ⟨j, -, rfl⟩ := List.mem_map.1 hu
    exact ages_composes.all (hinner j)
  obtain ⟨s₁, _, _, hpre, hpost⟩ := visits ages_composes houter (List.mem_map.2 ⟨j, hj, rfl⟩) s
  obtain ⟨s₂, _, _, hpre', hpost'⟩ := visits ages_composes (hinner j) (List.mem_map.2 ⟨i, hi, rfl⟩) s₁
  -- the clock stands still through the whole tick
  have hclock₂ : s₂.clock = s.clock := hpre'.1.trans hpre.1
  have hclock₁ : (all ((List.range RNSD_OUR_DEST_MAX_PENDING).map fun i => pendingTurn j i (turns j i)) s₁).1.clock = s.clock :=
    hpost'.1.trans (clock_pendingTurn.trans hclock₂)
  rcases hpost.2 j i p hp with hp | hy
  · rcases hpost'.2 j i p hp with hp | hy
    · rw [← hclock₂]
      exact (parked_pendingTurn hp).1 ⟨rfl, rfl⟩
    · rwa [clock_pendingTurn, hclock₂] at hy
  · rwa [hclock₁] at hy

theorem clock_tickPending {turns : Nat → Nat → Turn} : (ourDestTickPending turns s).1.clock = s.clock := by
  have h : Meets Ages (ourDestTickPending turns) := by
    apply ages_composes.all
    intro u hu
    obtain ⟨j, -, rfl⟩ := List.mem_map.1 hu
    apply ages_composes.all
    intro u hu
    obtain ⟨i, -, rfl⟩ := List.mem_map.1 hu
    exact pendingTurn_ages
  exact (h s).1

/-- The same of receipts. -/
def Remains (s s' : State) (_ : List Event) : Prop := s'.clock = s.clock ∧ ∀ j a, s'.slot j = some a → s.slot j = some a

theorem remains_composes : Composes Remains where
  refl _ := ⟨rfl, fun _ _ h => h⟩
  comp h₁ h₂ := ⟨h₂.1.trans h₁.1, fun j a h => h₁.2 j a (h₂.2 j a h)⟩

theorem remains_free : Remains s (s.ourDestReceiptFree j) new := by
  refine ⟨State.clock_free, fun j' a h => ?_⟩
  rw [State.slot_free] at h
  split at h
  · cases h
  · exact h

theorem receiptTurn_remains : Meets Remains (receiptTurn j) := by
  intro s
  unfold receiptTurn
  split
  · exact remains_composes.refl s
  · next a hs =>
    simp only
    split
    · rw [fst_settle hs]
      exact remains_free
    · split
      · rw [fst_settle hs]
        exact remains_free
      · exact remains_composes.refl s

theorem slot_receiptTurn (h : (receiptTurn j s).1.slot j = some a) : s.clock < a.deadline := by
  have hbefore := (receiptTurn_remains s).2 j a h
  unfold receiptTurn at h
  rw [hbefore] at h
  simp only at h
  split at h
  · rw [fst_settle hbefore, State.slot_free, if_pos rfl] at h
    cases h
  · split at h
    · rw [fst_settle hbefore, State.slot_free, if_pos rfl] at h
      cases h
    · next hlate => exact not_le.1 fun hle => hlate (.inr hle)

theorem receiptTick_remains : Meets Remains ourDestReceiptTick := by
  apply remains_composes.all
  intro u hu
  obtain ⟨j, -, rfl⟩ := List.mem_map.1 hu
  exact receiptTurn_remains

/-- A tick leaves no receipt that is past its deadline. -/
theorem slot_tick (h : Shaped (ourDestReceiptTick s).1) (ha : (ourDestReceiptTick s).1.slot j = some a) :
    s.clock < a.deadline := by
  have hj : j ∈ List.range RNSD_MAX_PENDING_RECEIPTS := by
    rw [List.mem_range, ← h.slots]
    exact (List.getElem?_eq_some_iff.1 (State.slot_eq_some.1 ha)).1
  have hturns : ∀ u ∈ (List.range RNSD_MAX_PENDING_RECEIPTS).map receiptTurn, Meets Remains u := by
    intro u hu
    obtain ⟨j, -, rfl⟩ := List.mem_map.1 hu
    exact receiptTurn_remains
  obtain ⟨s₁, _, _, hpre, hpost⟩ := visits remains_composes hturns (List.mem_map.2 ⟨j, hj, rfl⟩) s
  rw [← hpre.1]
  exact slot_receiptTurn (hpost.2 j a ha)

-- ---------------------------------------------------------------------------
-- Who searches
-- ---------------------------------------------------------------------------

/-- The events of a search for a path. -/
def Event.Searches : Event → Prop
  | .asked .. | .lost _ => True
  | _ => False

/-- No send is put in a slot of its connection, and none searches. -/
structure Calm (s s' : State) (new : List Event) : Prop where
  serial : s.serial ≤ s'.serial
  parked : ∀ {j i p}, s'.parked j i = some p → s.parked j i = some p
  silent : ∀ e ∈ new, ¬ e.Searches

theorem calm_composes : Composes Calm where
  refl _ := ⟨le_rfl, id, fun e he => absurd he List.not_mem_nil⟩
  comp h₁ h₂ := by
    refine ⟨h₁.serial.trans h₂.serial, fun hp => h₁.parked (h₂.parked hp), fun e he => ?_⟩
    rcases List.mem_append.1 he with he | he
    · exact h₁.silent e he
    · exact h₂.silent e he

theorem calm_of_dests (hd : s'.ourDests = s.ourDests) (hs : s'.serial = s.serial) (hn : ∀ e ∈ new, ¬ e.Searches) :
    Calm s s' new :=
  ⟨hs.ge, fun hp => parked_congr hd ▸ hp, hn⟩

theorem silent_told {o : Option Nat} {hdl : Handle} {f : Frame} :
    ∀ e ∈ [Event.told o hdl f], ¬ e.Searches := fun e he => by
  rw [List.mem_singleton.1 he]
  exact id

theorem serial_free : (s.ourDestReceiptFree j).serial = s.serial := by
  unfold State.ourDestReceiptFree
  cases s.slot j <;> rfl

theorem calm_free (hn : ∀ e ∈ new, ¬ e.Searches) : Calm s (s.ourDestReceiptFree j) new :=
  calm_of_dests State.ourDests_free serial_free hn

theorem settle_calm {status : Status} {rtt : UInt32} : Meets Calm (ourDestReceiptSettle j status rtt) := by
  intro s
  unfold ourDestReceiptSettle
  split
  · exact calm_composes.refl s
  · split
    · split
      · exact calm_free silent_told
      · exact calm_free fun e he => absurd he List.not_mem_nil
    · exact calm_free fun e he => absurd he List.not_mem_nil

theorem delivery_calm : Meets Calm (onOurDestReceiptDelivery hash) := by
  intro s
  unfold onOurDestReceiptDelivery
  split
  · exact calm_composes.refl s
  · split
    · exact calm_composes.refl s
    · exact settle_calm s

theorem receiptTick_calm : Meets Calm ourDestReceiptTick := by
  apply calm_composes.all
  intro u hu
  obtain ⟨j, -, rfl⟩ := List.mem_map.1 hu
  intro s
  unfold receiptTurn
  split
  · exact calm_composes.refl s
  · simp only
    split
    · exact settle_calm s
    · split
      · exact settle_calm s
      · exact calm_composes.refl s

theorem track_calm {receipt : Nat} {window : Int} : Meets Calm (ourDestReceiptTrack no conn sendId hops receipt window) := by
  have hadopt : ∀ j, Meets Calm (quiet fun s => s.adopt j no conn sendId hops receipt window) := fun j s =>
    calm_of_dests rfl rfl fun e he => absurd he List.not_mem_nil
  intro s
  unfold ourDestReceiptTrack
  split
  · exact hadopt _ s
  · split
    · exact calm_composes.refl s
    · split
      · exact calm_composes.refl s
      · next a _ =>
        refine calm_composes.andThen ?_ (calm_composes.andThen settle_calm (hadopt _)) s
        refine fun s => calm_of_dests rfl rfl fun e he => ?_
        rw [List.mem_singleton.1 he]
        exact id

/-- A send that finds its path does not search. -/
theorem trySend_calm {look : Look} (h : (ourDestTrySend conn no sendId bytes look).1 ≠ .pending) :
    Meets Calm (ourDestTrySend conn no sendId bytes look).2 := by
  have htries : Tries conn no sendId bytes look (ourDestTrySend conn no sendId bytes look) := trySend_tries look
  generalize ourDestTrySend conn no sendId bytes look = tried at h htries
  cases htries with
  | pending => exact absurd rfl h
  | failed => exact fun s => calm_of_dests rfl rfl silent_told
  | sent =>
    intro s
    refine calm_composes.andThen ?_ (calm_composes.andThen ?_ (calm_composes.andThen ?_ track_calm)) s
    · refine fun s => calm_of_dests rfl rfl fun e he => ?_
      rw [List.mem_singleton.1 he]
      exact id
    · exact fun s => calm_of_dests rfl rfl silent_told
    · exact fun s => calm_of_dests rfl rfl silent_told

theorem calm_unpark (hn : ∀ e ∈ new, ¬ e.Searches) : Calm s (s.unpark j i) new := by
  refine ⟨le_rfl, fun hp => ?_, hn⟩
  rcases parked_park hp with ⟨-, hnone⟩ | ⟨-, hold⟩
  · cases hnone
  · exact hold

theorem outCancel_calm : Meets Calm (outCancel conn sendId) := by
  intro s
  unfold outCancel
  split
  · exact calm_of_dests rfl rfl silent_told
  · split
    · exact calm_composes.refl s
    · exact calm_unpark silent_told

theorem purge_calm {ref : Nat} : Meets Calm (ourDestReceiptPurgeConn ref) := by
  apply calm_composes.all
  intro u hu
  obtain ⟨j, -, rfl⟩ := List.mem_map.1 hu
  intro s
  unfold purgeTurn
  split
  · exact calm_composes.refl s
  · split
    · refine calm_free fun e he => ?_
      rw [List.mem_singleton.1 he]
      exact id
    · exact calm_composes.refl s

theorem close_calm {ref : Nat} : Meets Calm (close ref) := by
  intro s
  unfold close
  split
  · exact calm_composes.refl s
  · refine ⟨le_rfl, fun hp => ?_, fun e he => ?_⟩
    · obtain ⟨c, hc, hi⟩ := State.parked_eq_some.1 hp
      rw [State.dest_eq_some] at hc
      rcases Slots.getElem?_set_cases hc with ⟨-, hn⟩ | ⟨-, hold⟩
      · cases hn
      · exact State.parked_eq_some.2 ⟨c, State.dest_eq_some.2 hold, hi⟩
    · obtain ⟨o, -, ho⟩ := List.mem_filterMap.1 he
      obtain ⟨p, -, rfl⟩ := Option.map_eq_some_iff.1 ho
      exact id

theorem disconnect_calm {ref : Nat} : Meets Calm (onOurDestDisconnect ref) := by
  intro s
  unfold onOurDestDisconnect
  split
  · exact calm_composes.refl s
  · exact calm_composes.andThen purge_calm close_calm s

theorem connect_calm {hdl : Handle} : Meets Calm (onOurDestConnect hdl) := by
  intro s
  unfold onOurDestConnect
  simp only [quiet_apply]
  split
  · exact calm_composes.refl s
  · refine ⟨le_rfl, fun hp => ?_, fun e he => absurd he List.not_mem_nil⟩
    obtain ⟨c, hc, hi⟩ := State.parked_eq_some.1 hp
    rw [State.dest_eq_some] at hc
    rcases Slots.getElem?_set_cases hc with ⟨-, hn⟩ | ⟨-, hold⟩
    · cases hn
      simp [List.getElem?_replicate] at hi
    · exact State.parked_eq_some.2 ⟨c, State.dest_eq_some.2 hold, hi⟩

theorem proof_calm {named : Option Bytes} {signed : Nat → Bool} : Meets Calm (inboundProof named signed) := by
  intro s
  refine calm_composes.andThen (calm_composes.all ?_) ?_ s
  · intro u hu
    obtain ⟨k, -, rfl⟩ := List.mem_map.1 hu
    intro s
    unfold validateProof
    split
    · exact calm_composes.refl s
    · next r hr =>
      have hset : Calm s { s with receipts := s.receipts.set k { r with packet := r.packet.deliver s.clock } }
          [.proved r.hash] := calm_of_dests rfl rfl fun e he => by
        rw [List.mem_singleton.1 he]
        exact id
      refine calm_composes.comp hset ?_
      split
      · exact delivery_calm _
      · exact calm_composes.refl _
  · exact fun s => calm_of_dests rfl rfl fun e he => absurd he List.not_mem_nil

theorem jobs_calm : Meets Calm jobs := by
  apply calm_composes.andThen
  · intro s
    refine calm_of_dests rfl rfl fun e he => ?_
    obtain ⟨k, -, hk⟩ := List.mem_filterMap.1 he
    obtain ⟨r, -, rfl⟩ := Option.map_eq_some_iff.1 hk
    exact id
  · exact fun s => calm_of_dests rfl rfl fun e he => absurd he List.not_mem_nil

-- ---------------------------------------------------------------------------
-- The pace of a search
-- ---------------------------------------------------------------------------

def Event.askTime? (no : Nat) : Event → Option ℚ
  | .asked k _ t => if k = no then some t else none
  | _ => none

/-- When the path of a send was asked for. -/
def asks (log : List Event) (no : Nat) : List ℚ := log.filterMap (Event.askTime? no)

theorem asks_append : asks (log ++ new) no = asks log no ++ asks new no := by
  simp [asks]

theorem asks_silent (h : ∀ e ∈ new, ¬ e.Searches) : asks new no = [] := by
  rw [asks, List.filterMap_eq_nil_iff]
  intro e he
  cases e with
  | asked => exact absurd trivial (h _ he)
  | _ => rfl

structure Paced (log : List Event) (s : State) : Prop where
  parked : ∀ {j i : Nat} {p : Pending}, s.parked j i = some p → (asks log p.no).length = p.attempts + 1 ∧
    (asks log p.no)[0]? = some p.firstSeenAt ∧ (asks log p.no)[p.attempts]? = some p.lastRequestPathAt
  spaced : ∀ {no k : Nat} {t t' : ℚ}, (asks log no)[k]? = some t → (asks log no)[k + 1]? = some t' →
    t + ourDestRetryDelay k ≤ t'
  early : ∀ {no k : Nat} {t₀ t : ℚ}, (asks log no)[0]? = some t₀ → (asks log no)[k]? = some t →
    t < t₀ + RNSD_OUR_DEST_PATH_GIVEUP_S
  fresh : ∀ {no : Nat}, s.serial ≤ no → asks log no = []
  kept : ∀ no, .lost no ∉ log

theorem Paced.calm (h : Paced log s) (hc : Calm s s' new) : Paced (log ++ new) s' := by
  have hsame : ∀ no, asks (log ++ new) no = asks log no := fun no => by
    rw [asks_append, asks_silent hc.silent, List.append_nil]
  refine ⟨fun hp => ?_, fun hk hk' => ?_, fun h₀ hk => ?_, fun hn => ?_, fun no hl => ?_⟩
  · rw [hsame]
    exact h.parked (hc.parked hp)
  · rw [hsame] at hk hk'
    exact h.spaced hk hk'
  · rw [hsame] at h₀ hk
    exact h.early h₀ hk
  · rw [hsame]
    exact h.fresh (hc.serial.trans hn)
  · rcases List.mem_append.1 hl with hl | hl
    · exact h.kept no hl
    · exact hc.silent _ hl trivial

/-- A new send asks. -/
theorem Paced.first (h : Paced log s) (hask : ∀ no, asks new no = if no = s.serial then [s.clock] else [])
    (hserial : s.serial < s'.serial) (hkept : ∀ no, .lost no ∉ new)
    (hp : ∀ {j i : Nat} {p : Pending}, s'.parked j i = some p → s.parked j i = some p ∨
      p.no = s.serial ∧ p.attempts = 0 ∧ p.firstSeenAt = s.clock ∧ p.lastRequestPathAt = s.clock) :
    Paced (log ++ new) s' := by
  have hnew : asks (log ++ new) s.serial = [s.clock] := by
    rw [asks_append, h.fresh le_rfl, hask, if_pos rfl, List.nil_append]
  have hold : ∀ no, no ≠ s.serial → asks (log ++ new) no = asks log no := fun no hn => by
    rw [asks_append, hask, if_neg hn, List.append_nil]
  refine ⟨fun hpark => ?_, fun {no k t t'} hk hk' => ?_, fun {no k t₀ t} h₀ hk => ?_, fun {no} hn => ?_, fun no hl => ?_⟩
  · rcases hp hpark with hpark | ⟨hno, hat, hfirst, hlast⟩
    · have hasked := h.parked hpark
      rw [hold]
      · exact hasked
      · intro heq
        rw [heq, h.fresh le_rfl] at hasked
        exact absurd hasked.1 (by simp)
    · rw [hno, hnew, hat, hfirst, hlast]
      exact ⟨rfl, rfl, rfl⟩
  · by_cases hn : no = s.serial
    · rw [hn, hnew] at hk'
      simp at hk'
    · rw [hold no hn] at hk hk'
      exact h.spaced hk hk'
  · by_cases hn : no = s.serial
    · rw [hn, hnew] at h₀ hk
      have hgive : (0 : ℚ) < RNSD_OUR_DEST_PATH_GIVEUP_S := by norm_num [RNSD_OUR_DEST_PATH_GIVEUP_S]
      have ht₀ : s.clock = t₀ := by simpa using h₀
      have ht : t = s.clock := List.mem_singleton.1 (List.mem_of_getElem? hk)
      linarith
    · rw [hold no hn] at h₀ hk
      exact h.early h₀ hk
  · rw [hold no (by omega)]
    exact h.fresh (by omega)
  · rcases List.mem_append.1 hl with hl | hl
    · exact h.kept no hl
    · exact hkept no hl

/-- A parked send asks again, in its time. -/
theorem Paced.again (h : Paced log s) (hp : s.parked j i = some p)
    (honly : ∀ {j' i' : Nat} {p' : Pending}, s.parked j' i' = some p' → p'.no = p.no → j' = j ∧ i' = i)
    (hyoung : s.clock < p.firstSeenAt + RNSD_OUR_DEST_PATH_GIVEUP_S)
    (hdue : p.lastRequestPathAt + ourDestRetryDelay p.attempts ≤ s.clock)
    (hask : ∀ no, asks new no = if no = p.no then [s.clock] else []) (hkept : ∀ no, .lost no ∉ new) :
    Paced (log ++ new) (s.park j i (some { p with attempts := p.attempts + 1, lastRequestPathAt := s.clock })) := by
  obtain ⟨hlen, hfirst, hlast⟩ := h.parked hp
  have hnew : asks (log ++ new) p.no = asks log p.no ++ [s.clock] := by rw [asks_append, hask, if_pos rfl]
  have hold : ∀ no, no ≠ p.no → asks (log ++ new) no = asks log no := fun no hn => by
    rw [asks_append, hask, if_neg hn, List.append_nil]
  have hget : ∀ {k t}, (asks log p.no ++ [s.clock])[k]? = some t →
      (asks log p.no)[k]? = some t ∨ k = p.attempts + 1 ∧ t = s.clock := by
    intro k t hk
    rw [List.getElem?_append, hlen] at hk
    split at hk
    · exact .inl hk
    · next hge =>
      have hzero : k - (p.attempts + 1) = 0 := by
        have hlt := (List.getElem?_eq_some_iff.1 hk).1
        simp at hlt
        omega
      rw [hzero] at hk
      exact .inr ⟨by omega, by simpa using hk.symm⟩
  refine ⟨fun hpark => ?_, fun {no k t t'} hk hk' => ?_, fun {no k t₀ t} h₀ hk => ?_, fun {no} hn => ?_, fun no hl => ?_⟩
  · rcases parked_park hpark with ⟨-, hp'⟩ | ⟨hne, hpark⟩
    · obtain rfl := Option.some.inj hp'
      rw [hnew]
      refine ⟨by simp [hlen], ?_, ?_⟩
      · rw [List.getElem?_append_left (by omega), hfirst]
      · rw [List.getElem?_append_right (by simp [hlen]), hlen]
        simp
    · rw [hold _ fun heq => hne (honly hpark heq)]
      exact h.parked hpark
  · by_cases hn : no = p.no
    · rw [hn, hnew] at hk hk'
      rcases hget hk' with hk' | ⟨hkk, rfl⟩
      · rcases hget hk with hk | ⟨hkk, -⟩
        · exact h.spaced hk hk'
        · have hlt := (List.getElem?_eq_some_iff.1 hk').1
          omega
      · obtain rfl : k = p.attempts := by omega
        rcases hget hk with hk | ⟨hkk, -⟩
        · obtain rfl : t = p.lastRequestPathAt := by simpa [hk] using hlast
          exact hdue
        · omega
    · rw [hold no hn] at hk hk'
      exact h.spaced hk hk'
  · by_cases hn : no = p.no
    · rw [hn, hnew] at h₀ hk
      rcases hget h₀ with h₀ | ⟨hbad, -⟩
      · rcases hget hk with hk | ⟨-, rfl⟩
        · exact h.early h₀ hk
        · obtain rfl : t₀ = p.firstSeenAt := by simpa [h₀] using hfirst
          exact hyoung
      · omega
    · rw [hold no hn] at h₀ hk
      exact h.early h₀ hk
  · rw [hold no, h.fresh hn]
    rintro rfl
    rw [h.fresh hn] at hlen
    simp at hlen
  · rcases List.mem_append.1 hl with hl | hl
    · exact h.kept no hl
    · exact hkept no hl

-- ---------------------------------------------------------------------------
-- Steps
-- ---------------------------------------------------------------------------

theorem mem_waiting : no ∈ waiting s ↔ ∃ j i p, s.parked j i = some p ∧ p.no = no := by
  rw [waiting, mem_total]
  constructor
  · rintro ⟨o, ho, hno⟩
    cases o with
    | none => exact absurd hno (Multiset.notMem_zero _)
    | some c =>
      obtain ⟨o', ho', hno⟩ := mem_total.1 hno
      cases o' with
      | none => exact absurd hno (Multiset.notMem_zero _)
      | some p =>
        obtain ⟨j, hj⟩ := List.mem_iff_getElem?.1 ho
        obtain ⟨i, hi⟩ := List.mem_iff_getElem?.1 ho'
        exact ⟨j, i, p, State.parked_eq_some.2 ⟨c, State.dest_eq_some.2 hj, hi⟩, (Multiset.mem_singleton.1 hno).symm⟩
  · rintro ⟨j, i, p, hp, rfl⟩
    obtain ⟨c, hc, hi⟩ := State.parked_eq_some.1 hp
    exact ⟨some c, List.mem_of_getElem? (State.dest_eq_some.1 hc),
      mem_total.2 ⟨some p, List.mem_of_getElem? hi, Multiset.mem_singleton_self _⟩⟩

theorem mem_awaiting : no ∈ awaiting s ↔ ∃ j a, s.slot j = some a ∧ a.no = no := by
  rw [awaiting, mem_total]
  constructor
  · rintro ⟨o, ho, hno⟩
    cases o with
    | none => exact absurd hno (Multiset.notMem_zero _)
    | some a =>
      obtain ⟨j, hj⟩ := List.mem_iff_getElem?.1 ho
      exact ⟨j, a, State.slot_eq_some.2 hj, (Multiset.mem_singleton.1 hno).symm⟩
  · rintro ⟨j, a, ha, rfl⟩
    exact ⟨some a, List.mem_of_getElem? (State.slot_eq_some.1 ha), Multiset.mem_singleton_self _⟩

/-- A send is parked in one place. -/
theorem Delivering.parked_once (h : Delivering s log) {p' : Pending} (hp : s.parked j i = some p)
    (hp' : s.parked j' i' = some p') (hno : p'.no = p.no) : j' = j ∧ i' = i := by
  obtain ⟨c, hc, hi⟩ := State.parked_eq_some.1 hp
  obtain ⟨c', hc', hi'⟩ := State.parked_eq_some.1 hp'
  have hnodup : (waiting s).Nodup := by
    have hrange := Multiset.nodup_range s.serial
    rw [← h.placed] at hrange
    exact (Multiset.nodup_add.1 (Multiset.nodup_add.1 hrange).1).1
  have hmem : p.no ∈ inPending .handed (some p) := Multiset.mem_singleton_self _
  have hmem' : p.no ∈ inPending .handed (some p') := by
    rw [← hno]
    exact Multiset.mem_singleton_self _
  obtain rfl : j' = j := nodup_total hnodup (State.dest_eq_some.1 hc') (State.dest_eq_some.1 hc)
    (mem_total.2 ⟨_, List.mem_of_getElem? hi', hmem'⟩) (mem_total.2 ⟨_, List.mem_of_getElem? hi, hmem⟩)
  obtain rfl : c = c' := by simpa [hc] using hc'
  have hinner : (total (inPending .handed) c.pending).Nodup := by
    have hd : waiting s = inDest .handed (some c) + total (inDest .handed) (s.ourDests.eraseIdx j') :=
      total_of_getElem? (State.dest_eq_some.1 hc)
    rw [hd] at hnodup
    exact (Multiset.nodup_add.1 hnodup).1
  exact ⟨rfl, nodup_total hinner hi' hi hmem' hmem⟩

/-- What a run keeps, from its first state on. -/
structure Course (t : ℚ) (log : List Event) (s : State) : Prop where
  sound : Sound log s
  booked : Booked (boot t) s log
  paced : Paced log s

variable {t : ℚ}

theorem Course.books (h : Course t log s) : Delivering s log := h.sound.books h.booked

theorem Course.step (h : Course t log s) (hu : Under Sound Booked s s' new) (hp : Paced (log ++ new) s') :
    Course t (log ++ new) s' := by
  obtain ⟨hs, hb⟩ := hu log h.sound
  exact ⟨hs, booked_composes.comp h.booked hb, hp⟩

theorem keeps_of_calm {tr : Transition State Event} (hu : Meets (Under Sound Booked) tr) (hc : Meets Calm tr) :
    Meets (Keeps (Course t)) tr := fun s _ h => h.step (hu s) (h.paced.calm (hc s))

/-- The walker's look and the call's see the same. -/
def Turn.Agrees (turn : Turn) : Prop := turn.found → turn.hasPath ∧ turn.recalls

def Op.Agrees : Op → Prop
  | .tickPending turns => ∀ j i, (turns j i).Agrees
  | _ => True

theorem asks_one {dest : Bytes} {u : ℚ} {k : Nat} {o : Option Nat} {hdl : Handle} {f : Frame} :
    asks [.asked k dest u, .told o hdl f] no = if no = k then [u] else [] := by
  by_cases hk : no = k
  · simp [asks, Event.askTime?, hk]
  · simp [asks, Event.askTime?, hk, Ne.symm hk]

theorem pendingTurn_keeps (ha : turn.Agrees) : Meets (Keeps (Course t)) (pendingTurn j i turn) := by
  intro s log h
  apply h.step (pendingTurn_spec s)
  unfold pendingTurn
  split
  · next c p hc hp =>
    split
    · next hfound =>
      have hne : (ourDestTrySend ⟨j, c.handle⟩ p.no p.sendId p.bytes turn.toLook).1 ≠ .pending := by
        intro hpend
        have htries : Tries ⟨j, c.handle⟩ p.no p.sendId p.bytes turn.toLook _ := trySend_tries turn.toLook
        generalize ourDestTrySend ⟨j, c.handle⟩ p.no p.sendId p.bytes turn.toLook = tried at htries hpend
        cases htries with
        | pending hnot => exact hnot (ha hfound)
        | failed | sent => cases hpend
      simp only
      rw [if_neg hne, andThen_apply, skip_apply, List.append_nil]
      have hun : Calm s (s.unpark j i) [] := calm_unpark fun e he => absurd he List.not_mem_nil
      exact h.paced.calm (calm_composes.comp hun (trySend_calm hne (s.unpark j i)))
    · split
      · exact h.paced.calm (calm_unpark silent_told)
      · next hgive =>
        split
        · next hdelay =>
          have honly : ∀ {j' i' : Nat} {p' : Pending}, s.parked j' i' = some p' → p'.no = p.no → j' = j ∧ i' = i :=
            fun hp' hno => h.books.parked_once hp hp' hno
          have hyoung : s.clock < p.firstSeenAt + RNSD_OUR_DEST_PATH_GIVEUP_S := by linarith [not_le.1 hgive]
          exact h.paced.again hp honly hyoung (by linarith) (fun _ => asks_one) (by simp)
        · exact h.paced.calm (calm_composes.refl s)
  · exact h.paced.calm (calm_composes.refl s)

theorem hold_fst (s : State) : (hold conn no sendId bytes s).1 = s ∨
    ∃ i, (hold conn no sendId bytes s).1 = s.park conn.idx i (some ⟨no, sendId, bytes, s.clock, s.clock, 0⟩) := by
  unfold hold
  split
  · exact .inl rfl
  · next i _ => exact .inr ⟨i, rfl⟩

theorem hold_silent (s : State) : ∀ e ∈ (hold conn no sendId bytes s).2, ¬ e.Searches := by
  unfold hold
  split
  · exact silent_told
  · exact fun e he => absurd he List.not_mem_nil

theorem outPacket_pending {look : Look} (hp : (ourDestTrySend conn s.serial sendId bytes look).1 = .pending) :
    outPacket conn sendId bytes look s =
      ((hold conn s.serial sendId bytes { s with serial := s.serial + 1 }).1,
        [.handed s.serial conn sendId bytes s.clock] ++ ([.asked s.serial (target bytes) s.clock,
          .told (some s.serial) conn.handle (.bare sendId .requestingPath)] ++
            (hold conn s.serial sendId bytes { s with serial := s.serial + 1 }).2)) := by
  have htries : Tries conn s.serial sendId bytes look _ := trySend_tries look
  unfold outPacket
  simp only
  generalize ourDestTrySend conn s.serial sendId bytes look = tried at htries hp
  cases htries with
  | pending => rfl
  | failed | sent => cases hp

theorem outPacket_paced {look : Look} (h : Paced log s) :
    Paced (log ++ (outPacket conn sendId bytes look s).2) (outPacket conn sendId bytes look s).1 := by
  by_cases hp : (ourDestTrySend conn s.serial sendId bytes look).1 = .pending
  · rw [outPacket_pending hp]
    have hsilent : ∀ e ∈ (hold conn s.serial sendId bytes { s with serial := s.serial + 1 }).2, ¬ e.Searches :=
      hold_silent _
    have hfst : (hold conn s.serial sendId bytes { s with serial := s.serial + 1 }).1 = { s with serial := s.serial + 1 } ∨
        ∃ i, (hold conn s.serial sendId bytes { s with serial := s.serial + 1 }).1 = State.park
          { s with serial := s.serial + 1 } conn.idx i (some ⟨s.serial, sendId, bytes, s.clock, s.clock, 0⟩) := hold_fst _
    apply h.first
    · intro no
      rw [asks_append, asks_append, asks_silent hsilent, asks_one, List.append_nil]
      rfl
    · rcases hfst with heq | ⟨i, heq⟩
      · simp [heq]
      · simp [heq, State.park]
    · intro no hl
      rcases List.mem_append.1 hl with hl | hl
      · simp at hl
      · rcases List.mem_append.1 hl with hl | hl
        · simp at hl
        · exact hsilent _ hl trivial
    · intro j i p hpark
      rcases hfst with heq | ⟨i', heq⟩
      · rw [heq] at hpark
        exact .inl hpark
      · rw [heq] at hpark
        rcases parked_park hpark with ⟨-, hp'⟩ | ⟨-, hold⟩
        · obtain rfl := Option.some.inj hp'
          exact .inr ⟨rfl, rfl, rfl, rfl⟩
        · exact .inl hold
  · unfold outPacket
    simp only
    rw [if_neg hp]
    have hhand : Calm s { s with serial := s.serial + 1 } [.handed s.serial conn sendId bytes s.clock] := by
      refine ⟨Nat.le_succ _, id, fun e he => ?_⟩
      rw [List.mem_singleton.1 he]
      exact id
    exact h.calm (calm_composes.comp hhand (calm_composes.andThen (trySend_calm hp) calm_composes.skip _))

theorem recv_keeps {hdl : Handle} {buf : Bytes} {look : Look} : Meets (Keeps (Course t)) (onOurDestRecv hdl buf look) := by
  intro s log h
  apply h.step (recv_spec s)
  have hstill : Paced (log ++ []) s := h.paced.calm (calm_composes.refl s)
  unfold onOurDestRecv
  split
  · exact hstill
  · split
    · split
      · split
        · exact hstill
        · exact outPacket_paced h.paced
      · split
        · exact h.paced.calm (outCancel_calm s)
        · exact hstill
    · exact hstill

theorem step_keeps {op : Op} (ha : op.Agrees) : Meets (Keeps (Course t)) (step op) := by
  cases op with
  | wait d =>
    refine keeps_of_calm (step_spec _) fun s => ?_
    exact calm_of_dests rfl rfl fun e he => absurd he List.not_mem_nil
  | connect => exact keeps_of_calm connect_spec connect_calm
  | disconnect => exact keeps_of_calm disconnect_spec disconnect_calm
  | recv => exact recv_keeps
  | tickPending turns =>
    refine (keeps_composes (Course t)).all fun u hu => ?_
    obtain ⟨j, -, rfl⟩ := List.mem_map.1 hu
    refine (keeps_composes (Course t)).all fun u hu => ?_
    obtain ⟨i, -, rfl⟩ := List.mem_map.1 hu
    exact pendingTurn_keeps (ha j i)
  | tickReceipts => exact keeps_of_calm receiptTick_spec receiptTick_calm
  | other r =>
    refine keeps_of_calm (step_spec _) fun s => ?_
    exact calm_of_dests rfl rfl fun e he => absurd he List.not_mem_nil
  | proof => exact keeps_of_calm proof_spec proof_calm
  | jobs => exact keeps_of_calm (step_spec _) jobs_calm

theorem paced_boot (t : ℚ) : Paced [] (boot t) where
  parked hp := by
    obtain ⟨c, hc, -⟩ := State.parked_eq_some.1 hp
    rw [State.dest_eq_some] at hc
    simp [boot, List.getElem?_replicate] at hc
  spaced hk := by simp [asks] at hk
  early hk := by simp [asks] at hk
  fresh _ := rfl
  kept no := List.not_mem_nil

theorem course_boot (t : ℚ) : Course t [] (boot t) :=
  ⟨sound_boot t, booked_composes.refl _, paced_boot t⟩

theorem course_run {ops : List Op} (ha : ∀ op ∈ ops, op.Agrees) :
    Course t (Runs.run (logged step) (boot t, []) ops).2 (Runs.run (logged step) (boot t, []) ops).1 := by
  rw [run_logged, List.nil_append]
  exact (keeps_composes (Course t)).trace (fun op hop => step_keeps (ha op hop)) _ [] (course_boot t)

-- ---------------------------------------------------------------------------
-- The schedule
-- ---------------------------------------------------------------------------

/-- How long after the first request the `k`-th comes at the earliest. -/
def schedule (k : Nat) : ℚ := ((List.range k).map ourDestRetryDelay).sum

theorem schedule_succ (k : Nat) : schedule (k + 1) = schedule k + ourDestRetryDelay k := by
  simp [schedule, List.range_succ]

theorem Paced.schedule (h : Paced log s) {k : Nat} {t₀ t : ℚ} (h₀ : (asks log no)[0]? = some t₀)
    (hk : (asks log no)[k]? = some t) : t₀ + Opportunistic.schedule k ≤ t := by
  induction k generalizing t with
  | zero =>
    obtain rfl : t₀ = t := by simpa [h₀] using hk
    simp [Opportunistic.schedule]
  | succ k ih =>
    have hlt : k < (asks log no).length := by
      have hlt := (List.getElem?_eq_some_iff.1 hk).1
      omega
    have hprev := ih (List.getElem?_eq_getElem hlt)
    have hstep := h.spaced (List.getElem?_eq_getElem hlt) hk
    rw [schedule_succ]
    linarith

theorem schedule_eighteen : schedule 18 = 21695 := by
  norm_num [schedule, ourDestRetryDelay, List.range_succ]

/-- Where the walker and the call see the same, no send is lost, and each asks for its path in
its time, eighteen times at most. -/
theorem asks_paced {ops : List Op} (ha : ∀ op ∈ ops, op.Agrees) (no : Nat) :
    .lost no ∉ (Runs.run (logged step) (boot t, []) ops).2 ∧
      (asks (Runs.run (logged step) (boot t, []) ops).2 no).length ≤ 18 ∧
      ∀ k t₀ u, (asks (Runs.run (logged step) (boot t, []) ops).2 no)[0]? = some t₀ →
        (asks (Runs.run (logged step) (boot t, []) ops).2 no)[k]? = some u →
        t₀ + schedule k ≤ u ∧ u < t₀ + RNSD_OUR_DEST_PATH_GIVEUP_S := by
  have h := (course_run (t := t) ha).paced
  refine ⟨h.kept no, ?_, fun k t₀ u h₀ hk => ⟨h.schedule h₀ hk, h.early h₀ hk⟩⟩
  by_contra hmany
  rw [not_le] at hmany
  have h₀ := List.getElem?_eq_getElem (by omega : 0 < (asks (Runs.run (logged step) (boot t, []) ops).2 no).length)
  have hlast := List.getElem?_eq_getElem hmany
  have hlow := h.schedule h₀ hlast
  have hhigh := h.early h₀ hlast
  rw [schedule_eighteen] at hlow
  norm_num [RNSD_OUR_DEST_PATH_GIVEUP_S] at hhigh
  linarith

-- ---------------------------------------------------------------------------
-- Endless runs
-- ---------------------------------------------------------------------------

def Op.WalksPending : Op → Prop
  | .tickPending _ => True
  | _ => False

def Op.ChecksReceipts : Op → Prop
  | .tickReceipts => True
  | _ => False

/-- The states of an endless run, with all that has been said. -/
def course (t : ℚ) (ops : ℕ → Op) : ℕ → State × List Event := states (logged step) (boot t, []) ops

def Kept (t : ℚ) (s : State × List Event) : Prop := Sound s.2 s.1 ∧ Booked (boot t) s.1 s.2

theorem kept_step (s : State × List Event) (op : Op) (h : Kept t s) : Kept t (logged step s op) := by
  obtain ⟨hs, hb⟩ := step_spec op s.1 s.2 h.1
  exact ⟨hs, booked_composes.comp h.2 hb⟩

theorem kept_course (t : ℚ) (ops : ℕ → Op) (k : ℕ) : Kept t (course t ops k) :=
  states_invariant kept_step ⟨sound_boot t, booked_composes.refl _⟩ k

theorem Kept.books {s : State × List Event} (h : Kept t s) : Delivering s.1 s.2 := h.1.books h.2

theorem course_log {ops : ℕ → Op} {e : Event} {k : ℕ} (he : e ∈ (course t ops k).2) (d : ℕ) :
    e ∈ (course t ops (k + d)).2 := by
  induction d with
  | zero => exact he
  | succ d ih => exact List.mem_append_left _ ih

theorem eq_of_nodup_filterMap {α β : Type*} {f : α → Option β} {l : List α} {a b : α} {k : β} (h : (l.filterMap f).Nodup)
    (ha : a ∈ l) (hb : b ∈ l) (hfa : f a = some k) (hfb : f b = some k) : a = b := by
  induction l with
  | nil => exact absurd ha List.not_mem_nil
  | cons x l ih =>
    rw [List.filterMap_cons] at h
    have hmem : ∀ {y}, y ∈ l → f y = some k → k ∈ l.filterMap f := fun hy hf => List.mem_filterMap.2 ⟨_, hy, hf⟩
    rcases List.mem_cons.1 ha with rfl | ha' <;> rcases List.mem_cons.1 hb with rfl | hb'
    · rfl
    · rw [hfa] at h
      exact absurd (hmem hb' hfb) (List.nodup_cons.1 h).1
    · rw [hfb] at h
      exact absurd (hmem ha' hfa) (List.nodup_cons.1 h).1
    · refine ih ?_ ha' hb'
      split at h
      · exact h
      · exact (List.nodup_cons.1 h).2

theorem Delivering.handed_once (h : Delivering s log) : (log.filterMap Event.handedNo?).Nodup := by
  rw [← Multiset.coe_nodup, h.numbered]
  exact Multiset.nodup_range _

theorem Delivering.aired_once (h : Delivering s log) : (log.filterMap Event.airedNo?).Nodup := by
  have hrange := Multiset.nodup_range s.serial
  rw [← h.placed, add_assoc] at hrange
  have hrest := (Multiset.nodup_add.1 hrange).2.1
  rw [← Multiset.coe_nodup, ← h.out]
  refine Multiset.nodup_of_le ?_ hrest
  rw [← add_assoc]
  exact Multiset.le_add_right _ _

/-- Nobody waits for a path past six hours. -/
theorem leaves_waiting (no : Nat) (conn : Conn) (sendId : UInt16) (bytes : Bytes) (u : ℚ) :
    Leaves (logged step) (Kept t) Op.WalksPending (fun s => s.1.clock)
      (fun s => no ∈ waiting s.1 ∧ .handed no conn sendId bytes u ∈ s.2) (fun _ => 0)
      (fun _ => u + RNSD_OUR_DEST_PATH_GIVEUP_S) where
  moves _ _ _ _ _ := .inr ⟨rfl, rfl⟩
  ticks := by
    rintro s op h - htick hdue ⟨hwait, hh⟩
    have hkept := kept_step s op h
    obtain ⟨j, i, p, hp, rfl⟩ := mem_waiting.1 hwait
    obtain ⟨c, hc, hi⟩ := State.parked_eq_some.1 hp
    have heq := eq_of_nodup_filterMap hkept.books.handed_once (hkept.1.kept hc hi) hh rfl rfl
    have hu : p.firstSeenAt = u := (Event.handed.inj heq).2.2.2.2
    cases op with
    | tickPending turns =>
      have hshaped := hkept.1.shaped
      rw [fst_logged, step] at hshaped hp
      have hyoung := parked_tick hshaped hp
      rw [hu] at hyoung
      exact absurd hdue (not_le.2 hyoung)
    | _ => exact htick.elim

/-- Nobody waits for a proof past its deadline. -/
theorem leaves_awaiting (no : Nat) (payload hash : Bytes) (d : ℚ) :
    Leaves (logged step) (Kept t) Op.ChecksReceipts (fun s => s.1.clock)
      (fun s => no ∈ awaiting s.1 ∧ .aired no payload hash d ∈ s.2) (fun _ => 0) (fun _ => d) where
  moves _ _ _ _ _ := .inr ⟨rfl, rfl⟩
  ticks := by
    rintro s op h - htick hdue ⟨hwait, hh⟩
    have hkept := kept_step s op h
    obtain ⟨j, a, ha, rfl⟩ := mem_awaiting.1 hwait
    obtain ⟨r, hr, ho⟩ := hkept.1.owned ha
    obtain ⟨payload', haired⟩ := ho.aired
    have heq := eq_of_nodup_filterMap hkept.books.aired_once haired hh rfl rfl
    have hd : a.deadline = d := (Event.aired.inj heq).2.2.2
    cases op with
    | tickReceipts =>
      have hshaped := hkept.1.shaped
      rw [fst_logged, step] at hshaped ha
      have hearly := slot_tick hshaped ha
      rw [hd] at hearly
      exact absurd hdue (not_le.2 hearly)
    | _ => exact htick.elim

/-- Where both ticks keep coming, every send comes to its end. -/
theorem send_ends {ops : ℕ → Op}
    (hpending : Ticking (logged step) Op.WalksPending (fun s => s.1.clock) (boot t, []) ops)
    (hreceipts : Ticking (logged step) Op.ChecksReceipts (fun s => s.1.clock) (boot t, []) ops) {k : ℕ}
    {conn : Conn} {sendId : UInt16} {bytes : Bytes} {u : ℚ} (hh : .handed no conn sendId bytes u ∈ (course t ops k).2) :
    ∃ k' ≥ k, ∃ e ∈ (course t ops k').2, e.ends? = some no ∨ e.fails? = some no := by
  by_contra hnever
  push Not at hnever
  have hplace : ∀ d, no ∈ waiting (course t ops (k + d)).1 ∨ no ∈ awaiting (course t ops (k + d)).1 := by
    intro d
    have hdel := (kept_course t ops (k + d)).books
    have hmem : no ∈ Multiset.range (course t ops (k + d)).1.serial := by
      rw [← hdel.numbered]
      exact List.mem_filterMap.2 ⟨_, course_log hh d, rfl⟩
    rw [← hdel.placed] at hmem
    rcases Multiset.mem_add.1 hmem with hmem | hmem
    · exact Multiset.mem_add.1 hmem
    · rcases Multiset.mem_add.1 hmem with hmem | hmem
      · obtain ⟨e, he, hno⟩ := List.mem_filterMap.1 hmem
        exact absurd hno (hnever (k + d) (Nat.le_add_right k d) e he).1
      · obtain ⟨e, he, hno⟩ := List.mem_filterMap.1 hmem
        exact absurd hno (hnever (k + d) (Nat.le_add_right k d) e he).2
  -- it leaves its connection's slots, and then the slots of receipts
  obtain ⟨k₁, hk₁, hleft⟩ := (leaves_waiting no conn sendId bytes u).ends (kept_course t ops) hpending k
  obtain ⟨d₁, rfl⟩ := Nat.exists_eq_add_of_le hk₁
  have hawait := (hplace d₁).resolve_left fun hw => hleft ⟨hw, course_log hh d₁⟩
  have hdel := (kept_course t ops (k + d₁)).books
  have haired : no ∈ (↑((course t ops (k + d₁)).2.filterMap Event.airedNo?) : Multiset Nat) := by
    rw [← hdel.out]
    exact Multiset.mem_add.2 (.inl hawait)
  obtain ⟨e, he, hno⟩ := List.mem_filterMap.1 haired
  obtain ⟨payload, hash, d, rfl⟩ : ∃ payload hash d, e = .aired no payload hash d := by
    cases e with
    | aired => cases hno; exact ⟨_, _, _, rfl⟩
    | _ => cases hno
  obtain ⟨k₂, hk₂, hgone⟩ := (leaves_awaiting no payload hash d).ends (kept_course t ops) hreceipts (k + d₁)
  obtain ⟨d₂, rfl⟩ := Nat.exists_eq_add_of_le hk₂
  have hstill := course_log he d₂
  have hdel₂ := (kept_course t ops (k + d₁ + d₂)).books
  have hmem : no ∈ awaiting (course t ops (k + d₁ + d₂)).1 +
      ↑((course t ops (k + d₁ + d₂)).2.filterMap Event.ends?) := by
    rw [hdel₂.out]
    exact List.mem_filterMap.2 ⟨_, hstill, rfl⟩
  rcases Multiset.mem_add.1 hmem with hmem | hmem
  · exact hgone ⟨hmem, hstill⟩
  · obtain ⟨e', he', hno'⟩ := List.mem_filterMap.1 hmem
    exact absurd hno' (hnever (k + d₁ + d₂) (by omega) e' he').1

/-- The last that a consumer is told of a send. -/
def Frame.Final : Frame → Prop
  | .result _ status _ _ => status ≠ .sent
  | .bare _ type => type = .queueFull
  | .retry .. => False

theorem told_of_end {e : Event} (h : e.ends? = some no ∨ e.fails? = some no) :
    (∃ hdl f, e = .told (some no) hdl f ∧ f.Final) ∨ e = .dropped no ∨ e = .forgotten no ∨ e = .lost no := by
  cases e with
  | told o hdl f =>
    cases f with
    | result sendId status rtt hops =>
      cases status with
      | sent => rcases h with h | h <;> cases h
      | delivered | proofTimeout =>
        rcases h with h | h
        · obtain rfl : o = some no := h
          exact .inl ⟨hdl, _, rfl, by simp [Frame.Final]⟩
        · cases h
      | cancelled | evicted | failed | tooLarge =>
        rcases h with h | h
        · cases h
        · obtain rfl : o = some no := h
          exact .inl ⟨hdl, _, rfl, by simp [Frame.Final]⟩
    | bare sendId type =>
      cases type with
      | queueFull =>
        rcases h with h | h
        · cases h
        · obtain rfl : o = some no := h
          exact .inl ⟨hdl, _, rfl, rfl⟩
      | requestingPath | egressQueued => rcases h with h | h <;> cases h
    | retry => rcases h with h | h <;> cases h
  | dropped =>
    rcases h with h | h
    · cases h
    · exact .inr (.inl (congrArg _ (Option.some.inj h)))
  | forgotten =>
    rcases h with h | h
    · exact .inr (.inr (.inl (congrArg _ (Option.some.inj h))))
    · cases h
  | lost =>
    rcases h with h | h
    · cases h
    · exact .inr (.inr (.inr (congrArg _ (Option.some.inj h))))
  | handed | asked | aired | ousted | proved | culled => rcases h with h | h <;> cases h

/-- The consumer is told how its send ended, unless it goes first. -/
theorem send_answered {ops : ℕ → Op} (ha : ∀ k, (ops k).Agrees)
    (hpending : Ticking (logged step) Op.WalksPending (fun s => s.1.clock) (boot t, []) ops)
    (hreceipts : Ticking (logged step) Op.ChecksReceipts (fun s => s.1.clock) (boot t, []) ops) {k : ℕ}
    {conn : Conn} {sendId : UInt16} {bytes : Bytes} {u : ℚ} (hh : .handed no conn sendId bytes u ∈ (course t ops k).2) :
    ∃ k' ≥ k, (∃ f, .told (some no) conn.handle f ∈ (course t ops k').2 ∧ f.Final ∧ f.sendId = sendId) ∨
      .dropped no ∈ (course t ops k').2 ∨ .forgotten no ∈ (course t ops k').2 := by
  obtain ⟨k', hk', e, he, hend⟩ := send_ends hpending hreceipts hh
  refine ⟨k', hk', ?_⟩
  have hdel := (kept_course t ops k').books
  obtain ⟨d, rfl⟩ := Nat.exists_eq_add_of_le hk'
  rcases told_of_end hend with ⟨hdl, f, rfl, hf⟩ | rfl | rfl | rfl
  · obtain ⟨⟨conn', bytes', u', hh', hc⟩, -⟩ := hdel.said _ he
    have heq := eq_of_nodup_filterMap hdel.handed_once hh' (course_log hh d) rfl rfl
    obtain ⟨-, rfl, hid, -⟩ := Event.handed.inj heq
    exact .inl ⟨f, hc ▸ he, hf, hid⟩
  · exact .inr (.inl he)
  · exact .inr (.inr he)
  · rw [course, states_eq_run] at he
    have hops : ∀ op ∈ (List.range (k + d)).map ops, op.Agrees := by
      intro op hop
      obtain ⟨j, -, rfl⟩ := List.mem_map.1 hop
      exact ha j
    exact absurd he (asks_paced hops no).1

-- ---------------------------------------------------------------------------
-- A send whose path never comes
-- ---------------------------------------------------------------------------

def pathless : Look := { hasPath := false, recalls := false, builds := true, sends := .threw, window := 60 }

/-- A consumer connects and sends; then seconds pass, with both ticks after each. -/
def anErrand : ℕ → Op
  | 0 => .connect 5
  | 1 => .recv 5 (OUT_PACKET :: 0 :: 1 :: .replicate 16 7) pathless
  | k + 2 => if k % 3 = 0 then .wait 1 else if k % 3 = 1 then .tickPending fun _ _ => { pathless with found := false } else
      .tickReceipts

theorem anErrand_turn (k : ℕ) : anErrand (3 * k + 2) = .wait 1 ∧
    anErrand (3 * k + 3) = .tickPending (fun _ _ => { pathless with found := false }) ∧
    anErrand (3 * k + 4) = .tickReceipts := by
  refine ⟨by simp [anErrand], ?_, ?_⟩
  · simp [anErrand, show (3 * k + 1) % 3 = 1 by omega]
  · simp [anErrand, show (3 * k + 2) % 3 = 2 by omega]

theorem course_succ (ops : ℕ → Op) (k : ℕ) : course t ops (k + 1) = logged step (course t ops k) (ops k) := rfl

/-- A second goes by in a turn. -/
theorem clock_turn (k : ℕ) :
    (course 0 anErrand (3 * k + 3)).1.clock = (course 0 anErrand (3 * k + 2)).1.clock + 1 ∧
      (course 0 anErrand (3 * k + 4)).1.clock = (course 0 anErrand (3 * k + 2)).1.clock + 1 ∧
      (course 0 anErrand (3 * k + 5)).1.clock = (course 0 anErrand (3 * k + 2)).1.clock + 1 := by
  obtain ⟨hwait, hpending, hreceipts⟩ := anErrand_turn k
  have h₁ : (course 0 anErrand (3 * k + 3)).1.clock = (course 0 anErrand (3 * k + 2)).1.clock + 1 := by
    rw [course_succ, hwait, fst_logged, step, quiet_apply]
    rfl
  have h₂ : (course 0 anErrand (3 * k + 4)).1.clock = (course 0 anErrand (3 * k + 3)).1.clock := by
    rw [course_succ, hpending, fst_logged, step, clock_tickPending]
  have h₃ : (course 0 anErrand (3 * k + 5)).1.clock = (course 0 anErrand (3 * k + 4)).1.clock := by
    rw [course_succ, hreceipts, fst_logged, step, (receiptTick_remains _).1]
  exact ⟨h₁, h₂.trans h₁, h₃.trans (h₂.trans h₁)⟩

theorem clock_anErrand (k : ℕ) : (course 0 anErrand (3 * k + 2)).1.clock = k := by
  induction k with
  | zero => decide +kernel
  | succ k ih =>
    have h := (clock_turn k).2.2
    rw [ih] at h
    rw [show 3 * (k + 1) + 2 = 3 * k + 5 by ring, h]
    push_cast
    rfl

theorem ticking_anErrand : Ticking (logged step) Op.WalksPending (fun s => s.1.clock) (boot 0, []) anErrand ∧
    Ticking (logged step) Op.ChecksReceipts (fun s => s.1.clock) (boot 0, []) anErrand := by
  have hlate : ∀ (j : ℕ) (u : ℚ), u ≤ ((max j ⌈u⌉₊ : ℕ) : ℚ) + 1 := by
    intro j u
    have hceil := Nat.le_ceil u
    have hmax : (⌈u⌉₊ : ℚ) ≤ ((max j ⌈u⌉₊ : ℕ) : ℚ) := by exact_mod_cast le_max_right j ⌈u⌉₊
    linarith
  refine ⟨fun j u => ⟨3 * max j ⌈u⌉₊ + 3, by omega, ?_, ?_⟩, fun j u => ⟨3 * max j ⌈u⌉₊ + 4, by omega, ?_, ?_⟩⟩
  · rw [(anErrand_turn _).2.1]
    trivial
  · have h := (clock_turn (max j ⌈u⌉₊)).1
    rw [clock_anErrand] at h
    exact (hlate j u).trans h.ge
  · rw [(anErrand_turn _).2.2]
    trivial
  · have h := (clock_turn (max j ⌈u⌉₊)).2.1
    rw [clock_anErrand] at h
    exact (hlate j u).trans h.ge

theorem agrees_anErrand (k : ℕ) : (anErrand k).Agrees := by
  unfold anErrand
  split
  · trivial
  · trivial
  · split
    · trivial
    · split
      · intro _ _ hfound
        cases hfound
      · trivial

theorem send_answered_anErrand : ∃ k' ≥ 2,
    (∃ f, .told (some 0) 5 f ∈ (course 0 anErrand k').2 ∧ f.Final ∧ f.sendId = 1) ∨
      .dropped 0 ∈ (course 0 anErrand k').2 ∨ .forgotten 0 ∈ (course 0 anErrand k').2 := by
  have hh : Event.handed 0 ⟨0, 5⟩ 1 (List.replicate 16 7) 0 ∈ (course 0 anErrand 2).2 := by decide +kernel
  exact send_answered agrees_anErrand ticking_anErrand.1 ticking_anErrand.2 hh

/-- It asks once more after five seconds. -/
def aSearch : List Op :=
  [anErrand 0, anErrand 1, .wait 5, .tickPending fun _ _ => { pathless with found := false }]

theorem asks_paced_aSearch : .lost 0 ∉ (Runs.run (logged step) (boot 0, []) aSearch).2 ∧
    (asks (Runs.run (logged step) (boot 0, []) aSearch).2 0).length ≤ 18 ∧
    ∀ k t₀ u, (asks (Runs.run (logged step) (boot 0, []) aSearch).2 0)[0]? = some t₀ →
      (asks (Runs.run (logged step) (boot 0, []) aSearch).2 0)[k]? = some u →
      t₀ + schedule k ≤ u ∧ u < t₀ + RNSD_OUR_DEST_PATH_GIVEUP_S :=
  asks_paced (by simp [aSearch, anErrand, Op.Agrees, Turn.Agrees]) 0

example : asks (Runs.run (logged step) (boot 0, []) aSearch).2 0 = [0, 5] := by decide +kernel

end MicroReticulum.Rnsd.Opportunistic
