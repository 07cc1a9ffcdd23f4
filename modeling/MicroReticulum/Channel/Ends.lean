import MicroReticulum.Channel.Window

/-!
# The ends of an envelope

An envelope leaves the TX ring when its message is proved, or with the channel
itself. `poll` leaves no envelope that is due alone: it drops it, tries it once
more, or gives the channel up. What it does to the ring is said once, by
`Polled`; the tries that are left are the rank that falls.
-/

namespace MicroReticulum.Channel

open Lib.Runs (run)

/-- The envelope has been tried once more. -/
structure Retried (env env' : TxEnvelope) : Prop where
  left : env.tries < MAX_TRIES
  tries : env'.tries = env.tries + 1
  num : env'.num = env.num

/-- A ring before and after a poll that does not give up, and the messages whose envelopes went. -/
inductive Polled (now : ℚ) : List TxEnvelope → List TxEnvelope → List Nat → Prop where
  | done : Polled now [] [] []
  | proved : Polled now ring ring' gone → Polled now (env :: ring) ring' (env.num :: gone)
  | early :
    now < env.deadline → Polled now ring ring' gone → Polled now (env :: ring) (env :: ring') gone
  | again :
    Retried env env' → Polled now ring ring' gone → Polled now (env :: ring) (env' :: ring') gone
  /-- The resend throws. -/
  | threw : Retried env env' → Polled now (env :: ring) (env' :: ring) []

variable {s s' : Pair} {op : Op} {ops : List Op} {ring ring' kept rest : List TxEnvelope} {gone : List Nat}
  {env env' : TxEnvelope} {m : Message} {now : ℚ} {ok : Bool} {carried : Nat → Bool} {n : Nat}

-- ---------------------------------------------------------------------------
-- What `send` does
-- ---------------------------------------------------------------------------

/-- The message fits into a packet of the link. -/
def Fits (linkMdu : UInt16) (m : Message) : Prop := m.data.length + 6 ≤ linkMdu.toNat

instance : Decidable (Fits mdu m) := inferInstanceAs (Decidable (_ ≤ _))

theorem length_pack : (pack n m).length = m.data.length + 6 := by simp [pack]

theorem send_accepted (hr : s.isReadyToSend) (hf : Fits s.sender.linkMdu m) : s.send m now ok =
    { s.transmit ok (s.newEnvelope m now ok).raw (s.newEnvelope m now ok).num with
      sender := { s.sender with
        nextSequence := (s.sender.nextSequence + 1) % SEQ_MODULUS
        txRing := s.sender.txRing ++ [s.newEnvelope m now ok] }
      accepted := s.accepted ++ [m] } := by
  have hsize : ¬ (s.sender.linkMdu = 0 ∨ (s.newEnvelope m now ok).raw.length > s.sender.linkMdu.toNat) := by
    simp only [Pair.newEnvelope, length_pack, not_or, not_lt]
    refine ⟨fun h0 => ?_, hf⟩
    simp [Fits, h0] at hf
  simp [Pair.send, hr, hsize]

theorem send_refused (h : ¬ (s.isReadyToSend ∧ Fits s.sender.linkMdu m)) : s.send m now ok = s := by
  unfold Pair.send
  by_cases hr : s.isReadyToSend
  · have hsize : (s.newEnvelope m now ok).raw.length > s.sender.linkMdu.toNat := by
      simpa [Fits, hr, Pair.newEnvelope, length_pack] using h
    simp [hsize]
  · simp [hr]

-- ---------------------------------------------------------------------------
-- What `poll` does
-- ---------------------------------------------------------------------------

/-- The channel is still there, with another ring, and some messages are settled. -/
structure Leaves (s s' : Pair) (ring' : List TxEnvelope) (gone : List Nat) : Prop where
  txRing : s'.sender.txRing = ring'
  acked : s'.acked = s.acked ++ gone
  accepted : s'.accepted = s.accepted
  held : s'.sender.held = s.sender.held
  linkMdu : s'.sender.linkMdu = s.sender.linkMdu
  linkActive : s'.sender.linkActive = s.sender.linkActive

theorem Leaves.trans {s'' : Pair} {ring'' : List TxEnvelope} {gone' : List Nat} (h : Leaves s s' ring' gone)
    (h' : Leaves s' s'' ring'' gone') : Leaves s s'' ring'' (gone ++ gone') where
  txRing := h'.txRing
  acked := by rw [h'.acked, h.acked, List.append_assoc]
  accepted := h'.accepted.trans h.accepted
  held := h'.held.trans h.held
  linkMdu := h'.linkMdu.trans h.linkMdu
  linkActive := h'.linkActive.trans h.linkActive

/-- The channel has been given up. -/
structure Lost (s s' : Pair) : Prop where
  txRing : s'.sender.txRing = []
  accepted : s'.accepted = s.accepted
  held : s'.sender.held = false
  linkMdu : s'.sender.linkMdu = s.sender.linkMdu

theorem windowOpen_held (d : Channel) : (windowOpen d).held = d.held := by
  unfold windowOpen
  dsimp only
  split_ifs <;> rfl

theorem windowClose_held (d : Channel) : (windowClose d).held = d.held := by
  unfold windowClose
  split <;> rfl

theorem windowClose_linkMdu (d : Channel) : (windowClose d).linkMdu = d.linkMdu := by
  unfold windowClose
  split <;> rfl

theorem windowClose_linkActive (d : Channel) : (windowClose d).linkActive = d.linkActive := by
  unfold windowClose
  split <;> rfl

theorem transmit_acked {raw : Bytes} : (s.transmit ok raw n).acked = s.acked := by
  cases ok <;> rfl

theorem pollFrom_spec (hr : s.sender.txRing = kept ++ rest) :
    Lost s (s.pollFrom now carried kept rest) ∨
      ∃ rest' gone, Polled now rest rest' gone ∧ Leaves s (s.pollFrom now carried kept rest) (kept ++ rest') gone := by
  induction rest generalizing kept s with
  | nil => exact .inr ⟨[], [], .done, hr, (List.append_nil _).symm, rfl, rfl, rfl, rfl⟩
  | cons env rest ih =>
    rw [Pair.pollFrom]
    split
    · -- proved
      let s₁ : Pair := { s with
        sender := { windowOpen s.sender with txRing := kept ++ rest }, acked := s.acked ++ [env.num] }
      have hs₁ : Leaves s s₁ (kept ++ rest) [env.num] :=
        ⟨rfl, rfl, rfl, windowOpen_held _, windowOpen_linkMdu, windowOpen_linkActive⟩
      rcases ih (s := s₁) rfl with hlost | ⟨rest', gone, hpolled, hleaves⟩
      · exact .inl ⟨hlost.1, hlost.2, hlost.3, hlost.4.trans hs₁.linkMdu⟩
      · exact .inr ⟨rest', _, .proved hpolled, hs₁.trans hleaves⟩
    · next hopen =>
      split
      · split
        · exact .inl ⟨rfl, rfl, rfl, rfl⟩
        · next htries =>
          dsimp only
          split
          · -- the resend throws
            let env₁ : TxEnvelope := { env with tries := env.tries + 1 }
            have hretried : Retried env env₁ := ⟨not_le.1 htries, rfl, rfl⟩
            refine .inr ⟨env₁ :: rest, [], .threw hretried, rfl, (List.append_nil _).symm, rfl, ?_, ?_, ?_⟩
            · exact windowClose_held _
            · exact windowClose_linkMdu _
            · exact windowClose_linkActive _
          · generalize hok : carried env.sequence = ok
            let env₁ : TxEnvelope := { env with
              tries := env.tries + 1
              sent := ok
              receipt := if ok then some s.wire.length else env.receipt
              deadline := now + timeoutTime (windowClose s.sender) (env.tries + 1) }
            let s₁ : Pair := { s.transmit ok env.raw env.num with
              sender := { windowClose s.sender with txRing := kept ++ env₁ :: rest } }
            have hs₁ : Leaves s s₁ (kept ++ env₁ :: rest) [] := by
              refine ⟨rfl, ?_, transmit_accepted, windowClose_held _, windowClose_linkMdu _, windowClose_linkActive _⟩
              exact transmit_acked.trans (List.append_nil _).symm
            have hr₁ : s₁.sender.txRing = (kept ++ [env₁]) ++ rest := by simp [s₁]
            rcases ih hr₁ with hlost | ⟨rest', gone, hpolled, hleaves⟩
            · exact .inl ⟨hlost.1, hlost.2.trans hs₁.accepted, hlost.3, hlost.4.trans hs₁.linkMdu⟩
            · refine .inr ⟨env₁ :: rest', gone, .again ⟨not_le.1 htries, rfl, rfl⟩ hpolled, ?_⟩
              have hboth := hs₁.trans hleaves
              rwa [List.append_assoc] at hboth
      · next hearly =>
        rw [not_or, ge_iff_le, not_le] at hearly
        have hr₁ : s.sender.txRing = (kept ++ [env]) ++ rest := by simp [hr]
        rcases ih hr₁ with hlost | ⟨rest', gone, hpolled, hleaves⟩
        · exact .inl hlost
        · refine .inr ⟨env :: rest', gone, .early hearly.1 hpolled, ?_⟩
          rwa [List.append_assoc] at hleaves

theorem poll_spec (s : Pair) (now : ℚ) (carried : Nat → Bool) : Lost s (s.poll now carried) ∨
    ∃ ring' gone, Polled now s.sender.txRing ring' gone ∧ Leaves s (s.poll now carried) ring' gone :=
  pollFrom_spec (List.nil_append _).symm

-- ---------------------------------------------------------------------------
-- The ring of a run
-- ---------------------------------------------------------------------------

def nums (ring : List TxEnvelope) : List Nat := ring.map (·.num)

@[simp] theorem nums_cons : nums (env :: ring) = env.num :: nums ring := rfl

/-- The envelopes are in the order of their messages, and an accepted message is settled or has one. -/
structure Tracked (s : Pair) : Prop where
  sorted : (nums s.sender.txRing).Pairwise (· < ·)
  numbered : ∀ i ∈ nums s.sender.txRing, i < s.accepted.length
  tries : ∀ env ∈ s.sender.txRing, env.tries ≤ MAX_TRIES
  placed : s.sender.held → ∀ i < s.accepted.length, i ∈ s.acked ∨ i ∈ nums s.sender.txRing

theorem Polled.nums (h : Polled now ring ring' gone) : (nums ring').Sublist (nums ring) := by
  induction h with
  | done => exact .slnil
  | proved _ ih => exact ih.cons _
  | early _ _ ih => exact ih.cons_cons _
  | again hr _ ih =>
    rw [nums_cons, nums_cons, hr.num]
    exact ih.cons_cons _
  | threw hr =>
    rw [nums_cons, nums_cons, hr.num]

theorem Polled.placed (h : Polled now ring ring' gone) {i : Nat} (hi : i ∈ Channel.nums ring) :
    i ∈ gone ∨ i ∈ Channel.nums ring' := by
  induction h with
  | done => cases hi
  | proved _ ih =>
    rcases List.mem_cons.1 hi with rfl | hi
    · exact .inl List.mem_cons_self
    · exact (ih hi).imp_left (List.mem_cons_of_mem _)
  | early _ _ ih =>
    rcases List.mem_cons.1 hi with rfl | hi
    · exact .inr List.mem_cons_self
    · exact (ih hi).imp_right (List.mem_cons_of_mem _)
  | again hr _ ih =>
    rw [nums_cons, hr.num]
    rcases List.mem_cons.1 hi with rfl | hi
    · exact .inr List.mem_cons_self
    · exact (ih hi).imp_right (List.mem_cons_of_mem _)
  | threw hr =>
    rw [nums_cons, hr.num]
    exact .inr hi

theorem Polled.tries (h : Polled now ring ring' gone) (hle : ∀ env ∈ ring, env.tries ≤ MAX_TRIES) :
    ∀ env ∈ ring', env.tries ≤ MAX_TRIES := by
  induction h with
  | done => exact hle
  | proved _ ih => exact ih (List.forall_mem_cons.1 hle).2
  | early _ _ ih => exact List.forall_mem_cons.2 ⟨(List.forall_mem_cons.1 hle).1, ih (List.forall_mem_cons.1 hle).2⟩
  | again hr _ ih => exact List.forall_mem_cons.2 ⟨hr.tries ▸ hr.left, ih (List.forall_mem_cons.1 hle).2⟩
  | threw hr => exact List.forall_mem_cons.2 ⟨hr.tries ▸ hr.left, (List.forall_mem_cons.1 hle).2⟩

theorem Tracked.poll (h : Tracked s) : Tracked (s.poll now carried) := by
  rcases poll_spec s now carried with hlost | ⟨ring', gone, hpolled, hleaves⟩
  · refine ⟨?_, ?_, ?_, ?_⟩ <;> simp [hlost.txRing, hlost.held, nums]
  · have hsub := hpolled.nums
    rw [← hleaves.txRing] at hsub hpolled
    refine ⟨h.sorted.sublist hsub, fun i hi => ?_, hpolled.tries h.tries, fun hheld i hi => ?_⟩
    · exact hleaves.accepted ▸ h.numbered i (hsub.subset hi)
    · rw [hleaves.acked, List.mem_append]
      rcases h.placed (hleaves.held ▸ hheld) i (hleaves.accepted ▸ hi) with hi | hi
      · exact .inl (.inl hi)
      · exact (hpolled.placed hi).imp_left .inr

theorem Tracked.send (h : Tracked s) : Tracked (s.send m now ok) := by
  by_cases hok : s.isReadyToSend ∧ Fits s.sender.linkMdu m
  · rw [send_accepted hok.1 hok.2]
    refine ⟨?_, ?_, ?_, ?_⟩ <;> simp only [nums, List.map_append, List.map_singleton, List.length_append]
    · refine List.pairwise_append.2 ⟨h.sorted, List.pairwise_singleton _ _, fun i hi j hj => ?_⟩
      exact List.mem_singleton.1 hj ▸ h.numbered i hi
    · intro i hi
      rcases List.mem_append.1 hi with hi | hi
      · exact Nat.lt_succ_of_lt (h.numbered i hi)
      · exact List.mem_singleton.1 hi ▸ Nat.lt_succ_self _
    · intro env he
      rcases List.mem_append.1 he with he | he
      · exact h.tries env he
      · exact List.mem_singleton.1 he ▸ (by decide : 1 ≤ MAX_TRIES)
    · intro hheld i hi
      rw [transmit_acked, List.mem_append, List.mem_singleton]
      rcases Nat.lt_succ_iff_lt_or_eq.1 hi with hi | rfl
      · exact (h.placed hheld i hi).imp_right .inl
      · exact .inr (.inr rfl)
  · rwa [send_refused hok]

theorem conclude_sides (i : Nat) (status : ReceiptStatus) : (s.conclude i status).sender = s.sender ∧
    (s.conclude i status).accepted = s.accepted ∧ (s.conclude i status).acked = s.acked := by
  unfold Pair.conclude
  split <;> exact ⟨rfl, rfl, rfl⟩

/-- Neither of `send`, `poll` and the sender's closing. -/
theorem step_sides (s : Pair) (op : Op) (hs : ∀ m now ok, op ≠ .send m now ok)
    (hp : ∀ now carried, op ≠ .poll now carried) (hc : op ≠ .closeSender) : (s.step op).accepted = s.accepted ∧ (s.step op).acked = s.acked ∧
      (s.step op).sender.txRing = s.sender.txRing ∧ (s.step op).sender.held = s.sender.held ∧
      (s.step op).sender.linkMdu = s.sender.linkMdu := by
  have hsides : ∀ {s' : Pair}, s'.sender = s.sender ∧ s'.accepted = s.accepted ∧ s'.acked = s.acked →
      s'.accepted = s.accepted ∧ s'.acked = s.acked ∧ s'.sender.txRing = s.sender.txRing ∧
        s'.sender.held = s.sender.held ∧ s'.sender.linkMdu = s.sender.linkMdu := by
    rintro s' ⟨h, h', h''⟩
    rw [h]
    exact ⟨h', h'', rfl, rfl, rfl⟩
  cases op with
  | send m now ok => exact absurd rfl (hs m now ok)
  | poll now carried => exact absurd rfl (hp now carried)
  | closeSender => exact absurd rfl hc
  | arrive i =>
    apply hsides
    rw [Pair.step]
    rcases arrive_cases s i with h | ⟨t, -, -, h⟩
    · rw [h]
      exact ⟨rfl, rfl, rfl⟩
    · rw [h]
      exact ⟨rfl, rfl, rfl⟩
  | proofArrives i =>
    apply hsides
    simp only [Pair.step]
    split
    · exact conclude_sides i _
    · exact ⟨rfl, rfl, rfl⟩
  | receiptTimesOut i => exact hsides (conclude_sides i _)
  | receiptCulled i => exact hsides (conclude_sides i _)
  | linkMoves active rtt => exact ⟨rfl, rfl, rfl, rfl, rfl⟩
  | closeReceiver => exact ⟨rfl, rfl, rfl, rfl, rfl⟩

theorem Tracked.step (h : Tracked s) : Tracked (s.step op) := by
  by_cases hs : ∃ m now ok, op = .send m now ok
  · obtain ⟨m, now, ok, rfl⟩ := hs
    exact h.send
  by_cases hp : ∃ now carried, op = .poll now carried
  · obtain ⟨now, carried, rfl⟩ := hp
    exact h.poll
  by_cases hc : op = .closeSender
  · subst hc
    refine ⟨?_, ?_, ?_, ?_⟩ <;> simp [Pair.step, shutdown, nums]
  push Not at hs hp
  obtain ⟨hacc, hack, hring, hheld, -⟩ := step_sides s op hs hp hc
  refine ⟨?_, ?_, ?_, ?_⟩ <;> rw [hring]
  · exact h.sorted
  · exact hacc ▸ h.numbered
  · exact h.tries
  · rw [hheld, hacc, hack]
    exact h.placed

theorem Tracked.run (h : Tracked s) (ops : List Op) : Tracked (run Pair.step s ops) :=
  Lib.Runs.invariant (fun _ _ h => h.step) h

theorem tracked_init (a b : UInt16) : Tracked (Pair.init a b) := by
  refine ⟨?_, ?_, ?_, ?_⟩ <;> simp [Pair.init, nums]

/-- What becomes of the sender's end in a run. -/
structure Onward (s s' : Pair) : Prop where
  accepted : s.accepted <+: s'.accepted
  held : s'.sender.held → s.sender.held
  linkMdu : s'.sender.linkMdu = s.sender.linkMdu

theorem Onward.refl (s : Pair) : Onward s s := ⟨List.prefix_rfl, id, rfl⟩

theorem Onward.trans {s'' : Pair} (h : Onward s s') (h' : Onward s' s'') : Onward s s'' :=
  ⟨h.1.trans h'.1, h.2 ∘ h'.2, h'.3.trans h.3⟩

theorem step_onward : Onward s (s.step op) := by
  by_cases hs : ∃ m now ok, op = .send m now ok
  · obtain ⟨m, now, ok, rfl⟩ := hs
    by_cases hok : s.isReadyToSend ∧ Fits s.sender.linkMdu m
    · rw [Pair.step, send_accepted hok.1 hok.2]
      exact ⟨List.prefix_append .., id, rfl⟩
    · rw [Pair.step, send_refused hok]
      exact .refl s
  by_cases hp : ∃ now carried, op = .poll now carried
  · obtain ⟨now, carried, rfl⟩ := hp
    rcases poll_spec s now carried with hlost | ⟨_, _, -, hleaves⟩
    · have hgone : (s.poll now carried).sender.held → s.sender.held := fun hh =>
        absurd (hlost.held.symm.trans hh) Bool.false_ne_true
      exact ⟨by rw [Pair.step, hlost.accepted], hgone, hlost.linkMdu⟩
    · exact ⟨by rw [Pair.step, hleaves.accepted], fun hh => hleaves.held ▸ hh, hleaves.linkMdu⟩
  by_cases hc : op = .closeSender
  · subst hc
    exact ⟨List.prefix_rfl, fun hh => absurd hh Bool.false_ne_true, rfl⟩
  push Not at hs hp
  obtain ⟨hacc, -, -, hheld, hmdu⟩ := step_sides s op hs hp hc
  exact ⟨by rw [hacc], fun hh => hheld ▸ hh, hmdu⟩

theorem run_onward (ops : List Op) : Onward s (run Pair.step s ops) := by
  induction ops generalizing s with
  | nil => exact .refl s
  | cons op ops ih => exact step_onward.trans ih

-- ---------------------------------------------------------------------------
-- The tries that are left
-- ---------------------------------------------------------------------------

/-- The envelopes of the first `n` messages. -/
def pressing (n : Nat) (ring : List TxEnvelope) : List TxEnvelope := ring.filter (·.num < n)

def triesLeft (env : TxEnvelope) : Nat := MAX_TRIES + 1 - env.tries

def rank (n : Nat) (ring : List TxEnvelope) : Nat := ((pressing n ring).map triesLeft).sum

/-- By then all of these are due. -/
def due (n : Nat) (ring : List TxEnvelope) : ℚ := ((pressing n ring).map (·.deadline)).foldr max 0

theorem pressing_cons : pressing n (env :: ring) = if env.num < n then env :: pressing n ring else pressing n ring := by
  simp [pressing, List.filter_cons]

theorem rank_cons : rank n (env :: ring) = (if env.num < n then triesLeft env else 0) + rank n ring := by
  rw [rank, pressing_cons]
  split <;> simp [rank]

theorem triesLeft_pos (h : env.tries ≤ MAX_TRIES) : 0 < triesLeft env := Nat.sub_pos_of_lt (Nat.lt_succ_of_le h)

theorem Retried.triesLeft_lt (h : Retried env env') : triesLeft env' < triesLeft env := by
  have hlt := h.left
  rw [triesLeft, triesLeft, h.tries]
  omega

/-- Another ring with less left, or with the same envelopes. -/
def Presses (n : Nat) (ring ring' : List TxEnvelope) : Prop :=
  rank n ring' < rank n ring ∨ pressing n ring' = pressing n ring

theorem Presses.le (h : Presses n ring ring') : rank n ring' ≤ rank n ring := by
  rcases h with hlt | heq
  · exact hlt.le
  · rw [rank, heq, rank]

theorem Presses.trans {ring'' : List TxEnvelope} (h : Presses n ring ring') (h' : Presses n ring' ring'') :
    Presses n ring ring'' := by
  rcases h' with hlt | heq
  · exact .inl (lt_of_lt_of_le hlt h.le)
  · rcases h with hlt | heq'
    · exact .inl (by rwa [rank, heq, ← rank])
    · exact .inr (heq.trans heq')

theorem Presses.cons (h : Presses n ring ring') : Presses n (env :: ring) (env :: ring') := by
  rcases h with hlt | heq
  · refine .inl ?_
    rw [rank_cons, rank_cons]
    exact Nat.add_lt_add_left hlt _
  · exact .inr (by rw [pressing_cons, pressing_cons, heq])

theorem Retried.presses (hr : Retried env env') (h : Presses n ring ring') :
    Presses n (env :: ring) (env' :: ring') := by
  by_cases hn : env.num < n
  · have hle := h.le
    have hlt := hr.triesLeft_lt
    refine .inl ?_
    rw [rank_cons, rank_cons, hr.num, if_pos hn, if_pos hn]
    omega
  · have hn' : ¬ env'.num < n := hr.num ▸ hn
    simpa [Presses, rank, pressing_cons, hn, hn'] using h

theorem Polled.presses (h : Polled now ring ring' gone) (hle : ∀ env ∈ ring, env.tries ≤ MAX_TRIES) :
    Presses n ring ring' := by
  induction h with
  | done => exact .inr rfl
  | @proved ring ring' gone env _ ih =>
    have hrest := ih (List.forall_mem_cons.1 hle).2
    have hpos := triesLeft_pos (List.forall_mem_cons.1 hle).1
    by_cases hn : env.num < n
    · have := hrest.le
      refine .inl ?_
      rw [rank_cons, if_pos hn]
      omega
    · simpa [Presses, rank, pressing_cons, hn] using hrest
  | early _ _ ih => exact (ih (List.forall_mem_cons.1 hle).2).cons
  | again hr _ ih => exact hr.presses (ih (List.forall_mem_cons.1 hle).2)
  | threw hr => exact hr.presses (.inr rfl)

theorem le_due (h : env ∈ pressing n ring) : env.deadline ≤ due n ring := by
  rw [due]
  generalize pressing n ring = envs at h
  induction envs with
  | nil => cases h
  | cons e envs ih =>
    rcases List.mem_cons.1 h with rfl | h
    · exact le_max_left _ _
    · exact (ih h).trans (le_max_right _ _)

/-- The first envelope of the ring is among them, and something is done about it. -/
theorem Polled.falls (h : Polled now ring ring' gone) (hsorted : (Channel.nums ring).Pairwise (· < ·))
    (hle : ∀ env ∈ ring, env.tries ≤ MAX_TRIES) (hsome : pressing n ring ≠ []) (hdue : due n ring ≤ now) :
    rank n ring' < rank n ring := by
  cases ring with
  | nil => exact absurd rfl hsome
  | cons env ring =>
    have hn : env.num < n := by
      obtain ⟨e, he⟩ := List.exists_mem_of_ne_nil _ hsome
      obtain ⟨he, hen⟩ := List.mem_filter.1 he
      rcases List.mem_cons.1 he with rfl | he
      · exact of_decide_eq_true hen
      · exact ((List.pairwise_cons.1 hsorted).1 e.num (List.mem_map_of_mem he)).trans (of_decide_eq_true hen)
    have hrest := (List.forall_mem_cons.1 hle).2
    cases h with
    | proved h =>
      have := (h.presses hrest (n := n)).le
      have := triesLeft_pos (List.forall_mem_cons.1 hle).1
      rw [rank_cons, if_pos hn]
      omega
    | early hearly h =>
      have hmem : env ∈ pressing n (env :: ring) := by simp [pressing_cons, hn]
      exact absurd ((le_due hmem).trans hdue) hearly.not_ge
    | @again _ env' _ _ _ hr h =>
      have := (h.presses hrest (n := n)).le
      have := hr.triesLeft_lt
      rw [rank_cons, rank_cons, hr.num, if_pos hn, if_pos hn]
      omega
    | @threw _ env' _ hr =>
      have := hr.triesLeft_lt
      rw [rank_cons, rank_cons, hr.num, if_pos hn, if_pos hn]
      omega

-- ---------------------------------------------------------------------------
-- Steps
-- ---------------------------------------------------------------------------

theorem send_presses (hn : n ≤ s.accepted.length) :
    Presses n s.sender.txRing (s.send m now ok).sender.txRing := by
  by_cases hok : s.isReadyToSend ∧ Fits s.sender.linkMdu m
  · rw [send_accepted hok.1 hok.2]
    exact .inr (by simp [pressing, Pair.newEnvelope, hn])
  · rw [send_refused hok]
    exact .inr rfl

theorem step_presses (h : Tracked s) (hn : n ≤ s.accepted.length) (hheld : (s.step op).sender.held) :
    Presses n s.sender.txRing (s.step op).sender.txRing := by
  by_cases hs : ∃ m now ok, op = .send m now ok
  · obtain ⟨m, now, ok, rfl⟩ := hs
    exact send_presses hn
  by_cases hp : ∃ now carried, op = .poll now carried
  · obtain ⟨now, carried, rfl⟩ := hp
    rcases poll_spec s now carried with hlost | ⟨ring', gone, hpolled, hleaves⟩
    · exact absurd (hlost.held.symm.trans hheld) Bool.false_ne_true
    · rw [Pair.step, hleaves.txRing]
      exact hpolled.presses h.tries
  by_cases hc : op = .closeSender
  · subst hc
    exact absurd hheld Bool.false_ne_true
  push Not at hs hp
  rw [(step_sides s op hs hp hc).2.2.1]
  exact .inr rfl

theorem run_presses (h : Tracked s) (hn : n ≤ s.accepted.length) (hheld : (run Pair.step s ops).sender.held) :
    Presses n s.sender.txRing (run Pair.step s ops).sender.txRing := by
  induction ops generalizing s with
  | nil => exact .inr rfl
  | cons op ops ih =>
    have hmore : n ≤ (s.step op).accepted.length := hn.trans step_onward.accepted.length_le
    have hheld₁ := (run_onward (s := s.step op) ops).held hheld
    exact (step_presses h hn hheld₁).trans (ih h.step hmore hheld)

theorem poll_falls (carried : Nat → Bool) (h : Tracked s) (hsome : pressing n s.sender.txRing ≠ [])
    (hdue : due n s.sender.txRing ≤ now) (hheld : (s.poll now carried).sender.held) :
    rank n (s.poll now carried).sender.txRing < rank n s.sender.txRing := by
  rcases poll_spec s now carried with hlost | ⟨ring', gone, hpolled, hleaves⟩
  · exact absurd (hlost.held.symm.trans hheld) Bool.false_ne_true
  · rw [hleaves.txRing]
    exact hpolled.falls h.sorted h.tries hsome hdue

end MicroReticulum.Channel
