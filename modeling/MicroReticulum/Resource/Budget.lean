import MicroReticulum.Resource.Frames
import MicroReticulum.Resource.Intake

/-!
# The retries of a receiver

A part that goes into a slot gives its resource new retries, and a timeout takes
one. Between two steps forward there are as many requests as retries, if only
what brings a resource on reaches it: `heard` runs before a slot is looked for,
and a hashmap update with nothing new in it asks again at no cost.
-/

namespace MicroReticulum.Resource

open Lib (Outcome)
open Lib.Cursor
open Lib.Runs
open MsgPack (SIZE)

namespace Incoming

-- ---------------------------------------------------------------------------
-- The specification
-- ---------------------------------------------------------------------------

/-- The requests sent. -/
def requests (d : Incoming) : Nat := d.log.countP fun
  | .sent (.request _) => true
  | _ => false

/-- A part is in that was not, or a hash is known that was not. -/
def Advances (d d' : Incoming) : Prop := d'.parts ≠ d.parts ∨ d'.mapHashes ≠ d.mapHashes

instance (d d' : Incoming) : Decidable (Advances d d') := inferInstanceAs (Decidable (_ ∨ _))

/-- A slot waits for the part. -/
def Awaits (c : Codec) (d : Incoming) (part : Bytes) : Prop :=
  part ≠ [] ∧ ∃ i < d.totalParts,
    d.mapHashes.getD i none = some (c.mapHash d.randomHash part) ∧ d.parts.getD i [] = []

/-- A hashmap update has a hash for a slot that has none. -/
def Continues (d : Incoming) (plaintext : Bytes) : Prop :=
  ∃ off segment hm, readHmu (plaintext.drop HASH_SIZE) = .ok off (some (segment, hm)) ∧
    ∃ i < (hashesIn hm).length, segment % SIZE * HASHMAP_MAX_LEN % SIZE + i < d.totalParts ∧
      d.mapHashes.getD (segment % SIZE * HASHMAP_MAX_LEN % SIZE + i) none = none

instance (c : Codec) (d : Incoming) (part : Bytes) : Decidable (d.Awaits c part) := inferInstanceAs (Decidable (_ ∧ _))

instance (d : Incoming) (plaintext : Bytes) : Decidable (d.Continues plaintext) :=
  match h : readHmu (plaintext.drop HASH_SIZE) with
  | .ok off (some (segment, hm)) =>
    decidable_of_iff (∃ i < (hashesIn hm).length, segment % SIZE * HASHMAP_MAX_LEN % SIZE + i < d.totalParts ∧
      d.mapHashes.getD (segment % SIZE * HASHMAP_MAX_LEN % SIZE + i) none = none) ⟨fun hc => ⟨off, segment, hm, h, hc⟩,
        fun ⟨_, _, _, h', hc⟩ => by
          cases h.symm.trans h'
          exact hc⟩
  | .ok _ none | .error _ _ | .escaped => .isFalse fun ⟨_, _, _, h', _⟩ => by cases h.symm.trans h'

/-- The watchdog finds the resource past its deadline. -/
def timesOut (env : Env) (d : Incoming) : Bool :=
  d.status = .transferring ∧ (d.updateEifr env).eifr > 0 ∧ env.now > (d.updateEifr env).deadline

/-- What may be asked for before the resource is cancelled. -/
structure Sound (d : Incoming) : Prop where
  parts : d.parts.length = d.totalParts
  mapHashes : d.mapHashes.length = d.totalParts
  nonneg : 0 ≤ d.retriesLeft
  le : d.retriesLeft ≤ MAX_RETRIES

variable {c : Codec} {env : Env} {d d' d'' : Incoming} {w : Wire} {part plaintext : Bytes}

-- ---------------------------------------------------------------------------
-- Calls that leave the retries alone
-- ---------------------------------------------------------------------------

/-- No transfer starts and no retry is spent. -/
structure Steady (d d' : Incoming) : Prop where
  status : d'.status = .transferring → d.status = .transferring
  retriesLeft : d'.retriesLeft = d.retriesLeft

theorem Steady.refl : Steady d d := ⟨id, rfl⟩

theorem Steady.trans (h : Steady d d') (h' : Steady d' d'') : Steady d d'' where
  status := h.status ∘ h'.status
  retriesLeft := h'.retriesLeft.trans h.retriesLeft

theorem Steady.andThen {o : Outcome Incoming} {f : Incoming → Outcome Incoming} (ho : o.Leaves (Steady d))
    (hf : ∀ d', (f d').Leaves (Steady d')) : (o.andThen f).Leaves (Steady d) :=
  Outcome.Leaves.andThen ho fun d' h => (hf d').mono fun _ h' => h.trans h'

theorem transmit_steady : (d.transmit env w).Leaves (Steady d) := by
  unfold transmit
  split
  · exact Outcome.leaves_done.2 ⟨id, rfl⟩
  · exact Outcome.leaves_threw.2 .refl

theorem conclude_steady : (d.conclude env).Leaves (Steady d) := by
  unfold conclude
  split
  · exact Outcome.leaves_done.2 .refl
  · split
    · exact Outcome.leaves_threw.2 ⟨id, rfl⟩
    · exact Outcome.leaves_done.2 ⟨id, rfl⟩

theorem notify_steady : (d.notify env).Leaves (Steady d) := by
  unfold notify
  split
  · exact Outcome.leaves_done.2 .refl
  · split
    · exact Outcome.leaves_threw.2 ⟨id, rfl⟩
    · exact Outcome.leaves_done.2 ⟨id, rfl⟩

/-- A call that asks does so once. -/
structure AsksOnce (d d' : Incoming) : Prop where
  status : d'.status = d.status
  retriesLeft : d'.retriesLeft = d.retriesLeft
  requests : d'.requests ≤ d.requests + 1

theorem requestWindow_once : (d.requestWindow env).Leaves (AsksOnce d) := by
  unfold requestWindow
  split
  · exact Outcome.leaves_done.2 ⟨rfl, rfl, Nat.le_succ _⟩
  · generalize d.wanted d.window (d.consec + 1).toNat = want
    obtain ⟨requested, exhausted⟩ := want
    dsimp only
    split
    · exact Outcome.leaves_done.2 ⟨rfl, rfl, Nat.le_succ _⟩
    · unfold transmit
      split
      · refine Outcome.leaves_done.2 ⟨rfl, rfl, ?_⟩
        simp [requests, note]
      · exact Outcome.leaves_threw.2 ⟨rfl, rfl, Nat.le_succ _⟩

theorem AsksOnce.steady (h : AsksOnce d d') : Steady d d' := ⟨h.status ▸ id, h.retriesLeft⟩

theorem requestWindow_steady : (d.requestWindow env).Leaves (Steady d) :=
  requestWindow_once.mono fun _ h => h.steady

theorem Steady.countFast (h : Steady d d') (rate : ℚ) : Steady d (d'.countFast rate) := by
  unfold Incoming.countFast
  split
  · exact ⟨h.1, h.2⟩
  · exact h

theorem Steady.countVerySlow (h : Steady d d') (rate : ℚ) : Steady d (d'.countVerySlow rate) := by
  unfold Incoming.countVerySlow
  split
  · exact ⟨h.1, h.2⟩
  · exact h

theorem adapt_steady : Steady d (d.adapt env) := by
  unfold adapt
  extract_lets e
  have he : Steady d e := by
    unfold e
    split <;> exact ⟨id, rfl⟩
  split
  · refine Steady.countVerySlow (Steady.countFast ?_ _) _
    exact ⟨he.1, he.2⟩
  · exact he

theorem requestNext_steady : (d.requestNext env).Leaves (Steady d) := by
  unfold requestNext
  split
  · exact requestWindow_steady.mono fun _ h => adapt_steady.trans h
  · exact Outcome.leaves_done.2 .refl

theorem assembleFull_steady : (d.assembleFull c env).Leaves (Steady d) := by
  unfold assembleFull
  split
  · refine Steady.andThen ?_ fun _ => conclude_steady
    unfold judge
    split
    · exact Outcome.leaves_done.2 ⟨nofun, rfl⟩
    · exact transmit_steady.mono fun _ h => ⟨fun ht => absurd (h.status ht) nofun, h.retriesLeft⟩
  · exact Outcome.leaves_done.2 .refl

/-- The slot at `idx` gets its hash. -/
def learn (d : Incoming) (idx : Nat) (mh : Bytes) : Incoming :=
  { d with mapHashes := d.mapHashes.set idx (some mh), hashmapHeight := max d.hashmapHeight (idx + 1) }

/-- What a hashmap update leaves of the rest. -/
theorem store_leaves (mhs : List Bytes) (idx : Nat) :
    Steady d (d.store mhs idx) ∧ (d.store mhs idx).toAdvertised = d.toAdvertised ∧
      (d.store mhs idx).parts = d.parts ∧ (d.store mhs idx).mapHashes.length = d.mapHashes.length := by
  induction mhs generalizing d idx with
  | nil => exact ⟨.refl, rfl, rfl, rfl⟩
  | cons mh mhs ih =>
    unfold store
    split
    · exact ⟨.refl, rfl, rfl, rfl⟩
    · split
      · exact ih (idx + 1)
      · obtain ⟨hsteady, hadv, hparts, hlen⟩ := ih (d := d.learn idx mh) (idx + 1)
        exact ⟨⟨hsteady.1, hsteady.2⟩, hadv, hparts, hlen.trans List.length_set⟩

-- ---------------------------------------------------------------------------
-- What each call spends
-- ---------------------------------------------------------------------------

theorem heard_retriesLeft (env : Env) (d : Incoming) (part : Bytes) : (d.heard env part).status = d.status ∧ (d.heard env part).retriesLeft = MAX_RETRIES := by
  unfold heard countFast
  extract_lets
  repeat' split
  all_goals exact ⟨rfl, rfl⟩

/-- A part that a slot waits for goes in. -/
theorem receivePart_awaited (env : Env) (hs : d.Sound) (ha : d.Awaits c part) :
    (d.receivePart c env part).2 = true ∧ (d.receivePart c env part).1.Leaves (Advances d) := by
  obtain ⟨hne, i, hi, hmh, hempty⟩ := ha
  have hh : Speaks (Receives d) d (d.heard env part) := heard_speaks
  obtain ⟨j, hj⟩ : ∃ j, (d.heard env part).findSlot (c.mapHash (d.heard env part).randomHash part) = some j := by
    refine Option.isSome_iff_exists.1 (List.find?_isSome.2 ⟨i, ?_, ?_⟩)
    · rw [hh.advertised]
      exact List.mem_range.2 hi
    · rw [hh.mapHashes, hh.parts, hh.advertised]
      exact decide_eq_true ⟨hmh, hempty⟩
  obtain ⟨hjlt, -, hjempty⟩ := findSlot_some hj
  rw [hh.advertised] at hjlt
  rw [hh.parts] at hjempty
  have heq : d.receivePart c env part = (((((d.heard env part).fill j part).notify env).andThen
      (·.requestNext env)).andThen (·.assembleFull c env), true) := by
    unfold receivePart
    dsimp only
    rw [hj]
  rw [heq]
  refine ⟨rfl, filled_speaks.mono fun d' hd' => .inl ?_⟩
  have hlt : j < d.parts.length := hs.parts ▸ hjlt
  have hparts : d'.parts = d.parts.set j part := by
    rw [hd'.parts, ← hh.parts]
    rfl
  rw [hparts]
  intro he
  have hget := congrArg (·.getD j []) he
  simp only [List.getD_eq_getElem?_getD, List.getElem?_set_self hlt, Option.getD_some] at hget
  rw [List.getD_eq_getElem?_getD] at hjempty
  exact hne (hget.trans hjempty)

/-- A part starts no transfer, and leaves all retries. -/
theorem receivePart_sound (c : Codec) (env : Env) (part : Bytes) (hs : d.Sound) : (d.receivePart c env part).1.Leaves fun d' =>
    d'.Sound ∧ (d'.status = .transferring → d.status = .transferring) := by
  obtain ⟨d', hd', htakes⟩ := receivePart_takes c env d part
  obtain ⟨hstatus, hretries⟩ := heard_retriesLeft env d part
  have hsteady : (d.receivePart c env part).1.Leaves (Steady (d.heard env part)) := by
    unfold receivePart
    dsimp only
    split
    · exact Outcome.leaves_done.2 .refl
    · next i hi =>
      have hfill : Steady (d.heard env part) ((d.heard env part).fill i part) := ⟨id, rfl⟩
      refine Steady.andThen (Steady.andThen ?_ fun _ => requestNext_steady) fun _ => assembleFull_steady
      exact notify_steady.mono fun _ h => hfill.trans h
  obtain ⟨d'', hd'', hst⟩ := hsteady
  cases hd'.symm.trans hd''
  have hlen : d'.parts.length = d.parts.length := by
    rcases htakes.parts with he | ⟨i, -, -, -, he⟩
    · rw [he]
    · rw [he, List.length_set]
  refine ⟨d', hd', ⟨?_, ?_, ?_, ?_⟩, fun ht => hstatus ▸ hst.status ht⟩
  · rw [hlen, htakes.advertised]
    exact hs.parts
  · rw [htakes.mapHashes, htakes.advertised]
    exact hs.mapHashes
  · rw [hst.retriesLeft, hretries]
    decide
  · rw [hst.retriesLeft, hretries]

theorem store_known (mhs : List Bytes) {idx i : Nat} (h : (d.mapHashes.getD i none).isSome) :
    ((d.store mhs idx).mapHashes.getD i none).isSome := by
  induction mhs generalizing d idx with
  | nil => exact h
  | cons mh mhs ih =>
    unfold store
    split
    · exact h
    · split
      · exact ih h
      · refine ih (d := d.learn idx mh) ?_
        have hlt : i < d.mapHashes.length := by
          by_contra hn
          simp [List.getD_eq_getElem?_getD, List.getElem?_eq_none (not_lt.1 hn)] at h
        simp only [learn, List.getD_eq_getElem?_getD, List.getElem?_set]
        split
        · simp [*]
        · simpa [List.getD_eq_getElem?_getD] using h

/-- An update with a hash for a slot that has none leaves it with one. -/
theorem store_advances {mhs : List Bytes} {idx i : Nat} (hlen : d.mapHashes.length = d.totalParts)
    (hi : i < mhs.length) (hlt : idx + i < d.totalParts) (hnone : d.mapHashes.getD (idx + i) none = none) :
    ((d.store mhs idx).mapHashes.getD (idx + i) none).isSome := by
  induction mhs generalizing d idx i with
  | nil => cases hi
  | cons mh mhs ih =>
    have hidx : ¬ idx ≥ d.totalParts := not_le.2 ((Nat.le_add_right idx i).trans_lt hlt)
    unfold store
    rw [if_neg hidx]
    cases i with
    | zero =>
      rw [Nat.add_zero] at hnone ⊢
      rw [hnone, if_neg (by simp)]
      refine store_known mhs (d := d.learn idx mh) ?_
      simp [learn, List.getD_eq_getElem?_getD, hlen, not_le.1 hidx]
    | succ i =>
      have hshift : idx + (i + 1) = idx + 1 + i := by omega
      rw [hshift] at hlt hnone ⊢
      split
      · exact ih hlen (Nat.lt_of_succ_lt_succ hi) hlt hnone
      · refine ih (d := d.learn idx mh) (List.length_set.trans hlen) (Nat.lt_of_succ_lt_succ hi) hlt ?_
        have hne : idx ≠ idx + 1 + i := by omega
        simpa [learn, List.getD_eq_getElem?_getD, List.getElem?_set_ne hne] using hnone

theorem hashmapUpdatePacket_continues (env : Env) (hs : d.Sound) (hc : d.Continues plaintext) (hstatus : d.status ≠ .failed)
    (hlen : plaintext.length > HASH_SIZE) : (d.hashmapUpdatePacket env plaintext).Leaves fun d' =>
    d'.Sound ∧ (d'.status = .transferring → d.status = .transferring) ∧ Advances d d' := by
  obtain ⟨off, segment, hm, hread, i, hi, hlt, hnone⟩ := hc
  unfold hashmapUpdatePacket
  rw [if_neg (by simp [hstatus, hlen])]
  simp only [hread]
  generalize segment % SIZE * HASHMAP_MAX_LEN % SIZE = idx at hlt hnone ⊢
  obtain ⟨hsteady, hadv, hparts, hmaps⟩ := store_leaves (d := { d with lastActivity := env.now }) (hashesIn hm) idx
  have hknown := store_advances (d := { d with lastActivity := env.now }) hs.mapHashes hi hlt hnone
  generalize Incoming.store { d with lastActivity := env.now } (hashesIn hm) idx = e at hsteady hadv hparts hmaps hknown
  have hasked : (requestWindow { e with waitingHmu := false } env).Leaves (Speaks (Asks { e with waitingHmu := false })
      { e with waitingHmu := false }) := requestWindow_speaks
  obtain ⟨d', hd', hspeaks⟩ := hasked
  have honce : (requestWindow { e with waitingHmu := false } env).Leaves (Steady { e with waitingHmu := false }) :=
    requestWindow_steady
  obtain ⟨d'', hd'', honce⟩ := honce
  cases hd'.symm.trans hd''
  refine ⟨d', hd', ⟨?_, ?_, ?_, ?_⟩, fun ht => hsteady.status (honce.status ht), .inr ?_⟩
  · rw [hspeaks.parts, hspeaks.advertised]
    exact (congrArg List.length hparts).trans (hs.parts.trans (congrArg Advertised.totalParts hadv).symm)
  · rw [hspeaks.mapHashes, hspeaks.advertised]
    exact hmaps.trans (hs.mapHashes.trans (congrArg Advertised.totalParts hadv).symm)
  · rw [honce.retriesLeft]
    exact hsteady.retriesLeft ▸ hs.nonneg
  · rw [honce.retriesLeft]
    exact hsteady.retriesLeft ▸ hs.le
  · intro he
    rw [← hspeaks.mapHashes.symm.trans he] at hnone
    rw [hnone] at hknown
    cases hknown

theorem narrow_leaves : d.narrow.status = d.status ∧ d.narrow.retriesLeft = d.retriesLeft ∧
    d.narrow.requests = d.requests := by
  unfold narrow
  split
  · extract_lets
    split <;> exact ⟨rfl, rfl, rfl⟩
  · exact ⟨rfl, rfl, rfl⟩

theorem conclude_once : (d.conclude env).Leaves fun d' =>
    d'.status = d.status ∧ d'.retriesLeft = d.retriesLeft ∧ d'.requests = d.requests := by
  unfold conclude
  split
  · exact Outcome.leaves_done.2 ⟨rfl, rfl, rfl⟩
  · have hquiet : (d.note .concluded).requests = d.requests := by simp [requests, note]
    split
    · exact Outcome.leaves_threw.2 ⟨rfl, rfl, hquiet⟩
    · exact Outcome.leaves_done.2 ⟨rfl, rfl, hquiet⟩

/-- What a visit of the watchdog takes: nothing, a retry or the transfer. -/
inductive Visited (env : Env) (d d' : Incoming) : Prop
  | waits (timely : d.timesOut env = false) (status : d'.status = d.status)
      (retriesLeft : d'.retriesLeft = d.retriesLeft) (requests : d'.requests = d.requests)
  | retries (late : d.timesOut env = true) (left : 0 < d.retriesLeft) (status : d'.status = .transferring)
      (retriesLeft : d'.retriesLeft = d.retriesLeft - 1) (requests : d'.requests ≤ d.requests + 1)
  | cancels (late : d.timesOut env = true) (left : d.retriesLeft ≤ 0) (status : d'.status = .failed)
      (retriesLeft : d'.retriesLeft = d.retriesLeft) (requests : d'.requests = d.requests)

theorem watchdog_visited (env : Env) (d : Incoming) : (d.watchdog env).Leaves (Visited env d) := by
  unfold watchdog
  split
  · next hst =>
    refine Outcome.leaves_done.2 (.waits ?_ rfl rfl rfl)
    exact decide_eq_false fun h => hst h.1
  · next hst =>
    rw [not_not] at hst
    dsimp only
    split
    · next htimely =>
      refine Outcome.leaves_done.2 (.waits (decide_eq_false fun h => ?_) rfl rfl rfl)
      rcases htimely with hrate | hnow
      · exact not_le.2 h.2.1 hrate
      · exact not_le.2 h.2.2 hnow
    · next hlate =>
      rw [not_or, not_le, not_le] at hlate
      have hout : d.timesOut env = true := decide_eq_true ⟨hst, hlate⟩
      split
      · next hleft =>
        obtain ⟨hs, hr, hq⟩ := narrow_leaves (d := d.updateEifr env)
        refine requestWindow_once.mono fun d' h => .retries hout hleft ?_ ?_ ?_
        · exact h.status.trans (hs.trans hst)
        · exact h.retriesLeft
        · exact h.requests.trans_eq (congrArg (· + 1) hq)
      · next hleft =>
        have hcancel : (d.updateEifr env).cancel env = ({ d.updateEifr env with status := .failed }).conclude env := by
          unfold cancel
          rw [if_pos (by simp [updateEifr, hst])]
        rw [hcancel]
        refine conclude_once.mono fun d' h => .cancels hout (not_lt.1 hleft) h.1 h.2.1 h.2.2

theorem Visited.transferring (h : Visited env d d') (ht : d'.status = .transferring) : d.status = .transferring := by
  cases h with
  | waits _ hs => exact hs ▸ ht
  | retries hlate => exact (of_decide_eq_true hlate).1
  | cancels hlate => exact (of_decide_eq_true hlate).1

theorem Visited.sound {P : Event → Prop} (h : Visited env d d') (hspeaks : Speaks P d d') (hs : d.Sound) :
    d'.Sound := by
  refine ⟨?_, ?_, ?_, ?_⟩
  · rw [hspeaks.parts, hspeaks.advertised, hs.parts]
  · rw [hspeaks.mapHashes, hspeaks.advertised, hs.mapHashes]
  all_goals
    have hnonneg := hs.nonneg
    have hle := hs.le
    cases h with
    | waits _ _ hr => omega
    | retries _ hleft _ hr => omega
    | cancels _ _ _ hr => omega

end Incoming

namespace Intake

-- ---------------------------------------------------------------------------
-- The condition
-- ---------------------------------------------------------------------------

/-- A part is one that the first resource of the set waits for; a hashmap update, where it
is read at all, has a hash that is not known. -/
def Ok (c : Codec) (s : Intake) : Op → Prop
  | .part _ _ data => ∀ k ∈ s.incoming.head?, ∀ d ∈ s.objects[k]?, d.Awaits c data
  | .hashmapUpdate _ plaintext => ∀ k ∈ s.addressed plaintext, ∀ d ∈ s.objects[k]?,
    d.status = .failed ∨ plaintext.length ≤ HASH_SIZE ∨ d.Continues plaintext
  | _ => True

instance (c : Codec) (s : Intake) : ∀ op, Decidable (Ok c s op)
  | .accept .. | .watchdog .. => .isTrue trivial
  | .part .. => inferInstanceAs (Decidable (∀ k ∈ s.incoming.head?, ∀ d ∈ s.objects[k]?, Incoming.Awaits _ d _))
  | .hashmapUpdate .. => inferInstanceAs (Decidable (∀ k ∈ s.addressed _, ∀ d ∈ s.objects[k]?, _ ∨ _ ∨ _))

/-- A packet leaves a resource that it does not bring on as it was. -/
def Frame (c : Codec) (s : Intake) (op : Op) : Prop :=
  match op with
  | .part .. | .hashmapUpdate .. => ∀ (k : Nat) (d d' : Incoming), s.objects[k]? = some d → (step c s op).objects[k]? = some d' →
    ¬ d.Advances d' → d' = d
  | _ => True

/-- The step does not bring the resource on. -/
def Idle (c : Codec) (k : Nat) (s : Intake) (op : Op) : Prop :=
  ∀ d d' : Incoming, s.objects[k]? = some d → (step c s op).objects[k]? = some d' → ¬ d.Advances d'

/-- The watchdog comes to the resource and finds it past its deadline. -/
def timedOut (k : Nat) (s : Intake) : Op → Bool
  | .watchdog env j => j == k && s.objects[k]?.any (·.timesOut env)
  | _ => false

/-- How often it does so in a run. -/
def timeouts (c : Codec) (k : Nat) : Intake → List Op → Nat
  | _, [] => 0
  | s, op :: ops => (if timedOut k s op then 1 else 0) + timeouts c k (step c s op) ops

/-- Packets leave other resources alone, and between two steps forward a resource asks
again as often as it has retries, and is then cancelled. -/
structure Budgeted (c : Codec) (ops : List Op) : Prop where
  frame : Guarded (step c) (Frame c) {} ops
  requests : ∀ (pre mid : List Op) (k : Nat) (d : Incoming), pre ++ mid <+: ops → (run (step c) {} pre).objects[k]? = some d →
    Guarded (step c) (Idle c k) (run (step c) {} pre) mid →
    ∃ d', (run (step c) {} (pre ++ mid)).objects[k]? = some d' ∧
      (d'.requests : Int) ≤ d.requests + MAX_RETRIES ∧
      (MAX_RETRIES < timeouts c k (run (step c) {} pre) mid → d'.status = .failed)

-- ---------------------------------------------------------------------------
-- One step
-- ---------------------------------------------------------------------------

variable {c : Codec} {s s' : Intake} {op : Op} {ops : List Op} {k j : Nat} {d d' : Incoming}

structure Inv (s : Intake) : Prop where
  up : s.down = false
  sound : ∀ (k : Nat) (d : Incoming), s.objects[k]? = some d → d.Sound
  /-- The watchdog comes to every transfer. -/
  registered : ∀ (k : Nat) (d : Incoming), s.objects[k]? = some d → d.status = .transferring → k ∈ s.incoming

/-- A call on one object is over; a concluded object may leave the set. -/
structure Puts (k : Nat) (d : Incoming) (s s' : Intake) : Prop where
  objects : s'.objects = s.objects.set k d
  incoming : s'.incoming = s.incoming ∨ s'.incoming = s.incoming.erase k ∧ d.status.concluded = true
  down : s'.down = s.down

theorem set_puts : Puts k d s (s.set k d) := ⟨rfl, .inl rfl, rfl⟩

theorem erase_puts (h : d.status.concluded = true) : Puts k d s ((s.set k d).erase k) := ⟨rfl, .inr ⟨rfl, h⟩, rfl⟩

theorem Puts.self (h : Puts k d' s s') (hd : s.objects[k]? = some d) : s'.objects[k]? = some d' := by
  have hlt : k < s.objects.length := (List.getElem?_eq_some_iff.1 hd).1
  rw [h.objects, List.getElem?_set_self hlt]

theorem Puts.other (h : Puts k d s s') (hne : k ≠ j) : s'.objects[j]? = s.objects[j]? := by
  rw [h.objects, List.getElem?_set_ne hne]

theorem Puts.inv (h : Puts k d' s s') (hinv : Inv s) (hd : s.objects[k]? = some d) (hs : d'.Sound)
    (ht : d'.status = .transferring → d.status = .transferring) : Inv s' := by
  refine ⟨h.down.trans hinv.up, fun j e he => ?_, fun j e he het => ?_⟩
  · by_cases hkj : k = j
    · subst hkj
      cases (h.self hd).symm.trans he
      exact hs
    · exact hinv.sound j e ((h.other hkj).symm.trans he)
  · by_cases hkj : k = j
    · subst hkj
      cases (h.self hd).symm.trans he
      rcases h.incoming with hin | ⟨-, hc⟩
      · exact hin ▸ hinv.registered k d hd (ht het)
      · rw [het] at hc
        cases hc
    · have hmem := hinv.registered j e ((h.other hkj).symm.trans he) het
      rcases h.incoming with hin | ⟨hin, -⟩
      · exact hin ▸ hmem
      · rw [hin]
        exact (List.mem_erase_of_ne (Ne.symm hkj)).2 hmem

/-- What a step may do to a resource. -/
inductive Moves (s : Intake) (k : Nat) (op : Op) (d d' : Incoming) : Prop
  | still (timely : timedOut k s op = false) (same : d' = d)
  | advances (timely : timedOut k s op = false) (on : d.Advances d')
  | visited (env : Env) (at_k : op = .watchdog env k) (visit : d.Visited env d')

theorem offer_first (env : Nat → Env) (handlerThrows : Bool) {data : Bytes} (ks : List Nat) (hd : s.objects[k]? = some d)
    (hs : d.Sound) (ha : d.Awaits c data) : ∃ d', Puts k d' s (offer c env handlerThrows data (k :: ks) s) ∧
      d'.Sound ∧ (d'.status = .transferring → d.status = .transferring) ∧ d.Advances d' := by
  obtain ⟨haccepted, d', hd', hadv⟩ := Incoming.receivePart_awaited (env k) hs ha
  obtain ⟨d'', hd'', hsound, htransfer⟩ := Incoming.receivePart_sound c (env k) data hs
  cases hd'.symm.trans hd''
  refine ⟨d', ?_, hsound, htransfer, hadv⟩
  unfold offer
  rw [hd]
  dsimp only
  generalize d.receivePart c (env k) data = o at hd' haccepted
  obtain ⟨o, accepted⟩ := o
  subst haccepted
  cases o with
  | done e =>
    cases hd'
    dsimp only
    unfold settle
    split
    · next h => exact erase_puts h.1
    · exact set_puts
  | threw e =>
    cases hd'
    exact set_puts
  | aborted => cases hd'

theorem unmoved (h : timedOut k s op = false) (hs : s'.objects[k]? = s.objects[k]?) (hd : s.objects[k]? = some d) :
    ∃ d', s'.objects[k]? = some d' ∧ Moves s k op d d' := ⟨d, hs.trans hd, .still h rfl⟩

/-- One resource moves and the others do not. -/
theorem Puts.moves (h : Puts k d' s s') (hd : s.objects[k]? = some d) (hm : Moves s k op d d')
    (hother : ∀ j, k ≠ j → timedOut j s op = false) :
    ∀ j e, s.objects[j]? = some e → ∃ e', s'.objects[j]? = some e' ∧ Moves s j op e e' := by
  intro j e he
  by_cases hkj : k = j
  · subst hkj
    cases hd.symm.trans he
    exact ⟨d', h.self hd, hm⟩
  · exact unmoved (hother j hkj) (h.other hkj) he

theorem ofAdvertisement_sound (env : Env) (adv : MsgPack.ResourceAdvertisement) (requestId : Bytes)
    (concludedCallback progressCallback : Bool) :
    (Incoming.ofAdvertisement env adv requestId concludedCallback progressCallback).Sound where
  parts := List.length_replicate
  mapHashes := by
    simp only [Incoming.ofAdvertisement, List.length_append, List.length_map, List.length_take, List.length_replicate]
    omega
  nonneg := show (0 : Int) ≤ MAX_RETRIES by decide
  le := le_refl _

theorem accept_sound {env : Env} {adv : MsgPack.ResourceAdvertisement} {requestId : Bytes}
    {concludedCallback progressCallback : Bool}
    (h : (Incoming.accept env adv requestId concludedCallback progressCallback).bind Outcome.state? = some d) :
    d.Sound := by
  unfold Incoming.accept at h
  split at h
  · cases h
  · have hs := ofAdvertisement_sound env adv requestId concludedCallback progressCallback
    generalize Incoming.ofAdvertisement env adv requestId concludedCallback progressCallback = e at hs h
    have hspeaks : (e.requestWindow env).Leaves (Incoming.Speaks (Incoming.Asks e) e) := Incoming.requestWindow_speaks
    have honce : (e.requestWindow env).Leaves (Incoming.AsksOnce e) := Incoming.requestWindow_once
    obtain ⟨d', hd', hspeaks⟩ := hspeaks
    obtain ⟨d'', hd'', honce⟩ := honce
    cases hd'.symm.trans h
    cases hd''.symm.trans h
    refine ⟨?_, ?_, ?_, ?_⟩
    · rw [hspeaks.parts, hspeaks.advertised, hs.parts]
    · rw [hspeaks.mapHashes, hspeaks.advertised, hs.mapHashes]
    · rw [honce.retriesLeft]
      exact hs.nonneg
    · rw [honce.retriesLeft]
      exact hs.le

/-- What one step does to the set and to each resource. -/
structure Stepped (s : Intake) (op : Op) (s' : Intake) : Prop where
  inv : Inv s'
  moves : ∀ (k : Nat) (d : Incoming), s.objects[k]? = some d → ∃ d', s'.objects[k]? = some d' ∧ Moves s k op d d'

theorem Stepped.same (hinv : Inv s) (h : ∀ k (d : Incoming), s.objects[k]? = some d → timedOut k s op = false) :
    Stepped s op s := ⟨hinv, fun k d hd => unmoved (h k d hd) rfl hd⟩

/-- What is in a list with one more at the end. -/
theorem append_new {l : List Incoming} (h : (l ++ [d])[k]? = some d') : l[k]? = some d' ∨ k = l.length ∧ d' = d := by
  rcases lt_trichotomy k l.length with hlt | heq | hgt
  · exact .inl ((List.getElem?_append_left hlt).symm.trans h)
  · subst heq
    rw [List.getElem?_concat_length] at h
    exact .inr ⟨rfl, (Option.some.inj h).symm⟩
  · rw [List.getElem?_eq_none (by simpa using hgt)] at h
    cases h

theorem accept_stepped (hinv : Inv s) {env : Env} {adv : MsgPack.ResourceAdvertisement} {requestId : Bytes}
    {concludedCallback progressCallback : Bool} {place : Nat} :
    Stepped s (.accept env adv requestId concludedCallback progressCallback place)
      (s.accept env adv requestId concludedCallback progressCallback place) := by
  unfold accept
  split
  · next d hd =>
    have hold : ∀ (k : Nat) (e : Incoming), s.objects[k]? = some e → (s.objects ++ [d])[k]? = s.objects[k]? :=
      fun k e he => List.getElem?_append_left (List.getElem?_eq_some_iff.1 he).1
    refine ⟨⟨hinv.up, fun k e he => ?_, fun k e he ht => ?_⟩, fun k e he => unmoved rfl (hold k e he) he⟩
    · rcases append_new he with he | ⟨-, rfl⟩
      · exact hinv.sound k e he
      · exact accept_sound hd
    · rcases append_new he with he | ⟨rfl, -⟩
      · have hmem := hinv.registered k e he ht
        rw [← List.take_append_drop place s.incoming] at hmem
        rcases List.mem_append.1 hmem with hmem | hmem
        · exact List.mem_append_left _ hmem
        · exact List.mem_append_right _ (List.mem_cons_of_mem _ hmem)
      · exact List.mem_append_right _ List.mem_cons_self
  · exact .same hinv fun _ _ _ => rfl

theorem part_stepped (hinv : Inv s) {env : Nat → Env} {handlerThrows : Bool} {data : Bytes}
    (hok : Ok c s (.part env handlerThrows data)) :
    Stepped s (.part env handlerThrows data) (offer c env handlerThrows data s.incoming s) := by
  cases hin : s.incoming with
  | nil => exact .same hinv fun _ _ _ => rfl
  | cons k ks =>
    cases hd : s.objects[k]? with
    | none =>
      unfold offer
      rw [hd]
      exact .same hinv fun _ _ _ => rfl
    | some d =>
      obtain ⟨d', hputs, hs, ht, hadv⟩ := offer_first env handlerThrows ks hd
        (hinv.sound k d hd) (hok k (by rw [hin]; rfl) d hd)
      exact ⟨hputs.inv hinv hd hs ht, hputs.moves hd (.advances rfl hadv) fun _ _ => rfl⟩

theorem hashmapUpdate_stepped (hinv : Inv s) {env : Env} {plaintext : Bytes}
    (hok : Ok c s (.hashmapUpdate env plaintext)) :
    Stepped s (.hashmapUpdate env plaintext) (s.hashmapUpdate env plaintext) := by
  unfold hashmapUpdate
  split
  · exact .same hinv fun _ _ _ => rfl
  · next k hk =>
    split
    · exact .same hinv fun _ _ _ => rfl
    · next d hd =>
      by_cases hread : d.status = .failed ∨ plaintext.length ≤ HASH_SIZE
      · have hsame : d.hashmapUpdatePacket env plaintext = .done d := by
          unfold Incoming.hashmapUpdatePacket
          rw [if_pos hread]
        rw [hsame]
        have hputs : Puts k d s (s.set k d) := set_puts
        exact ⟨hputs.inv hinv hd (hinv.sound k d hd) id, hputs.moves hd (.still rfl rfl) fun _ _ => rfl⟩
      · have hc : d.Continues plaintext :=
          (or_assoc.2 (hok k hk d hd)).resolve_left hread
        rw [not_or, not_le] at hread
        obtain ⟨d', hd', hs, ht, hadv⟩ :=
          Incoming.hashmapUpdatePacket_continues env (hinv.sound k d hd) hc hread.1 hread.2
        rw [hd']
        have hputs : Puts k d' s (s.set k d') := set_puts
        exact ⟨hputs.inv hinv hd hs ht, hputs.moves hd (.advances rfl hadv) fun _ _ => rfl⟩

theorem watchdog_stepped (hinv : Inv s) {env : Env} {k : Nat} :
    Stepped s (.watchdog env k) (s.watchdog env k) := by
  have hother : ∀ j, k ≠ j → timedOut j s (.watchdog env k) = false := fun j hj => by simp [timedOut, hj]
  unfold watchdog
  split
  · split
    · next hd =>
      refine .same hinv fun j e he => hother j fun hkj => ?_
      rw [hkj, he] at hd
      cases hd
    · next d hd =>
      have hspeaks : (d.watchdog env).Leaves (Incoming.Speaks (Incoming.Receives d) d) := Incoming.watchdog_speaks
      obtain ⟨d', hd', hvisit⟩ := Incoming.watchdog_visited env d
      obtain ⟨d'', hd'', hspeaks⟩ := hspeaks
      cases hd'.symm.trans hd''
      have hs := hvisit.sound hspeaks (hinv.sound k d hd)
      have hputs : ∀ s', Puts k d' s s' → Stepped s (.watchdog env k) s' := fun s' h =>
        ⟨h.inv hinv hd hs hvisit.transferring, h.moves hd (.visited env rfl hvisit) hother⟩
      generalize d.watchdog env = o at hd'
      cases o with
      | done e =>
        cases hd'
        dsimp only
        split
        · next hc => exact hputs _ (erase_puts hc)
        · exact hputs _ set_puts
      | threw e =>
        cases hd'
        exact hputs _ set_puts
      | aborted => cases hd'
  · next hk =>
    refine .same hinv fun j e he => ?_
    by_cases hkj : k = j
    · subst hkj
      have hnot : e.status ≠ .transferring := fun ht => hk (hinv.registered k e he ht)
      simp [timedOut, he, Incoming.timesOut, hnot]
    · exact hother j hkj

theorem step_stepped (hinv : Inv s) (hok : Ok c s op) : Stepped s op (step c s op) := by
  unfold step
  rw [hinv.up, if_neg (by decide)]
  cases op with
  | accept => exact accept_stepped hinv
  | part => exact part_stepped hinv hok
  | hashmapUpdate => exact hashmapUpdate_stepped hinv hok
  | watchdog => exact watchdog_stepped hinv

theorem start_inv : Inv {} where
  up := rfl
  sound _ _ h := by simp at h
  registered _ _ h := by simp at h

/-- A packet finds its resource waiting for it, and no other. -/
theorem step_frame (hinv : Inv s) (hok : Ok c s op) : Frame c s op := by
  have hstep := step_stepped hinv hok
  have hframe : (∀ env k, op ≠ .watchdog env k) → ∀ (k : Nat) (d d' : Incoming), s.objects[k]? = some d →
      (step c s op).objects[k]? = some d' → ¬ d.Advances d' → d' = d := by
    intro hop k d d' hd hd' hn
    obtain ⟨e, he, hmoves⟩ := hstep.moves k d hd
    cases hd'.symm.trans he
    cases hmoves with
    | still _ hsame => exact hsame
    | advances _ hadv => exact absurd hadv hn
    | visited env hat => exact absurd hat (hop env k)
  cases op with
  | accept => trivial
  | part => exact hframe nofun
  | hashmapUpdate => exact hframe nofun
  | watchdog => trivial

-- ---------------------------------------------------------------------------
-- Between two steps forward
-- ---------------------------------------------------------------------------

/-- The timeouts before there is nothing left. -/
def timeoutsLeft (d : Incoming) : Int := if d.status = .transferring then d.retriesLeft + 1 else 0

structure Spends (n : Nat) (d d' : Incoming) : Prop where
  requests : d'.requests + d'.retriesLeft ≤ d.requests + d.retriesLeft
  left : n + timeoutsLeft d' ≤ timeoutsLeft d
  status : d.status = .transferring ∨ d.status = .failed → d'.status = .transferring ∨ d'.status = .failed

theorem Spends.refl : Spends 0 d d := ⟨le_refl _, by simp, id⟩

theorem Spends.trans {d'' : Incoming} {m n : Nat} (h : Spends m d d') (h' : Spends n d' d'') :
    Spends (m + n) d d'' where
  requests := h'.requests.trans h.requests
  left := by
    have h₁ := h.left
    have h₂ := h'.left
    rw [Nat.cast_add]
    omega
  status := h'.status ∘ h.status

theorem spends_of_visited {env : Env} (h : d.Visited env d') (hs : d.Sound) :
    Spends (if d.timesOut env then 1 else 0) d d' := by
  cases h with
  | waits htimely hst hr hq =>
    rw [htimely]
    refine ⟨by rw [hq, hr], ?_, fun h => hst ▸ h⟩
    simp [timeoutsLeft, hst, hr]
  | retries hlate hleft hst hr hq =>
    have hd : d.status = .transferring := (of_decide_eq_true hlate).1
    rw [hlate]
    refine ⟨by omega, ?_, fun _ => .inl hst⟩
    simp only [timeoutsLeft, hst, hd, hr, if_true, Nat.cast_one]
    omega
  | cancels hlate hleft hst hr hq =>
    have hd : d.status = .transferring := (of_decide_eq_true hlate).1
    have hnonneg := hs.nonneg
    rw [hlate]
    refine ⟨by rw [hq, hr], ?_, fun _ => .inr hst⟩
    simp only [timeoutsLeft, hst, hd, if_true, Nat.cast_one]
    rw [if_neg (by decide)]
    omega

/-- A step that does not bring a resource on. -/
theorem idle_step (hinv : Inv s) (hok : Ok c s op) (hidle : Idle c k s op) (hd : s.objects[k]? = some d) :
    ∃ d', (step c s op).objects[k]? = some d' ∧ Spends (if timedOut k s op then 1 else 0) d d' := by
  obtain ⟨d', hd', hmoves⟩ := (step_stepped hinv hok).moves k d hd
  refine ⟨d', hd', ?_⟩
  cases hmoves with
  | still htimely hsame =>
    rw [htimely, hsame]
    exact .refl
  | advances _ hadv => exact absurd hadv (hidle d d' hd hd')
  | visited env hat hvisit =>
    have hout : timedOut k s op = d.timesOut env := by simp [hat, timedOut, hd]
    rw [hout]
    exact spends_of_visited hvisit (hinv.sound k d hd)

theorem idle_run (hinv : Inv s) (hok : Guarded (step c) (Ok c) s ops) (hidle : Guarded (step c) (Idle c k) s ops)
    (hd : s.objects[k]? = some d) :
    ∃ d', (run (step c) s ops).objects[k]? = some d' ∧ Spends (timeouts c k s ops) d d' := by
  induction ops generalizing s d with
  | nil => exact ⟨d, hd, .refl⟩
  | cons op ops ih =>
    obtain ⟨d', hd', hspends⟩ := idle_step hinv hok.1 hidle.1 hd
    obtain ⟨d'', hd'', hspends'⟩ := ih (step_stepped hinv hok.1).inv hok.2 hidle.2 hd'
    exact ⟨d'', hd'', hspends.trans hspends'⟩

/-- As many requests as retries, and then no transfer. -/
theorem Spends.bounds {n : Nat} (h : Spends n d d') (hs : d.Sound) (hs' : d'.Sound) :
    (d'.requests : Int) ≤ d.requests + MAX_RETRIES ∧ (MAX_RETRIES < n → d'.status = .failed) := by
  have hle := hs.le
  have hnonneg := hs'.nonneg
  refine ⟨?_, fun hn => ?_⟩
  · have hreq := h.requests
    omega
  · have hleft := h.left
    have hd : d.status = .transferring := by
      by_contra hne
      have hzero : timeoutsLeft d = 0 := if_neg hne
      have hpos : 0 ≤ timeoutsLeft d' := by
        unfold timeoutsLeft
        split <;> omega
      have hmax : (0 : Int) ≤ MAX_RETRIES := by decide
      omega
    refine (h.status (.inl hd)).resolve_left fun hd' => ?_
    simp only [timeoutsLeft, hd, hd', if_true] at hleft
    omega

theorem budget_kept (c : Codec) (ops : List Op) (hok : Guarded (step c) (Ok c) {} ops) : Budgeted c ops where
  frame := hok.mono_inv (fun _ _ hinv hok => (step_stepped hinv hok).inv) (fun _ _ => step_frame) start_inv
  requests := by
    intro pre mid k d hp hd hidle
    have hinit := hok.initial hp
    obtain ⟨hpre, hmid⟩ := guarded_append.1 hinit
    have hstep : ∀ s op, Inv s → Ok c s op → Inv (step c s op) := fun s op hinv hok => (step_stepped hinv hok).inv
    have hinv := hpre.invariant hstep start_inv
    obtain ⟨d', hd', hspends⟩ := idle_run hinv hmid hidle hd
    rw [run_append]
    refine ⟨d', hd', hspends.bounds (hinv.sound k d hd) ?_⟩
    exact (hmid.invariant hstep hinv).sound k d' hd'

/-- A hash that is the first byte. -/
def byFirst : Codec where
  fullHash b := b.headD 0 :: List.replicate 31 0
  length_fullHash _ := rfl
  decompress _ _ := none

/-- A resource of two parts with the hashes 1 and 2. -/
def twoParts : MsgPack.ResourceAdvertisement :=
  { n := 2, t := 2, d := 2, h := List.replicate 32 0, r := List.replicate 4 0, m := [1, 0, 0, 0, 2, 0, 0, 0] }

def clear (t : ℚ) : Env := { now := t, rtt := 1, decrypt := id }

theorem budget_kept_filled : Budgeted byFirst
    [.accept (clear 0) twoParts [] false false 0, .part (fun _ => clear 1) false [2], .watchdog (clear 2) 0] :=
  budget_kept byFirst _ (by decide +kernel)

/-- A part of another resource is offered to this one. -/
theorem budget_foreign : ¬ Budgeted byFirst
    [.accept (clear 0) twoParts [] false false 0, .part (fun _ => clear 1) false [3]] := by
  let accepted := step byFirst {} (.accept (clear 0) twoParts [] false false 0)
  let offered := step byFirst accepted (.part (fun _ => clear 1) false [3])
  have hbefore : (accepted.objects[0]?.map fun d => (d.parts, d.mapHashes, d.lastActivity)) =
      some ([[], []], [some [1, 0, 0, 0], some [2, 0, 0, 0]], 0) := by decide +kernel
  have hafter : (offered.objects[0]?.map fun d => (d.parts, d.mapHashes, d.lastActivity)) =
      some ([[], []], [some [1, 0, 0, 0], some [2, 0, 0, 0]], 1) := by decide +kernel
  obtain ⟨d, hd, he⟩ := Option.map_eq_some_iff.1 hbefore
  obtain ⟨d', hd', he'⟩ := Option.map_eq_some_iff.1 hafter
  simp only [Prod.mk.injEq] at he he'
  intro h
  have hsame : d' = d := h.frame.2.1 0 d d' hd hd' (by simp [Incoming.Advances, he, he'])
  rw [hsame, he.2.2] at he'
  exact absurd he'.2.2 (by norm_num)

end Intake

end MicroReticulum.Resource
