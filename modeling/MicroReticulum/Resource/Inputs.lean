import MicroReticulum.Lib.Runs
import MicroReticulum.Resource.Frames

/-!
# What reaches a receiving resource

One object from its advertisement on: parts, hashmap updates, passes of the
watchdog and a cancel, in any order and at any time. A call that throws leaves
the object as it stood at the throw.
-/

namespace MicroReticulum.Resource.Incoming

open Lib (Outcome)
open MsgPack (ResourceAdvertisement)

inductive Input where
  | part (env : Env) (data : Bytes)
  | hashmapUpdate (env : Env) (plaintext : Bytes)
  | watchdog (env : Env)
  | cancel (env : Env)

variable (c : Codec) (d : Incoming)

def call : Input → Outcome Incoming
  | .part env data => (d.receivePart c env data).1
  | .hashmapUpdate env plaintext => d.hashmapUpdatePacket env plaintext
  | .watchdog env => d.watchdog env
  | .cancel env => d.cancel env

def take (i : Input) : Incoming := ((d.call c i).state?).getD d

/-- The object as `accept` leaves it. -/
def accepted (env : Env) (adv : ResourceAdvertisement) (requestId : Bytes)
    (concludedCallback progressCallback : Bool) : Incoming :=
  let d := ofAdvertisement env adv requestId concludedCallback progressCallback
  ((d.requestWindow env).state?).getD d

variable {c d} {d' : Incoming} {i : Input} {env : Env} {part : Bytes} {w : Wire} {P : Incoming → Prop} {α : Type*}
  {view : Incoming → α}

/-- What a call leaves of the object is there after it. -/
theorem take_of_leaves (h : (d.call c i).Leaves P) : P (d.take c i) := by
  obtain ⟨d', hd', hp⟩ := h
  unfold take
  rwa [hd']

theorem take_of_all (h : (d.call c i).All P) (hd : P d) : P (d.take c i) := by
  unfold take
  cases hs : (d.call c i).state? with
  | none => exact hd
  | some d' => exact h d' hs

theorem accepted_of_leaves {adv : ResourceAdvertisement} {requestId : Bytes} {concludedCallback progressCallback : Bool}
    (h : ((ofAdvertisement env adv requestId concludedCallback progressCallback).requestWindow env).Leaves P) :
    P (accepted env adv requestId concludedCallback progressCallback) := by
  obtain ⟨d', hd', hp⟩ := h
  unfold accepted
  dsimp only
  rwa [hd']

-- ---------------------------------------------------------------------------
-- Views of an object
-- ---------------------------------------------------------------------------

/-- A view of the object that what it says leaves as it is, short of an assembly. -/
def Deaf (view : Incoming → α) : Prop := ∀ d e, e ≠ .assembled → view (d.note e) = view d

theorem transmit_view (hv : Deaf view) : (d.transmit env w).Leaves (view · = view d) := by
  unfold transmit
  split
  · exact Outcome.leaves_done.2 (hv d _ nofun)
  · exact Outcome.leaves_threw.2 rfl

theorem conclude_view (hv : Deaf view) : (d.conclude env).Leaves (view · = view d) := by
  unfold conclude
  split
  · exact Outcome.leaves_done.2 rfl
  · split
    · exact Outcome.leaves_threw.2 (hv d _ nofun)
    · exact Outcome.leaves_done.2 (hv d _ nofun)

theorem notify_threw (h : d.progressCallback ∧ env.progressThrows) :
    d.notify env = .threw (d.note .progress) := by
  unfold notify
  rw [if_neg (by simp [h.1]), if_pos h.2]

theorem notify_done (h : ¬ (d.progressCallback ∧ env.progressThrows)) :
    d.notify env = .done d ∨ d.notify env = .done (d.note .progress) := by
  unfold notify
  split
  · exact .inl rfl
  · next hcb =>
    rw [if_neg fun ht => h ⟨by simpa using hcb, ht⟩]
    exact .inr rfl

/-- A view that also leaves the status and the payload aside. -/
structure Aloof (view : Incoming → α) : Prop where
  deaf : Deaf view
  judged : ∀ d status data, view { d with status, data } = view d

theorem judge_view (hv : Aloof view) : (d.judge c env).Leaves (view · = view d) := by
  unfold judge
  split
  · exact Outcome.leaves_done.2 (hv.judged d _ _)
  · next data _ =>
    exact (transmit_view hv.deaf).mono fun _ h => h.trans (hv.judged d _ _)

/-- Past its parts the object is seen to assemble, if they are all in. -/
theorem assembleFull_view (hv : Aloof view) : (d.assembleFull c env).Leaves
    (view · = if d.totalParts > 0 ∧ d.received ≥ d.totalParts then view (d.note .assembled) else view d) := by
  unfold assembleFull
  split
  · refine Outcome.Leaves.andThen (judge_view hv) fun d' h => ?_
    exact (conclude_view hv.deaf).mono fun _ h' => h'.trans h
  · exact Outcome.leaves_done.2 rfl

theorem cancel_view (hv : Aloof view) : (d.cancel env).Leaves (view · = view d) := by
  unfold cancel
  split
  · exact (conclude_view hv.deaf).mono fun _ h => h.trans (hv.judged d _ d.data)
  · exact conclude_view hv.deaf

-- ---------------------------------------------------------------------------
-- The fields a call may set
-- ---------------------------------------------------------------------------

/-- All that the arrival of a part sets. -/
theorem heard_fields (env : Env) (d : Incoming) (part : Bytes) :
    ∃ reqResp partTimeoutFactor rtt rate rounds windowMax, d.heard env part = { d with
      lastActivity := env.now, retriesLeft := MAX_RETRIES, reqResp, partTimeoutFactor, rtt,
      reqRespRttRate := rate, fastRateRounds := rounds, windowMax } := by
  unfold heard countFast
  extract_lets
  split
  · split
    · split
      · exact ⟨_, _, _, _, _, _, rfl⟩
      · exact ⟨_, _, _, _, d.fastRateRounds, d.windowMax, rfl⟩
    · exact ⟨_, _, _, d.reqRespRttRate, d.fastRateRounds, d.windowMax, rfl⟩
  · exact ⟨d.reqResp, d.partTimeoutFactor, d.rtt, d.reqRespRttRate, d.fastRateRounds, d.windowMax, rfl⟩

/-- A wider window, the floor coming up behind it. -/
def grown (d : Incoming) : Incoming :=
  if d.window < d.windowMax then
    { d with
      window := d.window + 1
      windowMin :=
        if sizeSub (d.window + 1) d.windowMin > d.windowFlexibility - 1 then d.windowMin + 1 else d.windowMin }
  else d

/-- What has come since the request, over the time since. -/
def roundRate (env : Env) (d : Incoming) : ℚ :=
  (sizeSub d.rttRxdBytes d.rttRxdBytesAtPartReq : ℚ) / (env.now - d.reqSent)

def rated (env : Env) (d : Incoming) : Incoming :=
  { { d with reqDataRttRate := d.roundRate env }.updateEifr env with rttRxdBytesAtPartReq := d.rttRxdBytes }

/-- The rate of a round, noted and counted. -/
def counted (env : Env) (d : Incoming) : Incoming :=
  if d.reqSent > 0 ∧ env.now - d.reqSent > 0 then
    ((d.rated env).countFast (d.roundRate env)).countVerySlow (d.roundRate env)
  else d

theorem adapt_eq (env : Env) (d : Incoming) : d.adapt env = d.grown.counted env := rfl

theorem grown_fields (d : Incoming) :
    ∃ window windowMin, d.window ≤ window ∧ d.grown = { d with window, windowMin } := by
  unfold grown
  split
  · exact ⟨_, _, Nat.le_succ _, rfl⟩
  · exact ⟨d.window, d.windowMin, le_rfl, rfl⟩

theorem countFast_fields (rate : ℚ) (d : Incoming) :
    ∃ windowMax rounds, d.countFast rate = { d with windowMax, fastRateRounds := rounds } := by
  unfold countFast
  split
  · exact ⟨_, _, rfl⟩
  · exact ⟨d.windowMax, d.fastRateRounds, rfl⟩

theorem countVerySlow_fields (rate : ℚ) (d : Incoming) :
    ∃ windowMax rounds, d.countVerySlow rate = { d with windowMax, verySlowRateRounds := rounds } := by
  unfold countVerySlow
  split
  · exact ⟨_, _, rfl⟩
  · exact ⟨d.windowMax, d.verySlowRateRounds, rfl⟩

/-- All that a round's end sets before the next request; the window is never narrowed. -/
theorem adapt_fields (env : Env) (d : Incoming) :
    ∃ window windowMin windowMax reqDataRttRate eifr rttRxdBytesAtPartReq fast slow, d.window ≤ window ∧
      d.adapt env = { d with
        window, windowMin, windowMax, reqDataRttRate, eifr, rttRxdBytesAtPartReq,
        fastRateRounds := fast, verySlowRateRounds := slow } := by
  obtain ⟨window, windowMin, hle, hgrown⟩ := grown_fields d
  rw [adapt_eq, hgrown]
  unfold counted
  split
  · obtain ⟨_, _, hfast⟩ := countFast_fields
      (roundRate env { d with window, windowMin }) (rated env { d with window, windowMin })
    rw [hfast]
    obtain ⟨_, _, hslow⟩ := countVerySlow_fields (roundRate env { d with window, windowMin }) _
    rw [hslow]
    exact ⟨_, _, _, _, _, _, _, _, hle, rfl⟩
  · exact ⟨_, _, d.windowMax, d.reqDataRttRate, d.eifr, d.rttRxdBytesAtPartReq, d.fastRateRounds,
      d.verySlowRateRounds, hle, rfl⟩

/-- Where the part goes does not hang on when it comes. -/
theorem heard_findSlot (env : Env) (d : Incoming) (part mh : Bytes) :
    (d.heard env part).findSlot mh = d.findSlot mh := by
  obtain ⟨_, _, _, _, _, _, he⟩ := heard_fields env d part
  rw [he]
  rfl

theorem heard_randomHash (env : Env) (d : Incoming) (part : Bytes) :
    (d.heard env part).randomHash = d.randomHash := by
  obtain ⟨_, _, _, _, _, _, he⟩ := heard_fields env d part
  rw [he]

theorem receivePart_missed (h : d.findSlot (c.mapHash d.randomHash part) = none) :
    (d.receivePart c env part).1 = .done (d.heard env part) := by
  unfold receivePart
  dsimp only
  rw [heard_findSlot, heard_randomHash, h]

theorem receivePart_taken {i : Nat} (h : d.findSlot (c.mapHash d.randomHash part) = some i) :
    (d.receivePart c env part).1 =
      ((((d.heard env part).fill i part).notify env).andThen (·.requestNext env)).andThen (·.assembleFull c env) := by
  unfold receivePart
  dsimp only
  rw [heard_findSlot, heard_randomHash, h]

end MicroReticulum.Resource.Incoming
