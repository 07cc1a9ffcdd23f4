import MicroReticulum.Rnsd.Slots

/-!
# What the functions do to their slot

One statement for each function of the two tables, as far as the slot's use,
its link and its state go.
-/

namespace MicroReticulum.Rnsd.Node

open Lib Lib.Log Lib.Log.Transition

variable {c c' : Conn} {l : LinkRef}

-- ---------------------------------------------------------------------------
-- What establishing leaves of a slot
-- ---------------------------------------------------------------------------

/-- Flushing a slot, or using its link, leaves all but what waits, the identify and
its proof, the transfer and the request. -/
def Spends (c c' : Conn) : Prop :=
  c' = { c with
    pendIdentify := c'.pendIdentify, pendPacket := c'.pendPacket, pendRes := c'.pendRes, pendReq := c'.pendReq
    ident := c'.ident, noProofs := c'.noProofs, resHash := c'.resHash, resOutbound := c'.resOutbound, resOpaque := c'.resOpaque
    resNo := c'.resNo, resOn := c'.resOn, reqMrid := c'.reqMrid, reqCid := c'.reqCid, reqPort := c'.reqPort, reqTask := c'.reqTask
    reqNo := c'.reqNo, reqDeadline := c'.reqDeadline, lastActivity := c'.lastActivity }

theorem Spends.refl (c : Conn) : Spends c c := rfl

theorem Spends.trans {c₁ c₂ c₃ : Conn} (h₁ : Spends c₁ c₂) (h₂ : Spends c₂ c₃) : Spends c₁ c₃ := by
  unfold Spends at *
  rw [h₂, h₁]

theorem Spends.keeps (h : Spends c c') :
    c'.used = c.used ∧ c'.link = c.link ∧ c'.state = c.state ∧ c'.opening = c.opening ∧ c'.attempts = c.attempts := by
  rw [h]
  exact ⟨rfl, rfl, rfl, rfl, rfl⟩

theorem spends_composes : Composes fun c c' (_ : List Event) => Spends c c' := ⟨.refl, .trans⟩

theorem spends_startOutboundResource (made : Made) (s : Send) : Spends c (startOutboundResource made s c).1 := by
  unfold startOutboundResource
  split
  · rfl
  · split <;> rfl

theorem spends_linkStartRequest (now : ℚ) (a : Asking) (r : Request) : Spends c (linkStartRequest now a r c).1 := by
  unfold linkStartRequest
  split
  · rfl
  · split <;> rfl

theorem spends_linkIdentifyNow (now : ℚ) (how : Identifying) (key : String) :
    Spends c (linkIdentifyNow now how key c).1 := by
  cases how <;> rfl

theorem spends_flushIdentify (now : ℚ) (how : Identifying) : Spends c (flushIdentify now how c).1 := by
  unfold flushIdentify
  split
  · rfl
  · exact (show Spends c { c with pendIdentify := none } from rfl).trans (spends_linkIdentifyNow now how _)

theorem spends_flushPacket (throws : Bool) : Spends c (flushPacket throws c).1 := by
  unfold flushPacket
  split <;> rfl

theorem spends_flushResource (made : Made) : Spends c (flushResource made c).1 := by
  unfold flushResource
  split
  · rfl
  · exact (show Spends c { c with pendRes := none } from rfl).trans (spends_startOutboundResource made _)

theorem spends_flushRequest (now : ℚ) (a : Asking) : Spends c (flushRequest now a c).1 := by
  unfold flushRequest
  split
  · rfl
  · exact (show Spends c { c with pendReq := none } from rfl).trans (spends_linkStartRequest now a _)

theorem spends_chanIdentify (how : Identifying) : Spends c (chanIdentify how c).1 := by
  cases how <;> rfl

theorem spends_established (k : Kind) (now : ℚ) (f : Flush) :
    Spends (activate now c).1 (established k now f c).1 := by
  cases k with
  | link =>
    have hm : Meets (fun c c' (_ : List Event) => Spends c c')
        (.all [flushIdentify now f.identify, flushPacket f.packetThrows, flushResource f.made,
          flushRequest now f.asking]) := by
      refine spends_composes.all fun t ht => ?_
      simp only [List.mem_cons, List.not_mem_nil, or_false] at ht
      rcases ht with rfl | rfl | rfl | rfl
      · exact fun c => spends_flushIdentify now f.identify
      · exact fun c => spends_flushPacket f.packetThrows
      · exact fun c => spends_flushResource f.made
      · exact fun c => spends_flushRequest now f.asking
    exact hm _
  | channel =>
    have hm : Meets (fun c c' (_ : List Event) => Spends c c')
        (.all [chanIdentify f.identify, flushResource f.made]) := by
      refine spends_composes.all fun t ht => ?_
      simp only [List.mem_cons, List.not_mem_nil, or_false] at ht
      rcases ht with rfl | rfl
      · exact fun c => spends_chanIdentify f.identify
      · exact fun c => spends_flushResource f.made
    exact hm _

theorem established_keeps (k : Kind) (now : ℚ) (f : Flush) :
    (established k now f c).1.used = c.used ∧ (established k now f c).1.link = c.link ∧
      (established k now f c).1.state = .active ∧ (established k now f c).1.opening = c.opening ∧
      (established k now f c).1.attempts = c.attempts := (spends_established k now f).keeps

-- ---------------------------------------------------------------------------
-- What goes out as a link comes up
-- ---------------------------------------------------------------------------

theorem flushIdentify_fst (now : ℚ) (how : Identifying) : (flushIdentify now how c).1 =
    { c with pendIdentify := none, ident := (flushIdentify now how c).1.ident } := by
  unfold flushIdentify
  split
  · next h => rw [← h]
  · cases how <;> rfl

theorem flushPacket_fst (throws : Bool) : (flushPacket throws c).1 = { c with pendPacket := none } := by
  unfold flushPacket
  split
  · next h => rw [← h]
  · rfl

theorem startOutboundResource_fst (made : Made) (s : Send) : (startOutboundResource made s c).1 =
    { c with
      resHash := (startOutboundResource made s c).1.resHash
      resOutbound := (startOutboundResource made s c).1.resOutbound
      resOpaque := (startOutboundResource made s c).1.resOpaque
      resNo := (startOutboundResource made s c).1.resNo
      resOn := (startOutboundResource made s c).1.resOn } := by
  unfold startOutboundResource
  split
  · rfl
  · split <;> rfl

theorem flushResource_fst (made : Made) : (flushResource made c).1 =
    { c with
      pendRes := none
      resHash := (flushResource made c).1.resHash
      resOutbound := (flushResource made c).1.resOutbound
      resOpaque := (flushResource made c).1.resOpaque
      resNo := (flushResource made c).1.resNo
      resOn := (flushResource made c).1.resOn } := by
  unfold flushResource
  split
  · next h => rw [← h]
  · next s h => exact startOutboundResource_fst made s

theorem linkStartRequest_fst (now : ℚ) (a : Asking) (r : Request) : (linkStartRequest now a r c).1 =
    { c with
      reqMrid := (linkStartRequest now a r c).1.reqMrid
      reqCid := (linkStartRequest now a r c).1.reqCid
      reqPort := (linkStartRequest now a r c).1.reqPort
      reqTask := (linkStartRequest now a r c).1.reqTask
      reqNo := (linkStartRequest now a r c).1.reqNo
      reqDeadline := (linkStartRequest now a r c).1.reqDeadline
      lastActivity := (linkStartRequest now a r c).1.lastActivity } := by
  unfold linkStartRequest
  split
  · rfl
  · split <;> rfl

theorem flushRequest_fst (now : ℚ) (a : Asking) : (flushRequest now a c).1 =
    { c with
      pendReq := none
      reqMrid := (flushRequest now a c).1.reqMrid
      reqCid := (flushRequest now a c).1.reqCid
      reqPort := (flushRequest now a c).1.reqPort
      reqTask := (flushRequest now a c).1.reqTask
      reqNo := (flushRequest now a c).1.reqNo
      reqDeadline := (flushRequest now a c).1.reqDeadline
      lastActivity := (flushRequest now a c).1.lastActivity } := by
  unfold flushRequest
  split
  · next h => rw [← h]
  · next s h => exact linkStartRequest_fst now a s

theorem linkEstablished_apply (now : ℚ) (f : Flush) : linkEstablished now f c =
    let c₁ := flushIdentify now f.identify (activate now c).1
    let c₂ := flushPacket f.packetThrows c₁.1
    let c₃ := flushResource f.made c₂.1
    let c₄ := flushRequest now f.asking c₃.1
    (c₄.1, c₁.2 ++ (c₂.2 ++ (c₃.2 ++ c₄.2))) := by
  simp [linkEstablished, all, andThen_apply, activate]

theorem chanEstablished_apply (now : ℚ) (f : Flush) : chanEstablished now f c =
    let c₁ := chanIdentify f.identify (activate now c).1
    let c₂ := flushResource f.made c₁.1
    (c₂.1, c₁.2 ++ c₂.2) := by
  simp [chanEstablished, all, andThen_apply, activate]

/-- Nothing is left waiting. -/
theorem established_spent (k : Kind) (now : ℚ) (f : Flush) : (established k now f c).1.pendRes = none ∧
    (k = .link → (established k now f c).1.pendIdentify = none ∧ (established k now f c).1.pendPacket = none ∧
      (established k now f c).1.pendReq = none) := by
  cases k with
  | link =>
    simp only [established, linkEstablished_apply]
    rw [flushRequest_fst, flushResource_fst, flushPacket_fst, flushIdentify_fst]
    exact ⟨rfl, fun _ => ⟨rfl, rfl, rfl⟩⟩
  | channel =>
    simp only [established, chanEstablished_apply]
    rw [flushResource_fst]
    exact ⟨rfl, fun h => nomatch h⟩

-- ---------------------------------------------------------------------------
-- Frames of consumers and timers
-- ---------------------------------------------------------------------------

theorem spends_linkConsumerSend (now : ℚ) (mdu : Nat) (throws : Bool) (bytes : Bytes) :
    Spends c (linkConsumerSend now mdu throws bytes c).1 := by
  unfold linkConsumerSend
  split
  · split <;> rfl
  · split <;> rfl

theorem spends_linkIdentify (now : ℚ) (how : Identifying) (key : String) : Spends c (linkIdentify now how key c).1 := by
  unfold linkIdentify
  split
  · split <;> rfl
  · exact spends_linkIdentifyNow now how key

theorem spends_linkRequest (now : ℚ) (a : Asking) (r : Request) : Spends c (linkRequest now a r c).1 := by
  unfold linkRequest
  split
  · split <;> rfl
  · exact spends_linkStartRequest now a r

theorem spends_sendResource (made : Made) (s : Send) : Spends c (sendResource made s c).1 := by
  unfold sendResource
  split
  · rfl
  · split
    · rfl
    · exact spends_startOutboundResource made s

theorem spends_linkIdentifyTick (now : ℚ) (st : IdentifyStatus) : Spends c (linkIdentifyTick now st c).1 := by
  unfold linkIdentifyTick
  split
  · rfl
  · split
    · rfl
    · split
      · rfl
      · split <;> rfl

theorem spends_requestTick (now : ℚ) : Spends c (requestTick now c).1 := by
  unfold requestTick
  split <;> rfl

theorem spends_timers (now : ℚ) (st : IdentifyStatus) :
    Spends c ((linkIdentifyTick now st).andThen (requestTick now) c).1 :=
  (spends_linkIdentifyTick now st).trans (spends_requestTick now)

-- ---------------------------------------------------------------------------
-- What establishing may come to
-- ---------------------------------------------------------------------------

def nextAttempt (attempts : Nat) : Nat := if attempts < 255 then attempts + 1 else attempts

/-- A kickoff that recalls the identity fails for good or starts an establishment. -/
inductive Dialled (now : ℚ) (l : LinkRef) (c : Conn) : Conn × List Event → Prop
  | failed : Dialled now l c ({ c with state := .failed }, [])
  | started (d : ℚ≥0) : Dialled now l c
      ({ c with
          link := some l, state := .establishing, estabDeadline := now + d, attempts := nextAttempt c.attempts },
        [.started c.opening l])

theorem linkKickoff_dialled {env : Env} {now : ℚ} (he : env.recalls) : Dialled now l c (linkKickoff env now l c) := by
  unfold linkKickoff
  rw [if_neg (by simp [he])]
  split
  · exact .failed
  · split
    · exact .failed
    · split
      · exact .failed
      · exact .started _

/-- An attempt's end: the slot dials again, waits for a path, or is given up. -/
inductive Retried (now : ℚ) (l : LinkRef) (c : Conn) : Conn × List Event → Prop
  | dialled {r : Conn × List Event} (ha : c.attempts < RNSD_LINK_ATTEMPTS) (h : Dialled now l { c with state := .establishing } r) :
      Retried now l c r
  | waits (ha : c.attempts < RNSD_LINK_ATTEMPTS) (p : ℚ) : Retried now l c
      ({ c with state := .awaitingPath, estabDeadline := 0, pathDeadline := p, pathAskedAt := now }, [])
  | failed : Retried now l c ({ c with state := .failed, deadAt := now }, [])

theorem linkTimedOut_retried (env : Env) (now : ℚ) : Retried now l c (linkTimedOut env now l c) := by
  unfold linkTimedOut
  split
  · next h =>
    unfold linkRetry
    split
    · next hp => exact .dialled h.2 (linkKickoff_dialled hp.2)
    · exact .waits h.2 _
  · exact .failed

/-- A turn of a slot that waits for a path. -/
inductive Awaited (now : ℚ) (l : LinkRef) (c : Conn) : Conn × List Event → Prop
  | dialled {r : Conn × List Event} (h : Dialled now l c r) : Awaited now l c r
  | asks (hd : now < c.pathDeadline) : Awaited now l c ({ c with pathAskedAt := now }, [])
  | failed : Awaited now l c ({ c with state := .failed, deadAt := now }, [])
  | waits (hd : now < c.pathDeadline) : Awaited now l c (c, [])

theorem linkAwaitTick_awaited (env : Env) (now : ℚ) : Awaited now l c (linkAwaitTick env now l c) := by
  unfold linkAwaitTick
  split
  · next hp => exact .dialled (linkKickoff_dialled hp.2)
  · split
    · next h => exact .asks h.2
    · split
      · exact .failed
      · next h => exact .waits (not_le.1 h)

/-- A channel's kickoff, its path wait, and the end of an open. -/
inductive ChanDialled (l : LinkRef) (c : Conn) : Conn × List Event → Prop
  | failed (d : ℚ) : ChanDialled l c ({ c with state := .failed, deadAt := d }, [])
  | started (d : ℚ) : ChanDialled l c ({ c with link := some l, state := .establishing, estabDeadline := d }, [])
  | waits (a : ℚ) : ChanDialled l c ({ c with state := .awaitingPath, pathAskedAt := a }, [])

theorem chanKickoff_dialled {env : Env} {now : ℚ} (he : env.recalls) : ChanDialled l c (chanKickoff env now l c) := by
  unfold chanKickoff
  rw [if_neg (by simp [he])]
  split
  · exact .failed c.deadAt
  · split
    · exact .failed c.deadAt
    · split
      · exact .failed c.deadAt
      · exact .started _

theorem chanAwaitTick_dialled (env : Env) (now : ℚ) (hs : c.state = .awaitingPath) :
    ChanDialled l c (chanAwaitTick env now l c) := by
  unfold chanAwaitTick
  split
  · next hp => exact chanKickoff_dialled hp.2
  · split
    · exact .failed now
    · cases c
      cases hs
      split
      · exact .waits now
      · exact .waits _

/-- The end of an open, on a filled slot. -/
inductive Opens (now : ℚ) (l : LinkRef) (c : Conn) : Kind → Conn × List Event → Prop
  | waits (k : Kind) : Opens now l c k ({ c with state := .awaitingPath }, [])
  | link {r : Conn × List Event} (h : Dialled now l { c with state := .establishing } r) : Opens now l c .link r
  | channel {r : Conn × List Event} (h : ChanDialled l { c with state := .establishing } r) : Opens now l c .channel r

theorem openWith_opens (k : Kind) (env : Env) (now : ℚ) : Opens now l c k (openWith k env now l c) := by
  cases k with
  | link =>
    simp only [openWith, linkOpen]
    split
    · next hp => exact .link (linkKickoff_dialled hp.2)
    · exact .waits _
  | channel =>
    simp only [openWith, chanOpen]
    split
    · next hp => exact .channel (chanKickoff_dialled hp.2)
    · exact .waits _

/-- A turn of a dead slot: it is dead from now on, stays, or is freed. -/
theorem linkDeadTick_cases (now : ℚ) : (∃ d, (d = c.deadAt ∧ c.deadAt ≠ 0 ∨ c.deadAt = 0 ∧ d = now) ∧
      linkDeadTick now c = ({ c with deadAt := d }, [])) ∨
    c.deadAt ≠ 0 ∧ GRACE_S ≤ now - c.deadAt ∧ linkDeadTick now c = linkFreeSlot c := by
  unfold linkDeadTick
  by_cases hd : c.deadAt = 0
  · refine .inl ⟨now, .inr ⟨hd, rfl⟩, ?_⟩
    simp [hd, GRACE_S]
  · by_cases hg : GRACE_S ≤ now - c.deadAt
    · exact .inr ⟨hd, hg, by simp [hd, hg]⟩
    · exact .inl ⟨c.deadAt, .inl ⟨rfl, hd⟩, by simp [hd, hg]⟩

-- ---------------------------------------------------------------------------
-- What is logged
-- ---------------------------------------------------------------------------

inductive Topic where
  | opening | transfer | request | send | other
  deriving DecidableEq

def topic : Event → Topic
  | .started .. | .flushed .. => .opening
  | .began _ => .transfer
  | .asked _ | .issued .. | .reqAux _ => .request
  | .handed _ | .freed _ | .resAux _ | .lost .. => .send
  | .identified .. | .packet .. | .disconnected _ => .other

/-- All that was logged is of these topics. -/
def About (topics : List Topic) (evs : List Event) : Prop := ∀ e ∈ evs, topic e ∈ topics

variable {topics more : List Topic} {evs evs' : List Event}

@[simp] theorem about_nil : About topics [] := by simp [About]

@[simp] theorem about_cons {e : Event} : About topics (e :: evs) ↔ topic e ∈ topics ∧ About topics evs := by
  simp [About]

@[simp] theorem about_append : About topics (evs ++ evs') ↔ About topics evs ∧ About topics evs' := by
  simp [About, or_imp, forall_and]

theorem About.mono (h : About topics evs) (hs : topics ⊆ more) : About more evs := fun e he => hs (h e he)

/-- Something of another topic was not logged. -/
theorem About.not_mem (h : About topics evs) {e : Event} (he : topic e ∉ topics) : e ∉ evs := fun hm => he (h e hm)

theorem about_reqSendAux (op : ReqOp) (data : Bytes) : About [.request] (reqSendAux c op data) := by
  unfold reqSendAux
  split
  · simp
  · split <;> simp [topic]

theorem about_reqFailDirect (r : Request) : About [.request] (reqFailDirect r) := by
  unfold reqFailDirect
  split <;> simp [topic]

theorem about_free (buf : Option Nat) : About [.send] (free buf) := by
  cases buf <;> simp [free, topic]

theorem about_resSendAux (op : ResOp) (data : Bytes) (send : Option Nat) : About [.send] (resSendAux c op data send) := by
  unfold resSendAux
  split <;> simp [topic]

theorem about_began (l : Option LinkRef) (hash : Option Bytes) (outbound : Bool) :
    About [.transfer] (began l hash outbound) := by
  unfold began
  split <;> simp [topic]

theorem about_disconnect (h : Option Handle) : About [.other] (disconnect h) := by
  cases h <;> simp [disconnect, topic]

theorem about_lose : About [.send] (lose c) := by
  unfold lose
  rw [about_append]
  constructor
  · split <;> simp [topic]
  · cases c.pendRes with
    | none => simp
    | some s => simpa [topic] using about_free s.buf

theorem about_startOutboundResource (made : Made) (s : Send) :
    About [.transfer, .send] (startOutboundResource made s c).2 := by
  unfold startOutboundResource
  split
  · exact (about_free _).mono (by simp)
  · split
    · simpa using ⟨(about_began _ _ _).mono (by simp), (about_free _).mono (by simp), (about_resSendAux _ _ _).mono (by simp)⟩
    · simpa using ⟨(about_began _ _ _).mono (by simp), (about_free _).mono (by simp)⟩

theorem about_sendResource (made : Made) (s : Send) : About [.transfer, .send] (sendResource made s c).2 := by
  unfold sendResource
  split
  · exact (about_free _).mono (by simp)
  · split
    · simp
    · exact about_startOutboundResource made s

theorem about_flushResource (made : Made) : About [.opening, .transfer, .send] (flushResource made c).2 := by
  unfold flushResource
  split
  · simp
  · simpa [topic] using (about_startOutboundResource _ _).mono (by simp)

theorem about_concludeResource (out : Conclusion) : About [.send] (concludeResource out c).2 := by
  unfold concludeResource
  dsimp only
  split
  · exact about_resSendAux _ _ _
  · split <;> exact about_resSendAux _ _ _

theorem about_linkStartRequest (now : ℚ) (a : Asking) (r : Request) : About [.request] (linkStartRequest now a r c).2 := by
  unfold linkStartRequest
  split
  · exact about_reqFailDirect r
  · split
    · exact about_reqFailDirect r
    · simp [topic]

theorem about_linkRequest (now : ℚ) (a : Asking) (r : Request) : About [.request] (linkRequest now a r c).2 := by
  unfold linkRequest
  split
  · split
    · exact about_reqFailDirect r
    · simp
  · exact about_linkStartRequest now a r

theorem about_flushRequest (now : ℚ) (a : Asking) : About [.opening, .request] (flushRequest now a c).2 := by
  unfold flushRequest
  split
  · simp
  · simpa [topic] using (about_linkStartRequest _ _ _).mono (by simp)

theorem about_reqResponse (now : ℚ) (data : Bytes) (memory : Bool) : About [.request] (reqResponse now data memory c).2 := by
  unfold reqResponse
  dsimp only
  split <;> exact about_reqSendAux _ _

theorem about_requestTick (now : ℚ) : About [.request] (requestTick now c).2 := by
  unfold requestTick
  split
  · exact about_reqSendAux _ _
  · simp

theorem about_linkIdentifyNow (now : ℚ) (how : Identifying) (key : String) :
    About [.other] (linkIdentifyNow now how key c).2 := by
  cases how <;> simp [linkIdentifyNow, topic]

theorem about_flushIdentify (now : ℚ) (how : Identifying) : About [.opening, .other] (flushIdentify now how c).2 := by
  unfold flushIdentify
  split
  · simp
  · simpa [topic] using (about_linkIdentifyNow _ _ _).mono (by simp)

theorem about_linkIdentify (now : ℚ) (how : Identifying) (key : String) : About [.other] (linkIdentify now how key c).2 := by
  unfold linkIdentify
  split
  · split <;> simp
  · exact about_linkIdentifyNow now how key

theorem linkIdentifyTick_snd (now : ℚ) (st : IdentifyStatus) : (linkIdentifyTick now st c).2 = [] := by
  unfold linkIdentifyTick
  split
  · rfl
  · split
    · rfl
    · split
      · rfl
      · split <;> rfl

theorem about_timers (now : ℚ) (st : IdentifyStatus) :
    About [.request] ((linkIdentifyTick now st).andThen (requestTick now) c).2 := by
  rw [andThen_apply, linkIdentifyTick_snd]
  exact about_requestTick now

theorem about_flushPacket (throws : Bool) : About [.opening, .other] (flushPacket throws c).2 := by
  unfold flushPacket
  split
  · simp
  · split <;> simp [topic]

theorem about_linkConsumerSend (now : ℚ) (mdu : Nat) (throws : Bool) (bytes : Bytes) :
    About [.other] (linkConsumerSend now mdu throws bytes c).2 := by
  unfold linkConsumerSend
  split
  · split <;> simp [topic]
  · split <;> simp

theorem about_chanIdentify (how : Identifying) : About [.other] (chanIdentify how c).2 := by
  cases how with
  | fails | silent => simp [chanIdentify]
  | sent =>
    simp only [chanIdentify]
    split <;> simp [topic]

theorem about_dialled {now : ℚ} {r : Conn × List Event} (h : Dialled now l c r) : About [.opening] r.2 := by
  cases h <;> simp [topic]

theorem about_retried {now : ℚ} {r : Conn × List Event} (h : Retried now l c r) : About [.opening] r.2 := by
  cases h with
  | dialled _ h => exact about_dialled h
  | waits | failed => simp

theorem about_awaited {now : ℚ} {r : Conn × List Event} (h : Awaited now l c r) : About [.opening] r.2 := by
  cases h with
  | dialled h => exact about_dialled h
  | asks | failed | waits => simp

theorem snd_chanDialled {r : Conn × List Event} (h : ChanDialled l c r) : r.2 = [] := by
  cases h <;> rfl

theorem about_opens {now : ℚ} {k : Kind} {r : Conn × List Event} (h : Opens now l c k r) : About [.opening] r.2 := by
  cases h with
  | waits => simp
  | link h => exact about_dialled h
  | channel h => rw [snd_chanDialled h]; simp

theorem about_linkFreeSlot : About [.request, .send, .other] (linkFreeSlot c).2 := by
  simp only [linkFreeSlot, about_append]
  refine ⟨⟨⟨?_, ?_⟩, (about_disconnect _).mono (by simp)⟩, about_lose.mono (by simp)⟩
  · split
    · exact (about_reqSendAux _ _).mono (by simp)
    · simp
  · cases c.pendReq with
    | none => simp
    | some r => exact (about_reqFailDirect r).mono (by simp)

theorem about_chanReset : About [.send, .other] (chanReset c).2 := by
  simp only [chanReset, about_append]
  exact ⟨(about_disconnect _).mono (by simp), about_lose.mono (by simp)⟩

end MicroReticulum.Rnsd.Node
