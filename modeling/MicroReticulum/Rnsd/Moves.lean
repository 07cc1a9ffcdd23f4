import MicroReticulum.Rnsd.Specs

/-!
# What an operation is made of

Every operation is a sequence of small steps, each of which writes one slot,
with what rnsd knows of the slot when it does. An invariant is shown of the
small steps once. Where an invariant depends on how a step goes, `Risk` names
the point, and the steps carry what is asked of it there.
-/

namespace MicroReticulum.Rnsd

open Lib Lib.Log Lib.Log.Transition
open Relation (ReflTransGen)
open MicroReticulum.MsgPack (Text ResourceAdvertisement)

/-- Points at which something may be asked of a step. -/
inductive Risk where
  | frees (k : Kind) (i : Nat) (c : Conn)
  | opens (k : Kind) (tag : Text) (h : Handle)
  | seats (k : Kind) (tag : Text) (h : Option Handle)
  | marks (k : Kind) (i : Nat) (c : Conn) (adv : ResourceAdvertisement) (memory : Bool)
  | sends (c : Conn) (s : Send) (m : Made)
  | refuses (s : Send)
  | flushes (c : Conn) (m : Made)
  | asks (mrid : Bytes)
  | skips (t : Transfer)

namespace Node

/-- What rnsd writes to a used slot. -/
inductive Move (q : Risk → Prop) (now : ℚ) (serial : Nat) : Kind → Nat → Conn → Conn × List Event → Prop
  | touched (k i c) : Move q now serial k i c ({ c with lastActivity := now }, [])
  | letGo (k i c) : Move q now serial k i c ({ c with handle := none }, [])
  | consumerSend (i c mdu throws bytes) : Move q now serial .link i c (linkConsumerSend now mdu throws bytes c)
  | identify (i c how key) : Move q now serial .link i c (linkIdentify now how key c)
  | proofs (i c expect) : Move q now serial .link i c (linkProofs expect c)
  | request (i c a) (r : Request) (hr : r.no = serial) (hq : ∀ id : RequestId, a.id = some id → q (.asks id.val)) :
      Move q now serial .link i c ((Transition.act id (.asked r)).andThen (linkRequest now a r) c)
  | sendResource (k i c m) (s : Send) (hs : s.no = serial) (hq : q (.sends c s m)) :
      Move q now serial k i c ((Transition.act id (.handed s)).andThen (sendResource m s) c)
  | established (k i c f) (hl : c.link ≠ none) (hq : q (.flushes c f.made))
      (ha : ∀ id : RequestId, f.asking.id = some id → q (.asks id.val)) :
      Move q now serial k i c (Node.established k now f c)
  | unreached (k i c) (hr : c.resHash = []) (hd : c.state = .closed ∨ c.state = .failed → c.deadAt = now) :
      Move q now serial k i c (unreached now c)
  | response (i c data memory) (hm : c.reqMrid ≠ []) : Move q now serial .link i c (reqResponse now data memory c)
  | reqFailed (i c) (hm : c.reqMrid ≠ []) : Move q now serial .link i c (reqFailed c)
  | timers (i c st) : Move q now serial .link i c ((linkIdentifyTick now st).andThen (requestTick now) c)
  | awaits (i c r) (hs : c.state = .awaitingPath) (h : Awaited now ⟨.link, serial⟩ c r) :
      Move q now serial .link i c r
  | overdue (i c) (hs : c.state = .establishing) (hd : c.estabDeadline ≠ 0 ∧ c.estabDeadline ≤ now) :
      Move q now serial .link i c ({ c with link := none }, [])
  | timedOut (i c r) (hs : c.state = .establishing) (hl : c.link = none)
      (hd : c.estabDeadline ≠ 0 ∧ c.estabDeadline ≤ now) (h : Retried now ⟨.link, serial⟩ c r) :
      Move q now serial .link i c r
  | dead (k i c d) (hs : c.state = .closed ∨ c.state = .failed)
      (hd : d = c.deadAt ∧ c.deadAt ≠ 0 ∨ c.deadAt = 0 ∧ d = now) :
      Move q now serial k i c ({ c with deadAt := d }, [])
  | freed (i c l s) (hq : q (.frees .link i c)) :
      Move q now serial .link i c (linkFreeSlot { c with link := l, state := s })
  | chanAwaits (i c r) (hs : c.state = .awaitingPath) (h : ChanDialled ⟨.channel, serial⟩ c r) :
      Move q now serial .channel i c r
  | chanTimedOut (i c) : Move q now serial .channel i c (chanTimedOut now c)
  | chanFreed (i c) (hq : q (.frees .channel i c)) : Move q now serial .channel i c (chanReset c)

/-- The small steps. -/
inductive Micro (Q : Node → Risk → Prop) : Node → Node → Prop
  | closes {n m : Node} (l) (h : Closes (fun m t => Q m (.skips t)) l n m) : Micro Q n m
  | move {n : Node} {k i c r} (hs : n.slot k i = some c) (hu : c.used) (h : Move (Q n) n.clock n.serial k i c r) :
      Micro Q n (n.put k i r)
  | opened {n : Node} {k i c r} (h req o) (hs : n.slot k i = some c) (hu : c.used = false)
      (hq : Q n (.opens k req.tag h))
      (hr : Opens n.clock ⟨k, n.serial⟩ (fill k n.clock h o req n.serial c).1 k r) : Micro Q n (n.put k i r)
  | seated {n : Node} {k i c} (w owner) (hs : n.slot k i = some c) (hu : c.used = false)
      (hq : Q n (.seats k (inboundTag k w.linkId) w.taken)) :
      Micro Q n { n.put k i (seat k n.clock w owner ⟨k, n.serial⟩ n.serial c) with
        actives := ⟨k, n.serial⟩ :: n.actives }
  | marked {n : Node} {k i c l} (g adv memory) (hs : n.slot k i = some c) (hu : c.used) (hl : c.link = some l)
      (ha : l ∈ n.actives) (hg : admits g k n.inflight adv c) (hq : Q n (.marks k i c adv memory)) :
      Micro Q n (n.put k i (markResource memory adv c))
  | again {n : Node} {t k i c} (out) (hb : .began t ∈ n.log) (hm : Marked n t.hash k i c) :
      Micro Q n (n.put k i (concludeResource out c))
  | active {n : Node} (l : LinkRef) (hid : l.id < n.serial)
      (hl : ∀ i c, n.findLink l.kind l = some i → n.slot l.kind i = some c → c.state ≠ .establishing) :
      Micro Q n { n with actives := l :: n.actives }
  | asked {n : Node} (r : Request) (hr : r.no = n.serial) : Micro Q n (n.say (.asked r :: reqFailDirect r))
  | refused {n : Node} (s : Send) (hs : s.no = n.serial) (hq : Q n (.refuses s)) :
      Micro Q n (n.say (.handed s :: free s.buf))
  | waited {n : Node} (dt : ℚ≥0) : Micro Q n { n with clock := n.clock + dt }

/-- The slot an allocation evicts. -/
def Doomed (n : Node) (k : Kind) (i : Nat) : Prop :=
  Slots.free (·.used) (n.table k) = none ∧ Slots.victim (·.used) (·.lastActivity) (n.table k) = some i

/-- A dead slot that the next tick frees. -/
def Over (now : ℚ) (c : Conn) : Prop :=
  (c.state = .closed ∨ c.state = .failed) ∧ c.deadAt ≠ 0 ∧ GRACE_S ≤ now - c.deadAt

/-- What an operation needs of `Q` to be made of small steps. -/
def Permits (Q : Node → Risk → Prop) (n : Node) : Op → Prop
  | .connect k h req o =>
    (∀ m i c, n.findTag k req.tag = some i → c.handle = none → Q m (.frees k i c)) ∧
      (∀ m i c, Doomed n k i → (o.evicted.throws = false → c.link = none) → Q m (.frees k i c)) ∧
      (∀ m m' i, n.reclaim k req.tag o.reclaimed = some m → m.alloc k o.evicted = some (i, m') →
        Q m' (.opens k req.tag h)) ∧
      (∀ m t, o.reclaimed.skips t ∨ o.evicted.skips t → Q m (.skips t))
  | .incoming k w =>
    (∀ m i c, Doomed n k i → (w.evicted.throws = false → c.link = none) → Q m (.frees k i c)) ∧
      (∀ m i, n.alloc k w.evicted = some (i, m) → Q m (.seats k (inboundTag k w.linkId) w.taken)) ∧
      ∀ m t, w.evicted.skips t ∨ w.goodbye.skips t → Q m (.skips t)
  | .detach k ref td => (∀ m c, c.handle = none → Q m (.frees k ref c)) ∧ ∀ m t, td.skips t → Q m (.skips t)
  | .sendResource k tag buf len opaqueId made =>
    (n.findTag k tag = none → Q n (.refuses ⟨n.serial, buf, len, opaqueId⟩)) ∧
      ∀ i c, n.findTag k tag = some i → n.slot k i = some c → Q n (.sends c ⟨n.serial, buf, len, opaqueId⟩ made)
  | .request _ _ a => ∀ id : RequestId, a.id = some id → Q n (.asks id.val)
  | .established l f =>
    (∀ i c, n.findLink l.kind l = some i → n.slot l.kind i = some c → Q n (.flushes c f.made)) ∧
      ∀ id : RequestId, f.asking.id = some id → Q n (.asks id.val)
  | .closed _ skips => ∀ m t, skips t → Q m (.skips t)
  | .advertised l adv g memory =>
    l ∈ n.actives → ¬ (adv.q ≠ [] ∧ (adv.u ∨ adv.p)) →
      ∀ k i c, n.onResAdvertised l adv g = some (k, i) → n.slot k i = some c → Q n (.marks k i c adv memory)
  | .dropped t => Q n (.skips t)
  | .tick k turns =>
    (∀ m i c c', n.slot k i = some c → Over n.clock c →
        (k = .channel → (turns i).goodbye.throws = false → c'.link = none) → Q m (.frees k i c')) ∧
      ∀ m i t, (turns i).goodbye.skips t → Q m (.skips t)
  | _ => True

abbrev Steps (Q : Node → Risk → Prop) : Node → Node → Prop := ReflTransGen (Micro Q)

variable {Q : Node → Risk → Prop} {n m : Node} {k : Kind} {i : Nat} {c c' : Conn} {td : Teardown} {o : Option LinkRef}
  {t : Transition Conn Event} {l : LinkRef}

theorem step_act (hs : n.slot k i = some c) (hu : c.used) (h : Move (Q n) n.clock n.serial k i c (t c)) :
    Micro Q n (n.act k i t) := by
  rw [act_eq hs]
  exact .move hs hu h

theorem Fades.used {now : ℚ} (h : Fades now c c') : c'.used = c.used := by
  rw [h.same]

-- ---------------------------------------------------------------------------
-- Links of slots
-- ---------------------------------------------------------------------------

/-- An unused slot holds nothing. -/
structure Blank (c : Conn) : Prop where
  link : c.link = none
  handle : c.handle = none
  resHash : c.resHash = []
  pendRes : c.pendRes = none
  reqMrid : c.reqMrid = []
  pendReq : c.pendReq = none
  pendIdentify : c.pendIdentify = none
  pendPacket : c.pendPacket = none

/-- Unused slots are blank, and no two slots have the same link. -/
structure Wf (n : Node) : Prop where
  blank : ∀ k i c, n.slot k i = some c → c.used = false → Blank c
  kind : ∀ k i c l, n.slot k i = some c → c.link = some l → l.kind = k
  fresh : ∀ k i c l, n.slot k i = some c → c.link = some l → l.id < n.serial
  apart : ∀ k i j c c' l, n.slot k i = some c → n.slot k j = some c' → c.link = some l → c'.link = some l → i = j

/-- A slot keeps its link, loses it, or has the new one. -/
def Relinks (serial : Nat) (k : Kind) (c c' : Conn) : Prop :=
  c'.link = c.link ∨ c'.link = none ∨ c'.link = some ⟨k, serial⟩

variable {q : Risk → Prop} {now : ℚ} {serial : Nat} {r : Conn × List Event}

theorem Dialled.relinks (h : Dialled now ⟨k, serial⟩ c r) : Relinks serial k c r.1 ∧ r.1.used = c.used := by
  cases h with
  | failed => exact ⟨.inl rfl, rfl⟩
  | started => exact ⟨.inr (.inr rfl), rfl⟩

theorem ChanDialled.relinks (h : ChanDialled ⟨k, serial⟩ c r) : Relinks serial k c r.1 ∧ r.1.used = c.used := by
  cases h with
  | failed => exact ⟨.inl rfl, rfl⟩
  | started => exact ⟨.inr (.inr rfl), rfl⟩
  | waits => exact ⟨.inl rfl, rfl⟩

theorem blank_linkFreeSlot : Blank (linkFreeSlot c).1 := ⟨rfl, rfl, rfl, rfl, rfl, rfl, rfl, rfl⟩

theorem blank_chanReset : Blank (chanReset c).1 := ⟨rfl, rfl, rfl, rfl, rfl, rfl, rfl, rfl⟩

theorem Spends.relinks (h : Spends c c') : Relinks serial k c c' ∧ (c'.used = c.used ∨ Blank c') :=
  ⟨.inl h.keeps.2.1, .inl h.keeps.1⟩

theorem Move.relinks (h : Move q now serial k i c r) : Relinks serial k c r.1 ∧ (r.1.used = c.used ∨ Blank r.1) := by
  cases h with
  | touched | letGo => exact ⟨.inl rfl, .inl rfl⟩
  | consumerSend => exact (spends_linkConsumerSend ..).relinks
  | identify => exact (spends_linkIdentify ..).relinks
  | proofs => exact ⟨.inl rfl, .inl rfl⟩
  | request => exact (spends_linkRequest ..).relinks
  | sendResource => exact (spends_sendResource ..).relinks
  | established =>
    obtain ⟨hu, hl, -⟩ := established_keeps ..
    exact ⟨.inl hl, .inl hu⟩
  | unreached => exact ⟨.inr (.inl rfl), .inl rfl⟩
  | response | reqFailed => exact ⟨.inl rfl, .inl rfl⟩
  | timers => exact (spends_timers ..).relinks
  | awaits i c r hs h =>
    cases h with
    | dialled h => exact h.relinks.imp id .inl
    | asks | failed | waits => exact ⟨.inl rfl, .inl rfl⟩
  | overdue => exact ⟨.inr (.inl rfl), .inl rfl⟩
  | timedOut i c r hs hl hd h =>
    cases h with
    | dialled _ h => exact h.relinks.imp id .inl
    | waits | failed => exact ⟨.inl rfl, .inl rfl⟩
  | dead | chanTimedOut => exact ⟨.inl rfl, .inl rfl⟩
  | freed => exact ⟨.inr (.inl rfl), .inr blank_linkFreeSlot⟩
  | chanAwaits i c r hs h => exact h.relinks.imp id .inl
  | chanFreed => exact ⟨.inr (.inl rfl), .inr blank_chanReset⟩

theorem Opens.relinks (hc : c.link = none) (h : Opens now ⟨k, serial⟩ c k r) :
    Relinks serial k c r.1 ∧ r.1.used = c.used := by
  cases h with
  | waits => exact ⟨.inl rfl, rfl⟩
  | link h => exact h.relinks
  | channel h => exact h.relinks

theorem fill_keeps (k : Kind) (now : ℚ) (h : Handle) (w : Opening) (req : Connect) (serial : Nat) :
    (fill k now h w req serial c).1.used ∧ (fill k now h w req serial c).1.link = c.link := by
  cases k <;> exact ⟨rfl, rfl⟩

theorem seat_keeps (k : Kind) (now : ℚ) (w : Incoming) (owner : Listener) (l : LinkRef) (serial : Nat) :
    (seat k now w owner l serial c).1.used ∧ (seat k now w owner l serial c).1.link = some l ∧
      (seat k now w owner l serial c).1.state = .active := by
  cases k <;> exact ⟨rfl, rfl, rfl⟩

/-- Every write keeps the links apart. -/
theorem Wf.put (hw : n.Wf) (hs : n.slot k i = some c) (hl : Relinks n.serial k c r.1)
    (hb : r.1.used = false → Blank r.1) : (n.put k i r).Wf where
  blank := by
    intro k' j c' hs' hu
    rcases slot_put_cases hs hs' with ⟨-, -, rfl⟩ | ⟨-, hold⟩
    · exact hb hu
    · exact hw.blank k' j c' hold hu
  kind := by
    intro k' j c' l hs' hl'
    rcases slot_put_cases hs hs' with ⟨rfl, -, rfl⟩ | ⟨-, hold⟩
    · rcases hl with he | he | he
      · exact hw.kind _ _ _ _ hs (he ▸ hl')
      · rw [he] at hl'
        cases hl'
      · rw [he] at hl'
        cases hl'
        rfl
    · exact hw.kind _ _ _ _ hold hl'
  fresh := by
    intro k' j c' l hs' hl'
    rw [serial_put]
    rcases slot_put_cases hs hs' with ⟨rfl, -, rfl⟩ | ⟨-, hold⟩
    · rcases hl with he | he | he
      · exact Nat.lt_succ_of_lt (hw.fresh _ _ _ _ hs (he ▸ hl'))
      · rw [he] at hl'
        cases hl'
      · rw [he] at hl'
        cases hl'
        exact Nat.lt_succ_self _
    · exact Nat.lt_succ_of_lt (hw.fresh _ _ _ _ hold hl')
  apart := by
    -- a link other than the new one was there before
    have hback : ∀ {k' j c' l}, (n.put k i r).slot k' j = some c' → c'.link = some l →
        k' = k ∧ j = i ∧ l = ⟨k, n.serial⟩ ∨ ∃ c'', n.slot k' j = some c'' ∧ c''.link = some l := by
      intro k' j c' l hs' hl'
      rcases slot_put_cases hs hs' with ⟨rfl, rfl, rfl⟩ | ⟨-, hold⟩
      · rcases hl with he | he | he
        · exact .inr ⟨c, hs, he ▸ hl'⟩
        · rw [he] at hl'
          cases hl'
        · rw [he] at hl'
          cases hl'
          exact .inl ⟨rfl, rfl, rfl⟩
      · exact .inr ⟨c', hold, hl'⟩
    intro k' j j' c₁ c₂ l hs₁ hs₂ hl₁ hl₂
    rcases hback hs₁ hl₁ with ⟨rfl, rfl, rfl⟩ | ⟨c₁', hs₁', hl₁'⟩
    · rcases hback hs₂ hl₂ with ⟨-, rfl, -⟩ | ⟨c₂', hs₂', hl₂'⟩
      · rfl
      · exact absurd (hw.fresh _ _ _ _ hs₂' hl₂') (Nat.lt_irrefl _)
    · rcases hback hs₂ hl₂ with ⟨rfl, rfl, rfl⟩ | ⟨c₂', hs₂', hl₂'⟩
      · exact absurd (hw.fresh _ _ _ _ hs₁' hl₁') (Nat.lt_irrefl _)
      · exact hw.apart _ _ _ _ _ _ hs₁' hs₂' hl₁' hl₂'

theorem Wf.of_slots (hw : n.Wf) (hs : m.slot = n.slot) (hser : n.serial ≤ m.serial) : m.Wf where
  blank := by rw [hs]; exact hw.blank
  kind := by rw [hs]; exact hw.kind
  fresh k i c l hs' hl := by
    rw [hs] at hs'
    exact (hw.fresh k i c l hs' hl).trans_le hser
  apart := by rw [hs]; exact hw.apart

theorem Wf.conclude {out : Conclusion} (hw : n.Wf) (hs : n.slot k i = some c) (hu : c.used) :
    (n.put k i (concludeResource out c)).Wf :=
  hw.put hs (.inl rfl) fun hn => absurd hu (by simpa [concludeResource] using hn)

theorem linkEnds_unlinks : (linkEnds k now c).1.link = none := by
  cases k with
  | link =>
    simp only [linkEnds, linkClosed, quiet_apply]
    split <;> rfl
  | channel => rfl

/-- A slot with a link is in use. -/
theorem Wf.used (hw : n.Wf) (hs : n.slot k i = some c) (hl : c.link ≠ none) : c.used := by
  by_contra hu
  exact hl (hw.blank k i c hs (by simpa using hu)).link

theorem Wf.closes {skips : Node → Transfer → Prop} (hw : n.Wf) (h : Closes skips l n m) : m.Wf := by
  cases h with
  | concluded out ht hl hm =>
    exact Wf.conclude (hw.of_slots rfl le_rfl) (n := n.unregister _) hm.slot hm.spec.1
  | unknown | skipped | inactive => exact hw.of_slots rfl le_rfl
  | ended hr ha hs hu hl =>
    refine hw.put hs (.inr (.inl linkEnds_unlinks)) fun hn => ?_
    · have hf : Fades n.clock _ (linkEnds l.kind n.clock _).1 := fades_linkEnds hl
      rw [hf.used, hu] at hn
      cases hn

theorem Wf.micro (hw : n.Wf) (h : Micro Q n m) : m.Wf := by
  cases h with
  | closes l h => exact hw.closes h
  | move hs hu h =>
    refine hw.put hs h.relinks.1 fun hn => ?_
    rcases h.relinks.2 with he | hb
    · rw [he, hu] at hn
      cases hn
    · exact hb
  | @opened k i c r h req w hs hu hq hr =>
    obtain ⟨hu', hl⟩ := fill_keeps (c := c) k n.clock h w req n.serial
    obtain ⟨hrel, hused⟩ := hr.relinks (hl.trans (hw.blank _ _ _ hs hu).link)
    refine hw.put hs ?_ fun hn => ?_
    · unfold Relinks at hrel ⊢
      rwa [hl] at hrel
    · rw [hused, hu'] at hn
      cases hn
  | seated w owner hs hu hq =>
    obtain ⟨hu', hl, -⟩ := seat_keeps ..
    refine (hw.put hs (.inr (.inr hl)) fun hn => ?_).of_slots rfl le_rfl
    rw [hu'] at hn
    cases hn
  | marked g adv memory hs hu =>
    exact hw.put hs (.inl rfl) fun hn => absurd hu (by simpa [markResource] using hn)
  | again out hb hm => exact hw.conclude hm.slot hm.spec.1
  | active | waited => exact hw.of_slots rfl le_rfl
  | asked | refused => exact hw.of_slots rfl (Nat.le_succ _)

theorem Wf.steps (hw : n.Wf) (h : Steps Q n m) : m.Wf := by
  induction h with
  | refl => exact hw
  | tail _ hstep ih => exact ih.micro hstep

-- ---------------------------------------------------------------------------
-- Goodbyes and free slots
-- ---------------------------------------------------------------------------

theorem teardown_steps (hskip : ∀ m t, td.skips t → Q m (.skips t)) : Steps Q n (n.teardown o td) := by
  rcases teardown_closes hskip with he | ⟨l, -, h⟩
  · rw [he]
  · exact h.lift id fun _ _ hc => .closes l hc

/-- With nothing asked of what it skips, a goodbye is made of closing steps. -/
theorem teardown_some_closes : n.teardown o td = n ∨
    ∃ l, o = some l ∧ ReflTransGen (Closes (fun _ _ => True) l) n (n.teardown o td) :=
  teardown_closes fun _ _ _ => trivial

theorem teardown_fades : FadesTo n (n.teardown o td) := by
  rcases teardown_some_closes with he | ⟨l, -, h⟩
  · rw [he]
    exact .refl n
  · exact closes_fades h

theorem teardown_clock : (n.teardown o td).clock = n.clock := by
  rcases teardown_some_closes with he | ⟨l, -, h⟩
  · rw [he]
  · exact closes_clock h

/-- A goodbye that does not throw takes the link out of the slot. -/
theorem teardown_unlinks (hw : n.Wf) (hs : n.slot k i = some c) (ht : td.throws = false)
    (hs' : (n.teardown c.link td).slot k i = some c') : c'.link = none := by
  cases hl : c.link with
  | none =>
    rw [hl] at hs'
    cases hs.symm.trans hs'
    exact hl
  | some l =>
    rw [hl] at hs'
    obtain ⟨m, hsteps, he⟩ : ∃ m, ReflTransGen (Closes (fun _ _ => True) l) n m ∧
        n.closeLink l td.skips = m.onClosed l := by
      obtain ⟨m, hsteps, -, -, he⟩ := closeLink_eq (fun _ _ _ => trivial) l
      exact ⟨m, hsteps, he⟩
    have hw' : m.Wf := hw.steps (Q := fun _ _ => True) (hsteps.lift id fun _ _ h => .closes l h)
    obtain ⟨c₀, hs₀, hf⟩ := (closes_fades hsteps).slot hs
    simp only [teardown, ht, Bool.false_eq_true, if_false, he] at hs'
    have hkept : c₀.link ≠ some l → c₀.link = none := by
      intro hne
      rcases hf.link with ⟨hl', -⟩ | ⟨-, hl', -⟩
      · exact absurd (hl'.trans hl) hne
      · exact hl'
    rcases onClosed_cases (n := m) l with ⟨hnone, he'⟩ | ⟨j, c₁, hs₁, -, hl₁, he'⟩
    · rw [he'] at hs'
      cases hs₀.symm.trans hs'
      refine hkept fun hl' => ?_
      have hu : c'.used := hw'.used hs' (by simp [hl'])
      obtain rfl := hw'.kind _ _ _ _ hs₀ hl'
      exact findLink_eq_none.1 hnone i c' hs' hu hl'
    · rw [he'] at hs'
      rcases slot_put_cases hs₁ hs' with ⟨-, -, rfl⟩ | ⟨hne, hold⟩
      · exact linkEnds_unlinks
      · cases hs₀.symm.trans hold
        refine hkept fun hl' => hne ?_
        obtain rfl := hw'.kind _ _ _ _ hs₀ hl'
        exact ⟨rfl, hw'.apart _ _ _ _ _ _ hs₀ hs₁ hl' hl₁⟩

/-- The slot is free, and the clock has not moved. -/
structure Freed (n m : Node) (k : Kind) (i : Nat) : Prop where
  slot : ∃ c, m.slot k i = some c ∧ c.used = false
  clock : m.clock = n.clock

theorem chanFreeSlot_steps (hw : n.Wf) (hs : n.slot .channel i = some c) (hu : c.used)
    (hq : ∀ m c', c'.handle = c.handle → (td.throws = false → c'.link = none) → Q m (.frees .channel i c')) (hskip : ∀ m t, td.skips t → Q m (.skips t)) :
    Steps Q n (n.chanFreeSlot i td) ∧ Freed n (n.chanFreeSlot i td) .channel i := by
  obtain ⟨c', hs', hf⟩ : ∃ c', (n.teardown c.link td).slot _ i = some c' ∧ Fades _ c c' := teardown_fades.slot hs
  have he : n.chanFreeSlot i td = (n.teardown c.link td).act .channel i chanReset := by
    simp [chanFreeSlot, hs]
  have hu' : c'.used = true := by rw [hf.used, hu]
  rw [he]
  have hh : c'.handle = c.handle := by rw [hf.same]
  have hl : td.throws = false → c'.link = none := fun ht => teardown_unlinks hw hs ht hs'
  refine ⟨(teardown_steps hskip).tail (step_act hs' hu' (.chanFreed _ _ (hq _ _ hh hl))), ?_, ?_⟩
  · rw [act_eq hs', slot_put_self hs']
    exact ⟨_, rfl, rfl⟩
  · rw [act_eq hs', clock_put, teardown_clock]

theorem linkFreeSlot_steps (hs : n.slot .link i = some c) (hu : c.used) (hq : Q n (.frees .link i c)) :
    Steps Q n (n.act .link i linkFreeSlot) ∧ Freed n (n.act .link i linkFreeSlot) .link i := by
  refine ⟨.single (step_act hs hu (.freed _ _ c.link c.state hq)), ?_, ?_⟩
  · rw [act_eq hs, slot_put_self hs]
    exact ⟨_, rfl, rfl⟩
  · rw [act_eq hs, clock_put]

theorem freeSlot_steps (hw : n.Wf) (hs : n.slot k i = some c) (hu : c.used)
    (hq : ∀ m c', c'.handle = c.handle → Q m (.frees k i c')) (hskip : ∀ m t, td.skips t → Q m (.skips t)) :
    Steps Q n (n.freeSlot k i td) ∧ Freed n (n.freeSlot k i td) k i := by
  cases k with
  | link => exact linkFreeSlot_steps hs hu (hq n c rfl)
  | channel => exact chanFreeSlot_steps hw hs hu (fun m c' hh _ => hq m c' hh) hskip

theorem evict_steps (hw : n.Wf) (hs : n.slot k i = some c) (hu : c.used)
    (hq : ∀ m c', (td.throws = false → c'.link = none) → Q m (.frees k i c')) (hskip : ∀ m t, td.skips t → Q m (.skips t)) :
    Steps Q n (n.evict k i td) ∧ Freed n (n.evict k i td) k i := by
  cases k with
  | channel => exact chanFreeSlot_steps hw hs hu (fun m c' _ hl => hq m c' hl) hskip
  | link =>
    obtain ⟨c', hs', hf⟩ : ∃ c', (n.teardown c.link td).slot _ i = some c' ∧ Fades _ c c' := teardown_fades.slot hs
    have hu' : c'.used = true := by rw [hf.used, hu]
    simp only [evict, hs]
    refine ⟨(teardown_steps hskip).tail (step_act hs' hu' ?_), ?_, ?_⟩
    · rw [quiet_andThen]
      exact .freed _ _ none c'.state (hq _ _ fun ht => teardown_unlinks hw hs ht hs')
    · rw [act_eq hs', slot_put_self hs', quiet_andThen]
      exact ⟨_, rfl, rfl⟩
    · rw [act_eq hs', clock_put, teardown_clock]

theorem alloc_steps (hw : n.Wf) (h : n.alloc k td = some (i, m))
    (hq : Doomed n k i → ∀ m c', (td.throws = false → c'.link = none) → Q m (.frees k i c'))
    (hskip : ∀ m t, td.skips t → Q m (.skips t)) : Steps Q n m ∧ Freed n m k i := by
  unfold alloc at h
  split at h
  · next j hj =>
    obtain ⟨c, hs, hu⟩ := Slots.free_eq_some hj
    cases h
    exact ⟨.refl, ⟨c, hs, hu⟩, rfl⟩
  · next hn =>
    obtain ⟨j, hj, he⟩ := Option.map_eq_some_iff.1 h
    cases he
    obtain ⟨c, hs, hu, -⟩ := Slots.victim_eq_some hj
    exact evict_steps hw hs hu (hq ⟨hn, hj⟩) hskip

theorem Freed.not_full (h : Freed n m k i) : ∀ j, ¬ Doomed m k j := by
  rintro j ⟨hn, -⟩
  obtain ⟨c, hs, hu⟩ := h.slot
  have := Slots.free_eq_none.1 hn c (List.mem_of_getElem? hs)
  rw [hu] at this
  cases this

theorem reclaim_steps {tag : Text} (hw : n.Wf) (h : n.reclaim k tag td = some m)
    (hq : ∀ m i c, n.findTag k tag = some i → c.handle = none → Q m (.frees k i c)) (hskip : ∀ m t, td.skips t → Q m (.skips t)) :
    Steps Q n m ∧ (∀ j, Doomed m k j → m = n) ∧ m.clock = n.clock := by
  unfold reclaim at h
  split at h
  · cases h
    exact ⟨.refl, fun _ _ => rfl, rfl⟩
  · next i hf =>
    split at h
    · cases h
    · next hh =>
      cases h
      obtain ⟨c, hs, hu, -⟩ := findTag_eq_some hf
      have hh : c.handle = none := by simpa [hs] using hh
      obtain ⟨hsteps, hfree⟩ := freeSlot_steps hw hs hu (fun m c' hc => hq m i c' hf (hc.trans hh)) hskip
      exact ⟨hsteps, fun j hj => absurd hj (hfree.not_full j), hfree.clock⟩

-- ---------------------------------------------------------------------------
-- Consumers
-- ---------------------------------------------------------------------------

theorem connect_steps {h : Handle} {req : Connect} {w : Opening} (hw : n.Wf) (hp : Permits Q n (.connect k h req w)) :
    Steps Q n (n.connect k h req w) := by
  obtain ⟨hreclaim, hevict, hopen, hskip⟩ := hp
  unfold connect
  split
  · exact .refl
  · split
    · exact .refl
    · next m hm =>
      obtain ⟨hsteps, hsame, -⟩ := reclaim_steps hw hm hreclaim fun m t ht => hskip m t (.inl ht)
      split
      · exact hsteps
      · next i m' ha =>
        obtain ⟨hsteps', ⟨c, hs, hu⟩, -⟩ := alloc_steps (hw.steps hsteps) ha
          (fun hd m'' c hl => hevict m'' i c (hsame i hd ▸ hd) hl) fun m t ht => hskip m t (.inr ht)
        rw [act_eq hs]
        refine (hsteps.trans hsteps').tail (.opened h req w hs hu (hopen _ _ _ hm ha) ?_)
        cases k <;> exact openWith_opens _ w.env _

theorem onLinkDisconnect_steps {ref : Nat} (hp : Permits Q n (.detach .link ref td)) :
    Steps Q n (n.onLinkDisconnect ref td) := by
  unfold onLinkDisconnect
  split
  · exact .refl
  · next c hs =>
    split
    · exact .refl
    · next hu =>
      have hu : c.used = true := by simpa using hu
      have hstep : Micro Q n (n.act .link ref (quiet ({ · with handle := none }))) :=
        step_act hs hu (.letGo _ _ _)
      have hs₁ : (n.act .link ref (quiet ({ · with handle := none }))).slot .link ref =
          some { c with handle := none } := by
        rw [act_eq hs, slot_put_self hs]
        rfl
      obtain ⟨c', hs', hf⟩ : ∃ c', (Node.teardown _ c.link td).slot .link ref = some c' ∧ Fades _ _ c' :=
          teardown_fades.slot hs₁
      have hu' : c'.used = true := by rw [hf.used]; exact hu
      refine ((ReflTransGen.single hstep).trans (teardown_steps hp.2)).tail (step_act hs' hu' ?_)
      rw [quiet_andThen]
      exact .freed _ _ none .closed (hp.1 _ _ (by rw [hf.same]))

theorem onChannelDisconnect_steps {ref : Nat} (hw : n.Wf) (hp : Permits Q n (.detach .channel ref td)) :
    Steps Q n (n.onChannelDisconnect ref td) := by
  unfold onChannelDisconnect
  split
  · exact .refl
  · next c hs =>
    split
    · exact .refl
    · next hu =>
      have hu : c.used = true := by simpa using hu
      have hstep : Micro Q n (n.act .channel ref (quiet ({ · with handle := none }))) :=
        step_act hs hu (.letGo _ _ _)
      have hs₁ : (n.act .channel ref (quiet ({ · with handle := none }))).slot .channel ref =
          some { c with handle := none } := by
        rw [act_eq hs, slot_put_self hs]
        rfl
      exact .head hstep (chanFreeSlot_steps (hw.micro hstep) hs₁ hu (fun m c' hh _ => hp.1 m c' hh) hp.2).1

theorem onSendResource_steps {tag : Text} {buf : Option Nat} {len opaqueId : Nat} {made : Made}
    (hp : Permits Q n (.sendResource k tag buf len opaqueId made)) :
    Steps Q n (n.onSendResource k tag buf len opaqueId made) := by
  unfold onSendResource
  cases hf : n.findTag k tag with
  | none => exact .single (.refused ⟨n.serial, buf, len, opaqueId⟩ rfl (hp.1 hf))
  | some i =>
    obtain ⟨c, hs, hu, -⟩ := findTag_eq_some hf
    exact .single (step_act hs hu (.sendResource _ _ _ _ _ rfl (hp.2 i c hf hs)))

theorem onRequest_steps {sender : Task} {f : RequestFrame} {a : Asking} (hp : Permits Q n (.request sender f a)) :
    Steps Q n (n.onRequest sender f a) := by
  unfold onRequest
  split
  · exact .single (.asked _ rfl)
  · next i hf =>
    have hf : n.findTag .link f.tag = some i := by
      split at hf
      · cases hf
      · exact hf
    obtain ⟨c, hs, hu, -⟩ := findTag_eq_some hf
    exact .single (step_act hs hu (.request _ _ _ _ rfl hp))

/-- The frames that only touch the slot they name. -/
theorem found_steps {t : Transition Conn Event} (hs : n.slot k i = some c) (hu : c.used)
    (h : Move (Q n) n.clock n.serial k i c (t c)) : Steps Q n (n.act k i t) := .single (step_act hs hu h)

-- ---------------------------------------------------------------------------
-- Callbacks of the engine
-- ---------------------------------------------------------------------------

theorem onEstablished_steps {f : Flush} (hid : l.id < n.serial) (hp : Permits Q n (.established l f)) :
    Steps Q n (n.onEstablished l f) := by
  unfold onEstablished
  cases hf : n.findLink l.kind l with
  | none => exact .single (.active l hid fun i c hi => by rw [hf] at hi; cases hi)
  | some i =>
    obtain ⟨c, hs, hu, hl⟩ := findLink_eq_some hf
    obtain ⟨hu', hl', hst, -⟩ := established_keeps (c := c) l.kind n.clock f
    have hstep := step_act (t := established l.kind n.clock f) hs hu
      (.established _ _ _ _ (by simp [hl]) (hp.1 i c hf hs) hp.2)
    rw [act_eq hs] at hstep
    dsimp only
    rw [act_eq hs]
    refine .tail (.single hstep) (.active l (Nat.lt_succ_of_lt hid) fun j c' hj hs' => ?_)
    have hfind : (n.put l.kind i (established l.kind n.clock f c)).findLink l.kind l = some i := by
      unfold findLink put
      simp only [Function.update_self]
      exact Slots.find_set_self hf (by simp [hu', hu, hl', hl]) (by rw [hl', hl])
    cases hfind.symm.trans hj
    rw [slot_put_self hs] at hs'
    cases hs'
    rw [hst]
    decide

theorem closeLink_steps {skip : Transfer → Bool} (hp : Permits Q n (.closed l skip)) : Steps Q n (n.closeLink l skip) :=
  (closeLink_closes hp l).lift id fun _ _ h => .closes l h

theorem receiveAdv_steps {adv : ResourceAdvertisement} {g : Gate} {memory : Bool}
    (hp : Permits Q n (.advertised l adv g memory)) : Steps Q n (n.receiveAdv l adv g memory) := by
  unfold receiveAdv
  split
  · exact .refl
  · next hin =>
    have ha : l ∈ n.actives := by
      by_contra h
      exact hin (.inl h)
    split
    · exact .refl
    · next k i hg =>
      have hslot : ∃ c, n.slot k i = some c ∧ c.used ∧ c.link = some l ∧ admits g k n.inflight adv c := by
        unfold onResAdvertised at hg
        split at hg
        · next j hj =>
          obtain ⟨c, hs, hu, hl⟩ := findLink_eq_some hj
          split at hg
          · next hadm =>
            cases hg
            exact ⟨c, hs, hu, hl, by simpa [hs] using hadm⟩
          · cases hg
        · split at hg
          · next j hj =>
            obtain ⟨c, hs, hu, hl⟩ := findLink_eq_some hj
            split at hg
            · next hadm =>
              cases hg
              exact ⟨c, hs, hu, hl, by simpa [hs] using hadm⟩
            · cases hg
          · cases hg
      obtain ⟨c, hs, hu, hl, hadm⟩ := hslot
      rw [act_eq hs]
      exact .single (.marked g adv memory hs hu hl ha hadm (hp ha (fun h => hin (.inr h)) k i c hg hs))

theorem onResConcluded_steps {t : Transfer} {out : Conclusion} (hb : .began t ∈ n.log) :
    Steps Q n (n.onResConcluded t.hash out) := by
  rcases onResConcluded_cases (n := n) (h := t.hash) out with ⟨k, i, c, hm, he⟩ | ⟨-, -, he⟩
  · rw [he]
    exact .single (.again out hb hm)
  · rw [he]

theorem unregister_steps {t : Transfer} (hp : Permits Q n (.dropped t)) : Steps Q n (n.unregister t) := by
  by_cases ht : t ∈ n.resources
  · exact .single (.closes t.link (.skipped ht rfl hp))
  · rw [show n.unregister t = n by simp [unregister, List.erase_of_not_mem ht]]

theorem incoming_steps {w : Incoming} (hw : n.Wf) (hp : Permits Q n (.incoming k w)) : Steps Q n (n.incoming k w) := by
  obtain ⟨hevict, hseat, hskip⟩ := hp
  unfold incoming
  split
  · exact .refl
  · next owner _ =>
    split
    · exact .refl
    · next i m ha =>
      obtain ⟨hsteps, ⟨c, hs, hu⟩, -⟩ := alloc_steps hw ha (fun hd m' c hl => hevict m' i c hd hl)
        fun m' t ht => hskip m' t (.inl ht)
      -- the slot as it is once the link is seated
      obtain ⟨r, hr⟩ : ∃ r, r = seat k m.clock w owner ⟨k, m.serial⟩ m.serial c := ⟨_, rfl⟩
      have hblank := (hw.steps hsteps).blank _ _ _ hs hu
      have hfields : r.1.used ∧ r.1.resHash = [] ∧ r.1.state = .active := by
        rw [hr]
        cases k
        · exact ⟨rfl, rfl, rfl⟩
        · exact ⟨rfl, hblank.resHash, rfl⟩
      have hstep : Steps Q n { m.put k i r with actives := ⟨k, m.serial⟩ :: m.actives } :=
        hsteps.tail (by rw [hr]; exact .seated w owner hs hu (hseat m i ha))
      dsimp only
      rw [act_eq hs, ← hr]
      split
      · exact hstep
      · obtain ⟨c', hs', hf⟩ : ∃ c', (Node.teardown { m.put k i r with actives := ⟨k, m.serial⟩ :: m.actives }
            (some ⟨k, m.serial⟩) w.goodbye).slot k i = some c' ∧ Fades _ r.1 c' :=
          teardown_fades.slot (slot_put_self hs)
        have hres : c'.resHash = [] := by
          rcases hf.marker with ⟨he, -⟩ | he
          · rw [he, hfields.2.1]
          · exact he
        have hdead : c'.state = .closed ∨ c'.state = .failed → c'.deadAt = m.clock := by
          intro hd
          rcases hf.link with ⟨-, hst, -⟩ | ⟨-, -, he | he⟩
          · rw [hst, hfields.2.2] at hd
            rcases hd with hd | hd <;> cases hd
          · rw [he] at hd
            rcases hd with hd | hd <;> cases hd
          · exact he
        have hclock : (Node.teardown { m.put k i r with actives := ⟨k, m.serial⟩ :: m.actives }
            (some ⟨k, m.serial⟩) w.goodbye).clock = m.clock := teardown_clock
        refine (hstep.trans (teardown_steps fun m' t ht => hskip m' t (.inr ht))).tail
          (step_act hs' (by rw [hf.used, hfields.1]) ?_)
        rw [hclock]
        exact .unreached _ _ _ hres hdead

-- ---------------------------------------------------------------------------
-- Ticks
-- ---------------------------------------------------------------------------

theorem linkTickSlot_steps {w : Turn}
    (hfree : ∀ m c c', n.slot .link i = some c → Over n.clock c → Q m (.frees .link i c')) (hskip : ∀ m t, w.goodbye.skips t → Q m (.skips t)) :
    Steps Q n (n.linkTickSlot w i) := by
  unfold linkTickSlot
  split
  · exact .refl
  · next c hs =>
    split
    · exact .refl
    · next hu =>
      have hu : c.used = true := by simpa using hu
      obtain ⟨t, ht⟩ : ∃ t, t = (linkIdentifyTick n.clock w.identify).andThen (requestTick n.clock) := ⟨_, rfl⟩
      have hsp : Spends c (t c).1 := by
        rw [ht]
        exact spends_timers _ _
      obtain ⟨m, hm⟩ : ∃ m, m = n.act .link i t := ⟨_, rfl⟩
      have hstep : Steps Q n m := by
        rw [hm]
        refine .single (step_act hs hu ?_)
        rw [ht]
        exact .timers _ _ _
      have hclock : m.clock = n.clock := by
        rw [hm, act_eq hs, clock_put]
      have hs₁ : m.slot .link i = some (t c).1 := by
        rw [hm, act_eq hs, slot_put_self hs]
      obtain ⟨hu₁, hl₁, hst₁, -⟩ := hsp.keeps
      rw [hu] at hu₁
      simp only [← ht, ← hm]
      cases hst : c.state with
      | free | active | closing => exact hstep
      | awaitingPath =>
        exact hstep.tail (step_act hs₁ hu₁ (.awaits _ _ _ (hst₁.trans hst) (linkAwaitTick_awaited _ _)))
      | closed | failed =>
        have hdead : (t c).1.state = .closed ∨ (t c).1.state = .failed := by simp [hst₁, hst]
        refine hstep.tail (step_act hs₁ hu₁ ?_)
        rcases linkDeadTick_cases (c := (t c).1) m.clock with ⟨d, hd, he⟩ | ⟨hd, hg, he⟩
        · rw [he]
          exact .dead _ _ _ d hdead hd
        · rw [he]
          have hd₁ : (t c).1.deadAt = c.deadAt := by rw [hsp]
          rw [hst₁] at hdead
          rw [hd₁] at hd hg
          rw [hclock] at hg
          exact .freed _ _ (t c).1.link (t c).1.state (hfree m c _ hs ⟨hdead, hd, hg⟩)
      | establishing =>
        dsimp only
        split
        · next hd =>
          have hover : (t c).1.estabDeadline ≠ 0 ∧ (t c).1.estabDeadline ≤ m.clock := by
            rw [hsp]
            exact hd
          obtain ⟨m', hm'⟩ : ∃ m', m' = m.act .link i (quiet ({ · with link := none })) := ⟨_, rfl⟩
          have hstep' : Micro Q m m' := by
            rw [hm']
            exact step_act hs₁ hu₁ (.overdue _ _ (hst₁.trans hst) hover)
          have hs₂ : m'.slot .link i = some { (t c).1 with link := none } := by
            rw [hm', act_eq hs₁, slot_put_self hs₁]
            rfl
          have hclock' : m'.clock = m.clock := by
            rw [hm', act_eq hs₁, clock_put]
          obtain ⟨c₃, hs₃, hf⟩ : ∃ c₃, (m'.teardown c.link w.goodbye).slot .link i = some c₃ ∧ Fades _ _ c₃ :=
          teardown_fades.slot hs₂
          have hclock₃ : (m'.teardown c.link w.goodbye).clock = m'.clock := teardown_clock
          rcases hf.link with ⟨hl₃, hst₃, -, he₃⟩ | ⟨hne, -, -⟩
          · rw [← hm']
            refine ((hstep.tail hstep').trans (teardown_steps hskip)).tail (step_act hs₃ (by rw [hf.used, hu₁]) ?_)
            refine .timedOut _ _ _ (hst₃.trans (hst₁.trans hst)) hl₃ ?_ ?_
            · rw [he₃, hclock₃, hclock']
              exact hover
            · exact linkTimedOut_retried _ _
          · exact absurd rfl hne
        · exact hstep

theorem chanTickSlot_steps {w : Turn} (hw : n.Wf)
    (hfree : ∀ m c c', n.slot .channel i = some c → Over n.clock c → (w.goodbye.throws = false → c'.link = none) →
      Q m (.frees .channel i c')) (hskip : ∀ m t, w.goodbye.skips t → Q m (.skips t)) :
    Steps Q n (n.chanTickSlot w i) := by
  unfold chanTickSlot
  split
  · exact .refl
  · next c hs =>
    split
    · exact .refl
    · next hu =>
      have hu : c.used = true := by simpa using hu
      cases hst : c.state with
      | free | active | closing => exact .refl
      | awaitingPath => exact found_steps hs hu (.chanAwaits _ _ _ hst (chanAwaitTick_dialled _ _ hst))
      | establishing =>
        dsimp only
        split
        · obtain ⟨c', hs', hf⟩ : ∃ c', (n.teardown c.link w.goodbye).slot .channel i = some c' ∧ Fades _ c c' :=
          teardown_fades.slot hs
          have hclock : (n.teardown c.link w.goodbye).clock = n.clock := teardown_clock
          refine (teardown_steps hskip).tail (step_act hs' (by rw [hf.used, hu]) ?_)
          rw [hclock]
          exact .chanTimedOut _ _
        · exact .refl
      | closed | failed =>
        have hdead : c.state = .closed ∨ c.state = .failed := by simp [hst]
        dsimp only
        split
        · next hd => exact found_steps hs hu (.dead _ _ _ _ hdead (.inr ⟨hd, rfl⟩))
        · next hd =>
          split
          · next hg =>
            exact (chanFreeSlot_steps hw hs hu (fun m c' _ hl => hfree m c c' hs ⟨hdead, hd, hg⟩ hl) hskip).1
          · exact .refl

/-- Slots other than this one are left alone, but for the links that go. -/
structure FadesBut (k : Kind) (i : Nat) (n m : Node) : Prop where
  clock : m.clock = n.clock
  fades : ∀ k' j, ¬ (k' = k ∧ j = i) → Option.Rel (Fades n.clock) (n.slot k' j) (m.slot k' j)

theorem FadesTo.but (h : FadesTo n m) (hc : m.clock = n.clock) : FadesBut k i n m := ⟨hc, fun k' j _ => h k' j⟩

theorem FadesBut.refl (n : Node) : FadesBut k i n n := (FadesTo.refl n).but rfl

theorem FadesBut.trans {n₁ n₂ n₃ : Node} (h₁ : FadesBut k i n₁ n₂) (h₂ : FadesBut k i n₂ n₃) : FadesBut k i n₁ n₃ where
  clock := h₂.clock.trans h₁.clock
  fades k' j hne := by
    have h := h₂.fades k' j hne
    rw [h₁.clock] at h
    exact Fades.rel_trans (h₁.fades k' j hne) h

theorem fadesBut_act : FadesBut k i n (n.act k i t) := by
  unfold act
  split
  · exact .refl n
  · next c hs =>
    refine ⟨rfl, fun k' j hne => ?_⟩
    rw [slot_put hs, if_neg hne]
    exact FadesTo.refl n k' j

theorem fadesBut_teardown : FadesBut k i n (n.teardown o td) := teardown_fades.but teardown_clock

theorem fadesBut_tickSlot {w : Turn} : FadesBut k i n (n.tickSlot k w i) := by
  cases k with
  | link =>
    simp only [tickSlot, linkTickSlot]
    split
    · exact .refl n
    · split
      · exact .refl n
      · split
        · exact fadesBut_act.trans fadesBut_act
        · split
          · exact ((fadesBut_act.trans fadesBut_act).trans fadesBut_teardown).trans fadesBut_act
          · exact fadesBut_act
        · exact fadesBut_act.trans fadesBut_act
        · exact fadesBut_act.trans fadesBut_act
        · exact fadesBut_act
  | channel =>
    simp only [tickSlot, chanTickSlot, chanFreeSlot]
    split
    · exact .refl n
    · next c hs =>
      split
      · exact .refl n
      · split
        · exact fadesBut_act
        · split
          · exact fadesBut_teardown.trans fadesBut_act
          · exact .refl n
        · split
          · exact fadesBut_act
          · split
            · exact fadesBut_teardown.trans fadesBut_act
            · exact .refl n
        · split
          · exact fadesBut_act
          · split
            · exact fadesBut_teardown.trans fadesBut_act
            · exact .refl n
        · exact .refl n

/-- A slot whose link goes is not freed at once. -/
theorem Fades.over {now : ℚ} (h : Fades now c c') (ho : Over now c') : Over now c := by
  obtain ⟨hst, hd, hg⟩ := ho
  rcases h.link with ⟨-, hst', hd', -⟩ | ⟨-, -, he | he⟩
  · rw [hst'] at hst
    rw [hd'] at hd hg
    exact ⟨hst, hd, hg⟩
  · rw [he] at hst
    rcases hst with hst | hst <;> cases hst
  · rw [he, sub_self] at hg
    exact absurd hg (by decide)

theorem tick_steps {turns : Nat → Turn} (hw : n.Wf) (hp : Permits Q n (.tick k turns)) : Steps Q n (n.tick k turns) := by
  obtain ⟨hfree, hskip⟩ := hp
  -- the slots whose turn is to come are as they were, but for the links that went
  have hturns : ∀ (is : List Nat) (m : Node), is.Nodup → m.Wf → m.clock = n.clock →
      (∀ i ∈ is, Option.Rel (Fades n.clock) (n.slot k i) (m.slot k i)) →
      Steps Q m (is.foldl (fun m i => m.tickSlot k (turns i) i) m) := by
    intro is
    induction is with
    | nil => exact fun m _ _ _ _ => .refl
    | cons i is ih =>
      intro m hnd hw hc hrest
      obtain ⟨hni, hnd⟩ := List.nodup_cons.1 hnd
      have hover : ∀ m' c c', m.slot k i = some c → Over m.clock c →
          (k = .channel → (turns i).goodbye.throws = false → c'.link = none) → Q m' (.frees k i c') := by
        intro m' c c' hs ho hl
        have hi := hrest i (by simp)
        rw [hs] at hi
        rw [hc] at ho
        cases hn : n.slot k i with
        | none => rw [hn] at hi; cases hi
        | some c₀ =>
          rw [hn] at hi
          cases hi with
          | some hf => exact hfree m' i c₀ c' hn (hf.over ho) hl
      have hslot : Steps Q m (m.tickSlot k (turns i) i) := by
        cases k with
        | link => exact linkTickSlot_steps (fun m' c c' hs ho => hover m' c c' hs ho nofun) fun m' t ht => hskip m' i t ht
        | channel =>
          exact chanTickSlot_steps hw (fun m' c c' hs ho hl => hover m' c c' hs ho fun _ => hl)
            fun m' t ht => hskip m' i t ht
      have hbut : FadesBut k i m (m.tickSlot k (turns i) i) := fadesBut_tickSlot
      refine hslot.trans (ih _ hnd (hw.steps hslot) (hbut.clock.trans hc) fun j hj => ?_)
      have h := hbut.fades k j fun he => hni (he.2 ▸ hj)
      rw [hc] at h
      exact Fades.rel_trans (hrest j (by simp [hj])) h
  exact hturns _ n List.nodup_range hw rfl fun i _ => FadesTo.refl n k i

/-- Every operation is made of small steps. -/
theorem steps_step (hw : n.Wf) (op : Op) (hp : Permits Q n op) : Steps Q n (step n op) := by
  cases op with
  | wait dt => exact .single (.waited dt)
  | connect k h req w => exact connect_steps hw hp
  | incoming k w => exact incoming_steps hw hp
  | detach k ref td =>
    cases k with
    | link => exact onLinkDisconnect_steps hp
    | channel => exact onChannelDisconnect_steps hw hp
  | consumerSend h mdu throws bytes =>
    simp only [step, onLinkRecv]
    split
    · exact .refl
    · next i hf =>
      obtain ⟨c, hs, hu, -⟩ := findHandle_eq_some hf
      exact found_steps hs hu (.consumerSend _ _ _ _ _)
  | sendResource k tag buf len opaqueId made => exact onSendResource_steps hp
  | identify tag how key =>
    simp only [step, onIdentify]
    split
    · exact .refl
    · next i hf =>
      obtain ⟨c, hs, hu, -⟩ := findTag_eq_some hf
      exact found_steps hs hu (.identify _ _ _ _)
  | proofs tag expect =>
    simp only [step, onProofs]
    split
    · exact .refl
    · next i hf =>
      obtain ⟨c, hs, hu, -⟩ := findTag_eq_some hf
      exact found_steps hs hu (.proofs _ _ _)
  | request sender f a => exact onRequest_steps hp
  | established l f =>
    simp only [step]
    split
    · next hid => exact onEstablished_steps hid hp
    · exact .refl
  | closed l skips => exact closeLink_steps hp
  | advertised l adv g memory => exact receiveAdv_steps hp
  | concluded t out =>
    simp only [step]
    split
    · next ht => exact .single (.closes t.link (conclude_closes ht rfl out))
    · exact .refl
  | dropped t => exact unregister_steps hp
  | concludedAgain t out =>
    simp only [step]
    split
    · next hb => exact onResConcluded_steps hb
    · exact .refl
  | response mrid data memory =>
    simp only [step, onReqResponseCb]
    split
    · exact .refl
    · next i hf =>
      obtain ⟨c, hs, hu, hm, hne⟩ := findReqMrid_eq_some hf
      exact found_steps hs hu (.response _ _ _ _ (by rw [hm]; exact hne))
  | reqFailed mrid =>
    simp only [step, onReqFailedCb]
    split
    · exact .refl
    · next i hf =>
      obtain ⟨c, hs, hu, hm, hne⟩ := findReqMrid_eq_some hf
      exact found_steps hs hu (.reqFailed _ _ (by rw [hm]; exact hne))
  | touched l =>
    simp only [step, onTouched]
    split
    · exact .refl
    · next i hf =>
      obtain ⟨c, hs, hu, -⟩ := findLink_eq_some hf
      exact found_steps hs hu (.touched _ _ _)
  | tick k turns => exact tick_steps hw hp

end Node

end MicroReticulum.Rnsd
