import MicroReticulum.Rnsd.Moves

/-!
# What holds of every slot

An operation comes down to writes of single slots, so what every write keeps of
the slot it writes holds of every slot, in every state. That a slot is in one
of three phases, and what it may hold in each, is of this kind.
-/

namespace MicroReticulum.Rnsd.Node

open Lib Lib.Log Lib.Log.Transition
open Relation (ReflTransGen)
open MicroReticulum.MsgPack (Text ResourceAdvertisement)

-- ---------------------------------------------------------------------------
-- Writes
-- ---------------------------------------------------------------------------

/-- What is written to a slot, with what rnsd knows of the slot and the tables then. -/
inductive Write (Q : Node → Risk → Prop) (n : Node) : Kind → Nat → Conn → Conn × List Event → Prop
  | move {k i c r} (hu : c.used) (h : Move (Q n) n.clock n.serial k i c r) : Write Q n k i c r
  | opened {k i c r} (h req o) (hu : c.used = false) (hb : Blank c) (hq : Q n (.opens k req.tag h))
      (hr : Opens n.clock ⟨k, n.serial⟩ (fill k n.clock h o req n.serial c).1 k r) : Write Q n k i c r
  | seated {k i c} (w owner) (hu : c.used = false) (hb : Blank c)
      (hq : Q n (.seats k (inboundTag k w.linkId) w.taken)) :
      Write Q n k i c (seat k n.clock w owner ⟨k, n.serial⟩ n.serial c)
  | marked {k i c l} (g adv memory) (hu : c.used) (hl : c.link = some l) (ha : l ∈ n.actives)
      (hg : admits g k n.inflight adv c) (hq : Q n (.marks k i c adv memory)) :
      Write Q n k i c (markResource memory adv c)
  | concluded {k i c} (out) (hu : c.used) (hm : c.resHash ≠ []) : Write Q n k i c (concludeResource out c)
  | ended {k i c l} (hu : c.used) (hk : l.kind = k) (hl : c.link = some l) (ha : l ∉ n.actives) :
      Write Q n k i c (linkEnds k n.clock c)

/-- A small step writes one slot, or leaves the slots as they are. -/
inductive Effect (Q : Node → Risk → Prop) (n m : Node) : Prop
  | wrote {k i c r} (hs : n.slot k i = some c) (h : Write Q n k i c r) (hslot : m.slot = (n.put k i r).slot)
      (hlog : m.log = n.log ++ r.2) (hclock : m.clock = n.clock) (hserial : m.serial = n.serial + 1)
  | asked (r : Request) (hr : r.no = n.serial) (hm : m = n.say (.asked r :: reqFailDirect r))
  | refused (s : Send) (hs : s.no = n.serial) (hq : Q n (.refuses s)) (hm : m = n.say (.handed s :: free s.buf))
  | still (hslot : m.slot = n.slot) (hlog : m.log = n.log) (hclock : n.clock ≤ m.clock) (hserial : m.serial = n.serial)

variable {Q : Node → Risk → Prop} {q : Risk → Prop} {n m : Node} {k k' : Kind} {i j : Nat} {c c' : Conn}
  {r : Conn × List Event} {l : LinkRef} {I : Kind → Conn → Prop} {now : ℚ} {serial : Nat}

theorem Micro.effect (hw : n.Wf) (h : Micro Q n m) : Effect Q n m := by
  cases h with
  | closes l h =>
    cases h with
    | concluded out ht hl hm =>
      exact .wrote hm.slot (.concluded out hm.spec.1 (hm.spec.2.1 ▸ hm.spec.2.2)) rfl rfl rfl rfl
    | unknown | skipped | inactive => exact .still rfl rfl le_rfl rfl
    | ended hr ha hs hu hl => exact .wrote hs (.ended hu rfl hl ha) rfl rfl rfl rfl
  | move hs hu h => exact .wrote hs (.move hu h) rfl rfl rfl rfl
  | opened h req o hs hu hq hr => exact .wrote hs (.opened h req o hu (hw.blank _ _ _ hs hu) hq hr) rfl rfl rfl rfl
  | seated w owner hs hu hq => exact .wrote hs (.seated w owner hu (hw.blank _ _ _ hs hu) hq) rfl rfl rfl rfl
  | marked g adv memory hs hu hl ha hg hq => exact .wrote hs (.marked g adv memory hu hl ha hg hq) rfl rfl rfl rfl
  | again out hb hm => exact .wrote hm.slot (.concluded out hm.spec.1 (hm.spec.2.1 ▸ hm.spec.2.2)) rfl rfl rfl rfl
  | active => exact .still rfl rfl le_rfl rfl
  | asked r hr => exact .asked r hr rfl
  | refused s hs hq => exact .refused s hs hq rfl
  | waited dt => exact .still rfl rfl (by simp) rfl

/-- The slots of `m` are those of `n` but for one. -/
theorem Effect.slot (he : Effect Q n m) (hs : m.slot k j = some c') :
    n.slot k j = some c' ∨ ∃ c r, n.slot k j = some c ∧ Write Q n k j c r ∧ c' = r.1 := by
  cases he with
  | @wrote k' i c r hs' h hslot =>
    rw [hslot] at hs
    rcases slot_put_cases hs' hs with ⟨rfl, rfl, rfl⟩ | ⟨-, hold⟩
    · exact .inr ⟨c, r, hs', h, rfl⟩
    · exact .inl hold
  | asked r hr hm | refused s hs' hq hm =>
    subst hm
    exact .inl hs
  | still hslot =>
    rw [hslot] at hs
    exact .inl hs

theorem Effect.clock_le (he : Effect Q n m) : n.clock ≤ m.clock := by
  cases he with
  | wrote _ _ _ _ hclock => rw [hclock]
  | asked r hr hm | refused s hs hq hm => rw [hm]; exact le_rfl
  | still _ _ hclock => exact hclock

theorem Effect.serial_le (he : Effect Q n m) : n.serial ≤ m.serial := by
  cases he with
  | wrote _ _ _ _ _ hserial => rw [hserial]; exact Nat.le_succ _
  | asked r hr hm | refused s hs hq hm => rw [hm]; exact Nat.le_succ _
  | still _ _ _ hserial => rw [hserial]

/-- `I` holds of every slot. -/
def Each (I : Kind → Conn → Prop) (n : Node) : Prop := ∀ k i c, n.slot k i = some c → I k c

theorem Each.effect (hI : ∀ {k i c r}, n.slot k i = some c → I k c → Write Q n k i c r → I k r.1) (h : n.Each I)
    (he : Effect Q n m) : m.Each I := by
  intro k i c hs
  rcases he.slot hs with hold | ⟨c₀, r, hs₀, hwr, rfl⟩
  · exact h k i c hold
  · exact hI hs₀ (h k i c₀ hs₀) hwr

-- ---------------------------------------------------------------------------
-- Phases
-- ---------------------------------------------------------------------------

def Trying (c : Conn) : Prop := c.state = .awaitingPath ∨ c.state = .establishing

def Dead (c : Conn) : Prop := c.state = .closed ∨ c.state = .failed

/-- What a slot may hold in each phase. -/
structure Sane (k : Kind) (c : Conn) : Prop where
  free : c.used = false → c.state = .free
  phase : c.used → Trying c ∨ c.state = .active ∨ Dead c
  trying : Trying c → c.resHash = [] ∧ c.reqMrid = []
  awaiting : c.state = .awaitingPath → c.link = none ∧ (k = .link → c.attempts < RNSD_LINK_ATTEMPTS)
  establishing : c.state = .establishing → k = .link →
    0 < c.attempts ∧ c.attempts ≤ RNSD_LINK_ATTEMPTS ∧ 0 < c.estabDeadline
  active : c.state = .active → c.link ≠ none ∧ c.pendRes = none ∧
    (k = .link → c.pendIdentify = none ∧ c.pendPacket = none ∧ c.pendReq = none)
  dead : Dead c → k = .link → c.link = none

/-- The engine's links that are up, as far as the tables know them. -/
structure Up (n : Node) : Prop where
  known : ∀ l ∈ n.actives, l.id < n.serial
  up : ∀ k i c l, n.slot k i = some c → c.link = some l → l ∈ n.actives → c.state ≠ .establishing

theorem Sane.spends (h : Sane k c) (hsp : Spends c c') (ht : Trying c → c'.resHash = [] ∧ c'.reqMrid = [])
    (ha : c.state = .active → c'.pendRes = none ∧
      (k = .link → c'.pendIdentify = none ∧ c'.pendPacket = none ∧ c'.pendReq = none)) : Sane k c' := by
  obtain ⟨hu, hl, hst, -, hat⟩ := hsp.keeps
  have hd : c'.estabDeadline = c.estabDeadline := by rw [hsp]
  constructor
  · rw [hu, hst]
    exact h.free
  · rw [Trying, Dead, hu, hst]
    exact h.phase
  · rw [Trying, hst]
    exact ht
  · rw [hst, hl, hat]
    exact h.awaiting
  · rw [hst, hat, hd]
    exact h.establishing
  · rw [hst, hl]
    exact fun hact => ⟨(h.active hact).1, ha hact⟩
  · rw [Dead, hst, hl]
    exact h.dead

/-- An active slot has its link. -/
theorem Sane.not_idle (h : Sane k c) (ha : c.state = .active) : ¬ (c.link = none ∨ c.state ≠ .active) := by
  rintro (hl | hs)
  · exact (h.active ha).1 hl
  · exact hs ha

theorem Trying.not_active (h : Trying c) : c.state ≠ .active := by
  rcases h with h | h <;> rw [h] <;> decide

theorem Sane.consumerSend (h : Sane .link c) (mdu : Nat) (throws : Bool) (bytes : Bytes) :
    Sane .link (linkConsumerSend now mdu throws bytes c).1 := by
  refine h.spends (spends_linkConsumerSend ..) (fun ht => ?_) fun ha => ?_
  · unfold linkConsumerSend
    rw [if_neg fun h => ht.not_active h.1]
    split <;> exact h.trying ht
  · unfold linkConsumerSend
    rw [if_pos ⟨ha, (h.active ha).1⟩]
    split <;> exact (h.active ha).2

theorem Sane.identify (h : Sane .link c) (how : Identifying) (key : String) :
    Sane .link (linkIdentify now how key c).1 := by
  refine h.spends (spends_linkIdentify ..) (fun ht => ?_) fun ha => ?_
  · unfold linkIdentify
    rw [if_pos (.inr ht.not_active)]
    split <;> exact h.trying ht
  · unfold linkIdentify
    rw [if_neg (h.not_idle ha)]
    cases how <;> exact (h.active ha).2

theorem Sane.request (h : Sane .link c) (a : Asking) (req : Request) : Sane .link (linkRequest now a req c).1 := by
  refine h.spends (spends_linkRequest ..) (fun ht => ?_) fun ha => ?_
  · unfold linkRequest
    rw [if_pos (.inl ht.not_active)]
    split <;> exact h.trying ht
  · unfold linkRequest
    rw [if_neg (fun hi => h.not_idle ha hi.symm), linkStartRequest_fst]
    exact (h.active ha).2

theorem Sane.sendResource (h : Sane k c) (made : Made) (s : Send) : Sane k (sendResource made s c).1 := by
  refine h.spends (spends_sendResource ..) (fun ht => ?_) fun ha => ?_
  · unfold Rnsd.sendResource
    split
    · exact h.trying ht
    · rw [if_pos (.inr ht.not_active)]
      exact h.trying ht
  · unfold Rnsd.sendResource
    split
    · exact (h.active ha).2
    · rw [if_neg (h.not_idle ha), startOutboundResource_fst]
      exact (h.active ha).2

theorem linkIdentifyTick_fst (now : ℚ) (st : IdentifyStatus) :
    (linkIdentifyTick now st c).1 = { c with ident := (linkIdentifyTick now st c).1.ident } := by
  unfold linkIdentifyTick
  split
  · rfl
  · split
    · rfl
    · split
      · rfl
      · split <;> rfl

/-- A timer lets go of an overdue request. -/
theorem timers_fst (now : ℚ) (st : IdentifyStatus) : ∃ ident deadline mrid,
    ((linkIdentifyTick now st).andThen (requestTick now) c).1 =
      { c with ident := ident, reqDeadline := deadline, reqMrid := mrid } ∧ (mrid = c.reqMrid ∨ mrid = []) := by
  rw [andThen_apply]
  dsimp only
  rw [linkIdentifyTick_fst]
  unfold requestTick
  split
  · exact ⟨_, _, _, rfl, .inr rfl⟩
  · exact ⟨_, _, _, rfl, .inl rfl⟩

theorem Sane.timers (h : Sane .link c) (st : IdentifyStatus) :
    Sane .link ((linkIdentifyTick now st).andThen (requestTick now) c).1 := by
  refine h.spends (spends_timers ..) (fun ht => ?_) fun ha => ?_
  · obtain ⟨_, _, mrid, he, hm⟩ := timers_fst (c := c) now st
    rw [he]
    refine ⟨(h.trying ht).1, ?_⟩
    rcases hm with rfl | rfl
    · exact (h.trying ht).2
    · rfl
  · obtain ⟨_, _, mrid, he, -⟩ := timers_fst (c := c) now st
    rw [he]
    exact (h.active ha).2

/-- A used slot that is dead and without a link. -/
theorem sane_dead (hu : c.used) (hd : Dead c) (hl : c.link = none) : Sane k c where
  free h := by rw [hu] at h; cases h
  phase _ := .inr (.inr hd)
  trying ht := by rcases hd with h | h <;> rcases ht with h' | h' <;> rw [h] at h' <;> cases h'
  awaiting hs := by rcases hd with h | h <;> rw [h] at hs <;> cases hs
  establishing hs := by rcases hd with h | h <;> rw [h] at hs <;> cases hs
  active hs := by rcases hd with h | h <;> rw [h] at hs <;> cases hs
  dead _ _ := hl

theorem sane_awaiting (hu : c.used) (hs : c.state = .awaitingPath) (hq : c.resHash = [] ∧ c.reqMrid = [])
    (hl : c.link = none) (ha : k = .link → c.attempts < RNSD_LINK_ATTEMPTS) : Sane k c where
  free h := by rw [hu] at h; cases h
  phase _ := .inl (.inl hs)
  trying _ := hq
  awaiting _ := ⟨hl, ha⟩
  establishing h := by rw [hs] at h; cases h
  active h := by rw [hs] at h; cases h
  dead h := by rcases h with h | h <;> rw [hs] at h <;> cases h

theorem sane_establishing (hu : c.used) (hs : c.state = .establishing) (hq : c.resHash = [] ∧ c.reqMrid = [])
    (ha : k = .link → 0 < c.attempts ∧ c.attempts ≤ RNSD_LINK_ATTEMPTS ∧ 0 < c.estabDeadline) : Sane k c where
  free h := by rw [hu] at h; cases h
  phase _ := .inl (.inr hs)
  trying _ := hq
  awaiting h := by rw [hs] at h; cases h
  establishing _ := ha
  active h := by rw [hs] at h; cases h
  dead h := by rcases h with h | h <;> rw [hs] at h <;> cases h

theorem sane_active (hu : c.used) (hs : c.state = .active) (hl : c.link ≠ none) (hp : c.pendRes = none)
    (hq : k = .link → c.pendIdentify = none ∧ c.pendPacket = none ∧ c.pendReq = none) : Sane k c where
  free h := by rw [hu] at h; cases h
  phase _ := .inr (.inl hs)
  trying h := absurd hs h.not_active
  awaiting h := by rw [hs] at h; cases h
  establishing h := by rw [hs] at h; cases h
  active _ := ⟨hl, hp, hq⟩
  dead h := by rcases h with h | h <;> rw [hs] at h <;> cases h

theorem sane_unused (hu : c.used = false) (hs : c.state = .free) : Sane k c where
  free _ := hs
  phase h := by rw [hu] at h; cases h
  trying h := by rcases h with h | h <;> rw [hs] at h <;> cases h
  awaiting h := by rw [hs] at h; cases h
  establishing h := by rw [hs] at h; cases h
  active h := by rw [hs] at h; cases h
  dead h := by rcases h with h | h <;> rw [hs] at h <;> cases h

theorem nextAttempt_eq {a : Nat} (ha : a < RNSD_LINK_ATTEMPTS) : nextAttempt a = a + 1 := by
  unfold nextAttempt RNSD_LINK_ATTEMPTS at *
  rw [if_pos (by omega)]

theorem Dialled.sane (h : Dialled now l c r) (hnow : 0 < now) (hu : c.used) (hl : c.link = none)
    (hq : c.resHash = [] ∧ c.reqMrid = []) (ha : c.attempts < RNSD_LINK_ATTEMPTS) : Sane .link r.1 := by
  cases h with
  | failed => exact sane_dead hu (.inr rfl) hl
  | started d =>
    refine sane_establishing hu rfl hq fun _ => ⟨?_, ?_, ?_⟩
    · rw [nextAttempt_eq ha]
      exact Nat.succ_pos _
    · rw [nextAttempt_eq ha]
      exact ha
    · exact add_pos_of_pos_of_nonneg hnow (by simp)

theorem ChanDialled.sane (h : ChanDialled l c r) (hu : c.used) (hl : c.link = none)
    (hq : c.resHash = [] ∧ c.reqMrid = []) : Sane .channel r.1 := by
  cases h with
  | failed => exact sane_dead hu (.inr rfl) hl
  | started => exact sane_establishing hu rfl hq fun h => nomatch h
  | waits => exact sane_awaiting hu rfl hq hl fun h => nomatch h

theorem fill_filled (hb : Blank c) (k : Kind) (now : ℚ) (h : Handle) (w : Opening) (req : Connect) (serial : Nat) :
    ((fill k now h w req serial c).1.resHash = [] ∧ (fill k now h w req serial c).1.reqMrid = []) ∧
      (k = .link → (fill k now h w req serial c).1.attempts = 0) := by
  cases k with
  | link => exact ⟨⟨rfl, rfl⟩, fun _ => rfl⟩
  | channel => exact ⟨⟨hb.resHash, hb.reqMrid⟩, fun h => nomatch h⟩

theorem Opens.sane (h : Opens now l c k r) (hnow : 0 < now) (hu : c.used) (hl : c.link = none)
    (hq : c.resHash = [] ∧ c.reqMrid = []) (ha : k = .link → c.attempts = 0) : Sane k r.1 := by
  have hlt : k = .link → c.attempts < RNSD_LINK_ATTEMPTS := fun hk => by rw [ha hk]; decide
  cases h with
  | waits => exact sane_awaiting hu rfl hq hl hlt
  | link h => exact h.sane hnow hu hl hq (hlt rfl)
  | channel h => exact h.sane hu hl hq

theorem Sane.move (h : Sane k c) (hnow : 0 < now) (hu : c.used) (hm : Move q now serial k i c r) : Sane k r.1 := by
  cases hm with
  | touched | letGo => exact ⟨h.free, h.phase, h.trying, h.awaiting, h.establishing, h.active, h.dead⟩
  | consumerSend => exact h.consumerSend _ _ _
  | identify => exact h.identify _ _
  | proofs => exact ⟨h.free, h.phase, h.trying, h.awaiting, h.establishing, h.active, h.dead⟩
  | request => exact h.request _ _
  | sendResource => exact h.sendResource _ _
  | established k i c f hl =>
    obtain ⟨hu', hl', hs', -⟩ := established_keeps (c := c) k now f
    obtain ⟨hp, hq⟩ := established_spent (c := c) k now f
    exact sane_active (hu'.trans hu) hs' (hl' ▸ hl) hp hq
  | unreached => exact sane_dead hu (.inr rfl) rfl
  | response | reqFailed =>
    exact ⟨h.free, h.phase, fun ht => ⟨(h.trying ht).1, rfl⟩, h.awaiting, h.establishing, h.active, h.dead⟩
  | timers => exact h.timers _
  | awaits i c r hs h' =>
    have hq := h.trying (.inl hs)
    obtain ⟨hl, ha⟩ := h.awaiting hs
    cases h' with
    | dialled h' => exact h'.sane hnow hu hl hq (ha rfl)
    | asks => exact sane_awaiting hu hs hq hl ha
    | failed => exact sane_dead hu (.inr rfl) hl
    | waits => exact h
  | overdue i c hs => exact sane_establishing hu hs (h.trying (.inr hs)) (h.establishing hs)
  | timedOut i c r hs hl hd h' =>
    have hq := h.trying (.inr hs)
    cases h' with
    | dialled ha h' => exact h'.sane hnow hu hl hq ha
    | waits ha p => exact sane_awaiting hu rfl hq hl fun _ => ha
    | failed => exact sane_dead hu (.inr rfl) hl
  | dead => exact ⟨h.free, h.phase, h.trying, h.awaiting, h.establishing, h.active, h.dead⟩
  | freed => exact sane_unused rfl rfl
  | chanAwaits i c r hs h' => exact h'.sane hu (h.awaiting hs).1 (h.trying (.inl hs))
  | chanTimedOut =>
    refine ⟨fun hn => ?_, fun _ => .inr (.inr (.inr rfl)), fun ht => ?_, nofun, nofun, nofun, fun _ hk => nomatch hk⟩
    · have hn : c.used = false := hn
      rw [hu] at hn
      cases hn
    · rcases ht with h | h <;> cases h
  | chanFreed => exact sane_unused rfl rfl

/-- An advertisement is let through on a link that is up. -/
theorem Up.not_trying (hup : n.Up) (hsane : Sane k c) (hs : n.slot k i = some c) (hl : c.link = some l) (ha : l ∈ n.actives) :
    ¬ Trying c := by
  rintro (h | h)
  · rw [(hsane.awaiting h).1] at hl
    cases hl
  · exact hup.up k i c l hs hl ha h

theorem Sane.write (h : Sane k c) (hnow : 0 < n.clock) (hup : n.Up) (hs : n.slot k i = some c) (hw : Write Q n k i c r) :
    Sane k r.1 := by
  cases hw with
  | move hu hm => exact h.move hnow hu hm
  | opened a req w hu hb hq hr =>
    obtain ⟨hq, ha⟩ := fill_filled hb k n.clock a w req n.serial
    obtain ⟨hu', hl⟩ := fill_keeps (c := c) k n.clock a w req n.serial
    exact hr.sane hnow hu' (hl.trans hb.link) hq ha
  | seated w owner hu hb =>
    cases k with
    | link => exact sane_active rfl rfl nofun rfl fun _ => ⟨hb.pendIdentify, rfl, hb.pendReq⟩
    | channel => exact sane_active rfl rfl nofun hb.pendRes nofun
  | marked g adv memory hu hl ha =>
    have hnt := hup.not_trying h hs hl ha
    exact ⟨h.free, h.phase, fun ht => absurd ht hnt, h.awaiting, h.establishing, h.active, h.dead⟩
  | concluded out hu hm =>
    exact ⟨h.free, h.phase, fun ht => ⟨rfl, (h.trying ht).2⟩, h.awaiting, h.establishing, h.active, h.dead⟩
  | ended hu hk hl ha =>
    cases k with
    | channel => exact sane_dead hu (.inl rfl) rfl
    | link =>
      simp only [linkEnds, linkClosed, quiet_apply]
      split
      · next he =>
        obtain ⟨h1, h2, -⟩ := h.establishing he rfl
        exact sane_establishing hu he (h.trying (.inr he)) fun _ => ⟨h1, h2, hnow⟩
      · exact sane_dead hu (.inl rfl) rfl

-- ---------------------------------------------------------------------------
-- Links that are up
-- ---------------------------------------------------------------------------

/-- A slot that is establishing was so on this link before, or the link is new. -/
def Establishes (serial : Nat) (k : Kind) (c c' : Conn) : Prop :=
  c'.state = .establishing → ∀ l, c'.link = some l → c.state = .establishing ∧ c.link = some l ∨ l = ⟨k, serial⟩

theorem establishes_same (hs : c'.state = c.state) (hl : c'.link = c.link) : Establishes serial k c c' := by
  intro he l hl'
  exact .inl ⟨hs ▸ he, hl ▸ hl'⟩

theorem establishes_other (hs : c'.state ≠ .establishing) : Establishes serial k c c' := fun he => absurd he hs

theorem establishes_unlinked (hl : c'.link = none) : Establishes serial k c c' := by
  intro _ l hl'
  rw [hl] at hl'
  cases hl'

theorem Spends.establishes (h : Spends c c') : Establishes serial k c c' := establishes_same h.keeps.2.2.1 h.keeps.2.1

theorem Dialled.establishes (h : Dialled now ⟨k, serial⟩ c r) : Establishes serial k c' r.1 := by
  cases h with
  | failed => exact establishes_other nofun
  | started d => exact fun _ l hl => .inr (Option.some.inj hl).symm

theorem ChanDialled.establishes (h : ChanDialled ⟨k, serial⟩ c r) : Establishes serial k c' r.1 := by
  cases h with
  | failed | waits => exact establishes_other nofun
  | started d => exact fun _ l hl => .inr (Option.some.inj hl).symm

theorem Opens.establishes (h : Opens now ⟨k, serial⟩ c k r) : Establishes serial k c' r.1 := by
  cases h with
  | waits => exact establishes_other nofun
  | link h => exact h.establishes
  | channel h => exact h.establishes

theorem Move.establishes (h : Move q now serial k i c r) : Establishes serial k c r.1 := by
  cases h with
  | touched | letGo | proofs | response | reqFailed | dead => exact establishes_same rfl rfl
  | consumerSend => exact (spends_linkConsumerSend ..).establishes
  | identify => exact (spends_linkIdentify ..).establishes
  | request => exact (spends_linkRequest ..).establishes
  | sendResource => exact (spends_sendResource ..).establishes
  | established k i c f hl =>
    obtain ⟨-, -, hs, -⟩ := established_keeps (c := c) k now f
    exact establishes_other (by rw [hs]; decide)
  | unreached | chanTimedOut => exact establishes_other nofun
  | timers => exact (spends_timers ..).establishes
  | awaits i c r hs h =>
    cases h with
    | dialled h => exact h.establishes
    | asks | waits => exact establishes_same rfl rfl
    | failed => exact establishes_other nofun
  | overdue | freed | chanFreed => exact establishes_unlinked rfl
  | timedOut i c r hs hl hd h =>
    cases h with
    | dialled _ h => exact h.establishes
    | waits | failed => exact establishes_other nofun
  | chanAwaits i c r hs h => exact h.establishes

theorem Up.put (hup : n.Up) (hs : n.slot k i = some c) (h : Establishes n.serial k c r.1) : (n.put k i r).Up where
  known l hl := Nat.lt_succ_of_lt (hup.known l hl)
  up k' j c' l hs' hl' ha := by
    rcases slot_put_cases hs hs' with ⟨rfl, rfl, rfl⟩ | ⟨-, hold⟩
    · intro he
      rcases h he l hl' with ⟨hst, hl⟩ | rfl
      · exact hup.up _ _ c l hs hl ha hst
      · exact absurd (hup.known _ ha) (Nat.lt_irrefl _)
    · exact hup.up k' j c' l hold hl' ha

theorem Up.of_slots (hup : n.Up) (hs : m.slot = n.slot) (ha : ∀ l ∈ m.actives, l ∈ n.actives) (hser : n.serial ≤ m.serial) :
    m.Up where
  known l hl := (hup.known l (ha l hl)).trans_le hser
  up k i c l hs' hl' hact := by
    rw [hs] at hs'
    exact hup.up k i c l hs' hl' (ha l hact)

theorem Up.micro (hup : n.Up) (hw : n.Wf) (h : Micro Q n m) : m.Up := by
  cases h with
  | closes l h =>
    cases h with
    | @concluded t _ _ _ out ht hl hm =>
      exact (hup.of_slots (m := n.unregister t) rfl (fun _ h => h) le_rfl).put hm.slot (establishes_same rfl rfl)
    | unknown | skipped => exact hup.of_slots rfl (fun _ h => h) le_rfl
    | inactive => exact hup.of_slots rfl (fun _ h => List.mem_of_mem_filter h) le_rfl
    | ended hr ha hs hu hl =>
      exact hup.put hs (establishes_unlinked linkEnds_unlinks)
  | move hs hu h => exact hup.put hs h.establishes
  | opened h req w hs hu hq hr => exact hup.put hs hr.establishes
  | @seated k i c w owner hs hu hq =>
    obtain ⟨-, hl, hst⟩ := seat_keeps (c := c) k n.clock w owner ⟨k, n.serial⟩ n.serial
    have hput := hup.put (r := seat k n.clock w owner ⟨k, n.serial⟩ n.serial c) hs
      (establishes_other (by rw [hst]; decide))
    refine ⟨fun l hl => ?_, fun k' j c' l hs' hl' ha => ?_⟩
    · rcases List.mem_cons.1 hl with rfl | hl
      · exact Nat.lt_succ_self _
      · exact hput.known l hl
    · rcases List.mem_cons.1 ha with rfl | ha
      · rcases slot_put_cases hs hs' with ⟨rfl, rfl, rfl⟩ | ⟨-, hold⟩
        · rw [hst]
          decide
        · exact absurd (hw.fresh _ _ _ _ hold hl') (Nat.lt_irrefl _)
      · exact hput.up k' j c' l hs' hl' ha
  | marked g adv memory hs hu => exact hup.put hs (establishes_same rfl rfl)
  | again out hb hm => exact hup.put hm.slot (establishes_same rfl rfl)
  | active l hid hne =>
    refine ⟨fun l' hl' => ?_, fun k i c l' hs hl' ha => ?_⟩
    · rcases List.mem_cons.1 hl' with rfl | hl'
      · exact hid
      · exact hup.known l' hl'
    · rcases List.mem_cons.1 ha with rfl | ha
      · -- the slot that has the link is the one that is found
        have hs : n.slot k i = some c := hs
        obtain rfl := hw.kind _ _ _ _ hs hl'
        have hu : c.used := hw.used hs (by simp [hl'])
        cases hf : n.findLink l'.kind l' with
        | none => exact absurd hl' (findLink_eq_none.1 hf i c hs hu)
        | some j =>
          obtain ⟨c', hs', -, hl''⟩ := findLink_eq_some hf
          obtain rfl := hw.apart _ _ _ _ _ _ hs hs' hl' hl''
          exact hne i c hf hs
      · exact hup.up k i c l' hs hl' ha
  | asked | refused => exact hup.of_slots rfl (fun _ h => h) (Nat.le_succ _)
  | waited => exact hup.of_slots rfl (fun _ h => h) le_rfl

-- ---------------------------------------------------------------------------
-- Every state
-- ---------------------------------------------------------------------------

structure Inv (n : Node) : Prop where
  wf : n.Wf
  up : n.Up
  sane : n.Each Sane
  clock : 0 < n.clock

theorem Inv.micro (h : n.Inv) (hm : Micro Q n m) : m.Inv where
  wf := h.wf.micro hm
  up := h.up.micro h.wf hm
  sane := h.sane.effect (fun hs hI hw => hI.write h.clock h.up hs hw) (hm.effect h.wf)
  clock := h.clock.trans_le (hm.effect h.wf).clock_le

theorem Inv.steps (h : n.Inv) (hm : Steps Q n m) : m.Inv := by
  induction hm with
  | refl => exact h
  | tail _ hstep ih => exact ih.micro hstep

/-- What nothing is asked of is permitted everywhere. -/
theorem permits_true (n : Node) (op : Op) : Permits (fun _ _ => True) n op := by
  cases op <;> simp [Permits]

theorem Inv.step (h : n.Inv) (op : Op) : (Rnsd.step n op).Inv := h.steps (steps_step h.wf op (permits_true n op))

/-- rnsd as it starts. -/
def boot (t : ℚ) : Node := { clock := t }

theorem slot_boot {t : ℚ} (hs : (boot t).slot k i = some c) : c = {} := by
  unfold slot boot at hs
  exact List.eq_of_mem_replicate (List.mem_of_getElem? hs)

theorem inv_boot {t : ℚ} (ht : 0 < t) : (boot t).Inv where
  wf := by
    refine ⟨fun k i c hs _ => ?_, fun k i c l hs hl => ?_, fun k i c l hs hl => ?_, fun k i j c c' l hs _ hl _ => ?_⟩
    · rw [slot_boot hs]
      exact ⟨rfl, rfl, rfl, rfl, rfl, rfl, rfl, rfl⟩
    all_goals
      rw [slot_boot hs] at hl
      cases hl
  up := by
    refine ⟨fun l hl => ?_, fun k i c l hs hl => ?_⟩
    · cases hl
    · rw [slot_boot hs] at hl
      cases hl
  sane := by
    intro k i c hs
    rw [slot_boot hs]
    exact sane_unused rfl rfl
  clock := ht

end MicroReticulum.Rnsd.Node
