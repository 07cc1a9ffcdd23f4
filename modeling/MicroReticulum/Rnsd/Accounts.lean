import MicroReticulum.Rnsd.Attribution
import MicroReticulum.Rnsd.Opening

/-!
# The account of an opening

Every use of a slot has its number, under which its attempts and the waiting
items that go out are logged. A slot of the link table carries the account of
its own use, and no use has more than its share.
-/

namespace MicroReticulum.Rnsd.Node

open Lib Lib.Log Lib.Log.Transition Lib.Runs
open Relation (ReflTransGen)
open MicroReticulum.MsgPack (Text ResourceAdvertisement)

variable {Q : Node → Risk → Prop} {q : Risk → Prop} {n m : Node} {k : Kind} {i o : Nat} {c c' : Conn}
  {r : Conn × List Event} {l : LinkRef} {now : ℚ} {serial : Nat} {log evs evs' : List Event}

-- ---------------------------------------------------------------------------
-- The account of an opening
-- ---------------------------------------------------------------------------

def starts (o : Nat) : Event → Bool
  | .started o' _ => o' = o
  | _ => false

def flushes (o : Nat) : Event → Option Item
  | .flushed o' item => if o' = o then some item else none
  | _ => none

/-- How many establishments are started for an opening. -/
def attempted (o : Nat) (log : List Event) : Nat := log.countP (starts o)

/-- The waiting items that are issued for it. -/
def issued (o : Nat) (log : List Event) : List Item := log.filterMap (flushes o)

/-- The order in which what waits for a link goes out. -/
def flushOrder : List Item := [.identify, .packet, .resource, .request]

@[simp] theorem attempted_append : attempted o (evs ++ evs') = attempted o evs + attempted o evs' := List.countP_append

@[simp] theorem issued_append : issued o (evs ++ evs') = issued o evs ++ issued o evs' := List.filterMap_append

/-- The number of the opening an event is of. -/
def openingOf : Event → Option Nat
  | .started o _ | .flushed o _ => some o
  | _ => none

/-- Nothing is logged of the opening. -/
def Silent (o : Nat) (evs : List Event) : Prop := ∀ e ∈ evs, openingOf e ≠ some o

theorem Silent.attempted (h : Silent o evs) : attempted o evs = 0 := by
  refine List.countP_eq_zero.2 fun e he hs => h e he ?_
  cases e with
  | started o' l =>
    simp only [starts, decide_eq_true_eq] at hs
    rw [openingOf, hs]
  | _ => cases hs

theorem Silent.issued (h : Silent o evs) : issued o evs = [] := by
  refine List.filterMap_eq_nil_iff.2 fun e he => ?_
  cases e with
  | flushed o' item =>
    have hne := h _ he
    simp only [openingOf, ne_eq, Option.some.injEq] at hne
    simp [flushes, hne]
  | _ => rfl

theorem openingOf_eq_none {e : Event} (h : topic e ≠ .opening) : openingOf e = none := by
  cases e with
  | started | flushed => exact absurd rfl h
  | _ => rfl

theorem About.silent {topics : List Topic} (h : About topics evs) (ht : .opening ∉ topics) : Silent o evs := by
  intro e he
  rw [openingOf_eq_none fun hop => ht (hop ▸ h e he)]
  nofun

theorem silent_nil : Silent o [] := by simp [Silent]

theorem about_asked (req : Request) : About [.request] (.asked req :: reqFailDirect req) := by
  simpa [topic] using about_reqFailDirect req

theorem about_refused (s : Send) : About [.send] (.handed s :: free s.buf) := by
  simpa [topic] using about_free s.buf

theorem about_request (now : ℚ) (a : Asking) (req : Request) :
    About [.request] ((Transition.act id (.asked req)).andThen (linkRequest now a req) c).2 := by
  simpa [act_andThen, topic] using about_linkRequest now a req

theorem about_handed (made : Made) (s : Send) :
    About [.transfer, .send] ((Transition.act id (.handed s)).andThen (sendResource made s) c).2 := by
  simpa [act_andThen, topic] using about_sendResource made s

theorem Silent.append (h : Silent o evs) (h' : Silent o evs') : Silent o (evs ++ evs') := by
  intro e he
  rcases List.mem_append.1 he with he | he
  · exact h e he
  · exact h' e he

-- ---------------------------------------------------------------------------
-- What a link's coming up issues
-- ---------------------------------------------------------------------------

/-- One item at most, and no attempt. -/
def Issues (item : Item) (o : Nat) (evs : List Event) : Prop :=
  evs = [] ∨ ∃ rest, evs = .flushed o item :: rest ∧ ∀ e ∈ rest, openingOf e = none

theorem About.issues {topics : List Topic} {item : Item} (h : About topics evs) (ht : .opening ∉ topics) :
    Issues item o (.flushed o item :: evs) :=
  .inr ⟨evs, rfl, fun e he => openingOf_eq_none fun hop => ht (hop ▸ h e he)⟩

theorem issues_flushIdentify (now : ℚ) (how : Identifying) :
    Issues .identify c.opening (flushIdentify now how c).2 := by
  unfold flushIdentify
  split
  · exact .inl rfl
  · exact (about_linkIdentifyNow now how _).issues (by simp)

theorem issues_flushPacket (throws : Bool) : Issues .packet c.opening (flushPacket throws c).2 := by
  unfold flushPacket
  split
  · exact .inl rfl
  · next bytes _ =>
    have habout : About [.other] (if throws then [] else [.packet c.link bytes]) := by
      split <;> simp [topic]
    exact habout.issues (by simp)

theorem issues_flushResource (made : Made) : Issues .resource c.opening (flushResource made c).2 := by
  unfold flushResource
  split
  · exact .inl rfl
  · exact (about_startOutboundResource made _).issues (by simp)

theorem issues_flushRequest (now : ℚ) (a : Asking) : Issues .request c.opening (flushRequest now a c).2 := by
  unfold flushRequest
  split
  · exact .inl rfl
  · exact (about_linkStartRequest now a _).issues (by simp)

theorem Issues.silent {item : Item} {o' : Nat} (h : Issues item o evs) (hne : o ≠ o') : Silent o' evs := by
  rcases h with rfl | ⟨rest, rfl, hrest⟩
  · exact silent_nil
  · intro e he
    rcases List.mem_cons.1 he with rfl | he
    · simpa [openingOf] using hne
    · rw [hrest e he]
      nofun

theorem Issues.attempted {item : Item} (h : Issues item o evs) : attempted o evs = 0 := by
  rcases h with rfl | ⟨rest, rfl, hrest⟩
  · rfl
  · have hr : Silent o rest := fun e he => by simp [hrest e he]
    have hzero := hr.attempted
    unfold Node.attempted at hzero ⊢
    rw [List.countP_cons_of_neg (by simp [starts]), hzero]

theorem Issues.issued {item : Item} (h : Issues item o evs) : (issued o evs).Sublist [item] := by
  rcases h with rfl | ⟨rest, rfl, hrest⟩
  · exact List.nil_sublist _
  · have hr : Silent o rest := fun e he => by simp [hrest e he]
    have hnil := hr.issued
    have hitem : flushes o (.flushed o item) = some item := by simp [flushes]
    unfold Node.issued at hnil ⊢
    rw [List.filterMap_cons_some hitem, hnil]

theorem openings_established (now : ℚ) (f : Flush) :
    let c₁ := flushIdentify now f.identify (activate now c).1
    let c₂ := flushPacket f.packetThrows c₁.1
    let c₃ := flushResource f.made c₂.1
    c₁.1.opening = c.opening ∧ c₂.1.opening = c.opening ∧ c₃.1.opening = c.opening := by
  have h₁ := (spends_flushIdentify (c := (activate now c).1) now f.identify).keeps.2.2.2.1
  have h₂ := (spends_flushPacket (c := (flushIdentify now f.identify (activate now c).1).1) f.packetThrows).keeps.2.2.2.1
  have h₃ := (spends_flushResource (c := (flushPacket f.packetThrows
    (flushIdentify now f.identify (activate now c).1).1).1) f.made).keeps.2.2.2.1
  exact ⟨h₁, h₂.trans h₁, h₃.trans (h₂.trans h₁)⟩

/-- The items in their order, each once at most. -/
theorem linkEstablished_issues (now : ℚ) (f : Flush) : ∃ evs₁ evs₂ evs₃ evs₄,
    (linkEstablished now f c).2 = evs₁ ++ (evs₂ ++ (evs₃ ++ evs₄)) ∧ Issues .identify c.opening evs₁ ∧
      Issues .packet c.opening evs₂ ∧ Issues .resource c.opening evs₃ ∧ Issues .request c.opening evs₄ := by
  obtain ⟨h₁, h₂, h₃⟩ := openings_established (c := c) now f
  rw [linkEstablished_apply]
  refine ⟨_, _, _, _, rfl, issues_flushIdentify now f.identify, ?_, ?_, ?_⟩
  · rw [← h₁]
    exact issues_flushPacket _
  · rw [← h₂]
    exact issues_flushResource _
  · rw [← h₃]
    exact issues_flushRequest now f.asking

theorem linkEstablished_issued (now : ℚ) (f : Flush) :
    (issued c.opening (linkEstablished now f c).2).Sublist flushOrder ∧
      attempted c.opening (linkEstablished now f c).2 = 0 := by
  obtain ⟨evs₁, evs₂, evs₃, evs₄, he, h₁, h₂, h₃, h₄⟩ := linkEstablished_issues (c := c) now f
  rw [he]
  simp only [issued_append, attempted_append, h₁.attempted, h₂.attempted, h₃.attempted, h₄.attempted]
  exact ⟨h₁.issued.append (h₂.issued.append (h₃.issued.append h₄.issued)), trivial⟩

theorem linkEstablished_silent (now : ℚ) (f : Flush) (hne : c.opening ≠ o) : Silent o (linkEstablished now f c).2 := by
  obtain ⟨evs₁, evs₂, evs₃, evs₄, he, h₁, h₂, h₃, h₄⟩ := linkEstablished_issues (c := c) now f
  rw [he]
  exact (h₁.silent hne).append ((h₂.silent hne).append ((h₃.silent hne).append (h₄.silent hne)))

/-- An active slot has nothing left to issue. -/
theorem linkEstablished_idle (now : ℚ) (f : Flush) (h : Sane .link c) (ha : c.state = .active) :
    Silent o (linkEstablished now f c).2 := by
  obtain ⟨-, hres, hrest⟩ := h.active ha
  obtain ⟨hid, hpk, hrq⟩ := hrest rfl
  have he : (linkEstablished now f c).2 = [] := by
    simp [linkEstablished_apply, flushIdentify, flushPacket, flushResource, flushRequest, activate, hres, hid, hpk, hrq]
  rw [he]
  exact silent_nil

-- ---------------------------------------------------------------------------
-- What a write adds to the account
-- ---------------------------------------------------------------------------

theorem Dialled.silent (h : Dialled now l c r) (hne : c.opening ≠ o) : Silent o r.2 := by
  cases h with
  | failed => exact silent_nil
  | started d => simpa [Silent, openingOf] using hne

theorem Opens.silent (h : Opens now l c k r) (hne : c.opening ≠ o) : Silent o r.2 := by
  cases h with
  | waits => exact silent_nil
  | link h => exact h.silent hne
  | channel h =>
    rw [snd_chanDialled h]
    exact silent_nil

theorem chanEstablished_silent (now : ℚ) (f : Flush) (hne : c.opening ≠ o) : Silent o (chanEstablished now f c).2 := by
  rw [chanEstablished_apply]
  have ho : (chanIdentify f.identify (activate now c).1).1.opening = c.opening :=
    (spends_chanIdentify (c := (activate now c).1) f.identify).keeps.2.2.2.1
  refine ((about_chanIdentify f.identify).silent (by simp)).append ?_
  refine Issues.silent (o := (chanIdentify f.identify (activate now c).1).1.opening) (issues_flushResource f.made) ?_
  rw [ho]
  exact hne

/-- A slot's own opening is all that is logged with a move of it. -/
theorem Move.silent (h : Move q now serial k i c r) (hne : c.opening ≠ o) : Silent o r.2 := by
  cases h with
  | touched | letGo | proofs | unreached | overdue | dead | chanTimedOut => exact silent_nil
  | consumerSend => exact (about_linkConsumerSend _ _ _ _).silent (by simp)
  | identify => exact (about_linkIdentify _ _ _).silent (by simp)
  | request => exact (about_request _ _ _).silent (by simp)
  | sendResource => exact (about_handed _ _).silent (by simp)
  | established k i c f =>
    cases k with
    | link => exact linkEstablished_silent now f hne
    | channel => exact chanEstablished_silent now f hne
  | response => exact (about_reqResponse _ _ _).silent (by simp)
  | reqFailed => exact (about_reqSendAux _ _).silent (by simp)
  | timers => exact (about_timers _ _).silent (by simp)
  | awaits i c r hs h =>
    cases h with
    | dialled h => exact h.silent hne
    | asks | failed | waits => exact silent_nil
  | timedOut i c r hs hl hd h =>
    cases h with
    | dialled ha h => exact h.silent hne
    | waits | failed => exact silent_nil
  | freed => exact about_linkFreeSlot.silent (by simp)
  | chanFreed => exact about_chanReset.silent (by simp)
  | chanAwaits i c r hs h =>
    rw [snd_chanDialled h]
    exact silent_nil

/-- A write is of the slot's opening, or of the one that begins with it. -/
theorem Write.silent (hw : Write Q n k i c r) (hne : c.used → c.opening ≠ o) (hser : c.used = false → o ≠ n.serial) :
    Silent o r.2 := by
  cases hw with
  | move hu h => exact h.silent (hne hu)
  | opened h req w hu hb hq hr =>
    refine hr.silent fun he => hser hu (he.symm.trans ?_)
    cases k <;> rfl
  | seated => cases k <;> exact silent_nil
  | marked => exact (about_began _ _ _).silent (by simp)
  | concluded => exact (about_concludeResource _).silent (by simp)
  | ended =>
    cases k with
    | channel => exact silent_nil
    | link =>
      simp only [linkEnds, linkClosed, quiet_apply]
      exact silent_nil

-- ---------------------------------------------------------------------------
-- Slots and their accounts
-- ---------------------------------------------------------------------------

/-- What is never exceeded for an opening of the link table. -/
structure Bounded (o : Nat) (log : List Event) : Prop where
  attempts : attempted o log ≤ RNSD_LINK_ATTEMPTS
  items : (issued o log).Sublist flushOrder

/-- A slot has counted its attempts, and issues nothing before it is up. -/
structure Told (c : Conn) (log : List Event) : Prop extends Bounded c.opening log where
  counted : attempted c.opening log ≤ c.attempts
  waiting : Trying c → issued c.opening log = []

theorem Bounded.silent (h : Bounded o log) (hs : Silent o evs) : Bounded o (log ++ evs) where
  attempts := by simpa [hs.attempted] using h.attempts
  items := by simpa [hs.issued] using h.items

theorem Told.silent (h : Told c log) (hs : Silent c.opening evs) (ho : c'.opening = c.opening)
    (ha : c.attempts ≤ c'.attempts) (ht : Trying c' → Trying c) : Told c' (log ++ evs) where
  toBounded := by
    rw [ho]
    exact h.toBounded.silent hs
  counted := by
    rw [ho, attempted_append, hs.attempted]
    exact h.counted.trans ha
  waiting htry := by
    rw [ho, issued_append, hs.issued, List.append_nil]
    exact h.waiting (ht htry)

theorem Told.spends (h : Told c log) (hsp : Spends c c') (hs : Silent c.opening evs) : Told c' (log ++ evs) := by
  obtain ⟨-, -, hst, ho, ha⟩ := hsp.keeps
  refine h.silent hs ho ha.ge fun ht => ?_
  rwa [Trying, hst] at ht

theorem not_trying_failed : ¬ Trying { c with state := .failed } := nofun

/-- One more attempt, while there is one left. -/
theorem Told.dialled (h : Told c log) (hd : Dialled now l c r) (ha : c.attempts < RNSD_LINK_ATTEMPTS) (ht : Trying c) :
    Told r.1 (log ++ r.2) := by
  cases hd with
  | failed => exact h.silent silent_nil rfl le_rfl fun htry => absurd htry not_trying_failed
  | started d =>
    have hone : attempted c.opening [.started c.opening l] = 1 := by simp [attempted, starts]
    have hnone : issued c.opening [.started c.opening l] = [] := rfl
    refine ⟨⟨?_, ?_⟩, ?_, fun _ => ?_⟩ <;> dsimp only
    · rw [attempted_append, hone]
      exact h.counted.trans_lt ha
    · rw [issued_append, hnone, List.append_nil]
      exact h.items
    · rw [attempted_append, hone, nextAttempt_eq ha]
      exact Nat.succ_le_succ h.counted
    · rw [issued_append, hnone, List.append_nil]
      exact h.waiting ht

/-- What waited goes out as the link comes up, and nothing after that. -/
theorem Told.established (h : Told c log) (hsane : Sane .link c) (hu : c.used) (hl : c.link ≠ none) (f : Flush) :
    Told (linkEstablished now f c).1 (log ++ (linkEstablished now f c).2) := by
  obtain ⟨-, -, hst, ho, ha⟩ := established_keeps (c := c) .link now f
  have hup : ¬ Trying (linkEstablished now f c).1 := fun ht => ht.not_active hst
  rcases hsane.phase hu with ht | hact | hd
  · obtain ⟨hitems, hnone⟩ := linkEstablished_issued (c := c) now f
    refine ⟨⟨?_, ?_⟩, ?_, fun ht' => absurd ht' hup⟩
    · rw [show (linkEstablished now f c).1.opening = c.opening from ho, attempted_append, hnone]
      exact h.attempts
    · rw [show (linkEstablished now f c).1.opening = c.opening from ho, issued_append, h.waiting ht, List.nil_append]
      exact hitems
    · rw [show (linkEstablished now f c).1.opening = c.opening from ho, attempted_append, hnone]
      exact h.counted.trans ha.ge
  · exact h.silent (linkEstablished_idle now f hsane hact) ho ha.ge fun ht' => absurd ht' hup
  · exact absurd (hsane.dead hd rfl) hl

/-- What is freed has no more to tell. -/
theorem Move.silent_freed (h : Move q now serial .link i c r) (hu : c.used) (hu' : ¬ r.1.used) : Silent o r.2 := by
  cases h with
  | freed => exact about_linkFreeSlot.silent (by simp)
  | touched | letGo | proofs | unreached | response | reqFailed | overdue | dead => exact absurd hu hu'
  | consumerSend => exact absurd ((spends_linkConsumerSend ..).keeps.1.trans hu) hu'
  | identify => exact absurd ((spends_linkIdentify ..).keeps.1.trans hu) hu'
  | request => exact absurd ((spends_linkRequest ..).keeps.1.trans hu) hu'
  | sendResource => exact absurd ((spends_sendResource ..).keeps.1.trans hu) hu'
  | established k i c f => exact absurd ((established_keeps (c := c) .link now f).1.trans hu) hu'
  | timers => exact absurd ((spends_timers ..).keeps.1.trans hu) hu'
  | awaits i c r hs h =>
    cases h with
    | dialled h => exact absurd (h.relinks.2.trans hu) hu'
    | asks | failed | waits => exact absurd hu hu'
  | timedOut i c r hs hl hd h =>
    cases h with
    | dialled ha h => exact absurd (h.relinks.2.trans hu) hu'
    | waits | failed => exact absurd hu hu'

theorem Told.move (h : Told c log) (hsane : Sane .link c) (hu : c.used) (hm : Move q now serial .link i c r)
    (hu' : r.1.used) : Told r.1 (log ++ r.2) := by
  cases hm with
  | touched | letGo | proofs | overdue | dead => exact h.silent silent_nil rfl le_rfl id
  | consumerSend => exact h.spends (spends_linkConsumerSend ..) ((about_linkConsumerSend _ _ _ _).silent (by simp))
  | identify => exact h.spends (spends_linkIdentify ..) ((about_linkIdentify _ _ _).silent (by simp))
  | request => exact h.spends (spends_linkRequest ..) ((about_request _ _ _).silent (by simp))
  | sendResource => exact h.spends (spends_sendResource ..) ((about_handed _ _).silent (by simp))
  | established k i c f hl => exact h.established hsane hu hl f
  | unreached => exact h.silent silent_nil rfl le_rfl fun ht => absurd ht nofun
  | response => exact h.silent ((about_reqResponse _ _ _).silent (by simp)) rfl le_rfl id
  | reqFailed => exact h.silent ((about_reqSendAux _ _).silent (by simp)) rfl le_rfl id
  | timers => exact h.spends (spends_timers ..) ((about_timers _ _).silent (by simp))
  | awaits i c r hs hw =>
    have ha := (hsane.awaiting hs).2 rfl
    cases hw with
    | dialled hw => exact h.dialled hw ha (.inl hs)
    | asks | waits => exact h.silent silent_nil rfl le_rfl id
    | failed => exact h.silent silent_nil rfl le_rfl fun ht => absurd ht nofun
  | timedOut i c r hs hl hd hw =>
    cases hw with
    | dialled ha hw =>
      have hagain : Told { c with state := .establishing } (log ++ []) := h.silent silent_nil rfl le_rfl fun _ => .inr hs
      rw [List.append_nil] at hagain
      exact hagain.dialled hw ha (.inr rfl)
    | waits => exact h.silent silent_nil rfl le_rfl fun _ => .inr hs
    | failed => exact h.silent silent_nil rfl le_rfl fun ht => absurd ht nofun
  | freed => cases hu'

theorem Told.write (h : Told c log) (hsane : Sane .link c) (hu : c.used) (hw : Write Q n .link i c r) (hu' : r.1.used) :
    Told r.1 (log ++ r.2) := by
  cases hw with
  | move _ hm => exact h.move hsane hu hm hu'
  | opened _ _ _ hn | seated _ _ hn =>
    rw [hu] at hn
    cases hn
  | marked => exact h.silent ((about_began _ _ _).silent (by simp)) rfl le_rfl id
  | concluded => exact h.silent ((about_concludeResource _).silent (by simp)) rfl le_rfl id
  | ended =>
    simp only [linkEnds, linkClosed, quiet_apply]
    split
    · exact h.silent silent_nil rfl le_rfl id
    · exact h.silent silent_nil rfl le_rfl fun ht => by rcases ht with h | h <;> cases h

theorem Told.bounded (h : Told c log) (hsane : Sane .link c) (hu : c.used) (hw : Write Q n .link i c r) :
    Bounded c.opening (log ++ r.2) := by
  by_cases hu' : r.1.used
  · rcases hw.opening hu' with ⟨-, ho⟩ | ⟨hn, -⟩
    · rw [← ho]
      exact (h.write hsane hu hw hu').toBounded
    · rw [hu] at hn
      cases hn
  · refine h.toBounded.silent ?_
    cases hw with
    | move _ hm => exact hm.silent_freed hu hu'
    | opened _ _ _ hn | seated _ _ hn =>
      rw [hu] at hn
      cases hn
    | marked | concluded => exact absurd hu hu'
    | ended => exact (hu' (by simp only [linkEnds, linkClosed, quiet_apply]; split <;> exact hu)).elim

/-- An account begins with nothing. -/
theorem Silent.told (h : Silent c.opening log) : Told c log where
  attempts := by
    rw [h.attempted]
    exact Nat.zero_le _
  items := by
    rw [h.issued]
    exact List.nil_sublist _
  counted := by
    rw [h.attempted]
    exact Nat.zero_le _
  waiting _ := h.issued

theorem Write.told (hw : Write Q n .link i c r) (hn : c.used = false) (hlog : Silent n.serial log) :
    Told r.1 (log ++ r.2) := by
  cases hw with
  | move hu | marked _ _ _ hu | concluded _ hu | ended hu =>
    rw [hn] at hu
    cases hu
  | opened h req w hu hb hq hr =>
    obtain ⟨d, hd⟩ : ∃ d, d = (fill .link n.clock h w req n.serial c).1 := ⟨_, rfl⟩
    have ho : d.opening = n.serial := by rw [hd]; rfl
    have hat : d.attempts = 0 := by rw [hd]; rfl
    rw [← ho] at hlog
    rw [← hd] at hr
    cases hr with
    | waits =>
      rw [List.append_nil]
      exact Silent.told hlog
    | link hr =>
      have htold : Told { d with state := .establishing } log := Silent.told hlog
      exact htold.dialled hr (by simp [hat, RNSD_LINK_ATTEMPTS]) (.inr rfl)
  | seated w owner hu hb =>
    have hnil : (seat .link n.clock w owner ⟨.link, n.serial⟩ n.serial c).2 = [] := rfl
    rw [hnil, List.append_nil]
    exact Silent.told hlog

-- ---------------------------------------------------------------------------
-- Every opening
-- ---------------------------------------------------------------------------

def openingKey (_ : Kind) (c : Conn) : Option Nat := some c.opening

theorem Numbered.unused (h : n.Numbered) : Unused openingKey n n.serial := by
  intro k i c hs hu he
  exact absurd (Option.some.inj he) (h.opening k i c hs hu).ne

theorem Apart.openings (h : Apart openingKey n) (hn : n.Numbered) (he : Effect Q n m) : Apart openingKey m := by
  refine h.effect he fun _ hw hu v hv => ?_
  obtain rfl := Option.some.inj hv
  rcases hw.opening hu with ⟨hu₀, ho⟩ | ⟨-, ho⟩
  · exact .inl ⟨hu₀, by rw [openingKey, ho]⟩
  · rw [ho]
    exact .inr hn.unused

/-- An opening of the link table, whose slot, if it still has one, carries its account. -/
structure Accounted (n : Node) (o : Nat) : Prop where
  serial : o < n.serial
  bounded : Bounded o n.log
  told : ∀ k i c, n.slot k i = some c → c.used → c.opening = o → k = .link ∧ Told c n.log

/-- An opening is still to come, or is of the one table or of the other. -/
inductive Filed (n : Node) (o : Nat) : Prop
  | coming (hser : n.serial ≤ o) (hlog : Silent o n.log)
  | link (h : Accounted n o)
  | channel (hser : o < n.serial) (hc : ∀ k i c, n.slot k i = some c → c.used → c.opening = o → k = .channel)

theorem Silent.effect (h : Silent o n.log) (hn : n.Numbered) (hser : n.serial < o) (he : Effect Q n m) : Silent o m.log := by
  cases he with
  | @wrote k i c r hs hw hslot hlog =>
    rw [hlog]
    exact h.append (hw.silent (fun hu => ((hn.opening k i c hs hu).trans hser).ne) fun _ => hser.ne')
  | asked req hr hm =>
    subst hm
    exact h.append ((about_asked req).silent (by simp))
  | refused s hs hq hm =>
    subst hm
    exact h.append ((about_refused s).silent (by simp))
  | still hslot hlog =>
    rw [hlog]
    exact h

theorem Effect.serial_le_succ (he : Effect Q n m) : m.serial ≤ n.serial + 1 := by
  cases he with
  | wrote _ _ _ _ _ hserial => rw [hserial]
  | asked _ _ hm | refused _ _ _ hm => rw [hm]; exact le_rfl
  | still _ _ _ hserial => rw [hserial]; exact Nat.le_succ _

/-- A small step writes the slot of an opening, or leaves it and its account alone. -/
theorem Effect.of_opening (he : Effect Q n m) (hser : o < n.serial) :
    (∃ k i c r, n.slot k i = some c ∧ c.used ∧ c.opening = o ∧ Write Q n k i c r ∧ m.slot = (n.put k i r).slot ∧
        m.log = n.log ++ r.2) ∨
      ∃ evs, Silent o evs ∧ m.log = n.log ++ evs ∧
        ∀ k i c, m.slot k i = some c → c.used → c.opening = o → n.slot k i = some c := by
  cases he with
  | @wrote k i c r hs hw hslot hlog =>
    by_cases ho : c.used ∧ c.opening = o
    · exact .inl ⟨k, i, c, r, hs, ho.1, ho.2, hw, hslot, hlog⟩
    · refine .inr ⟨r.2, hw.silent (fun hu he => ho ⟨hu, he⟩) fun _ => hser.ne, hlog, fun k' j c' hs' hu' ho' => ?_⟩
      rw [hslot] at hs'
      rcases slot_put_cases hs hs' with ⟨rfl, rfl, rfl⟩ | ⟨-, hold⟩
      · rcases hw.opening hu' with ⟨hu, he⟩ | ⟨-, he⟩
        · exact absurd ⟨hu, he.symm.trans ho'⟩ ho
        · exact absurd (ho'.symm.trans he) hser.ne
      · exact hold
  | asked req hr hm =>
    subst hm
    exact .inr ⟨_, (about_asked req).silent (by simp), rfl, fun _ _ _ hs _ _ => hs⟩
  | refused s hs hq hm =>
    subst hm
    exact .inr ⟨_, (about_refused s).silent (by simp), rfl, fun _ _ _ hs _ _ => hs⟩
  | still hslot hlog =>
    refine .inr ⟨[], silent_nil, by simpa using hlog, fun k i c hs _ _ => ?_⟩
    rwa [hslot] at hs

/-- The first write of an opening says which table it is of. -/
theorem Filed.begin (hn : n.Numbered) (hlog : Silent n.serial n.log) (he : Effect Q n m) : Filed m n.serial := by
  have hold : ∀ {k i c}, n.slot k i = some c → c.used → c.opening ≠ n.serial := fun hs hu =>
    (hn.opening _ _ _ hs hu).ne
  cases he with
  | @wrote k i c r hs hw hslot hlog' _ hserial =>
    have hlt : n.serial < m.serial := by simp [hserial]
    by_cases hu : c.used
    · refine .channel hlt fun k' j c' hs' hu' ho => ?_
      rw [hslot] at hs'
      rcases slot_put_cases hs hs' with ⟨rfl, rfl, rfl⟩ | ⟨-, hs'⟩
      · rcases hw.opening hu' with ⟨-, he⟩ | ⟨hn', -⟩
        · exact absurd (he.symm.trans ho) (hold hs hu)
        · rw [hu] at hn'
          cases hn'
      · exact absurd ho (hold hs' hu')
    · rw [Bool.not_eq_true] at hu
      cases k with
      | link =>
        have htold := hw.told hu hlog
        have ho : r.1.opening = n.serial := by
          cases hw with
          | move hu' | marked _ _ _ hu' | concluded _ hu' | ended hu' =>
            rw [hu] at hu'
            cases hu'
          | opened h req w hu' hb hq hr => exact hr.opening
          | seated => rfl
        refine .link ⟨hlt, by rw [hlog', ← ho]; exact htold.toBounded, fun k' j c' hs' hu' ho' => ?_⟩
        rw [hslot] at hs'
        rcases slot_put_cases hs hs' with ⟨rfl, rfl, rfl⟩ | ⟨-, hs'⟩
        · rw [hlog']
          exact ⟨rfl, htold⟩
        · exact absurd ho' (hold hs' hu')
      | channel =>
        refine .channel hlt fun k' j c' hs' hu' ho => ?_
        rw [hslot] at hs'
        rcases slot_put_cases hs hs' with ⟨rfl, rfl, rfl⟩ | ⟨-, hs'⟩
        · rfl
        · exact absurd ho (hold hs' hu')
  | asked _ _ hm | refused _ _ _ hm =>
    subst hm
    exact .channel (Nat.lt_succ_self _) fun k i c hs hu ho => absurd ho (hold hs hu)
  | still hslot hlog' _ hserial =>
    refine .coming hserial.le ?_
    rwa [hlog']

theorem Accounted.effect (h : Accounted n o) (hi : n.Inv) (hap : Apart openingKey n) (he : Effect Q n m) :
    Accounted m o := by
  obtain ⟨hser, hb, ht⟩ := h
  rcases he.of_opening hser with ⟨k, i, c, r, hs, hu, ho, hw, hslot, hlog⟩ | ⟨evs, hsil, hlog, hslots⟩
  · obtain ⟨rfl, htold⟩ := ht k i c hs hu ho
    have hsane := hi.sane _ _ _ hs
    refine ⟨hser.trans_le he.serial_le, ?_, fun k' j c' hs' hu' ho' => ?_⟩
    · rw [hlog, ← ho]
      exact htold.bounded hsane hu hw
    · rw [hlog]
      rw [hslot] at hs'
      rcases slot_put_cases hs hs' with ⟨rfl, rfl, rfl⟩ | ⟨hne, hold⟩
      · exact ⟨rfl, htold.write hsane hu hw hu'⟩
      · obtain ⟨hk, hj⟩ := hap k' j c' .link i c o hold hs hu' hu (congrArg some ho') (congrArg some ho)
        exact absurd ⟨hk, hj⟩ hne
  · refine ⟨hser.trans_le he.serial_le, by rw [hlog]; exact hb.silent hsil, fun k i c hs hu ho => ?_⟩
    obtain ⟨hk, htold⟩ := ht k i c (hslots k i c hs hu ho) hu ho
    rw [hlog]
    exact ⟨hk, htold.silent (ho ▸ hsil) rfl le_rfl id⟩

theorem Filed.effect (h : Filed n o) (hi : n.Inv) (hn : n.Numbered) (hap : Apart openingKey n) (he : Effect Q n m) :
    Filed m o := by
  cases h with
  | coming hser hlog =>
    rcases hser.lt_or_eq with hlt | rfl
    · exact .coming (he.serial_le_succ.trans hlt) (hlog.effect hn hlt he)
    · exact .begin hn hlog he
  | link h => exact .link (h.effect hi hap he)
  | channel hser hc =>
    refine .channel (hser.trans_le he.serial_le) fun k i c' hs hu ho => ?_
    rcases he.slot hs with hold | ⟨c, r, hs₀, hw, rfl⟩
    · exact hc k i c' hold hu ho
    · rcases hw.opening hu with ⟨hu₀, he'⟩ | ⟨-, he'⟩
      · exact hc k i c hs₀ hu₀ (he'.symm.trans ho)
      · exact absurd (ho.symm.trans he') hser.ne

/-- What the openings are counted by. -/
structure Ledger (n : Node) : Prop where
  inv : n.Inv
  numbered : n.Numbered
  apart : Apart openingKey n
  filed : ∀ o, Filed n o

theorem Ledger.micro (h : n.Ledger) (hm : Micro Q n m) : m.Ledger where
  inv := h.inv.micro hm
  numbered := h.numbered.effect (hm.effect h.inv.wf)
  apart := h.apart.openings h.numbered (hm.effect h.inv.wf)
  filed o := (h.filed o).effect h.inv h.numbered h.apart (hm.effect h.inv.wf)

theorem Ledger.steps (h : n.Ledger) (hm : Steps Q n m) : m.Ledger := by
  induction hm with
  | refl => exact h
  | tail _ hstep ih => exact ih.micro hstep

theorem Ledger.step (h : n.Ledger) (op : Op) : (Rnsd.step n op).Ledger :=
  h.steps (steps_step h.inv.wf op (permits_true n op))

theorem Ledger.run (h : n.Ledger) (ops : List Op) : (run Rnsd.step n ops).Ledger := by
  induction ops generalizing n with
  | nil => exact h
  | cons op ops ih => exact ih (h.step op)

theorem ledger_boot {t : ℚ} (ht : 0 < t) : (boot t).Ledger where
  inv := inv_boot ht
  numbered := by
    refine ⟨fun k i c hs => ?_, fun k i c hs hu => ?_⟩
    · unfold slot boot at hs
      simpa using (List.getElem?_eq_some_iff.1 hs).1
    · rw [slot_boot hs] at hu
      cases hu
  apart := by
    intro k i c k' j c' v hs _ hu
    rw [slot_boot hs] at hu
    cases hu
  filed o := .coming (Nat.zero_le o) silent_nil

theorem Ledger.accounted (h : n.Ledger) (hs : n.slot .link i = some c) (hu : c.used) : Accounted n c.opening := by
  cases h.filed c.opening with
  | coming hser => exact absurd (h.numbered.opening _ _ _ hs hu) (not_lt.2 hser)
  | link h => exact h
  | channel _ hc => cases hc _ _ _ hs hu rfl

theorem Accounted.step (h : Accounted n o) (hl : n.Ledger) (op : Op) : Accounted (Rnsd.step n op) o := by
  have hall : ∀ {m}, Steps (fun _ _ => True) n m → m.Ledger ∧ Accounted m o := by
    intro m hm
    induction hm with
    | refl => exact ⟨hl, h⟩
    | tail _ hstep ih => exact ⟨ih.1.micro hstep, ih.2.effect ih.1.inv ih.1.apart (hstep.effect ih.1.inv.wf)⟩
  exact (hall (steps_step hl.inv.wf op (permits_true n op))).2

theorem Accounted.run (h : Accounted n o) (hl : n.Ledger) (ops : List Op) : Accounted (run Rnsd.step n ops) o := by
  induction ops generalizing n with
  | nil => exact h
  | cons op ops ih => exact ih (h.step hl op) (hl.step op)

end MicroReticulum.Rnsd.Node
