import MicroReticulum.Lib.Progress
import MicroReticulum.Rnsd.Phases

/-!
# From an open to its end

A slot of the link table waits for a path, establishes, is up, and is dead, and
what it may still do only gets less. A tick at or after the time that is due
makes it less.
-/

namespace MicroReticulum.Rnsd.Node

open Lib Lib.Log Lib.Log.Transition Lib.Runs Lib.Progress
open Relation (ReflTransGen)
open MicroReticulum.MsgPack (Text ResourceAdvertisement)

variable {Q : Node → Risk → Prop} {q : Risk → Prop} {n m : Node} {k : Kind} {i : Nat} {c c' : Conn}
  {r : Conn × List Event} {l : LinkRef} {now : ℚ} {serial : Nat}

-- ---------------------------------------------------------------------------
-- Ranks
-- ---------------------------------------------------------------------------

/-- How far a slot is from its end. -/
def rank (c : Conn) : ℕ :=
  match c.state with
  | .awaitingPath => 3 + 3 * (RNSD_LINK_ATTEMPTS - c.attempts)
  | .establishing => 3 + 3 * (RNSD_LINK_ATTEMPTS - c.attempts) + if c.link = none then 1 else 2
  | .active => 2
  | _ => if c.deadAt = 0 then 1 else 0

/-- When a tick is to do something about it. -/
def due (c : Conn) : ℚ :=
  match c.state with
  | .awaitingPath => c.pathDeadline
  | .establishing => c.estabDeadline
  | .active => 0
  | _ => if c.deadAt = 0 then 0 else c.deadAt + GRACE_S

/-- A slot comes closer to its end, or stays where it is. -/
def Sinks (c c' : Conn) : Prop := rank c' < rank c ∨ rank c' = rank c ∧ due c' = due c

theorem Sinks.refl (c : Conn) : Sinks c c := .inr ⟨rfl, rfl⟩

theorem Sinks.trans {c₁ c₂ c₃ : Conn} (h₁ : Sinks c₁ c₂) (h₂ : Sinks c₂ c₃) : Sinks c₁ c₃ := by
  rcases h₁ with h₁ | ⟨hr, hd⟩ <;> rcases h₂ with h₂ | ⟨hr', hd'⟩
  · exact .inl (h₂.trans h₁)
  · exact .inl (hr'.trans_lt h₁)
  · exact .inl (h₂.trans_eq hr)
  · exact .inr ⟨hr'.trans hr, hd'.trans hd⟩

theorem Sinks.le (h : Sinks c c') : rank c' ≤ rank c := h.elim le_of_lt fun h => h.1.le

/-- What a rank and its time are read from. -/
structure SameAge (c c' : Conn) : Prop where
  state : c'.state = c.state
  link : c'.link = c.link
  attempts : c'.attempts = c.attempts
  path : c'.pathDeadline = c.pathDeadline
  estab : c'.estabDeadline = c.estabDeadline
  dead : c'.deadAt = c.deadAt

theorem SameAge.rank_due (h : SameAge c c') : rank c' = rank c ∧ due c' = due c := by
  unfold rank due
  rw [h.state, h.link, h.attempts, h.path, h.estab, h.dead]
  exact ⟨rfl, rfl⟩

theorem SameAge.sinks (h : SameAge c c') : Sinks c c' := .inr h.rank_due

theorem Spends.age (h : Spends c c') : SameAge c c' := by
  rw [h]
  exact ⟨rfl, rfl, rfl, rfl, rfl, rfl⟩

theorem rank_trying (h : Trying c) : 3 ≤ rank c := by
  unfold rank
  rcases h with h | h <;> rw [h]
  · exact Nat.le_add_right 3 _
  · exact (Nat.le_add_right 3 _).trans (Nat.le_add_right _ _)

theorem rank_dead (h : Dead c) : rank c ≤ 1 := by
  unfold rank
  rcases h with h | h <;> rw [h] <;> dsimp only <;> split <;> simp

theorem rank_active (h : c.state = .active) : rank c = 2 := by
  rw [rank, h]

theorem Sane.trying_iff (h : Sane k c) (hu : c.used) : Trying c ↔ 3 ≤ rank c := by
  refine ⟨rank_trying, fun hr => ?_⟩
  rcases h.phase hu with ht | ha | hd
  · exact ht
  · rw [rank_active ha] at hr
    exact absurd hr (by simp)
  · exact absurd (hr.trans (rank_dead hd)) (by simp)

theorem Sane.dead_iff (h : Sane k c) (hu : c.used) : Dead c ↔ rank c ≤ 1 := by
  refine ⟨rank_dead, fun hr => ?_⟩
  rcases h.phase hu with ht | ha | hd
  · exact absurd ((rank_trying ht).trans hr) (by simp)
  · rw [rank_active ha] at hr
    exact absurd hr (by simp)
  · exact hd

theorem rank_le_of_trying (h : Trying c) (ha : c.state = .establishing → 0 < c.attempts) : rank c ≤ 12 := by
  unfold rank
  rcases h with h | h
  · rw [h]
    simp only [RNSD_LINK_ATTEMPTS]
    grind
  · have ha := ha h
    rw [h]
    simp only [RNSD_LINK_ATTEMPTS]
    grind

-- ---------------------------------------------------------------------------
-- Writes
-- ---------------------------------------------------------------------------

/-- Dialling uses up an attempt. -/
theorem Dialled.rank_lt (h : Dialled now l c r) (ha : c.attempts < RNSD_LINK_ATTEMPTS) :
    rank r.1 < 3 + 3 * (RNSD_LINK_ATTEMPTS - c.attempts) := by
  cases h with
  | failed =>
    have hd := rank_dead (c := { c with state := .failed }) (.inr rfl)
    dsimp only at hd ⊢
    grind
  | started d =>
    simp only [rank, nextAttempt_eq ha]
    unfold RNSD_LINK_ATTEMPTS at *
    grind

theorem rank_awaiting (h : c.state = .awaitingPath) : rank c = 3 + 3 * (RNSD_LINK_ATTEMPTS - c.attempts) := by
  rw [rank, h]

theorem rank_establishing (h : c.state = .establishing) : 3 + 3 * (RNSD_LINK_ATTEMPTS - c.attempts) < rank c := by
  rw [rank, h]
  dsimp only
  split <;> simp

theorem Retried.rank_lt (h : Retried now l c r) (hs : c.state = .establishing) : rank r.1 < rank c := by
  have hlt := rank_establishing hs
  cases h with
  | dialled ha h => exact (h.rank_lt ha).trans hlt
  | waits ha p => exact hlt
  | failed =>
    refine lt_of_le_of_lt (rank_dead (.inr rfl)) (lt_of_lt_of_le ?_ (rank_trying (.inr hs)))
    simp

theorem Awaited.sinks (h : Awaited now l c r) (hs : c.state = .awaitingPath) (ha : c.attempts < RNSD_LINK_ATTEMPTS) :
    rank r.1 < rank c ∨ now < c.pathDeadline ∧ SameAge c r.1 := by
  cases h with
  | dialled h => exact .inl ((h.rank_lt ha).trans_eq (rank_awaiting hs).symm)
  | asks hd => exact .inr ⟨hd, rfl, rfl, rfl, rfl, rfl, rfl⟩
  | failed =>
    refine .inl (lt_of_le_of_lt (rank_dead (.inr rfl)) (lt_of_lt_of_le ?_ (rank_trying (.inl hs))))
    simp
  | waits hd => exact .inr ⟨hd, rfl, rfl, rfl, rfl, rfl, rfl⟩

/-- A dead slot that is marked dead now. -/
theorem sinks_dead (hnow : 0 < now) (hd : c'.state = .closed ∨ c'.state = .failed) (hat : c'.deadAt = now)
    (h : Dead c → c.deadAt = 0 ∨ c.deadAt = now) (hu : Trying c ∨ c.state = .active ∨ Dead c) : Sinks c c' := by
  have hrank : rank c' = 0 := by
    unfold rank
    rcases hd with hd | hd <;> rw [hd] <;> simp [hat, hnow.ne']
  rcases hu with ht | ha | hdead
  · exact .inl (hrank ▸ (rank_trying ht).trans_lt' (by simp))
  · exact .inl (by rw [hrank, rank_active ha]; simp)
  · rcases h hdead with h | h
    · refine .inl ?_
      rw [hrank]
      unfold rank
      rcases hdead with hs | hs <;> rw [hs] <;> simp [h]
    · refine .inr ?_
      unfold rank due
      rcases hdead with hs | hs <;> rcases hd with hs' | hs' <;> simp [hs, hs', h, hat]

theorem Move.sinks (h : Move q now serial .link i c r) (hsane : Sane .link c) (hnow : 0 < now) (hu : c.used)
    (hu' : r.1.used) : Sinks c r.1 := by
  cases h with
  | touched | letGo | proofs | response | reqFailed => exact SameAge.sinks ⟨rfl, rfl, rfl, rfl, rfl, rfl⟩
  | consumerSend => exact (spends_linkConsumerSend ..).age.sinks
  | identify => exact (spends_linkIdentify ..).age.sinks
  | request => exact (spends_linkRequest ..).age.sinks
  | sendResource => exact (spends_sendResource ..).age.sinks
  | timers => exact (spends_timers ..).age.sinks
  | established k i c f hl =>
    obtain ⟨-, hl', hs, -⟩ := established_keeps (c := c) .link now f
    rcases hsane.phase hu with ht | ha | hd
    · refine .inl ((rank_active hs).trans_lt (lt_of_lt_of_le ?_ (rank_trying ht)))
      simp
    · refine .inr ⟨(rank_active hs).trans (rank_active ha).symm, ?_⟩
      rw [due, due, hs, ha]
    · exact absurd (hsane.dead hd rfl) hl
  | unreached k i c hr hd => exact sinks_dead hnow (.inr rfl) rfl (fun h => .inr (hd h)) (hsane.phase hu)
  | awaits i c r hs h =>
    rcases h.sinks hs ((hsane.awaiting hs).2 rfl) with h | ⟨-, h⟩
    · exact .inl h
    · exact h.sinks
  | overdue i c hs hd =>
    cases hl : c.link with
    | none => exact SameAge.sinks ⟨rfl, hl.symm, rfl, rfl, rfl, rfl⟩
    | some l =>
      refine .inl ?_
      simp [rank, hs, hl]
  | timedOut i c r hs hl hd h => exact .inl (h.rank_lt hs)
  | dead k i c d hs hd =>
    rcases hd with ⟨rfl, hne⟩ | ⟨h0, rfl⟩
    · exact SameAge.sinks ⟨rfl, rfl, rfl, rfl, rfl, rfl⟩
    · exact sinks_dead hnow hs rfl (fun _ => .inl h0) (hsane.phase hu)
  | freed => cases hu'

theorem Dialled.opening (h : Dialled now l c r) : r.1.opening = c.opening := by
  cases h <;> rfl

theorem ChanDialled.opening (h : ChanDialled l c r) : r.1.opening = c.opening := by
  cases h <;> rfl

theorem Opens.opening (h : Opens now l c k r) : r.1.opening = c.opening := by
  cases h with
  | waits => rfl
  | link h => exact h.opening
  | channel h => exact h.opening

/-- A slot that stays in use stays with its opening. -/
theorem Move.opening (h : Move q now serial k i c r) (hu' : r.1.used) : r.1.opening = c.opening := by
  cases h with
  | touched | letGo | proofs | response | reqFailed | unreached | overdue | dead | chanTimedOut => rfl
  | consumerSend => exact (spends_linkConsumerSend ..).keeps.2.2.2.1
  | identify => exact (spends_linkIdentify ..).keeps.2.2.2.1
  | request => exact (spends_linkRequest ..).keeps.2.2.2.1
  | sendResource => exact (spends_sendResource ..).keeps.2.2.2.1
  | timers => exact (spends_timers ..).keeps.2.2.2.1
  | established k i c f => exact (established_keeps (c := c) k now f).2.2.2.1
  | awaits i c r hs h =>
    cases h with
    | dialled h => exact h.opening
    | asks | failed | waits => rfl
  | timedOut i c r hs hl hd h =>
    cases h with
    | dialled ha h => exact h.opening
    | waits | failed => rfl
  | chanAwaits i c r hs h => exact h.opening
  | freed | chanFreed => cases hu'

/-- What a write makes of the opening. -/
theorem Write.opening (hw : Write Q n k i c r) (hu' : r.1.used) :
    c.used ∧ r.1.opening = c.opening ∨ c.used = false ∧ r.1.opening = n.serial := by
  cases hw with
  | move hu h => exact .inl ⟨hu, h.opening hu'⟩
  | opened h req w hu hb hq hr =>
    refine .inr ⟨hu, hr.opening.trans ?_⟩
    cases k <;> rfl
  | seated w owner hu =>
    refine .inr ⟨hu, ?_⟩
    cases k <;> rfl
  | marked g adv memory hu => exact .inl ⟨hu, rfl⟩
  | concluded out hu => exact .inl ⟨hu, rfl⟩
  | ended hu =>
    refine .inl ⟨hu, ?_⟩
    cases k with
    | channel => rfl
    | link =>
      simp only [linkEnds, linkClosed, quiet_apply]
      split <;> rfl

theorem Write.sinks (hw : Write Q n .link i c r) (hsane : Sane .link c) (hnow : 0 < n.clock) (hu : c.used)
    (hu' : r.1.used) : Sinks c r.1 := by
  cases hw with
  | move _ h => exact h.sinks hsane hnow hu hu'
  | opened _ _ _ hn | seated _ _ hn =>
    rw [hu] at hn
    cases hn
  | marked | concluded => exact SameAge.sinks ⟨rfl, rfl, rfl, rfl, rfl, rfl⟩
  | ended _ _ hl =>
    simp only [linkEnds, linkClosed, quiet_apply]
    split
    · next he =>
      refine .inl ?_
      simp [rank, he, hl]
    · refine sinks_dead hnow (.inl rfl) rfl (fun hd => ?_) (hsane.phase hu)
      rw [hsane.dead hd rfl] at hl
      cases hl

-- ---------------------------------------------------------------------------
-- Openings
-- ---------------------------------------------------------------------------

/-- Slots are within their table, and openings are numbered as they come. -/
structure Numbered (n : Node) : Prop where
  within : ∀ k i c, n.slot k i = some c → i < capacity k
  opening : ∀ k i c, n.slot k i = some c → c.used → c.opening < n.serial

theorem Effect.serial_lt (he : Effect Q n m) : n.serial < m.serial ∨ m.slot = n.slot ∧ m.serial = n.serial := by
  cases he with
  | wrote _ _ _ _ _ hserial => exact .inl (by simp [hserial])
  | asked r hr hm | refused s hs hq hm => exact .inl (by simp [hm, say])
  | still hslot _ _ hserial => exact .inr ⟨hslot, hserial⟩

theorem Numbered.effect (h : n.Numbered) (he : Effect Q n m) : m.Numbered where
  within k i c hs := by
    rcases he.slot hs with hold | ⟨c₀, r, hs₀, -, rfl⟩
    · exact h.within k i c hold
    · exact h.within k i c₀ hs₀
  opening k i c hs hu := by
    rcases he.serial_lt with hlt | ⟨hsame, heq⟩
    · rcases he.slot hs with hold | ⟨c₀, r, hs₀, hw, rfl⟩
      · exact (h.opening k i c hold hu).trans hlt
      · rcases hw.opening hu with ⟨hu₀, ho⟩ | ⟨-, ho⟩
        · rw [ho]
          exact (h.opening k i c₀ hs₀ hu₀).trans hlt
        · rw [ho]
          exact hlt
    · rw [hsame] at hs
      rw [heq]
      exact h.opening k i c hs hu

/-- A slot of the link table with an opening of before has had it since, and come closer to its end. -/
def Later (n m : Node) : Prop :=
  n.serial ≤ m.serial ∧ ∀ i c', m.slot .link i = some c' → c'.used → c'.opening < n.serial →
    ∃ c, n.slot .link i = some c ∧ c.used ∧ c'.opening = c.opening ∧ Sinks c c'

theorem Later.refl (n : Node) : Later n n := ⟨le_rfl, fun _ c hs hu _ => ⟨c, hs, hu, rfl, .refl c⟩⟩

theorem Later.trans {n₁ n₂ n₃ : Node} (h₁ : Later n₁ n₂) (h₂ : Later n₂ n₃) : Later n₁ n₃ := by
  refine ⟨h₁.1.trans h₂.1, fun i c₃ hs hu ho => ?_⟩
  obtain ⟨c₂, hs₂, hu₂, ho₂, hk₂⟩ := h₂.2 i c₃ hs hu (ho.trans_le h₁.1)
  obtain ⟨c₁, hs₁, hu₁, ho₁, hk₁⟩ := h₁.2 i c₂ hs₂ hu₂ (ho₂ ▸ ho)
  exact ⟨c₁, hs₁, hu₁, ho₂.trans ho₁, hk₁.trans hk₂⟩

theorem Effect.later (he : Effect Q n m) (hi : n.Inv) : Later n m := by
  refine ⟨he.serial_le, fun i c' hs hu ho => ?_⟩
  rcases he.slot hs with hold | ⟨c, r, hs₀, hw, rfl⟩
  · exact ⟨c', hold, hu, rfl, .refl c'⟩
  · rcases hw.opening hu with ⟨hu₀, ho'⟩ | ⟨-, ho'⟩
    · exact ⟨c, hs₀, hu₀, ho', hw.sinks (hi.sane .link i c hs₀) hi.clock hu₀ hu⟩
    · rw [ho'] at ho
      exact absurd ho (lt_irrefl _)

theorem Inv.later (hi : n.Inv) (hm : Steps Q n m) : Later n m := by
  have hall : m.Inv ∧ Later n m := by
    induction hm with
    | refl => exact ⟨hi, .refl n⟩
    | tail _ hstep ih => exact ⟨ih.1.micro hstep, ih.2.trans ((hstep.effect ih.1.wf).later ih.1)⟩
  exact hall.2

theorem Numbered.steps (h : n.Numbered) (hw : n.Wf) (hm : Steps Q n m) : m.Numbered := by
  have hall : m.Wf ∧ m.Numbered := by
    induction hm with
    | refl => exact ⟨hw, h⟩
    | tail _ hstep ih => exact ⟨ih.1.micro hstep, ih.2.effect (hstep.effect ih.1)⟩
  exact hall.2

-- ---------------------------------------------------------------------------
-- Ticks
-- ---------------------------------------------------------------------------

/-- A dead slot whose time is over goes with its turn. -/
theorem linkDeadTick_rank (hd : Dead c) (hnow : 0 < now) (hdue : due c ≤ now) (hu : (linkDeadTick now c).1.used) :
    rank (linkDeadTick now c).1 < rank c := by
  by_cases h0 : c.deadAt = 0
  · have he : linkDeadTick now c = ({ c with deadAt := now }, []) := by
      simp [linkDeadTick, h0, GRACE_S]
    have hrank : rank c = 1 := by
      unfold rank
      rcases hd with hd | hd <;> simp [hd, h0]
    have hrank' : rank { c with deadAt := now } = 0 := by
      unfold rank
      rcases hd with hd | hd <;> simp [hd, hnow.ne']
    rw [he, hrank, hrank']
    exact Nat.zero_lt_one
  · have hover : GRACE_S ≤ now - c.deadAt := by
      unfold due at hdue
      rcases hd with hd | hd <;> simp only [hd, h0, if_false] at hdue <;> linarith
    simp [linkDeadTick, h0, hover, linkFreeSlot] at hu

theorem linkTickSlot_rank {w : Turn} (hi : n.Inv) (hs : n.slot .link i = some c) (hu : c.used)
    (hph : c.state ≠ .active) (hdue : due c ≤ n.clock) (hs' : (n.linkTickSlot w i).slot .link i = some c')
    (hu' : c'.used) : rank c' < rank c := by
  obtain ⟨t, ht⟩ : ∃ t, t = (linkIdentifyTick n.clock w.identify).andThen (requestTick n.clock) := ⟨_, rfl⟩
  have hage : SameAge c (t c).1 := by
    rw [ht]
    exact (spends_timers _ _).age
  have hsane : Sane .link (t c).1 := by
    rw [ht]
    exact (hi.sane _ _ _ hs).timers _
  obtain ⟨m, hm⟩ : ∃ m, m = n.act .link i t := ⟨_, rfl⟩
  have hclock : m.clock = n.clock := by
    rw [hm, act_eq hs, clock_put]
  have hs₁ : m.slot .link i = some (t c).1 := by
    rw [hm, act_eq hs, slot_put_self hs]
  obtain ⟨hrank₁, hdue₁⟩ := hage.rank_due
  rw [← hrank₁]
  rw [← hdue₁, ← hclock] at hdue
  have hst₁ := hage.state
  unfold linkTickSlot at hs'
  simp only [hs, hu, ← ht, ← hm, Bool.not_true, Bool.false_eq_true, if_false] at hs'
  cases hst : c.state with
  | free | closing =>
    rcases (hi.sane _ _ _ hs).phase hu with (h | h) | h | (h | h) <;> rw [hst] at h <;> cases h
  | active => exact absurd hst hph
  | awaitingPath =>
    rw [hst] at hst₁
    simp only [hst, act_eq hs₁, slot_put_self hs₁, Option.some.injEq] at hs'
    rw [due, hst₁] at hdue
    rcases (linkAwaitTick_awaited w.env m.clock).sinks hst₁ ((hsane.awaiting hst₁).2 rfl) with h | ⟨hlt, -⟩
    · exact hs' ▸ h
    · exact absurd hdue (not_le.2 hlt)
  | closed | failed =>
    have hd : Dead (t c).1 := by simp [Dead, hst₁, hst]
    simp only [hst, act_eq hs₁, slot_put_self hs₁, Option.some.injEq] at hs'
    subst hs'
    exact linkDeadTick_rank hd (hclock ▸ hi.clock) hdue hu'
  | establishing =>
    rw [hst] at hst₁
    have hover : c.estabDeadline ≠ 0 ∧ c.estabDeadline ≤ m.clock := by
      rw [due, hst₁] at hdue
      rw [← hage.estab]
      exact ⟨((hsane.establishing hst₁ rfl).2.2).ne', hdue⟩
    simp only [hst] at hs'
    rw [if_pos hover] at hs'
    obtain ⟨m', hm'⟩ : ∃ m', m' = m.act .link i (quiet ({ · with link := none })) := ⟨_, rfl⟩
    have hs₂ : m'.slot .link i = some { (t c).1 with link := none } := by
      rw [hm', act_eq hs₁, slot_put_self hs₁]
      rfl
    obtain ⟨c₃, hs₃, hf⟩ : ∃ c₃, (m'.teardown c.link w.goodbye).slot .link i = some c₃ ∧ Fades _ _ c₃ :=
      teardown_fades.slot hs₂
    rw [← hm', act_eq hs₃, slot_put_self hs₃, Option.some.injEq] at hs'
    rcases hf.link with ⟨hl₃, hst₃, -⟩ | ⟨hne, -⟩
    · -- the goodbye finds no slot, and leaves this one without its link
      have hlast := (linkTimedOut_retried (c := c₃) w.env (m'.teardown c.link w.goodbye).clock
        (l := ⟨.link, (m'.teardown c.link w.goodbye).serial⟩)).rank_lt (hst₃.trans hst₁)
      rw [hs'] at hlast
      refine hlast.trans_le ?_
      have ha : c₃.attempts = (t c).1.attempts := by rw [hf.same]
      simp only [rank, hst₃, hst₁, hl₃, ha, if_true, add_le_add_iff_left]
      split
      · exact le_rfl
      · exact Nat.le_succ 1
    · exact absurd rfl hne

theorem turns_steps {turns : Nat → Turn} {is : List Nat} (hw : n.Wf) :
    Steps (fun _ _ => True) n (is.foldl (fun m i => m.linkTickSlot (turns i) i) n) := by
  induction is generalizing n with
  | nil => exact .refl
  | cons i is ih =>
    have hstep : Steps (fun _ _ => True) n (n.linkTickSlot (turns i) i) :=
      linkTickSlot_steps (fun _ _ _ _ _ => trivial) fun _ _ _ => trivial
    exact hstep.trans (ih (hw.steps hstep))

theorem steps_clock_le (hw : n.Wf) (hm : Steps Q n m) : n.clock ≤ m.clock := by
  have hall : m.Wf ∧ n.clock ≤ m.clock := by
    induction hm with
    | refl => exact ⟨hw, le_rfl⟩
    | tail _ hstep ih => exact ⟨ih.1.micro hstep, ih.2.trans (hstep.effect ih.1).clock_le⟩
  exact hall.2

/-- A tick that is due does something about it. -/
theorem tick_rank {turns : Nat → Turn} (hi : n.Inv) (hn : n.Numbered) (hs : n.slot .link i = some c) (hu : c.used)
    (hph : c.state ≠ .active) (hdue : due c ≤ n.clock) (hs' : (n.tick .link turns).slot .link i = some c')
    (hu' : c'.used) (ho : c'.opening = c.opening) : rank c' < rank c := by
  have hfresh := hn.opening _ _ _ hs hu
  obtain ⟨pre, post, hsplit⟩ := List.append_of_mem (List.mem_range.2 (hn.within _ _ _ hs))
  unfold tick at hs'
  simp only [tickSlot] at hs'
  rw [hsplit, List.foldl_append, List.foldl_cons] at hs'
  -- the turns before this slot's, its own, and those after it
  obtain ⟨n₁, hn₁⟩ : ∃ n₁, n₁ = pre.foldl (fun m i => m.linkTickSlot (turns i) i) n := ⟨_, rfl⟩
  have hsteps₁ : Steps (fun _ _ => True) n n₁ := hn₁ ▸ turns_steps hi.wf
  rw [← hn₁] at hs'
  have hi₁ := hi.steps hsteps₁
  have hsteps₂ : Steps (fun _ _ => True) n₁ (n₁.linkTickSlot (turns i) i) :=
    linkTickSlot_steps (fun _ _ _ _ _ => trivial) fun _ _ _ => trivial
  have hi₂ := hi₁.steps hsteps₂
  have hlater₁ := hi.later hsteps₁
  have hlater₂ := hi₁.later hsteps₂
  obtain ⟨c₂, hs₂, hu₂, ho₂, hk₂⟩ := (hi₂.later (turns_steps hi₂.wf)).2 i c' hs' hu'
    (ho ▸ hfresh.trans_le (hlater₁.1.trans hlater₂.1))
  obtain ⟨c₁, hs₁, hu₁, ho₁, hk₁⟩ := hlater₂.2 i c₂ hs₂ hu₂ (by rw [← ho₂, ho]; exact hfresh.trans_le hlater₁.1)
  obtain ⟨c₀, hs₀, hu₀, ho₀, hk₀⟩ := hlater₁.2 i c₁ hs₁ hu₁ (by rw [← ho₁, ← ho₂, ho]; exact hfresh)
  cases hs.symm.trans hs₀
  rcases hk₀ with hlt | ⟨hr, hd⟩
  · exact (hk₂.le.trans hk₁.le).trans_lt hlt
  · have hph₁ : c₁.state ≠ .active := by
      intro ha
      rw [rank_active ha] at hr
      rcases (hi.sane _ _ _ hs).phase hu with h | h | h
      · exact absurd (hr ▸ rank_trying h) (by simp)
      · exact hph h
      · exact absurd (hr ▸ rank_dead h) (by simp)
    have hdue₁ : due c₁ ≤ n₁.clock := hd ▸ hdue.trans (steps_clock_le hi.wf hsteps₁)
    have hlt := linkTickSlot_rank hi₁ hs₁ hu₁ hph₁ hdue₁ hs₂ hu₂
    exact hk₂.le.trans_lt (hlt.trans_eq hr)

-- ---------------------------------------------------------------------------
-- Phases end
-- ---------------------------------------------------------------------------

/-- The slot has the opening, and meets `P`. -/
def Stays (i o : Nat) (P : Conn → Prop) (n : Node) : Prop :=
  ∃ c, n.slot .link i = some c ∧ c.used ∧ c.opening = o ∧ P c

def LinkTick (op : Op) : Prop := ∃ turns, op = .tick .link turns

instance : DecidablePred LinkTick
  | .tick .link turns => .isTrue ⟨turns, rfl⟩
  | .tick .channel _ | .wait _ | .connect .. | .incoming .. | .detach .. | .consumerSend .. | .sendResource ..
  | .identify .. | .proofs .. | .request .. | .established .. | .closed .. | .advertised .. | .concluded ..
  | .dropped _ | .concludedAgain .. | .response .. | .reqFailed _ | .touched _ => .isFalse nofun

def rankAt (i : Nat) (n : Node) : ℕ := (n.slot .link i).elim 0 rank

def dueAt (i : Nat) (n : Node) : ℚ := (n.slot .link i).elim 0 due

/-- A phase in which a tick has something to do. -/
theorem leaves_phase (i o : Nat) {P : Conn → Prop} (hP : ∀ c, P c → c.state ≠ .active) :
    Leaves Rnsd.step (fun n => n.Inv ∧ n.Numbered) LinkTick Node.clock (Stays i o P) (rankAt i) (dueAt i) where
  moves := by
    rintro n op ⟨hi, hn⟩ ⟨c, hs, hu, rfl, -⟩ ⟨c', hs', hu', ho, -⟩
    have hlater := hi.later (steps_step hi.wf op (permits_true n op))
    obtain ⟨c₀, hs₀, -, -, hk⟩ := hlater.2 i c' hs' hu' (ho ▸ hn.opening _ _ _ hs hu)
    cases hs.symm.trans hs₀
    simpa [rankAt, dueAt, hs, hs', Sinks] using hk
  ticks := by
    rintro n op ⟨hi, hn⟩ ⟨c, hs, hu, rfl, hp⟩ ⟨turns, rfl⟩ hdue ⟨c', hs', hu', ho, -⟩
    simp only [rankAt, dueAt, hs, Option.elim_some] at hdue ⊢
    rw [hs']
    exact tick_rank hi hn hs hu (hP c hp) hdue hs' hu' ho

theorem Trying.state_ne (h : Trying c) : c.state ≠ .active := h.not_active

theorem Dead.state_ne (h : Dead c) : c.state ≠ .active := by
  rcases h with h | h <;> rw [h] <;> decide

end MicroReticulum.Rnsd.Node
