import MicroReticulum.Rnsd.Requests

/-!
# Every request is answered

A request stays with the slot it came to. While it waits, the slot has not come
up yet, and comes closer to its end with every tick that is due; while it runs,
it has a time after which a tick ends it.
-/

namespace MicroReticulum.Rnsd.Node

open Lib Lib.Log Lib.Log.Transition Lib.Balance Lib.Progress
open Relation (ReflTransGen)
open MicroReticulum.MsgPack (Text ResourceAdvertisement)

variable {Q : Node → Risk → Prop} {n m : Node} {k : Kind} {i j : Nat} {c c' : Conn} {r : Conn × List Event} {now : ℚ}
  {serial : Nat} {t : Ticket}

-- ---------------------------------------------------------------------------
-- Where a request is
-- ---------------------------------------------------------------------------

/-- It waits for the link of the slot. -/
def Waits (t : Ticket) (c : Conn) : Prop := t ∈ c.pendReq.elim 0 tickets

/-- It runs on it. -/
def Flies (t : Ticket) (c : Conn) : Prop := t ∈ (flight c).tickets

theorem mem_owing : t ∈ owing c ↔ Waits t c ∨ Flies t c := Multiset.mem_add

theorem mem_tickets {req : Request} (h : t ∈ tickets req) : t = ticket req := by
  unfold tickets at h
  split at h
  · cases h
  · exact Multiset.mem_singleton.1 h

theorem Flies.ne (h : Flies t c) : c.reqMrid ≠ [] := by
  intro hm
  rw [Flies, flying_eq_zero hm] at h
  cases h

/-- A request that was there before still waits, or runs with its deadline, or has begun to run. -/
structure Follows (t : Ticket) (c c' : Conn) : Prop where
  waits : Waits t c' → Waits t c
  flies : Flies t c' → Flies t c ∧ c'.reqDeadline = c.reqDeadline ∨ Waits t c

theorem Follows.refl (t : Ticket) (c : Conn) : Follows t c c := ⟨id, fun h => .inl ⟨h, rfl⟩⟩

theorem Follows.trans {c₁ c₂ c₃ : Conn} (h₁ : Follows t c₁ c₂) (h₂ : Follows t c₂ c₃) : Follows t c₁ c₃ where
  waits h := h₁.waits (h₂.waits h)
  flies h := by
    rcases h₂.flies h with ⟨hf, hd⟩ | hw
    · rcases h₁.flies hf with ⟨hf', hd'⟩ | hw
      · exact .inl ⟨hf', hd.trans hd'⟩
      · exact .inr hw
    · exact .inr (h₁.waits hw)

theorem Follows.owing (h : Follows t c c') (ho : t ∈ owing c') : t ∈ owing c := by
  rcases mem_owing.1 ho with hw | hf
  · exact mem_owing.2 (.inl (h.waits hw))
  · rcases h.flies hf with ⟨hf, -⟩ | hw
    · exact mem_owing.2 (.inr hf)
    · exact mem_owing.2 (.inl hw)

theorem follows_of_flight (hp : Waits t c' → Waits t c) (hf : flight c' = flight c) : Follows t c c' where
  waits := hp
  flies h := .inl ⟨by rwa [Flies, ← hf], congrArg Flight.deadline hf⟩

theorem not_waits (h : c.pendReq = none) : ¬ Waits t c := by
  simp [Waits, h]

theorem Gets.follows {c₀ : Conn} {req : Request} {evs : List Event} (hg : Gets serial c c₀ req evs)
    (ht : t.no < serial) : Follows t c c₀ ∧ (t ∈ tickets req → Waits t c) := by
  cases hg with
  | asked req hr =>
    refine ⟨.refl t c, fun h => ?_⟩
    rw [mem_tickets h, ← hr] at ht
    exact absurd ht (lt_irrefl _)
  | waited hp hp₀ hf hq =>
    refine ⟨follows_of_flight (fun h => absurd h (not_waits hp₀)) hf, fun h => ?_⟩
    simpa [Waits, hp] using h

theorem Handles.follows (h : Handles now serial k c r) (ht : t.no < serial) : Follows t c r.1 := by
  have hgone : ∀ {c' : Conn}, c'.pendReq = none → c'.reqMrid = [] → Follows t c c' := fun hp hm =>
    ⟨fun h => absurd h (not_waits hp), fun h => absurd hm h.ne⟩
  cases h with
  | quiet hs hq => exact follows_of_flight (fun h => by rwa [Waits, ← hs.1]) hs.2
  | refused hg => exact (hg.follows ht).1
  | started mrid d hg hm hd hp hf =>
    obtain ⟨hfol, hreq⟩ := hg.follows ht
    refine ⟨fun h => hfol.waits (by rwa [Waits, ← hp]), fun h => .inr (hreq ?_)⟩
    rwa [Flies, Flight.tickets_started hf] at h
  | kept req hr hp hm =>
    refine follows_of_flight (fun h => ?_) rfl
    have h : t = ticket req := mem_tickets h
    rw [h] at ht
    exact absurd ht (by rw [← hr]; exact lt_irrefl _)
  | ended op data hm hp hm' => exact ⟨fun h => by rwa [Waits, ← hp], fun h => absurd hm' h.ne⟩
  | freed hs hp hm => exact hgone hp hm
  | idle hc hp hm => exact hgone hp hm

/-- Seen from later: each slot that has the request had it before, for the same consumer. -/
structure Tracks (t : Ticket) (n m : Node) : Prop where
  serial : n.serial ≤ m.serial
  back : ∀ i c', m.slot .link i = some c' → t ∈ owing c' →
    ∃ c, n.slot .link i = some c ∧ t ∈ owing c ∧ c'.opening = c.opening ∧ Follows t c c'

theorem Tracks.refl (t : Ticket) (n : Node) : Tracks t n n := ⟨le_rfl, fun _ c hs ho => ⟨c, hs, ho, rfl, .refl t c⟩⟩

theorem Tracks.trans {n₁ n₂ n₃ : Node} (h₁ : Tracks t n₁ n₂) (h₂ : Tracks t n₂ n₃) : Tracks t n₁ n₃ where
  serial := h₁.serial.trans h₂.serial
  back i c₃ hs ho := by
    obtain ⟨c₂, hs₂, ho₂, he₂, hf₂⟩ := h₂.back i c₃ hs ho
    obtain ⟨c₁, hs₁, ho₁, he₁, hf₁⟩ := h₁.back i c₂ hs₂ ho₂
    exact ⟨c₁, hs₁, ho₁, he₂.trans he₁, hf₁.trans hf₂⟩

/-- A slot that owes something is in use. -/
theorem Wf.used_of_owing (hw : n.Wf) (hs : n.slot k i = some c) (ho : t ∈ owing c) : c.used := by
  by_contra hu
  rw [owing, (hw.blank _ _ _ hs (by simpa using hu)).pendReq,
    flying_eq_zero (hw.blank _ _ _ hs (by simpa using hu)).reqMrid] at ho
  simp at ho

theorem Effect.tracks (he : Effect Q n m) (hw : n.Wf) (hw' : m.Wf) (ht : t.no < n.serial) : Tracks t n m where
  serial := he.serial_le
  back i c' hs ho := by
    rcases he.slot hs with hold | ⟨c, r, hs₀, hwr, rfl⟩
    · exact ⟨c', hold, ho, rfl, .refl t c'⟩
    · have hf := hwr.handles.follows ht
      have ho₀ := hf.owing ho
      refine ⟨c, hs₀, ho₀, ?_, hf⟩
      rcases hwr.opening (hw'.used_of_owing hs ho) with ⟨-, he⟩ | ⟨hu, -⟩
      · exact he
      · rw [hw.used_of_owing hs₀ ho₀] at hu
        cases hu

theorem steps_tracks (hw : n.Wf) (hm : Steps Q n m) (ht : t.no < n.serial) : Tracks t n m := by
  have hall : m.Wf ∧ Tracks t n m := by
    induction hm with
    | refl => exact ⟨hw, .refl t n⟩
    | tail _ hstep ih =>
      obtain ⟨hwf, htr⟩ := ih
      have hwf' := hwf.micro hstep
      exact ⟨hwf', htr.trans ((hstep.effect hwf).tracks hwf hwf' (ht.trans_le htr.serial))⟩
  exact hall.2

theorem step_tracks (hw : n.Wf) (op : Op) (ht : t.no < n.serial) : Tracks t n (step n op) :=
  steps_tracks hw (steps_step hw op (permits_true n op)) ht

-- ---------------------------------------------------------------------------
-- Deadlines
-- ---------------------------------------------------------------------------

/-- A request that runs has a deadline. -/
def Timed (_ : Kind) (c : Conn) : Prop := c.reqMrid ≠ [] → 0 < c.reqDeadline

theorem Handles.timed (h : Handles now serial k c r) (hnow : 0 < now) (ht : Timed k c) : Timed k r.1 := by
  have hsame : ∀ {c' : Conn}, flight c' = flight c → Timed k c' := by
    intro c' hf hm
    have hmrid : c'.reqMrid = c.reqMrid := congrArg Flight.mrid hf
    have hdead : c'.reqDeadline = c.reqDeadline := congrArg Flight.deadline hf
    rw [hdead]
    exact ht (hmrid ▸ hm)
  cases h with
  | quiet hs => exact hsame hs.2
  | refused hg => exact hsame hg.flight
  | started mrid d hg hm hd hp hf =>
    intro _
    have hdead := congrArg Flight.deadline hf
    exact (hnow.trans hd).trans_eq hdead.symm
  | kept => exact ht
  | ended op data hm hp hm' => exact fun hne => absurd hm' hne
  | freed hs hp hm => exact fun hne => absurd hm hne
  | idle hc hp hm => exact fun hne => absurd hm hne

theorem Each.timed (h : n.Inv ∧ n.Each Timed) (he : Effect Q n m) : m.Each Timed :=
  h.2.effect (fun _ ht hw => hw.handles.timed h.1.clock ht) he

/-- What is known of the requests of a state, with all that is known of its slots. -/
structure Tended (n : Node) : Prop where
  requested : n.Requested
  numbered : n.Numbered
  timed : n.Each Timed

theorem Tended.steps (h : n.Tended) (hm : Steps (fun _ _ => True) n m) : m.Tended := by
  refine ⟨h.requested.steps hm, h.numbered.steps h.requested.inv.wf hm, ?_⟩
  have hall : m.Inv ∧ m.Each Timed := by
    induction hm with
    | refl => exact ⟨h.requested.inv, h.timed⟩
    | tail _ hstep ih => exact ⟨ih.1.micro hstep, Each.timed ih (hstep.effect ih.1.wf)⟩
  exact hall.2

theorem Tended.step (h : n.Tended) (op : Op) : (Rnsd.step n op).Tended :=
  h.steps (steps_step h.requested.inv.wf op (permits_true n op))

theorem tended_boot {b : ℚ} (hb : 0 < b) : (boot b).Tended where
  requested := requested_boot hb
  numbered := (ledger_boot hb).numbered
  timed k i c hs := by
    rw [slot_boot hs]
    exact fun h => absurd rfl h

/-- What runs waits no more. -/
theorem Requested.not_both (h : n.Requested) (hs : n.slot .link i = some c) (hf : Flies t c) : ¬ Waits t c := by
  intro hw
  have hnodup := h.once.inside (le_of_eq h.balance)
  rw [holds, Multiset.nodup_add, total_of_getElem? hs, Multiset.nodup_add] at hnodup
  have howing := hnodup.1.1
  simp only [owes, if_true] at howing
  rw [owing, Multiset.nodup_add] at howing
  exact Multiset.disjoint_left.1 howing.2.2 hw hf

/-- The timers end a request whose time is over. -/
theorem timers_land (st : IdentifyStatus) (hm : c.reqMrid ≠ []) (hpos : 0 < c.reqDeadline) (hdue : c.reqDeadline ≤ now) :
    ∃ x, ((linkIdentifyTick now st).andThen (requestTick now) c).1 =
      { c with ident := x, reqMrid := [], reqDeadline := 0 } := by
  have hover : c.reqMrid ≠ [] ∧ c.reqDeadline ≠ 0 ∧ c.reqDeadline ≤ now := ⟨hm, hpos.ne', hdue⟩
  refine ⟨(linkIdentifyTick now st c).1.ident, ?_⟩
  rw [andThen_apply, linkIdentifyTick_fst]
  dsimp only
  unfold requestTick
  rw [if_pos hover]
  rfl

theorem linkDeadTick_fst (now : ℚ) : (linkDeadTick now c).1.reqMrid = c.reqMrid ∧
    (linkDeadTick now c).1.pendReq = c.pendReq ∨ (linkDeadTick now c).1.reqMrid = [] ∧
      (linkDeadTick now c).1.pendReq = none := by
  rcases linkDeadTick_cases (c := c) now with ⟨d, -, he⟩ | ⟨-, -, he⟩
  · rw [he]
    exact .inl ⟨rfl, rfl⟩
  · rw [he]
    exact .inr ⟨rfl, rfl⟩

/-- So does the turn of its slot. -/
theorem linkTickSlot_lands {w : Turn} (hi : n.Inv) (hs : n.slot .link i = some c) (hm : c.reqMrid ≠ [])
    (hpos : 0 < c.reqDeadline) (hdue : c.reqDeadline ≤ n.clock) (hs' : (n.linkTickSlot w i).slot .link i = some c') :
    c'.reqMrid = [] ∧ (c'.pendReq = c.pendReq ∨ c'.pendReq = none) := by
  have hu : c.used := by
    by_contra hu
    exact hm (hi.wf.blank _ _ _ hs (by simpa using hu)).reqMrid
  obtain ⟨x, hx⟩ := timers_land w.identify hm hpos hdue
  obtain ⟨t, ht⟩ : ∃ t, t = (linkIdentifyTick n.clock w.identify).andThen (requestTick n.clock) := ⟨_, rfl⟩
  rw [← ht] at hx
  have hs₁ : (n.act .link i t).slot .link i = some { c with ident := x, reqMrid := [], reqDeadline := 0 } := by
    rw [act_eq hs, slot_put_self hs, hx]
  unfold linkTickSlot at hs'
  simp only [hs, hu, ← ht, Bool.not_true, Bool.false_eq_true, if_false] at hs'
  -- a request runs on a link that is up, or on a slot that is dead
  rcases (hi.sane _ _ _ hs).phase hu with htry | hact | hdead
  · exact absurd ((hi.sane _ _ _ hs).trying htry).2 hm
  · simp only [hact] at hs'
    cases hs₁.symm.trans hs'
    exact ⟨rfl, .inl rfl⟩
  · have hturn : (linkDeadTick (n.act .link i t).clock { c with ident := x, reqMrid := [], reqDeadline := 0 }).1 = c' := by
      rcases hdead with hd | hd <;> simpa only [hd, act_eq hs₁, slot_put_self hs₁, Option.some.injEq] using hs'
    rcases linkDeadTick_fst (c := { c with ident := x, reqMrid := [], reqDeadline := 0 }) (n.act .link i t).clock with h | h
    · rw [hturn] at h
      exact ⟨h.1, .inl h.2⟩
    · rw [hturn] at h
      exact ⟨h.1, .inr h.2⟩

/-- A tick after its time ends a request. -/
theorem tick_lands {turns : Nat → Turn} (h : n.Tended) (ht : t.no < n.serial) (hs : n.slot .link i = some c)
    (hf : Flies t c) (hdue : c.reqDeadline ≤ n.clock) (hs' : (n.tick .link turns).slot .link i = some c') :
    t ∉ owing c' := by
  intro ho
  obtain ⟨pre, post, hsplit⟩ := List.append_of_mem (List.mem_range.2 (h.numbered.within _ _ _ hs))
  unfold tick at hs'
  simp only [tickSlot] at hs'
  rw [hsplit, List.foldl_append, List.foldl_cons] at hs'
  -- the turns before this slot's, its own, and those after it
  obtain ⟨n₁, hn₁⟩ : ∃ n₁, n₁ = pre.foldl (fun m i => m.linkTickSlot (turns i) i) n := ⟨_, rfl⟩
  have hsteps₁ : Steps (fun _ _ => True) n n₁ := hn₁ ▸ turns_steps h.requested.inv.wf
  rw [← hn₁] at hs'
  have h₁ := h.steps hsteps₁
  have hsteps₂ : Steps (fun _ _ => True) n₁ (n₁.linkTickSlot (turns i) i) :=
    linkTickSlot_steps (fun _ _ _ _ _ => trivial) fun _ _ _ => trivial
  have h₂ := h₁.steps hsteps₂
  have htr₁ := steps_tracks h.requested.inv.wf hsteps₁ ht
  have htr₂ := steps_tracks h₁.requested.inv.wf hsteps₂ (ht.trans_le htr₁.serial)
  have hsteps₃ : Steps (fun _ _ => True) (n₁.linkTickSlot (turns i) i)
      (post.foldl (fun m i => m.linkTickSlot (turns i) i) (n₁.linkTickSlot (turns i) i)) :=
    turns_steps h₂.requested.inv.wf
  have htr₃ := steps_tracks h₂.requested.inv.wf hsteps₃ (ht.trans_le (htr₁.serial.trans htr₂.serial))
  obtain ⟨c₂, hs₂, ho₂, -⟩ := htr₃.back i c' hs' ho
  obtain ⟨c₁, hs₁, ho₁, -, hf₁⟩ := htr₂.back i c₂ hs₂ ho₂
  obtain ⟨c₀, hs₀, -, -, hf₀⟩ := htr₁.back i c₁ hs₁ ho₁
  cases hs.symm.trans hs₀
  have hnot := h.requested.not_both hs hf
  -- it has run all the while, with the same deadline
  obtain ⟨hfly, hdead⟩ : Flies t c₁ ∧ c₁.reqDeadline = c.reqDeadline := by
    rcases mem_owing.1 ho₁ with hw | hfly
    · exact absurd (hf₀.waits hw) hnot
    · exact ⟨hfly, ((hf₀.flies hfly).resolve_right hnot).2⟩
  have hdue₁ : c₁.reqDeadline ≤ n₁.clock := by
    rw [hdead]
    exact hdue.trans (steps_clock_le h.requested.inv.wf hsteps₁)
  obtain ⟨hmrid, hpend⟩ := linkTickSlot_lands h₁.requested.inv hs₁ hfly.ne (h₁.timed _ _ _ hs₁ hfly.ne) hdue₁ hs₂
  rcases mem_owing.1 ho₂ with hw | hfly₂
  · exact hnot (hf₀.waits (hf₁.waits hw))
  · exact hfly₂.ne hmrid

-- ---------------------------------------------------------------------------
-- Endless runs
-- ---------------------------------------------------------------------------

def FliesAt (t : Ticket) (i : Nat) (n : Node) : Prop :=
  t.no < n.serial ∧ ∃ c, n.slot .link i = some c ∧ Flies t c

/-- A request that runs does so for a time only. -/
theorem leaves_flight (t : Ticket) (i : Nat) :
    Leaves Rnsd.step Tended LinkTick Node.clock (FliesAt t i) (fun _ => 0)
      (fun n => (n.slot .link i).elim 0 (·.reqDeadline)) where
  moves := by
    rintro n op h ⟨ht, c, hs, hf⟩ ⟨-, c', hs', hf'⟩
    refine .inr ⟨rfl, ?_⟩
    obtain ⟨c₀, hs₀, -, -, hfol⟩ := (step_tracks h.requested.inv.wf op ht).back i c' hs' (mem_owing.2 (.inr hf'))
    cases hs.symm.trans hs₀
    rw [hs, hs']
    exact ((hfol.flies hf').resolve_right (h.requested.not_both hs hf)).2
  ticks := by
    rintro n op h ⟨ht, c, hs, hf⟩ ⟨turns, rfl⟩ hdue ⟨-, c', hs', hf'⟩
    rw [hs] at hdue
    exact absurd (mem_owing.2 (.inr hf')) (tick_lands h ht hs hf hdue hs')

/-- A slot in which a request waits is not up. -/
theorem Inv.waiting (h : n.Inv) (hs : n.slot .link i = some c) (hw : Waits t c) : c.state ≠ .active := by
  intro ha
  exact not_waits ((h.sane _ _ _ hs).active ha |>.2.2 rfl).2.2 hw

variable {b : ℚ} {ops : ℕ → Op} {req : Request}

theorem tended_states (hb : 0 < b) (j : ℕ) : (states Rnsd.step (boot b) ops j).Tended :=
  states_invariant (fun _ op h => h.step op) (tended_boot hb) j

theorem states_tracks (hb : 0 < b) {j : ℕ} (ht : t.no < (states Rnsd.step (boot b) ops j).serial) (d : ℕ) :
    Tracks t (states Rnsd.step (boot b) ops j) (states Rnsd.step (boot b) ops (j + d)) := by
  induction d with
  | zero => exact .refl t _
  | succ d ih => exact ih.trans (step_tracks (tended_states hb (j + d)).requested.inv.wf _ (ht.trans_le ih.serial))

theorem log_grows {e : Event} (hw : n.Wf) (he : e ∈ n.log) (op : Op) : e ∈ (step n op).log := by
  refine kept_of_effect (P := fun m => e ∈ m.log) (fun h heff => ?_) he hw (steps_step hw op (permits_true n op))
  obtain ⟨evs, hlog, -⟩ := requestBooks.effect heff
  rw [hlog]
  exact List.mem_append_left _ h

theorem states_log (hb : 0 < b) {e : Event} {j : ℕ} (he : e ∈ (states Rnsd.step (boot b) ops j).log) (d : ℕ) :
    e ∈ (states Rnsd.step (boot b) ops (j + d)).log := by
  induction d with
  | zero => exact he
  | succ d ih => exact log_grows (tended_states hb (j + d)).requested.inv.wf ih _

/-- While ticks come, every request that names a port is answered. -/
theorem request_answered (hb : 0 < b) (htick : Ticking Rnsd.step LinkTick Node.clock (boot b) ops) {j : ℕ}
    (hreq : .asked req ∈ (states Rnsd.step (boot b) ops j).log) (hport : req.port ≠ 0) :
    ∃ j' ≥ j, ∃ a, .reqAux a ∈ (states Rnsd.step (boot b) ops j').log ∧
      ticket req = ⟨a.no, a.task, a.port, a.cid⟩ := by
  by_contra hnever
  push Not at hnever
  have htended : ∀ d, (states Rnsd.step (boot b) ops (j + d)).Tended := fun d => tended_states hb (j + d)
  have hplace : ∀ d, ∃ i c, (states Rnsd.step (boot b) ops (j + d)).slot .link i = some c ∧ ticket req ∈ owing c := by
    intro d
    cases (htended d).requested.fate (states_log hb hreq d) hport with
    | owed i c hs ho => exact ⟨i, c, hs, ho⟩
    | answered a ha hto => exact absurd hto (hnever (j + d) (Nat.le_add_right j d) a ha)
  have hno : ∀ d, (ticket req).no < (states Rnsd.step (boot b) ops (j + d)).serial := fun d =>
    (htended d).requested.counted.below _ (mem_total.2 ⟨_, states_log hb hreq d, by simp [askedFor, tickets, hport]⟩)
  -- it is with one slot all the time
  obtain ⟨i, c₀, hs₀, ho₀⟩ := hplace 0
  have hstays : ∀ d, ∃ c, (states Rnsd.step (boot b) ops (j + d)).slot .link i = some c ∧ ticket req ∈ owing c ∧
      c.opening = c₀.opening := by
    intro d
    obtain ⟨i', c, hs, ho⟩ := hplace d
    obtain ⟨c₁, hs₁, ho₁, he, -⟩ := (states_tracks hb (hno 0) d).back i' c hs ho
    obtain rfl := (htended 0).requested.only hs₁ hs₀ ho₁ ho₀
    cases hs₁.symm.trans hs₀
    exact ⟨c, hs, ho, he⟩
  by_cases hwaits : ∀ d c, (states Rnsd.step (boot b) ops (j + d)).slot .link i = some c → Waits (ticket req) c
  · have hphase := leaves_phase i c₀.opening (P := fun c => c.state ≠ .active) fun c h => h
    obtain ⟨j', hj, hleft⟩ := hphase.ends
      (fun j => ⟨(tended_states hb j).requested.inv, (tended_states hb j).numbered⟩) htick j
    obtain ⟨d, rfl⟩ := Nat.exists_eq_add_of_le hj
    obtain ⟨c, hs, ho, he⟩ := hstays d
    have hinv := (htended d).requested.inv
    exact hleft ⟨c, hs, hinv.wf.used_of_owing hs ho, he, hinv.waiting hs (hwaits d c hs)⟩
  · push Not at hwaits
    obtain ⟨d₀, c₁, hs₁, hnot⟩ := hwaits
    obtain ⟨j', hj, hleft⟩ := (leaves_flight (ticket req) i).ends (fun j => tended_states hb j) htick (j + d₀)
    obtain ⟨d, rfl⟩ := Nat.exists_eq_add_of_le hj
    obtain ⟨c, hs, ho, -⟩ := hstays (d₀ + d)
    rw [← add_assoc] at hs
    obtain ⟨c', hs', -, -, hfol⟩ := (states_tracks hb (hno d₀) d).back i c hs ho
    cases hs₁.symm.trans hs'
    refine hleft ⟨?_, c, hs, (mem_owing.1 ho).resolve_left fun hw => hnot (hfol.waits hw)⟩
    rw [add_assoc]
    exact hno (d₀ + d)

/-- A second passes between ticks. -/
def patient : ℕ → Op
  | 0 => anAsking[0]
  | 1 => anAsking[1]
  | j + 2 => if j % 2 = 0 then .wait 1 else .tick .link fun _ => { env := pathless }

theorem clock_patient_le (j : ℕ) :
    (states Rnsd.step (boot 1) patient j).clock ≤ (states Rnsd.step (boot 1) patient (j + 1)).clock := by
  have htended : (states Rnsd.step (boot 1) patient j).Tended := tended_states (by norm_num) j
  exact steps_clock_le htended.requested.inv.wf (steps_step htended.requested.inv.wf _ (permits_true _ _))

theorem clock_patient (k : ℕ) : (k : ℚ) ≤ (states Rnsd.step (boot 1) patient (2 * k + 2)).clock := by
  induction k with
  | zero =>
    have htended : (states Rnsd.step (boot 1) patient 2).Tended := tended_states (by norm_num) 2
    exact_mod_cast htended.requested.inv.clock.le
  | succ k ih =>
    have hwait : (states Rnsd.step (boot 1) patient (2 * k + 3)).clock =
        (states Rnsd.step (boot 1) patient (2 * k + 2)).clock + 1 := by
      rw [states]
      simp [patient, Rnsd.step]
    push_cast
    calc (k : ℚ) + 1 ≤ (states Rnsd.step (boot 1) patient (2 * k + 2)).clock + 1 := by linarith
      _ = (states Rnsd.step (boot 1) patient (2 * k + 3)).clock := hwait.symm
      _ ≤ (states Rnsd.step (boot 1) patient (2 * (k + 1) + 2)).clock := clock_patient_le _

theorem ticking_patient : Ticking Rnsd.step LinkTick Node.clock (boot 1) patient := by
  intro j t
  obtain ⟨k, hk⟩ : ∃ k : ℕ, t ≤ k := exists_nat_ge t
  refine ⟨2 * max j k + 3, by omega, ⟨fun _ => { env := pathless }, ?_⟩, ?_⟩
  · have hodd : (2 * max j k + 1) % 2 ≠ 0 := by omega
    exact if_neg hodd
  · calc t ≤ k := hk
      _ ≤ (max j k : ℕ) := by exact_mod_cast le_max_right j k
      _ ≤ _ := clock_patient _
      _ ≤ _ := clock_patient_le _

theorem request_answered_patient : ∃ j' ≥ 2, ∃ a, .reqAux a ∈ (states Rnsd.step (boot 1) patient j').log ∧
    ticket aRequest = ⟨a.no, a.task, a.port, a.cid⟩ :=
  request_answered (by norm_num) ticking_patient (j := 2) (by decide) (by decide)

end MicroReticulum.Rnsd.Node
