import MicroReticulum.Directory.Recall
import MicroReticulum.Transport.Hops

/-!
# Echoes of an announce

The guard pool put behind `Transport::inbound`: whether an announce that has
been heard before can put a longer route in the place of a shorter one. It can
once the guard has forgotten the emission, which other destinations' announces
bring about as well as the destination's own.
-/

namespace MicroReticulum.Transport

open Directory (Check GuardRec dest4Of fingerprint rdirGuardFresh guardStep entryOf InWindow Held Remembers
  forgets mistaken)
open Lib.Runs

-- ---------------------------------------------------------------------------
-- The guard pool behind inbound
-- ---------------------------------------------------------------------------

abbrev Pool := List GuardRec

/-- `rdirGuardFresh` at a minute of the local clock. -/
def guardPool (minutes : UInt16) : GuardFresh Pool := fun guards dest blob emitted bypass =>
  let (guards, answer) := rdirGuardFresh { dest, blob, emitted := .ofNat emitted, bypass, minutes } guards
  (guards, answer.fresh, answer.novel)

/-- `announce_emitted`: the last five bytes of the blob, the most significant first. -/
def announceEmitted (blob : Bytes) : Nat := (blob.mid 5 5).foldl (fun v x => 256 * v + x.toNat) 0

/-- An operation, with the clock's minute and the route's lifetime where it is an announce. -/
structure Event where
  minutes : UInt16
  pathTtl : Nat
  op : Op

def hear (n : Node Pool) (ev : Event) : Node Pool := step (guardPool ev.minutes) ev.pathTtl n ev.op

variable {γ : Type} {guardFresh : GuardFresh γ} {pathTtl : Nat} {n : Node γ} {m : Node Pool} {a : Arrival}
  {p : Packet} {ev ev' : Event} {events pre mid post : List Event} {base : UInt32} {dest blob : Bytes}

/-- A valid announce of a destination that is not ours, however far away. -/
def hears (n : Node γ) (a : Arrival) (p : Packet) : Bool :=
  accepts n a p && p.type = .announce && p.dest ∉ n.destinations && a.valid

def inReach (p : Packet) : Bool := p.hops.toNat < PATHFINDER_M + 1

/-- The announce comes before the guard. -/
def asks (n : Node γ) (a : Arrival) (p : Packet) : Bool :=
  hears n a p && inReach p && p.blob.length = RANDOM_HASH_BYTES

def bypass (n : Node γ) (p : Packet) : Bool :=
  let known := peekRoute n p.dest
  let pathResponse : Bool := p.context = .pathResponse
  let requested := pathResponse && n.requests p.dest
  let relayWaiting := pathResponse && n.discovery p.dest = some false
  let shorter := known.any (p.hops < ·.hops) && !(n.heldEmitted p.dest).any (p.emitted < ·)
  (shorter && pathResponse) || ((requested || relayWaiting) && known.all (p.hops ≤ ·.hops))

def checkOf (minutes : UInt16) (n : Node γ) (p : Packet) : Check :=
  { dest := p.dest, blob := p.blob, emitted := .ofNat p.emitted, bypass := bypass n p, minutes }

def consult (guardFresh : GuardFresh γ) (n : Node γ) (p : Packet) : γ × Bool × Bool :=
  if p.blob.length = RANDOM_HASH_BYTES then guardFresh n.guard p.dest p.blob p.emitted (bypass n p)
  else (n.guard, false, false)

theorem judge_guard : (judge guardFresh n a p).guard = (consult guardFresh n p).1 := rfl

/-- A route is kept against a longer one, unless it has expired or the announce
is a new emission. -/
theorem judge_retain {r : Record} (h : (judge guardFresh n a p).retain = true)
    (hr : peekRoute n p.dest = some r) :
    p.hops ≤ r.hops ∨ (consult guardFresh n p).2.2 = true ∨ r.expires ≠ 0 ∧ r.expires ≤ a.now := by
  have hbetter : ((peekRoute n p.dest).all fun r =>
      p.hops ≤ r.hops || (consult guardFresh n p).2.2 || (r.expires ≠ 0 && r.expires ≤ a.now)) = true :=
    (Bool.and_eq_true_iff.1 (Bool.and_eq_true_iff.1 h).1).1
  simpa [hr, or_assoc] using hbetter

-- ---------------------------------------------------------------------------
-- One packet
-- ---------------------------------------------------------------------------

/-- The node as the announce's tests see it. -/
def prepared (n : Node γ) (a : Arrival) (p : Packet) : Node γ := dropRepeated (remember n p) a p.dest

theorem remember_eq (n : Node γ) (p : Packet) : ∃ seen, remember n p = { n with seen } := by
  unfold remember
  split
  · exact ⟨n.seen, rfl⟩
  · exact ⟨_, rfl⟩

theorem prepared_eq (n : Node γ) (a : Arrival) (p : Packet) :
    ∃ seen announces, prepared n a p = { n with seen, announces } := by
  obtain ⟨seen, hseen⟩ := remember_eq n p
  rw [prepared, hseen, dropRepeated]
  split
  · exact ⟨seen, _, rfl⟩
  · exact ⟨seen, n.announces, rfl⟩

theorem consult_prepared (a : Arrival) :
    consult guardFresh (prepared n a p) p = consult guardFresh n p := by
  obtain ⟨seen, announces, h⟩ := prepared_eq n a p
  rw [h]
  rfl

/-- A packet that is no announce, or one that is not looked into. -/
theorem inbound_of_not_hears (guardFresh : GuardFresh γ) (pathTtl : Nat) (h : hears n a p = false) :
    ∃ seen, (inbound guardFresh pathTtl n a p).1 = { n with seen } := by
  obtain ⟨seen, hseen⟩ := remember_eq n p
  unfold inbound
  split
  · next hacc =>
    refine ⟨seen, ?_⟩
    split
    · next ht =>
      have hskip : p.dest ∈ n.destinations ∨ a.valid = false := by
        by_contra hno
        simp [hears, hacc, ht, not_or.1 hno] at h
      rw [hseen, announce, if_pos hskip]
    · exact hseen
  · exact ⟨n.seen, rfl⟩

theorem inbound_of_hears (h : hears n a p = true) :
    (inbound guardFresh pathTtl n a p).1 =
      if inReach p then (take guardFresh pathTtl (prepared n a p) a p).1 else prepared n a p := by
  simp only [hears, Bool.and_eq_true, decide_eq_true_eq] at h
  obtain ⟨⟨⟨hacc, ht⟩, hdest⟩, hvalid⟩ := h
  obtain ⟨seen, hseen⟩ := remember_eq n p
  have hskip : ¬ (p.dest ∈ (remember n p).destinations ∨ a.valid = false) := by
    rw [hseen]
    simp [hdest, hvalid]
  simp only [inbound, hacc, ht, if_true, announce, if_neg hskip, inReach, decide_eq_true_eq]
  split <;> rfl

theorem take_guard : (take guardFresh pathTtl n a p).1.guard = (consult guardFresh n p).1 := rfl

theorem inbound_guard :
    (inbound guardFresh pathTtl n a p).1.guard =
      if asks n a p then (guardFresh n.guard p.dest p.blob p.emitted (bypass n p)).1 else n.guard := by
  cases hh : hears n a p with
  | false =>
    obtain ⟨seen, h⟩ := inbound_of_not_hears guardFresh pathTtl hh
    simp [h, asks, hh]
  | true =>
    rw [inbound_of_hears hh]
    cases hr : inReach p with
    | false =>
      obtain ⟨seen, announces, h⟩ := prepared_eq n a p
      simp [h, asks, hr]
    | true =>
      rw [if_pos rfl, take_guard, consult_prepared, consult]
      split
      · next hlen => simp [asks, hh, hr, hlen]
      · next hlen => simp [asks, hh, hr, hlen]

/-- The packet leaves a longer route where an unexpired one was. -/
def Lengthens (n n' : Node γ) (now : Nat) (dest : Bytes) : Prop :=
  ∃ r r', peekRoute n dest = some r ∧ (r.expires = 0 ∨ now < r.expires) ∧ peekRoute n' dest = some r' ∧
    r.hops < r'.hops

theorem not_lengthens_of_records {n' : Node γ} {now : Nat} (h : n'.records = n.records) :
    ¬ Lengthens n n' now dest := by
  rintro ⟨r, r', hr, -, hr', hlt⟩
  rw [peekRoute, h] at hr'
  cases hr.symm.trans hr'
  exact absurd hlt (UInt8.lt_irrefl _)

instance (n n' : Node γ) (now : Nat) (dest : Bytes) : Decidable (Lengthens n n' now dest) :=
  decidable_of_iff ((peekRoute n dest).any fun r =>
      (r.expires = 0 ∨ now < r.expires) ∧ (peekRoute n' dest).any (r.hops < ·.hops))
    (by cases hr : peekRoute n dest <;> cases hr' : peekRoute n' dest <;> simp [Lengthens, hr, hr'])

/-- A longer route comes only from an announce that the guard calls a new emission. -/
theorem novel_of_lengthens
    (h : Lengthens n (inbound guardFresh pathTtl n a p).1 a.now p.dest) :
    asks n a p = true ∧ (guardFresh n.guard p.dest p.blob p.emitted (bypass n p)).2.2 = true := by
  cases hh : hears n a p with
  | false =>
    obtain ⟨seen, hin⟩ := inbound_of_not_hears guardFresh pathTtl hh
    rw [hin] at h
    exact absurd h (not_lengthens_of_records rfl)
  | true =>
    obtain ⟨seen, announces, hp⟩ := prepared_eq n a p
    rw [inbound_of_hears hh] at h
    cases hr : inReach p with
    | false =>
      rw [hr, hp] at h
      exact absurd h (not_lengthens_of_records rfl)
    | true =>
      rw [hr, if_pos rfl] at h
      cases hv : (judge guardFresh (prepared n a p) a p).retain with
      | false =>
        refine absurd h (not_lengthens_of_records ?_)
        rw [take, if_neg (by simp [hv]), hp]
      | true =>
        obtain ⟨r, r', hold, halive, hnew, hlt⟩ := h
        have hknown : peekRoute (prepared n a p) p.dest = some r := by rwa [hp]
        have hhops : r'.hops = p.hops := by
          rw [peekRoute_update p.dest _ (if_pos hv), if_pos rfl, Option.filter_eq_some_iff] at hnew
          cases hnew.1
          rfl
        have hnovel : (consult guardFresh n p).2.2 = true := by
          rw [← consult_prepared a]
          obtain hle | hnovel | ⟨hne, hexp⟩ := judge_retain hv hknown
          · exact absurd (hhops ▸ hlt) (UInt8.not_lt.2 hle)
          · exact hnovel
          · omega
        unfold consult at hnovel
        split at hnovel
        · next hlen => exact ⟨by simp [asks, hh, hr, hlen], hnovel⟩
        · cases hnovel

-- ---------------------------------------------------------------------------
-- Runs
-- ---------------------------------------------------------------------------

/-- The event is a valid announce with this blob of the destination. -/
def Event.brings (dest blob : Bytes) (n : Node γ) (ev : Event) : Bool :=
  match ev.op with
  | .packet a p => hears n a p && p.dest = dest && p.blob = blob
  | _ => false

/-- No copy of an announce heard before puts a longer route in the place of an
unexpired one. -/
def EchoesIgnored (dest blob : Bytes) (m : Node Pool) (events : List Event) : Prop :=
  ∀ pre ev mid ev' post a p, events = pre ++ ev :: (mid ++ ev' :: post) →
    ev.brings dest blob (run hear m pre) = true → ev'.op = .packet a p → p.dest = dest → p.blob = blob →
      ¬ Lengthens (run hear m (pre ++ ev :: mid)) (run hear m (pre ++ ev :: mid ++ [ev'])) a.now dest

/-- The guard's check that the event leads to. -/
def Event.check (n : Node γ) (ev : Event) : Option Check :=
  match ev.op with
  | .packet a p => if asks n a p then some (checkOf ev.minutes n p) else none
  | _ => none

/-- The time in an announce is that of its blob, and within half the clock of
the others under the destination's key. -/
def Packet.Stamped (dest : Bytes) (base : UInt32) (p : Packet) : Prop :=
  p.emitted = announceEmitted p.blob ∧
    (dest4Of p.dest = dest4Of dest → InWindow base (.ofNat p.emitted))

def Event.Stamped (dest : Bytes) (base : UInt32) (ev : Event) : Prop :=
  ∀ a p, ev.op = .packet a p → p.type = .announce → p.Stamped dest base

/-- What the guard remembers of the announce. -/
def Recalled (dest blob : Bytes) (base : UInt32) (m : Node Pool) : Prop :=
  Remembers (dest4Of dest) base (.ofNat (announceEmitted blob)) (fingerprint blob) m.guard

/-- The event does not make the guard forget the announce; and where it brings
the announce, that is in reach and not taken for another. -/
def Event.Recalls (dest blob : Bytes) (m : Node Pool) (ev : Event) : Prop :=
  (ev.check m).all (fun c => !forgets (dest4Of dest) (.ofNat (announceEmitted blob)) (fingerprint blob) m.guard c) ∧
    (ev.brings dest blob m = true ∧ blob.length = RANDOM_HASH_BYTES →
      (ev.check m).any fun c => !(entryOf (dest4Of dest) m.guard).any (mistaken c))

instance : Decidable (ev.Recalls dest blob m) := inferInstanceAs (Decidable (_ ∧ _))

theorem Event.brings_eq_true :
    ev.brings dest blob n = true ↔
      ∃ a p, ev.op = .packet a p ∧ hears n a p = true ∧ p.dest = dest ∧ p.blob = blob := by
  unfold Event.brings
  split
  · next a p hop =>
    simp only [hop, Bool.and_eq_true, decide_eq_true_eq, Op.packet.injEq]
    constructor
    · rintro ⟨⟨hh, hd⟩, hb⟩
      exact ⟨a, p, ⟨rfl, rfl⟩, hh, hd, hb⟩
    · rintro ⟨_, _, ⟨rfl, rfl⟩, hh, hd, hb⟩
      exact ⟨⟨hh, hd⟩, hb⟩
  · next hop =>
    simp only [Bool.false_eq_true, false_iff]
    rintro ⟨a, p, h, -⟩
    exact hop a p h

theorem Event.check_eq_some {c : Check} (h : ev.check n = some c) :
    ∃ a p, ev.op = .packet a p ∧ asks n a p = true ∧ c = checkOf ev.minutes n p := by
  unfold Event.check at h
  split at h
  · next a p hop =>
    split at h
    · next hasks => exact ⟨a, p, hop, hasks, (Option.some.inj h).symm⟩
    · cases h
  · cases h

/-- All an event does to the guard is the check it leads to. -/
theorem hear_guard (m : Node Pool) (ev : Event) :
    (hear m ev).guard = (ev.check m).elim m.guard (guardStep m.guard) := by
  obtain ⟨minutes, pathTtl, op⟩ := ev
  cases op with
  | packet a p =>
    have hcheck : Event.check m ⟨minutes, pathTtl, .packet a p⟩ =
      if asks m a p then some (checkOf minutes m p) else none := rfl
    rw [hear, step, inbound_guard, hcheck]
    split <;> rfl
  | clearRoute d =>
    rw [hear, step, clearRoute]
    split <;> rfl
  | touchUsed d now expires =>
    rw [hear, step, touchUsed]
    split <;> rfl
  | forget | claim => rfl

theorem asks_announce (h : asks n a p = true) : p.type = .announce := by
  simp only [asks, hears, Bool.and_eq_true, decide_eq_true_eq] at h
  exact h.1.1.1.1.2

theorem Event.Stamped.check {c : Check} (h : ev.Stamped dest base) (hc : ev.check n = some c) :
    c.emitted = .ofNat (announceEmitted c.blob) ∧ (dest4Of c.dest = dest4Of dest → InWindow base c.emitted) := by
  obtain ⟨a, p, hop, hasks, rfl⟩ := Event.check_eq_some hc
  obtain ⟨hem, hwin⟩ := h a p hop (asks_announce hasks)
  exact ⟨congrArg UInt32.ofNat hem, hwin⟩

theorem hear_guard_ne_nil (hne : m.guard ≠ []) : (hear m ev).guard ≠ [] := by
  rw [hear_guard]
  cases ev.check m with
  | none => exact hne
  | some c =>
    have hstep : run guardStep m.guard [c] ≠ [] := Directory.guardStep_ne_nil hne
    exact hstep

theorem Held.hear (h : Held (dest4Of dest) base m.guard) (hst : ev.Stamped dest base)
    (hok : ev.Recalls dest blob m) : Held (dest4Of dest) base (Transport.hear m ev).guard := by
  rw [hear_guard]
  cases hc : ev.check m with
  | none => exact h
  | some c =>
    have hforget := hok.1
    simp only [hc, Option.all_some, Bool.not_eq_true'] at hforget
    refine Directory.Held.step h (fun hk => ?_) (hst.check hc).2
    rwa [forgets, if_neg hk] at hforget

theorem Recalled.hear (h : Recalled dest blob base m) (hst : ev.Stamped dest base)
    (hok : ev.Recalls dest blob m) : Recalled dest blob base (Transport.hear m ev) := by
  rw [Recalled, hear_guard]
  cases hc : ev.check m with
  | none => exact h
  | some c =>
    have hforget := hok.1
    simp only [hc, Option.all_some, Bool.not_eq_true'] at hforget
    exact Remembers.step h (hst.check hc).2 hforget

/-- What is brought is remembered. -/
theorem recalled_of_brings (hb : ev.brings dest blob m = true) (hlen : blob.length = RANDOM_HASH_BYTES)
    (hne : m.guard ≠ []) (hheld : Held (dest4Of dest) base m.guard) (hst : ev.Stamped dest base)
    (hok : ev.Recalls dest blob m) : Recalled dest blob base (hear m ev) := by
  obtain ⟨c, hc, hmist⟩ := (Option.any_eq_true _ _).1 (hok.2 ⟨hb, hlen⟩)
  rw [Bool.not_eq_true'] at hmist
  obtain ⟨a, p, hop, -, rfl⟩ := Event.check_eq_some hc
  obtain ⟨a', p', hop', -, rfl, rfl⟩ := Event.brings_eq_true.1 hb
  cases hop.symm.trans hop'
  obtain ⟨hem, hwin⟩ := hst.check hc
  have hkept : Remembers (dest4Of p.dest) base (checkOf ev.minutes m p).emitted (fingerprint p.blob)
      (guardStep m.guard (checkOf ev.minutes m p)) :=
    Directory.remembers_of_checked (c := checkOf ev.minutes m p) hne hheld (hwin rfl)
      hmist
  rw [hem] at hkept
  rw [Recalled, hear_guard, hc]
  exact hkept

/-- A copy of what is remembered does not lengthen the route. -/
theorem Recalled.not_lengthens (h : Recalled p.dest p.blob base m) (hop : ev.op = .packet a p)
    (hst : ev.Stamped p.dest base) : ¬ Lengthens m (Transport.hear m ev) a.now p.dest := by
  intro hlong
  rw [Transport.hear, hop, step] at hlong
  obtain ⟨hasks, hnovel⟩ := novel_of_lengthens hlong
  have hc : ev.check m = some (checkOf ev.minutes m p) := by simp [Event.check, hop, hasks]
  obtain ⟨hem, hwin⟩ := hst.check hc
  have hknown : Remembers (dest4Of (checkOf ev.minutes m p).dest) base (checkOf ev.minutes m p).emitted
      (fingerprint (checkOf ev.minutes m p).blob) m.guard := by
    rw [hem]
    exact h
  have hold := hknown.not_novel (hwin rfl)
  exact absurd (hold.symm.trans hnovel) (by decide)

/-- As long as the guard does not forget it, an announce heard once never takes
the place of a shorter route. -/
theorem echoes_ignored (dest blob : Bytes) (base : UInt32) (m : Node Pool) (events : List Event)
    (hne : m.guard ≠ []) (hheld : Held (dest4Of dest) base m.guard)
    (hst : ∀ ev ∈ events, ev.Stamped dest base)
    (hok : Guarded hear (fun m ev => ev.Recalls dest blob m) m events) :
    EchoesIgnored dest blob m events := by
  rintro pre ev mid ev' post a p hsplit hb hop rfl rfl hlong
  have hall := hok.with_mem hst
  rw [hsplit] at hall
  obtain ⟨hpre, ⟨hok₁, hst₁⟩, hrest⟩ := guarded_append.1 hall
  obtain ⟨hmid, ⟨hok₂, hst₂⟩, -⟩ := guarded_append.1 hrest
  have hstep : ∀ m ev, (m.guard ≠ [] ∧ Held (dest4Of p.dest) base m.guard) →
      (ev.Recalls p.dest p.blob m ∧ ev.Stamped p.dest base) →
        (hear m ev).guard ≠ [] ∧ Held (dest4Of p.dest) base (hear m ev).guard :=
    fun m ev h ok => ⟨hear_guard_ne_nil h.1, Held.hear h.2 ok.2 ok.1⟩
  have hheld' := hpre.invariant hstep ⟨hne, hheld⟩
  by_cases hlen : p.blob.length = RANDOM_HASH_BYTES
  · have hfirst := recalled_of_brings hb hlen hheld'.1 hheld'.2 hst₁ hok₁
    have hlast := hmid.invariant (fun m ev h ok => Recalled.hear h ok.2 ok.1) hfirst
    rw [run_concat, run_append, run_cons] at hlong
    exact hlast.not_lengthens hop hst₂ hlong
  · -- without a whole blob the guard is not asked
    rw [run_concat, hear, hop, step] at hlong
    have hasks := (novel_of_lengthens hlong).1
    simp [asks, hlen] at hasks

-- ---------------------------------------------------------------------------
-- Two runs
-- ---------------------------------------------------------------------------

/-- A node just started, with the smallest pool there is. -/
def started : Node Pool where
  identity := [1]
  transportEnabled := true
  interfaces := [radio]
  destinations := []
  links := []
  seen := []
  records := fun _ => none
  heldEmitted := fun _ => none
  requests := fun _ => false
  discovery := fun _ => none
  announces := fun _ => none
  guard := .replicate 32 .zero
where
  radio : Interface := ⟨[2], true, 4, false⟩

def place (i : UInt8) : Bytes := .replicate 16 i

/-- The announce number `t` of a place, sent at second `t`. -/
def sentFrom (i t wireHops : UInt8) : Packet where
  wireHops
  type := .announce
  context := .none
  destType := .single
  transportId := none
  dest := place i
  hash := [i, t]
  blob := [i, t, 0, 0, 0, 0, 0, 0, 0, t]
  emitted := t.toNat

def arrives (p : Packet) : Event :=
  { minutes := 0, pathTtl := 3600, op := .packet { now := 1, interface := some started.radio } p }

/-- As many announces of other places as the pool has slots, from far away. -/
def crowd : List Event := (List.range 32).map fun i => arrives (sentFrom (.ofNat (i + 1)) 1 9)

/-- Two hops further on than before. -/
def echo : Event := arrives (sentFrom 0 2 2)

theorem arrives_stamped (dest : Bytes) (i t w : UInt8) : (arrives (sentFrom i t w)).Stamped dest 0 := by
  rintro a p hop -
  cases hop
  have ht := t.toNat_lt
  refine ⟨by simp [sentFrom, announceEmitted, Bytes.mid], fun _ => ?_⟩
  rw [InWindow, Directory.since, UInt32.sub_zero, UInt32.toNat_ofNat']
  exact (Nat.mod_le _ _).trans_lt (show t.toNat < 2 ^ 31 by omega)

theorem held_started (k base : UInt32) : Held k base started.guard := by
  intro g hg
  obtain ⟨hmem, hused, -⟩ := Directory.entryOf_spec hg
  rw [List.eq_of_mem_replicate hmem] at hused
  cases hused

/-- Another place's announce and an older one of its own do not make it forgotten. -/
theorem echoes_ignored_few :
    EchoesIgnored (place 0) (sentFrom 0 2 0).blob started
      [arrives (sentFrom 0 2 0), arrives (sentFrom 7 1 9), arrives (sentFrom 0 1 1), echo] := by
  refine echoes_ignored _ _ 0 _ _ (by decide) (held_started _ _) ?_ (by decide +kernel)
  simp only [List.mem_cons, List.not_mem_nil, or_false, forall_eq_or_imp, forall_eq]
  exact ⟨arrives_stamped _ 0 2 0, arrives_stamped _ 7 1 9, arrives_stamped _ 0 1 1, arrives_stamped _ 0 2 2⟩

/-- After as many other announces the echo takes the place of the one-hop route. -/
theorem echo_after_crowd :
    ¬ ∀ dest blob m events, EchoesIgnored dest blob m events := by
  intro h
  have hecho := h (place 0) (sentFrom 0 2 0).blob started (arrives (sentFrom 0 2 0) :: (crowd ++ [echo]))
  exact hecho [] (arrives (sentFrom 0 2 0)) crowd echo [] _ _ rfl (by decide +kernel) rfl rfl rfl
    (by decide +kernel)

end MicroReticulum.Transport
