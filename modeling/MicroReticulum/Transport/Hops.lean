import MicroReticulum.Lib.Runs
import MicroReticulum.Transport.Announce

/-!
# When a hop count wraps

The increment comes before every guard, so the guards see what the `uint8_t`
made of it. It makes 0 of 255: then the announce that has travelled furthest
passes for one that has not travelled at all. For every other byte the count is
exact, and the guards do what they say.
-/

namespace MicroReticulum.Transport

open Lib.Runs

variable {γ : Type} {guardFresh : GuardFresh γ} {pathTtl : Nat} {n n' : Node γ} {a : Arrival} {p : Packet}

/-- An announce that left the tables of routes, of announces to pass on and of
path requests as they were, but for a queued announce it made superfluous. -/
structure Ignored (dest : Bytes) (n n' : Node γ) (answer : Option UInt8) : Prop where
  records : n'.records = n.records
  held : n'.heldEmitted = n.heldEmitted
  guard : n'.guard = n.guard
  discovery : n'.discovery = n.discovery
  elsewhere : ∀ d, d ≠ dest → n'.announces d = n.announces d
  queue : n'.announces dest = n.announces dest ∨ n'.announces dest = none
  answer : answer = none

/-- What is asked of the hop count of one packet: that it is one more than the
packet's own, that it is not that of a local packet, and that an announce from
too far away is not used. -/
structure Sane (guardFresh : GuardFresh γ) (pathTtl : Nat) (n : Node γ) (a : Arrival) (p : Packet) :
    Prop where
  exact_hops : ∀ h, inboundHops n a p = some h → h.toNat = p.wireHops.toNat + 1
  not_local : ∀ h, inboundHops n a p = some h → h ≠ 0
  distant : p.type = .announce → PATHFINDER_M ≤ p.wireHops.toNat →
    Ignored p.dest n (inbound guardFresh pathTtl n a p).1 (inbound guardFresh pathTtl n a p).2

/-- The packet is not one whose hop count wraps, or the filter stops it. -/
def Unwrapped (n : Node γ) (a : Arrival) (p : Packet) : Prop := p.wireHops ≠ 255 ∨ accepts n a p = false

instance : Decidable (Unwrapped n a p) := inferInstanceAs (Decidable (_ ∨ _))

-- ---------------------------------------------------------------------------
-- The increment
-- ---------------------------------------------------------------------------

theorem Packet.hops_toNat (h : p.wireHops ≠ 255) : p.hops.toNat = p.wireHops.toNat + 1 := by
  have hne : p.wireHops.toNat ≠ 255 := fun hn => h (UInt8.toNat_inj.1 hn)
  have hlt := p.wireHops.toNat_lt
  rw [Packet.hops, UInt8.toNat_add]
  exact Nat.mod_eq_of_lt (show p.wireHops.toNat + 1 < 256 by omega)

theorem Packet.hops_wraps (h : p.wireHops = 255) : p.hops = 0 := by
  rw [Packet.hops, h]
  rfl

theorem inboundHops_eq_some {h : UInt8} :
    inboundHops n a p = some h ↔ accepts n a p = true ∧ p.hops = h := by
  simp [inboundHops]

-- ---------------------------------------------------------------------------
-- An announce from too far away
-- ---------------------------------------------------------------------------

theorem Ignored.refl (dest : Bytes) (n : Node γ) : Ignored dest n n none :=
  ⟨rfl, rfl, rfl, rfl, fun _ _ => rfl, .inl rfl, rfl⟩

theorem ignored_dropRepeated (n : Node γ) (a : Arrival) (dest : Bytes) :
    Ignored dest n (dropRepeated n a dest) none := by
  unfold dropRepeated
  split
  · exact ⟨rfl, rfl, rfl, rfl, fun d hd => if_neg hd, .inr (if_pos rfl), rfl⟩
  · exact .refl dest n

theorem announce_distant (h : ¬ p.hops.toNat < PATHFINDER_M + 1) :
    Ignored p.dest n (announce guardFresh pathTtl n a p).1 (announce guardFresh pathTtl n a p).2 := by
  rw [announce, if_neg h]
  split
  · exact .refl _ n
  · exact ignored_dropRepeated n a p.dest

theorem inbound_distant (ht : p.type = .announce) (h : ¬ p.hops.toNat < PATHFINDER_M + 1) :
    Ignored p.dest n (inbound guardFresh pathTtl n a p).1 (inbound guardFresh pathTtl n a p).2 := by
  unfold inbound
  cases accepts n a p with
  | false => exact .refl _ n
  | true =>
    have hi : Ignored p.dest (remember n p) (announce guardFresh pathTtl (remember n p) a p).1
        (announce guardFresh pathTtl (remember n p) a p).2 := announce_distant h
    have hr : (remember n p).records = n.records ∧ (remember n p).heldEmitted = n.heldEmitted ∧
        (remember n p).guard = n.guard ∧ (remember n p).discovery = n.discovery ∧
        (remember n p).announces = n.announces := by
      unfold remember
      split <;> exact ⟨rfl, rfl, rfl, rfl, rfl⟩
    obtain ⟨hrec, hheld, hguard, hdisc, hann⟩ := hr
    simp only [if_pos, ht]
    exact ⟨hi.records.trans hrec, hi.held.trans hheld, hi.guard.trans hguard, hi.discovery.trans hdisc,
      fun d hd => (hi.elsewhere d hd).trans (by rw [hann]), hann ▸ hi.queue, hi.answer⟩

-- ---------------------------------------------------------------------------
-- One packet
-- ---------------------------------------------------------------------------

theorem sane_of_unwrapped (h : Unwrapped n a p) : Sane guardFresh pathTtl n a p := by
  obtain h | h := h
  · have hops := Packet.hops_toNat h
    refine ⟨?_, ?_, ?_⟩
    · intro k hk
      obtain ⟨-, rfl⟩ := inboundHops_eq_some.1 hk
      exact hops
    · intro k hk hz
      obtain ⟨-, rfl⟩ := inboundHops_eq_some.1 hk
      simp [hz] at hops
    · intro ht hfar
      exact inbound_distant ht (by omega)
  · have hnone : ∀ k, inboundHops n a p ≠ some k := by
      intro k hk
      simp [(inboundHops_eq_some.1 hk).1] at h
    refine ⟨fun k hk => absurd hk (hnone k), fun k hk => absurd hk (hnone k), fun _ _ => ?_⟩
    rw [inbound, h]
    exact .refl _ n

theorem sane_iff : Sane guardFresh pathTtl n a p ↔ Unwrapped n a p := by
  refine ⟨fun h => ?_, sane_of_unwrapped⟩
  by_contra hw
  simp only [Unwrapped, not_or, Decidable.not_not, Bool.not_eq_false] at hw
  exact h.not_local _ (inboundHops_eq_some.2 ⟨hw.2, rfl⟩) (Packet.hops_wraps hw.1)

-- ---------------------------------------------------------------------------
-- Runs
-- ---------------------------------------------------------------------------

/-- Every stored route has a hop count an announce in range can have. -/
def RoutesInRange (n : Node γ) : Prop :=
  ∀ d r, peekRoute n d = some r → 1 ≤ r.hops.toNat ∧ r.hops.toNat ≤ PATHFINDER_M

inductive Op where
  | packet (a : Arrival) (p : Packet)
  | clearRoute (dest : Bytes)
  | forget (dest : Bytes)
  | claim (dest : Bytes)
  | touchUsed (dest : Bytes) (now expires : Nat)

def step (guardFresh : GuardFresh γ) (pathTtl : Nat) (n : Node γ) : Op → Node γ
  | .packet a p => (inbound guardFresh pathTtl n a p).1
  | .clearRoute d => clearRoute n d
  | .forget d => forget n d
  | .claim d => claim n d
  | .touchUsed d now expires => touchUsed n d now expires

def Op.Unwrapped (n : Node γ) : Op → Prop
  | .packet a p => Transport.Unwrapped n a p
  | _ => True

instance : ∀ (n : Node γ) (op : Op), Decidable (op.Unwrapped n)
  | n, .packet a p => inferInstanceAs (Decidable (Transport.Unwrapped n a p))
  | _, .clearRoute _ | _, .forget _ | _, .claim _ | _, .touchUsed .. => .isTrue trivial

theorem peekRoute_update (dest : Bytes) (o : Option Record) (hn : n'.records = update n.records dest o)
    (d : Bytes) : peekRoute n' d = if d = dest then o.filter (·.route) else peekRoute n d := by
  rw [peekRoute, hn, update]
  split
  · rfl
  · rfl

/-- A record that is no route, or one in range, may be put anywhere. -/
theorem RoutesInRange.update (hs : RoutesInRange n) (dest : Bytes) (o : Option Record)
    (hn : n'.records = Transport.update n.records dest o)
    (ho : ∀ r, o = some r → r.route = true → 1 ≤ r.hops.toNat ∧ r.hops.toNat ≤ PATHFINDER_M) :
    RoutesInRange n' := by
  intro d r hr
  rw [peekRoute_update dest o hn] at hr
  split at hr
  · obtain ⟨heq, hroute⟩ := Option.filter_eq_some_iff.1 hr
    exact ho r heq hroute
  · exact hs d r hr

theorem RoutesInRange.of_records (hs : RoutesInRange n) (hn : n'.records = n.records) :
    RoutesInRange n' := by
  intro d r hr
  rw [peekRoute, hn] at hr
  exact hs d r hr

theorem take_inRange (hs : RoutesInRange n) (h : p.wireHops ≠ 255)
    (hnear : p.hops.toNat < PATHFINDER_M + 1) :
    RoutesInRange (take guardFresh pathTtl n a p).1 := by
  have hops := Packet.hops_toNat h
  by_cases hv : (judge guardFresh n a p).retain
  · refine hs.update p.dest _ (if_pos hv) ?_
    rintro _ ⟨⟩ -
    exact ⟨show 1 ≤ p.hops.toNat by omega, Nat.lt_succ_iff.1 hnear⟩
  · exact hs.of_records (if_neg hv)

theorem announce_inRange (hs : RoutesInRange n) (h : p.wireHops ≠ 255) :
    RoutesInRange (announce guardFresh pathTtl n a p).1 := by
  have hs' : RoutesInRange (dropRepeated n a p.dest) :=
    hs.of_records (ignored_dropRepeated n a p.dest).records
  unfold announce
  split
  · exact hs
  · split
    · rename_i hnear
      exact take_inRange hs' h hnear
    · exact hs'

theorem RoutesInRange.remember (hs : RoutesInRange n) (p : Packet) :
    RoutesInRange (Transport.remember n p) := by
  refine hs.of_records ?_
  rw [Transport.remember]
  split <;> rfl

theorem inbound_inRange (hs : RoutesInRange n) (h : Unwrapped n a p) :
    RoutesInRange (inbound guardFresh pathTtl n a p).1 := by
  unfold inbound
  cases ha : accepts n a p with
  | false => exact hs
  | true =>
    have hne : p.wireHops ≠ 255 := by
      simpa [Unwrapped, ha] using h
    simp only [if_true]
    split
    · exact announce_inRange (hs.remember p) hne
    · exact hs.remember p

theorem RoutesInRange.peeked (hs : RoutesInRange n) {d : Bytes} {r : Record}
    (hr : n.records d = some r) (hroute : r.route = true) :
    1 ≤ r.hops.toNat ∧ r.hops.toNat ≤ PATHFINDER_M :=
  hs d r (by simp [peekRoute, hr, hroute])

theorem step_inRange (n : Node γ) (op : Op) (hs : RoutesInRange n) (h : op.Unwrapped n) :
    RoutesInRange (step guardFresh pathTtl n op) := by
  cases op with
  | packet a p => exact inbound_inRange hs h
  | clearRoute d =>
    rw [step, clearRoute]
    split
    · exact hs
    · exact hs.update d _ rfl (by rintro _ ⟨⟩ hr; simp at hr)
  | forget d => exact hs.update d none rfl (by simp)
  | claim d =>
    refine hs.update d _ rfl ?_
    rintro _ ⟨⟩ hr
    cases hrec : n.records d with
    | none => simp [hrec] at hr
    | some r => simpa [hrec] using hs.peeked hrec (by simpa [hrec] using hr)
  | touchUsed d now expires =>
    rw [step, touchUsed]
    split
    · exact hs
    · rename_i r hrec
      refine hs.update d _ rfl ?_
      rintro _ ⟨⟩ hr
      exact hs.peeked (r := r) hrec hr

/-- Where all routes are in range no packet is taken for a local client's. -/
theorem RoutesInRange.forLocalClient (hs : RoutesInRange n) (p : Packet) : forLocalClient n p = false := by
  rw [Transport.forLocalClient, decide_eq_false_iff_not]
  rintro ⟨-, hany⟩
  obtain ⟨r, hr, hz⟩ := (Option.any_eq_true _ _).1 hany
  obtain ⟨hpos, -⟩ := hs p.dest r hr
  simp [of_decide_eq_true hz] at hpos

/-- The hop counts of a packet are right exactly where they do not wrap, and
where no packet's wraps, no route is ever stored that passes for a local one. -/
theorem hops_exact_iff (guardFresh : GuardFresh γ) (pathTtl : Nat) :
    (∀ n a p, Sane guardFresh pathTtl n a p ↔ Unwrapped n a p) ∧
      ∀ n ops, RoutesInRange n → Guarded (step guardFresh pathTtl) (fun n op => op.Unwrapped n) n ops →
        Throughout (step guardFresh pathTtl)
          (fun n => RoutesInRange n ∧ ∀ p, forLocalClient n p = false) n ops := by
  refine ⟨fun _ _ _ => sane_iff, fun n ops hs hops => ?_⟩
  exact (hops.throughout step_inRange hs).mono fun m hm => ⟨hm, hm.forLocalClient⟩

-- ---------------------------------------------------------------------------
-- A count that wraps
-- ---------------------------------------------------------------------------

/-- A relay that has a route of one hop to a destination. -/
def relay : Node Unit where
  identity := [1]
  transportEnabled := true
  interfaces := [⟨[2], true, 0, false⟩]
  destinations := []
  links := []
  seen := []
  records := fun d => if d = [3] then some { hops := 1, route := true } else none
  heldEmitted := fun _ => none
  requests := fun _ => false
  discovery := fun _ => none
  announces := fun _ => none
  guard := ()

/-- An announce of that destination that has gone round for 255 hops. -/
def wornAnnounce : Packet where
  wireHops := 255
  type := .announce
  context := .none
  destType := .single
  transportId := some [4]
  dest := [3]
  hash := [5]
  blob := List.replicate RANDOM_HASH_BYTES 6
  emitted := 1

def heard : Arrival := { now := 1, interface := some ⟨[2], true, 0, false⟩ }

/-- A guard pool that has heard nothing of the destination. -/
def emptyPool : GuardFresh Unit := fun g _ _ _ _ => (g, true, true)

theorem hops_exact_iff_relay :
    Throughout (step emptyPool 60) (fun n => RoutesInRange n ∧ ∀ p, forLocalClient n p = false) relay
      [.packet heard { wornAnnounce with wireHops := 127 }, .clearRoute [3]] := by
  refine (hops_exact_iff emptyPool 60).2 _ _ ?_ (by decide)
  intro d r hr
  obtain ⟨heq, -⟩ := Option.filter_eq_some_iff.1 hr
  simp only [relay] at heq
  split at heq
  · cases heq
    decide
  · cases heq

/-- The announce that wrapped takes the place of the one-hop route, waits to be
passed on as a local one, counts as of the community on an interface that has
none, and makes traffic for its destination a local client's. -/
theorem worn_announce_taken :
    let n := (inbound emptyPool 60 relay heard wornAnnounce).1
    inboundHops relay heard wornAnnounce = some 0 ∧
      (peekRoute n [3]).map (fun r => (r.hops, r.edge)) = some (0, true) ∧ n.announces [3] = some 0 ∧
      forLocalClient n { wornAnnounce with type := .data, transportId := none } = true ∧
      ¬ ∀ n a p, Sane emptyPool 60 n a p := by
  refine ⟨by decide, by decide, by decide, by decide, fun h => ?_⟩
  exact absurd (sane_iff.1 (h relay heard wornAnnounce)) (by decide)

end MicroReticulum.Transport
