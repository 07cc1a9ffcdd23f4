import MicroReticulum.Interface.AnnounceQueue

/-!
# Where a rebroadcast goes

`Transport::outbound` decides for each interface whether an announce leaves on
it; `announce_relay_possible` is a shorter copy of the same rules, asked before
an announce is put in the table. The copy tests the echo on a point-to-point
link for every mode, the original for some of them.
-/

namespace MicroReticulum.Egress

open Interfaces

/-- Interfaces in the order of their hashes, and what is known of routes and queues. -/
structure Node where
  interfaces : List Interface
  full : ∀ i ∈ interfaces, i.hash.length = 32
  distinct : ∀ i ∈ interfaces, ∀ j ∈ interfaces, i.hash = j.hash → i = j
  destinations : List Bytes
  /-- `iface_hash` of the live route, the start of an interface's hash. -/
  routes : Bytes → Option Bytes
  queues : Bytes → State

inductive Outcome
  | transmitted
  | deferred
  | refused
  deriving DecidableEq, Repr

variable (n : Node) (now : ℚ) (dest data raw : Bytes) (hops : UInt8) (receivedOn i : Interface) (p : Announce)

-- ---------------------------------------------------------------------------
-- The decisions
-- ---------------------------------------------------------------------------

def announceRelayPossible : Bool :=
  dest ∈ n.destinations ∨ n.interfaces.any fun i =>
    i.out ∧ hops ≤ i.communityRadius ∧ ¬ (i.pointToPoint ∧ receivedOn.hash = i.hash)

def findInterfaceFromHashPrefix (hashPrefix : Bytes) : Option Interface :=
  n.interfaces.find? fun i => i.hash.take 16 = hashPrefix

def nextHopInterface : Option Interface := (n.routes dest).bind (findInterfaceFromHashPrefix n)

/-- The modes of the next hop's interface that keep an announce off one of this mode. -/
def barred : Mode → List Mode
  | .roaming => [.none, .roaming, .boundary]
  | .boundary => [.none, .roaming]
  | _ => []

def nextHopAllows (mode : Mode) : Bool := (nextHopInterface n dest).any (·.mode ∉ barred mode)

/-- What `outbound` does with an announce on one interface. -/
def outboundOn : Outcome :=
  if ¬ i.out then .refused
  else if p.attachedInterface.isSome then
    if p.attachedInterface = some i.hash then .transmitted else .refused
  else if ¬ p.ours ∧ i.communityRadius < p.hops then .refused
  else if i.mode = .roaming ∨ i.mode = .boundary then
    if p.ours ∨ nextHopAllows n p.destinationHash i.mode then .transmitted else .refused
  -- an announce of this node's own is not put under the cap
  else if p.hops = 0 then .transmitted
  else if i.pointToPoint ∧ p.receivingInterface = some i.hash then .refused
  else if (n.queues i.hash).announceQueue = [] ∧ (n.queues i.hash).announceAllowedAt < now then .transmitted
  else if (n.queues i.hash).announceQueue.length < MAX_QUEUED_ANNOUNCES then .deferred
  else .refused

/-- What `announce_rec_emit` makes of the record of an announce heard: its
interface is looked up again by the start of the hash. -/
def rebroadcast : Announce :=
  { destinationHash := dest, hops, data, raw, attachedInterface := none
    receivingInterface := (findInterfaceFromHashPrefix n (receivedOn.hash.take 16)).map (·.hash)
    ours := dest ∈ n.destinations }

-- ---------------------------------------------------------------------------
-- The two compared
-- ---------------------------------------------------------------------------

/-- The announce would go back out over the link it came in on. -/
def Escapes : Prop :=
  receivedOn.out ∧ receivedOn.pointToPoint ∧ hops ≤ receivedOn.communityRadius ∧
    if receivedOn.mode = .roaming ∨ receivedOn.mode = .boundary then nextHopAllows n dest receivedOn.mode = true
    else hops = 0 ∨ findInterfaceFromHashPrefix n (receivedOn.hash.take 16) ≠ some receivedOn ∧
      (n.queues receivedOn.hash).announceQueue = [] ∧ (n.queues receivedOn.hash).announceAllowedAt < now

variable {n now dest data raw hops receivedOn i p}

theorem relay_impossible_iff : announceRelayPossible n dest hops receivedOn = false ↔
    dest ∉ n.destinations ∧ ∀ i ∈ n.interfaces, i.out = true → hops ≤ i.communityRadius →
      i.pointToPoint = true ∧ receivedOn.hash = i.hash := by
  simp [announceRelayPossible]

theorem found_eq_iff (hr : receivedOn ∈ n.interfaces) :
    (findInterfaceFromHashPrefix n (receivedOn.hash.take 16)).map (·.hash) = some receivedOn.hash ↔
      findInterfaceFromHashPrefix n (receivedOn.hash.take 16) = some receivedOn := by
  constructor
  · intro h
    obtain ⟨f, hf, hh⟩ := Option.map_eq_some_iff.1 h
    rw [hf, n.distinct f (List.mem_of_find?_eq_some hf) receivedOn hr hh]
  · intro h
    rw [h, Option.map_some]

/-- Where no relay seems possible, only the link the announce came in on is left. -/
theorem eq_receivedOn (hr : receivedOn ∈ n.interfaces) (hn : announceRelayPossible n dest hops receivedOn = false)
    (hi : i ∈ n.interfaces) (ho : i.out = true) (hle : hops ≤ i.communityRadius) :
    i = receivedOn ∧ i.pointToPoint = true := by
  obtain ⟨hp, hh⟩ := (relay_impossible_iff.1 hn).2 i hi ho hle
  exact ⟨(n.distinct receivedOn hr i hi hh).symm, hp⟩

theorem transmitted_iff (hr : receivedOn ∈ n.interfaces) (hn : announceRelayPossible n dest hops receivedOn = false)
    (hi : i ∈ n.interfaces) :
    outboundOn n now i (rebroadcast n dest data raw hops receivedOn) = .transmitted ↔
      i = receivedOn ∧ Escapes n now dest hops receivedOn := by
  have hours : dest ∉ n.destinations := (relay_impossible_iff.1 hn).1
  by_cases hleaves : i.out = true ∧ hops ≤ i.communityRadius
  · obtain ⟨ho, hle⟩ := hleaves
    obtain ⟨rfl, hp⟩ := eq_receivedOn hr hn hi ho hle
    have hecho := found_eq_iff hr
    have hout : outboundOn n now i (rebroadcast n dest data raw hops i) = .transmitted ↔
        if i.mode = .roaming ∨ i.mode = .boundary then nextHopAllows n dest i.mode = true
        else hops = 0 ∨ (findInterfaceFromHashPrefix n (i.hash.take 16)).map (·.hash) ≠ some i.hash ∧
          (n.queues i.hash).announceQueue = [] ∧ (n.queues i.hash).announceAllowedAt < now := by
      unfold outboundOn rebroadcast
      simp only [ho, hp, hours, UInt8.not_lt.2 hle]
      split_ifs <;> simp_all
    simp only [Escapes, ho, hp, hle, hout, hecho, true_and, Ne]
  · refine ⟨fun h => absurd ?_ hleaves, ?_⟩
    · unfold outboundOn rebroadcast at h
      simp only [hours] at h
      split_ifs at h <;> simp_all
    · rintro ⟨rfl, h⟩
      exact absurd ⟨h.1, h.2.2.1⟩ hleaves

/-- The interface as the announce tests see it. -/
def bare (i : Interface) : Transport.Interface := ⟨i.hash, i.out, i.communityRadius, i.pointToPoint⟩

/-- The condition is the one inbound announces are tested with. -/
theorem relayPossible_bare {γ : Type} {m : Transport.Node γ} {a : Transport.Arrival}
    (hi : m.interfaces = n.interfaces.map bare) (hd : m.destinations = n.destinations)
    (ha : a.interface = some (bare receivedOn)) :
    Transport.relayPossible m a dest hops = announceRelayPossible n dest hops receivedOn := by
  simp only [Transport.relayPossible, announceRelayPossible, hi, hd, ha, List.any_map, Option.any_some,
    Function.comp_def, decide_eq_true_eq]
  rfl

/-- The cap is that of the interface's queue. -/
theorem outboundOn_forwards (hf : i.forwards p = true) :
    outboundOn n now i p = .transmitted ↔
      (Interfaces.outbound i now p (n.queues i.hash)).released ≠ (n.queues i.hash).released := by
  have hparts : i.out = true ∧ p.attachedInterface = none ∧ (p.ours = true ∨ p.hops ≤ i.communityRadius) ∧
      i.mode ≠ .roaming ∧ i.mode ≠ .boundary ∧ 0 < p.hops ∧ ¬ (i.pointToPoint = true ∧ p.receivingInterface = some i.hash) := by
    simpa only [Interface.forwards, decide_eq_true_eq] using hf
  obtain ⟨ho, ha, hc, hro, hbo, hpos, hecho⟩ := hparts
  have hradius : ¬ (¬ p.ours = true ∧ i.communityRadius < p.hops) := by
    rintro ⟨hours, hlt⟩
    exact hc.elim hours fun hle => absurd hlt (UInt8.not_lt.2 hle)
  have hzero : p.hops ≠ 0 := by
    rintro h
    exact absurd (h ▸ hpos) (by decide)
  simp only [outboundOn, ho, ha, hro, hbo, hzero, hecho, hradius, Interfaces.outbound, hf, not_true_eq_false,
    Option.isSome_none, Bool.false_eq_true, if_false, or_self]
  split_ifs
  · simp
  · cases fold now p (n.queues i.hash).announceQueue <;> simp
  · simp

/-- Saying that no relay is possible loses one exactly where the announce
escapes back over the link it came in on. -/
theorem relay_sound_iff (n : Node) (now : ℚ) (dest data raw : Bytes) (hops : UInt8) (receivedOn : Interface)
    (hr : receivedOn ∈ n.interfaces) :
    (announceRelayPossible n dest hops receivedOn = false → ∀ i ∈ n.interfaces,
        outboundOn n now i (rebroadcast n dest data raw hops receivedOn) ≠ .transmitted) ↔
      (announceRelayPossible n dest hops receivedOn = true ∨ ¬ Escapes n now dest hops receivedOn) := by
  cases hn : announceRelayPossible n dest hops receivedOn with
  | true => simp
  | false =>
    constructor
    · intro h
      refine .inr fun he => h rfl receivedOn hr ?_
      exact (transmitted_iff hr hn hr).2 ⟨rfl, he⟩
    · rintro (h | he)
      · cases h
      · intro _ i hi ht
        exact he ((transmitted_iff hr hn hi).1 ht).2

-- ---------------------------------------------------------------------------
-- A roaming link
-- ---------------------------------------------------------------------------

def link : Interface :=
  { hash := .replicate 32 1, mode := .roaming, out := true, bitrate := 0, announceCap := 0, communityRadius := 5
    pointToPoint := true }

def uplink : Interface :=
  { hash := .replicate 32 2, mode := .full, out := true, bitrate := 0, announceCap := 0, communityRadius := 0
    pointToPoint := true }

/-- Announces are heard on the roaming link, and the route is over the uplink. -/
def roamer : Node where
  interfaces := [link, uplink]
  full := by decide
  distinct := by
    simp only [List.mem_cons, List.not_mem_nil, or_false]
    rintro i (rfl | rfl) j (rfl | rfl) h
    · rfl
    · exact absurd h (by decide)
    · exact absurd h (by decide)
    · rfl
  destinations := []
  routes := fun _ => some (.replicate 16 2)
  queues := fun _ => {}

theorem relay_sound_home : outboundOn roamer 1 link (rebroadcast roamer [7] [] [] 6 link) ≠ .transmitted :=
  (relay_sound_iff roamer 1 [7] [] [] 6 link (by simp [roamer])).2
    (.inr fun h => absurd h.2.2.1 (by decide)) (by decide) link (by simp [roamer])

/-- An announce heard two hops away goes back to where it came from. -/
theorem relay_lost :
    announceRelayPossible roamer [7] 2 link = false ∧
      outboundOn roamer 1 link (rebroadcast roamer [7] [] [] 2 link) = .transmitted ∧
      ¬ ∀ (n : Node) (now : ℚ) (dest data raw : Bytes) (hops : UInt8), ∀ r ∈ n.interfaces,
        announceRelayPossible n dest hops r = false → ∀ i ∈ n.interfaces,
          outboundOn n now i (rebroadcast n dest data raw hops r) ≠ .transmitted := by
  have himpossible : announceRelayPossible roamer [7] 2 link = false := by decide
  have hsent : outboundOn roamer 1 link (rebroadcast roamer [7] [] [] 2 link) = .transmitted := by decide +kernel
  refine ⟨himpossible, hsent, fun h => ?_⟩
  have hlink : link ∈ roamer.interfaces := by simp [roamer]
  exact h roamer 1 [7] [] [] 2 link hlink himpossible link hlink hsent

end MicroReticulum.Egress
