import MicroReticulum.Lib.Runs
import MicroReticulum.Transport.Relay

/-!
# A link proof among relays

Any number of relays on shared media, and every copy of one link proof they
make. A relay passes the proof on at the one hop count its table entry names,
and each copy is a hop further than the one it was made of, so no relay comes
twice along a chain of copies. A proof with a transport header can be forwarded
along a route instead; for that there is no such count.
-/

namespace MicroReticulum.Relay

open Wire
open Transport (PATHFINDER_M passOn passOn_hashable)
open Lib.Log Lib.Log.Transition
open Lib.Runs

-- ---------------------------------------------------------------------------
-- Media
-- ---------------------------------------------------------------------------

/-- Relays `ρ` with interfaces on media `μ`. -/
structure Net (ρ μ : Type) where
  config : ρ → Config
  medium : ρ → Nat → μ

/-- A retransmission: by whom, where the copy before was heard, at what count. -/
structure Hop (ρ : Type) where
  relay : ρ
  interface : Nat
  hops : UInt8
  deriving DecidableEq

/-- A frame on a medium, and the retransmissions it comes from, last first. -/
structure Copy (ρ μ : Type) where
  medium : μ
  raw : Bytes
  trail : List (Hop ρ)

structure State (ρ μ : Type) where
  tables : ρ → Tables
  air : List (Copy ρ μ)

/-- Every copy may be heard by every relay on its medium at any later time, and
any number of times; link entries may time out meanwhile. -/
inductive Event (ρ : Type) where
  | hears (x : ρ) (a : Arrival) (k : Nat)
  | culls (x : ρ) (now : ℚ) (linkId : Bytes)

def Act.transmitted : Act → Option (Nat × Bytes)
  | .sent interface raw | .returned _ interface raw | .proved _ interface raw => some (interface, raw)
  | .carried _ interface raw => some (interface, passOn (hops raw) raw)
  | _ => none

variable {ρ μ : Type} [DecidableEq ρ] [DecidableEq μ]

def heard (net : Net ρ μ) (s : State ρ μ) (x : ρ) (a : Arrival) (k : Nat) : Option (Copy ρ μ) :=
  s.air[k]?.filter (·.medium = net.medium x a.interface)

def copies (net : Net ρ μ) (x : ρ) (a : Arrival) (copy : Copy ρ μ) (log : List Act) : List (Copy ρ μ) :=
  (log.filterMap Act.transmitted).map fun t =>
    ⟨net.medium x t.1, t.2, ⟨x, a.interface, hops copy.raw⟩ :: copy.trail⟩

def spread (net : Net ρ μ) (s : State ρ μ) : Event ρ → State ρ μ
  | .hears x a k =>
    match heard net s x a k with
    | none => s
    | some copy =>
      let out := inbound (net.config x) a copy.raw (s.tables x)
      ⟨Function.update s.tables x out.1, s.air ++ copies net x a copy out.2⟩
  | .culls x now linkId =>
    { s with tables := Function.update s.tables x (cullLink now linkId (s.tables x)).1 }

/-- One link proof on a medium. -/
def transmission (tables : ρ → Tables) (medium : μ) (raw : Bytes) : State ρ μ := ⟨tables, [⟨medium, raw, []⟩]⟩

structure IsLrproof (raw : Bytes) : Prop where
  unpacks : unpacks raw = true
  type : packetType raw = PROOF
  context : context raw = LRPROOF

/-- What the tables said of the link at first. -/
def Expected (tables : ρ → Tables) (linkId : Bytes) (hop : Hop ρ) : Prop :=
  ∃ e, (tables hop.relay).linkTable linkId = some e ∧ hop.hops = e.remainingHops ∧ hop.interface = e.outboundInterface

/-- Along every chain of copies each relay is where and as far on as it expects,
the counts rise, no relay comes twice, and the chain is bounded. -/
structure NoReflection (tables : ρ → Tables) (linkId : Bytes) (s : State ρ μ) : Prop where
  expected : ∀ copy ∈ s.air, ∀ hop ∈ copy.trail, Expected tables linkId hop
  rising : ∀ copy ∈ s.air, copy.trail.Pairwise (·.hops > ·.hops)
  once : ∀ copy ∈ s.air, (copy.trail.map (·.relay)).Nodup
  ends : ∀ copy ∈ s.air, copy.trail.length ≤ PATHFINDER_M + 1

/-- No copy heard here goes along a route. -/
def Unrouted (net : Net ρ μ) (s : State ρ μ) : Event ρ → Prop
  | .hears x a k => ∀ copy, heard net s x a k = some copy → nextHopRoute (net.config x) a copy.raw = none
  | .culls .. => True

-- ---------------------------------------------------------------------------
-- One relay
-- ---------------------------------------------------------------------------

variable {c : Config} {a : Arrival} {raw raw' linkId : Bytes} {r r' : Tables} {log : List Act} {e e' : LinkEntry}

/-- The same place in the link. -/
def LinkEntry.SamePlace (e e' : LinkEntry) : Prop :=
  e'.remainingHops = e.remainingHops ∧ e'.outboundInterface = e.outboundInterface

/-- Entries stay in their places or go, and what is transmitted is the proof
one hop on, by an entry that expects it. -/
structure PassesOn (a : Arrival) (raw : Bytes) (r r' : Tables) (log : List Act) : Prop where
  entries : ∀ l e', r'.linkTable l = some e' → ∃ e, r.linkTable l = some e ∧ e.SamePlace e'
  sent : ∀ act ∈ log, ∀ t, act.transmitted = some t → t.2 = passOn (hops raw) raw ∧
    ∃ e, r.linkTable (destinationHash raw) = some e ∧ hops raw = e.remainingHops ∧ a.interface = e.outboundInterface

theorem passesOn_composes : Composes (PassesOn a raw) where
  refl _ := ⟨fun _ e he => ⟨e, he, rfl, rfl⟩, by simp⟩
  comp h₁ h₂ := by
    constructor
    · intro l e₃ he₃
      obtain ⟨e₂, he₂, hh₂, ho₂⟩ := h₂.entries l e₃ he₃
      obtain ⟨e₁, he₁, hh₁, ho₁⟩ := h₁.entries l e₂ he₂
      exact ⟨e₁, he₁, hh₂.trans hh₁, ho₂.trans ho₁⟩
    · intro act hact t ht
      obtain hact | hact := List.mem_append.1 hact
      · exact h₁.sent act hact t ht
      · obtain ⟨heq, e₂, he₂, hh₂, ho₂⟩ := h₂.sent act hact t ht
        obtain ⟨e₁, he₁, hh₁, ho₁⟩ := h₁.entries _ e₂ he₂
        exact ⟨heq, e₁, he₁, hh₂.trans hh₁, ho₂.trans ho₁⟩

/-- Nothing transmitted, and the link table as it was. -/
theorem passesOn_of_eq (hl : r'.linkTable = r.linkTable) (hlog : ∀ act ∈ log, act.transmitted = none) :
    PassesOn a raw r r' log := by
  refine ⟨fun l e he => ⟨e, hl ▸ he, rfl, rfl⟩, fun act hact t ht => ?_⟩
  cases (hlog act hact).symm.trans ht

theorem passesOn_keepForRepair {now wait : ℚ} {kind : HandshakeRepairKind} {interface : Nat} :
    Meets (PassesOn a raw) (keepForRepair now kind linkId raw' interface wait) :=
  keepForRepair_meets passesOn_composes fun _ _ _ _ _ _ _ => passesOn_of_eq rfl (by simp [Act.transmitted])

theorem passesOn_repairAnswered (kind : HandshakeRepairKind) :
    Meets (PassesOn a raw) (repairAnswered kind linkId) := by
  intro r
  rw [repairAnswered_eq]
  refine passesOn_of_eq rfl fun act hact => ?_
  obtain ⟨i, -, hact⟩ := List.mem_flatMap.1 hact
  unfold clearAnswered at hact
  split at hact <;> simp_all [Act.transmitted]

theorem passesOn_setLink (he : r.linkTable linkId = some e) (hp : e.SamePlace e') :
    PassesOn a raw r (setLink linkId (some e') r) [] := by
  refine ⟨fun l e₁ he₁ => ?_, by simp⟩
  by_cases hl : l = linkId
  · subst hl
    obtain rfl : e' = e₁ := by simpa using he₁
    exact ⟨e, he, hp⟩
  · exact ⟨e₁, (setLink_of_ne hl _ _).symm.trans he₁, rfl, rfl⟩

theorem passesOn_linkProof : Meets (PassesOn a raw) (linkProof c a raw) := by
  refine linkProof_meets passesOn_composes (fun r e he hx => ?_) fun r e raw' he => ?_
  · obtain ⟨hhops, hinterface⟩ := of_decide_eq_true hx
    refine passesOn_composes.andThen_at (passesOn_composes.andThen_at (passesOn_setLink he ⟨rfl, rfl⟩) ?_)
      (passesOn_repairAnswered _ _)
    refine ⟨fun l e he => ⟨e, he, rfl, rfl⟩, fun act hact t ht => ?_⟩
    obtain rfl := List.mem_singleton.1 hact
    cases ht
    exact ⟨rfl, _, setLink_self _ _ _, hhops, hinterface⟩
  · unfold keepProof
    split
    · exact passesOn_composes.refl r
    · exact passesOn_composes.andThen_at (passesOn_setLink he ⟨rfl, rfl⟩) (passesOn_keepForRepair _)

theorem passesOn_inbound (h : IsLrproof raw) (hroute : nextHopRoute c a raw = none) :
    Meets (PassesOn a raw) (inbound c a raw) := by
  refine inbound_meets passesOn_composes (fun _ _ => passesOn_of_eq rfl (by simp)) ?_ ?_ ?_
  · rw [forward, hroute]
    exact passesOn_composes.skip
  · exact linkTransport_meets passesOn_composes fun _ _ _ _ hne => absurd h.context hne
  · unfold proofs
    split
    · rw [if_pos h.context]
      exact passesOn_linkProof
    · exact passesOn_composes.skip

theorem cullLink_places {now : ℚ} {l : Bytes} (he : (cullLink now linkId r).1.linkTable l = some e') :
    ∃ e, r.linkTable l = some e ∧ e.SamePlace e' := by
  unfold cullLink at he
  split at he
  · rw [act_apply] at he
    by_cases hl : l = linkId
    · subst hl
      simp at he
    · exact ⟨e', (setLink_of_ne hl _ _).symm.trans he, rfl, rfl⟩
  · exact ⟨e', he, rfl, rfl⟩

-- ---------------------------------------------------------------------------
-- One copy
-- ---------------------------------------------------------------------------

theorem context_eq (raw : Bytes) : context raw = .ofNat ((hashablePart raw).byte (DESTINATION_LENGTH + 1)) := by
  simp [context, hashablePart, Bytes.byte]

theorem passOn_byte_one (h : unpacks raw = true) (n : UInt8) : (passOn n raw).byte 1 = n.toNat := by
  obtain ⟨f, hops, rest, rfl⟩ := unpacks_header h
  rfl

theorem IsLrproof.passOn (h : IsLrproof raw) (n : UInt8) : IsLrproof (passOn n raw) := by
  have hh : hashablePart (Transport.passOn n raw) = hashablePart raw := passOn_hashable h.unpacks
  refine ⟨(unpacks_congr hh).2 h.unpacks, (packetType_congr hh).trans h.type, ?_⟩
  rw [context_eq, hh, ← context_eq, h.context]

theorem destinationHash_passOn (h : unpacks raw = true) (n : UInt8) :
    destinationHash (passOn n raw) = destinationHash raw :=
  Link.destinationHash_congr (passOn_hashable h)

/-- A copy of the proof, as many hops on as its last retransmission says. -/
structure Traced (tables : ρ → Tables) (linkId : Bytes) (copy : Copy ρ μ) : Prop where
  proof : IsLrproof copy.raw
  dest : destinationHash copy.raw = linkId
  expected : ∀ hop ∈ copy.trail, Expected tables linkId hop
  rising : copy.trail.Pairwise (·.hops > ·.hops)
  last : ∀ hop ∈ copy.trail.head?, copy.raw.byte 1 = hop.hops.toNat

section Chain

omit [DecidableEq ρ] [DecidableEq μ]

variable {tables : ρ → Tables} {copy : Copy ρ μ} {hop : Hop ρ} {s : State ρ μ}

theorem Expected.hops_le (h : Expected tables linkId hop) : hop.hops.toNat ≤ PATHFINDER_M := by
  obtain ⟨e, -, heq, -⟩ := h
  exact heq ▸ e.remaining_le

/-- The next count is above all the counts so far. -/
theorem Traced.hops_gt (h : Traced tables linkId copy) (hmem : hop ∈ copy.trail) : hops copy.raw > hop.hops := by
  cases htrail : copy.trail with
  | nil => simp [htrail] at hmem
  | cons last rest =>
    have hlast := h.last last (by simp [htrail])
    have hle : last.hops.toNat ≤ 128 := (h.expected last (by simp [htrail])).hops_le
    have hnext : (hops copy.raw).toNat = last.hops.toNat + 1 := by
      rw [hops, hlast, UInt8.toNat_ofNat']
      exact Nat.mod_eq_of_lt (show last.hops.toNat + 1 < 256 by omega)
    have hgt : hops copy.raw > last.hops := UInt8.lt_iff_toNat_lt.2 (by omega)
    rw [htrail] at hmem
    obtain rfl | hmem := List.mem_cons.1 hmem
    · exact hgt
    · have hrising : (last :: rest).Pairwise (·.hops > ·.hops) := htrail ▸ h.rising
      exact UInt8.lt_trans ((List.pairwise_cons.1 hrising).1 hop hmem) hgt

/-- The counts rise and each is what its relay expects, so no relay comes twice. -/
theorem Traced.once (h : Traced tables linkId copy) : (copy.trail.map (·.relay)).Nodup := by
  have hmem := h.expected
  refine List.pairwise_map.2 (h.rising.imp_of_mem fun {x y} hx hy hgt hxy => ?_)
  obtain ⟨e, he, heq, -⟩ := hmem x hx
  obtain ⟨e', he', heq', -⟩ := hmem y hy
  rw [hxy, he'] at he
  cases he
  rw [heq, heq'] at hgt
  exact UInt8.lt_irrefl _ hgt

theorem Traced.ends (h : Traced tables linkId copy) : copy.trail.length ≤ PATHFINDER_M + 1 := by
  have hnodup : (copy.trail.map (·.hops.toNat)).Nodup :=
    List.pairwise_map.2 (h.rising.imp fun hgt => (UInt8.lt_iff_toNat_lt.1 hgt).ne')
  have hsub : copy.trail.map (·.hops.toNat) ⊆ List.range (PATHFINDER_M + 1) := by
    intro n hn
    obtain ⟨hop, hmem, rfl⟩ := List.mem_map.1 hn
    exact List.mem_range.2 (Nat.lt_succ_of_le (h.expected hop hmem).hops_le)
  simpa using (hnodup.subperm hsub).length_le

theorem Traced.append {medium : μ} {x : ρ} (h : Traced tables linkId copy)
    (hx : Expected tables linkId ⟨x, a.interface, hops copy.raw⟩) :
    Traced tables linkId
      ⟨medium, passOn (hops copy.raw) copy.raw, ⟨x, a.interface, hops copy.raw⟩ :: copy.trail⟩ := by
  refine ⟨h.proof.passOn _, (destinationHash_passOn h.proof.unpacks _).trans h.dest, ?_, ?_, ?_⟩
  · exact List.forall_mem_cons.2 ⟨hx, h.expected⟩
  · exact List.pairwise_cons.2 ⟨fun hop hmem => h.hops_gt hmem, h.rising⟩
  · rintro _ ⟨⟩
    exact passOn_byte_one h.proof.unpacks _

end Chain

-- ---------------------------------------------------------------------------
-- The network
-- ---------------------------------------------------------------------------

structure Spreading (tables : ρ → Tables) (linkId : Bytes) (s : State ρ μ) : Prop where
  places : ∀ x l e', (s.tables x).linkTable l = some e' → ∃ e, (tables x).linkTable l = some e ∧ e.SamePlace e'
  traced : ∀ copy ∈ s.air, Traced tables linkId copy

variable {tables : ρ → Tables} {s : State ρ μ} {net : Net ρ μ} {event : Event ρ}

omit [DecidableEq ρ] [DecidableEq μ] in
theorem Spreading.noReflection (h : Spreading tables linkId s) : NoReflection tables linkId s :=
  ⟨fun copy hc => (h.traced copy hc).expected, fun copy hc => (h.traced copy hc).rising,
    fun copy hc => (h.traced copy hc).once, fun copy hc => (h.traced copy hc).ends⟩

omit [DecidableEq μ] in
/-- A relay's part: its entries stay in their places. -/
theorem Spreading.places_update (h : Spreading tables linkId s) (x : ρ) {r : Tables}
    (hr : ∀ l e', r.linkTable l = some e' → ∃ e, (s.tables x).linkTable l = some e ∧ e.SamePlace e') :
    ∀ y l e', (Function.update s.tables x r y).linkTable l = some e' →
      ∃ e, (tables y).linkTable l = some e ∧ e.SamePlace e' := by
  intro y l e' he'
  by_cases hy : y = x
  · subst hy
    rw [Function.update_self] at he'
    obtain ⟨e₁, he₁, hp⟩ := hr l e' he'
    obtain ⟨e, he, hp₁⟩ := h.places y l e₁ he₁
    exact ⟨e, he, hp.1.trans hp₁.1, hp.2.trans hp₁.2⟩
  · rw [Function.update_of_ne hy] at he'
    exact h.places y l e' he'

theorem Spreading.step (h : Spreading tables linkId s) (hok : Unrouted net s event) :
    Spreading tables linkId (spread net s event) := by
  cases event with
  | hears x a k =>
    cases hheard : heard net s x a k with
    | none => simpa [spread, hheard] using h
    | some copy =>
      have hmem : copy ∈ s.air := List.mem_of_getElem? (Option.eq_some_of_filter_eq_some hheard)
      have ht := h.traced copy hmem
      have hpass := passesOn_inbound ht.proof (hok copy hheard) (s.tables x)
      simp only [spread, hheard]
      refine ⟨h.places_update x hpass.entries, fun new hnew => ?_⟩
      obtain hold | hnew := List.mem_append.1 hnew
      · exact h.traced new hold
      · obtain ⟨t, htr, rfl⟩ := List.mem_map.1 hnew
        obtain ⟨act, hact, htr⟩ := List.mem_filterMap.1 htr
        obtain ⟨heq, e₁, he₁, hhops, hinterface⟩ := hpass.sent act hact t htr
        obtain ⟨e, he, hp⟩ := h.places x _ e₁ he₁
        rw [heq]
        exact ht.append ⟨e, ht.dest ▸ he, hhops.trans hp.1, hinterface.trans hp.2⟩
  | culls x now l =>
    exact ⟨h.places_update x fun _ _ => cullLink_places, h.traced⟩

/-- In a network where no copy goes along a route, a link proof is not
reflected, whatever the relays, the media and the order they hear it in. -/
theorem lrproof_not_reflected (net : Net ρ μ) (tables : ρ → Tables) (medium : μ) (raw : Bytes)
    (events : List (Event ρ)) (hraw : IsLrproof raw)
    (hok : Guarded (spread net) (Unrouted net) (transmission tables medium raw) events) :
    Throughout (spread net) (NoReflection tables (destinationHash raw)) (transmission tables medium raw) events := by
  have hstart : Spreading tables (destinationHash raw) (transmission tables medium raw) := by
    refine ⟨fun x l e he => ⟨e, he, rfl, rfl⟩, fun copy hmem => ?_⟩
    obtain rfl := List.mem_singleton.1 hmem
    exact ⟨hraw, rfl, by simp, .nil, by simp⟩
  exact (hok.throughout (fun s event h ok => h.step ok) hstart).mono fun s h => h.noReflection

-- ---------------------------------------------------------------------------
-- Two relays on one radio
-- ---------------------------------------------------------------------------

def relayId (x : Bool) : TruncatedHash := filled (if x then 8 else 9)

def radio : Net Bool Unit where
  config x :=
    { sha256 := id, crypto := ⟨fun _ _ => none, fun _ _ _ _ => none, fun _ _ _ => true⟩, identity := relayId x,
      transportEnabled := true, port := fun _ => ⟨⟨500, false, false⟩, 1200⟩, hashlistMaxsize := 100 }
  medium _ _ := ()

/-- The relay nearer to the responder expects the proof one hop on, the other two. -/
def linked (x : Bool) : Tables where
  linkTable _ := some
    { timestamp := 0, nextHop := relayId (!x), outboundInterface := 0, remainingHops := if x then 2 else 1,
      receivingInterface := 0, hops := 1, destinationHash := [1], validated := false, proofTimeout := ⊤,
      remaining_le := by cases x <;> decide }

def hearsProof (x : Bool) (k : Nat) : Event Bool :=
  .hears x { now := 1, interface := 0, recalled := fun _ => some ⟨[1], [2]⟩ } k

theorem unrouted_hearsProof (s : State Bool Unit) (x : Bool) (k : Nat) : Unrouted radio s (hearsProof x k) := by
  intro copy _
  simp [nextHopRoute, Arrival.route]

def sentProof : Bytes := 0x0F :: 0 :: (.replicate 16 1 ++ 0xFF :: .replicate 96 7)

/-- Both pass the proof on; hearing each other's copies they stay silent. -/
theorem lrproof_not_reflected_radio :
    let events := [hearsProof false 0, hearsProof true 1, hearsProof false 2, hearsProof true 2]
    (run (spread radio) (transmission linked () sentProof) events).air.map (·.trail.length) = [0, 1, 2] ∧
      Throughout (spread radio) (NoReflection linked (destinationHash sentProof))
        (transmission linked () sentProof) events := by
  refine ⟨by decide +kernel, lrproof_not_reflected radio linked () sentProof _ ⟨by decide, by decide, by decide⟩ ?_⟩
  exact ⟨unrouted_hearsProof _ _ _, unrouted_hearsProof _ _ _, unrouted_hearsProof _ _ _,
    unrouted_hearsProof _ _ _, trivial⟩

/-- A route to the proof's destination by way of the other relay. -/
def routed (x : Bool) (k : Nat) : Event Bool :=
  .hears x { now := 1, interface := 0, peeked := some ⟨0, relayId (!x), 2, by decide⟩ } k

def routedProof : Bytes := 0x5F :: 0 :: (.replicate 16 9 ++ .replicate 16 1 ++ [0xFF, 7])

/-- Sent with a transport header, a link proof goes round between two relays
whose routes point at each other. -/
theorem lrproof_goes_round :
    ¬ ∀ (net : Net Bool Unit) tables medium raw events, IsLrproof raw →
      Throughout (spread net) (NoReflection tables (destinationHash raw)) (transmission tables medium raw) events := by
  intro h
  have hrun := h radio (fun _ => {}) () routedProof [routed false 0, routed true 1, routed false 2]
    ⟨by decide, by decide, by decide⟩
  have honce := hrun.last.once
  revert honce
  decide +kernel

end MicroReticulum.Relay
