import MicroReticulum.Directory.Consistency
import MicroReticulum.Lib.Capped

/-!
# Routes that are no longer true

What rnsd does to the directory's routes when an interface deregisters and when
a node leaves: `rnsdDropRoutesOnDeadIfaces`, `onIfaceAux` of a peer that is down
and `rnsdDropRoutesVia`. Each collects destinations into an array of fixed size
before it clears anything.
-/

namespace MicroReticulum.Directory

open Lib

-- ---------------------------------------------------------------------------
-- Sweeps
-- ---------------------------------------------------------------------------

def DirRec.hasRoute (r : DirRec) : Bool := r.flags &&& F_ROUTE ≠ 0

def rdirForEach {σ : Type} (cb : σ → DirRec → σ) (ctx : σ) (p : Pools) : σ := (p.dirs.filter DirRec.used).foldl cb ctx

/-- The callback of a sweep: at most `cap` destinations whose route is to go. -/
def collect (cap : Nat) (victim : DirRec → Bool) (dead : List Bytes) (r : DirRec) : List Bytes :=
  if !r.hasRoute ∨ cap ≤ dead.length then dead
  else if victim r then dead ++ [r.dest] else dead

def clearRoutes (dests : List Bytes) (p : Pools) : Pools := dests.foldl (fun p dest => rdirClearRoute dest p) p

def sweep (cap : Nat) (victim : DirRec → Bool) (p : Pools) : Pools :=
  clearRoutes (rdirForEach (collect cap victim) [] p) p

-- ---------------------------------------------------------------------------
-- Interfaces
-- ---------------------------------------------------------------------------

/-- `find_interface_from_hash_prefix`, of the hashes of the interfaces there are. -/
def resolves (interfaces : List Bytes) (ifaceHash : Bytes) : Bool :=
  interfaces.any fun hash => hash.length ≥ DEST_LEN ∧ hash.take DEST_LEN = ifaceHash

/-- The route's interface is gone. -/
def overDead (interfaces : List Bytes) (r : DirRec) : Bool := !resolves interfaces r.ifaceHash

def rnsdDropRoutesOnDeadIfaces (interfaces : List Bytes) : Pools → Pools := sweep 32 (overDead interfaces)

-- ---------------------------------------------------------------------------
-- Nodes
-- ---------------------------------------------------------------------------

structure NodeRow where
  iface : String
  key : Bytes
  deriving DecidableEq, Repr

structure PeerRow where
  iface : String
  dest : Bytes
  /-- The node it was filed under. -/
  node : Option Nat
  heard : Nat
  deriving DecidableEq, Repr

structure Neighbourhood where
  nodes : List (Option NodeRow)
  peers : List (Option PeerRow)

namespace Neighbourhood

variable (n : Neighbourhood)

def rnsdNodeIndex (iface : String) (key : Bytes) : Option Nat :=
  if iface = "" then none else n.nodes.findIdx? fun row => row = some ⟨iface, key⟩

/-- Most recently heard first. -/
def rnsdPeersForEach (ifacePrefix : String) : List PeerRow :=
  ((n.peers.filterMap id).filter fun row => ifacePrefix.toList.isPrefixOf row.iface.toList).insertionSort
    fun a b => b.heard ≤ a.heard

/-- Everything that was filed under a node. -/
def filedUnder (node : Nat) : List Bytes := ((n.peers.filterMap id).filter fun row => row.node = some node).map (·.dest)

/-- A node that is gone takes its destinations with it. -/
def withdraw (iface : String) (key : Bytes) : Neighbourhood :=
  match n.rnsdNodeIndex iface key with
  | none => n
  | some node =>
    { nodes := n.nodes.set node none
      peers := n.peers.map fun row => if row.any (·.node = some node) then none else row }

end Neighbourhood

/-- The identity behind a destination whose key is known. -/
def identityOf (identityHash : Bytes → Option Bytes) (p : Pools) (dest : Bytes) : Option Bytes :=
  ((recordOf dest p).filter fun r => r.flags &&& F_PUBKEY ≠ 0).bind fun r => identityHash r.pubkey

/-- At most eight of them. -/
def collectIds (identityHash : Bytes → Option Bytes) (p : Pools) (dests : List Bytes) : List Bytes :=
  (dests.filterMap (identityOf identityHash p)).take 8

/-- The route is to one of the destinations, or through one of the nodes. -/
def toOrThrough (dests ids : List Bytes) (r : DirRec) : Bool := r.dest ∈ dests ∨ r.receivedFrom ∈ ids

def rnsdDropRoutesVia (identityHash : Bytes → Option Bytes) (dests : List Bytes) (p : Pools) : Pools :=
  if dests = [] then p else sweep 48 (toOrThrough dests (collectIds identityHash p dests)) p

/-- `RNSD_IFACE_AUX_PEER` of a peer that is down. -/
structure PeerDown where
  iface : String
  key : Bytes
  moved : Bool
  deriving DecidableEq, Repr

/-- At most eight destinations of the node that leaves. -/
def departing (n : Neighbourhood) (f : PeerDown) : List Bytes :=
  match n.rnsdNodeIndex f.iface f.key with
  | none => []
  | some gone =>
    if f.moved then []
    else (((n.rnsdPeersForEach f.iface).filter fun row => row.node = some gone).take 8).map (·.dest)

def onPeerDown (identityHash : Bytes → Option Bytes) (f : PeerDown) (s : Neighbourhood × Pools) : Neighbourhood × Pools :=
  (s.1.withdraw f.iface f.key, rnsdDropRoutesVia identityHash (departing s.1 f) s.2)

-- ---------------------------------------------------------------------------
-- What a sweep clears
-- ---------------------------------------------------------------------------

variable {p : Pools} {dest : Bytes} {dests dead : List Bytes} {cap : Nat} {victim : DirRec → Bool} {r : DirRec}

/-- A record whose route is one of those to clear. -/
def cleared (dead : List Bytes) (r : DirRec) : DirRec :=
  if r.used ∧ r.hasRoute ∧ r.dest ∈ dead then stored clearRouteStores r else r

theorem cleared_used : (cleared dead r).used = r.used := by
  unfold cleared
  split
  · exact (routeless_keeps r).1
  · rfl

theorem cleared_dest : (cleared dead r).dest = r.dest := by
  unfold cleared
  split
  · exact (routeless_keeps r).2
  · rfl

theorem stored_hasRoute : (stored clearRouteStores r).hasRoute = false := by
  have hmask : ∀ f : UInt8, f &&& ~~~F_ROUTE &&& F_ROUTE = 0 := by
    intro f
    rw [UInt8.and_assoc, show ~~~F_ROUTE &&& F_ROUTE = 0 from rfl, UInt8.and_zero]
  simp [DirRec.hasRoute, stored, clearRouteStores, hmask]

theorem cleared_hasRoute : (cleared dead r).hasRoute ↔ r.hasRoute ∧ ¬ (r.used ∧ r.dest ∈ dead) := by
  unfold cleared
  split
  · next h => simp [stored_hasRoute, h]
  · next h =>
    constructor
    · exact fun hr => ⟨hr, fun hd => h ⟨hd.1, hr, hd.2⟩⟩
    · exact And.left

theorem cleared_cleared (dead more : List Bytes) (r : DirRec) : cleared more (cleared dead r) = cleared (dead ++ more) r := by
  by_cases hd : r.used ∧ r.hasRoute ∧ r.dest ∈ dead
  · have hc : cleared dead r = stored clearRouteStores r := if_pos hd
    rw [hc, cleared, if_neg (by simp [stored_hasRoute]), cleared, if_pos ⟨hd.1, hd.2.1, List.mem_append_left _ hd.2.2⟩]
  · have hc : cleared dead r = r := if_neg hd
    rw [hc, cleared, cleared]
    congr 1
    simp only [List.mem_append, eq_iff_iff]
    tauto

/-- One record per destination, so clearing the first one found clears them all. -/
theorem rdirClearRoute_dirs (h : Slots.Distinct DirRec.used DirRec.dest p.dirs) (dest : Bytes) :
    rdirClearRoute dest p = { p with dirs := p.dirs.map (cleared [dest]) } := by
  have hmiss : ∀ r : DirRec, ¬ (r.used ∧ r.hasRoute ∧ r.dest = dest) → cleared [dest] r = r := fun r hr =>
    if_neg (by simpa using hr)
  unfold rdirClearRoute onDir
  split
  · next hf =>
    have hnone := Slots.find_eq_none.1 hf
    have hsame : p.dirs.map (cleared [dest]) = p.dirs := by
      rw [List.map_congr_left fun r hr => hmiss r fun hd => hnone r hr hd.1 hd.2.2, List.map_id']
    rw [hsame]
  · next i hf =>
    obtain ⟨r, hr, hu, hk⟩ := Slots.find_eq_some hf
    have hmap := h.set_eq_map (f := cleared [dest]) hf hr
    have hall : p.dirs.map (fun c => if c.used ∧ c.dest = dest then cleared [dest] c else c) =
        p.dirs.map (cleared [dest]) := by
      apply List.map_congr_left
      intro c _
      split
      · rfl
      · next hc => exact (hmiss c fun hd => hc ⟨hd.1, hd.2.2⟩).symm
    rw [← hall, ← hmap, hr]
    split
    · next hroute => rw [setDir_eq hr, cleared, if_pos ⟨hu, hroute, by simp [hk]⟩]
    · next hroute =>
      have hsame : p.dirs.set i r = p.dirs := by
        obtain ⟨hi, rfl⟩ := List.getElem?_eq_some_iff.1 hr
        exact List.set_getElem_self hi
      rw [hmiss r fun hd => hroute hd.2.1, hsame]

theorem cleared_distinct (h : Slots.Distinct DirRec.used DirRec.dest p.dirs) (dead : List Bytes) :
    Slots.Distinct DirRec.used DirRec.dest (p.dirs.map (cleared dead)) :=
  h.map fun _ => ⟨cleared_used, cleared_dest⟩

theorem clearRoutes_dirs (h : Slots.Distinct DirRec.used DirRec.dest p.dirs) (dests : List Bytes) :
    clearRoutes dests p = { p with dirs := p.dirs.map (cleared dests) } := by
  induction dests generalizing p with
  | nil =>
    have hnone : ∀ r, cleared [] r = r := fun r => if_neg (by simp)
    have hid : p.dirs.map (cleared []) = p.dirs := by
      rw [List.map_congr_left fun r _ => hnone r, List.map_id']
    rw [hid]
    rfl
  | cons dest dests ih =>
    have hall : ∀ r, cleared dests (cleared [dest] r) = cleared (dest :: dests) r := cleared_cleared [dest] dests
    rw [clearRoutes, List.foldl_cons, rdirClearRoute_dirs h, ← clearRoutes, ih (cleared_distinct h [dest]),
      List.map_map]
    exact congrArg (fun dirs => { p with dirs }) (List.map_congr_left fun r _ => hall r)

-- ---------------------------------------------------------------------------
-- What a sweep finds
-- ---------------------------------------------------------------------------

/-- A route that a sweep is to clear. -/
def sought (victim : DirRec → Bool) (r : DirRec) : Bool := r.hasRoute && victim r

theorem rdirForEach_collect (cap : Nat) (victim : DirRec → Bool) (p : Pools) :
    rdirForEach (collect cap victim) [] p =
      Capped.collect cap (sought victim) DirRec.dest (p.dirs.filter DirRec.used) := by
  have hpush : collect cap victim = Capped.push cap (sought victim) DirRec.dest := by
    funext dead r
    unfold collect Capped.push sought
    cases r.hasRoute <;> simp
  rw [rdirForEach, hpush]
  rfl

/-- The routes that are to go are gone, and no other record is touched. -/
structure Invalidates (victim : DirRec → Bool) (p p' : Pools) : Prop where
  gone : ∀ r ∈ p'.dirs, r.used → r.hasRoute → ¬ victim r
  kept : ∀ (i : Nat) (r : DirRec), p.dirs[i]? = some r → ¬ (r.used ∧ sought victim r) → p'.dirs[i]? = some r

/-- Destinations of routes that are to go are collected, if perhaps not all of them. -/
theorem clearRoutes_invalidates_iff (h : Slots.Distinct DirRec.used DirRec.dest p.dirs)
    (hdead : ∀ d ∈ dead, ∃ r ∈ p.dirs, r.used ∧ sought victim r ∧ r.dest = d) :
    Invalidates victim p (clearRoutes dead p) ↔ ∀ r ∈ p.dirs, r.used → sought victim r → r.dest ∈ dead := by
  rw [clearRoutes_dirs h]
  constructor
  · intro hi r hr hu hs
    by_contra hne
    have hsame : cleared dead r = r := if_neg fun hd => hne hd.2.2
    obtain ⟨hroute, hv⟩ := Bool.and_eq_true_iff.1 hs
    exact hi.gone r (hsame ▸ List.mem_map_of_mem hr) hu hroute hv
  · intro hall
    refine ⟨?_, ?_⟩
    · intro r' hr' hu' hroute' hv
      obtain ⟨r, hr, rfl⟩ := List.mem_map.1 hr'
      obtain ⟨hroute, hnot⟩ := cleared_hasRoute.1 hroute'
      have hu : r.used := cleared_used.symm.trans hu'
      have hsame : cleared dead r = r := if_neg fun hd => hnot ⟨hd.1, hd.2.2⟩
      rw [hsame] at hv
      exact hnot ⟨hu, hall r hr hu (Bool.and_eq_true_iff.2 ⟨hroute, hv⟩)⟩
    · intro i r hi hnot
      have hsame : cleared dead r = r := by
        refine if_neg fun hd => hnot ⟨hd.1, ?_⟩
        obtain ⟨r', hr', hu', hs', hk⟩ := hdead r.dest hd.2.2
        obtain ⟨j, hj⟩ := List.mem_iff_getElem?.1 hr'
        obtain rfl := h j i r' r hj hi hu' hd.1 hk
        obtain rfl := Option.some.inj (hj.symm.trans hi)
        exact hs'
      show (p.dirs.map (cleared dead))[i]? = some r
      rw [List.getElem?_map, hi, Option.map_some, hsame]

/-- The sweep's own victims all go exactly if they fit its array. -/
theorem mem_collected_iff (h : Slots.Distinct DirRec.used DirRec.dest p.dirs) (cap : Nat) (victim : DirRec → Bool) :
    (∀ r ∈ p.dirs, r.used → sought victim r → r.dest ∈ rdirForEach (collect cap victim) [] p) ↔
      (p.dirs.filter DirRec.used).countP (sought victim) ≤ cap := by
  have hnodup : (((p.dirs.filter DirRec.used).filter (sought victim)).map DirRec.dest).Nodup :=
    (Slots.distinct_iff_nodup.1 h).sublist (List.filter_sublist.map _)
  rw [rdirForEach_collect, ← Capped.collect_complete hnodup]
  constructor
  · intro hall r hr
    obtain ⟨hmem, hu⟩ := List.mem_filter.1 hr
    exact hall r hmem hu
  · exact fun hall r hr hu => hall r (List.mem_filter.2 ⟨hr, hu⟩)

theorem collected_sought {d : Bytes} (hd : d ∈ rdirForEach (collect cap victim) [] p) :
    ∃ r ∈ p.dirs, r.used ∧ sought victim r ∧ r.dest = d := by
  rw [rdirForEach_collect] at hd
  obtain ⟨r, hr, hs, hk⟩ := Capped.mem_collect hd
  obtain ⟨hmem, hu⟩ := List.mem_filter.1 hr
  exact ⟨r, hmem, hu, hs, hk⟩

-- ---------------------------------------------------------------------------
-- When they find everything
-- ---------------------------------------------------------------------------

/-- Everything that was filed under the node that leaves. -/
def departed (n : Neighbourhood) (f : PeerDown) : List Bytes :=
  match n.rnsdNodeIndex f.iface f.key with
  | none => []
  | some gone => if f.moved then [] else n.filedUnder gone

/-- A route to what has left with a node, or through an identity behind it. -/
def lost (identityHash : Bytes → Option Bytes) (dests : List Bytes) (p : Pools) : DirRec → Bool :=
  toOrThrough dests (dests.filterMap (identityOf identityHash p))

/-- What the sweep looks for: with at most eight destinations these are all their identities. -/
def looked (identityHash : Bytes → Option Bytes) (dests : List Bytes) (p : Pools) : DirRec → Bool :=
  toOrThrough dests (collectIds identityHash p dests)

variable {identityHash : Bytes → Option Bytes} {n : Neighbourhood} {f : PeerDown}

theorem departing_subset : departing n f ⊆ departed n f := by
  unfold departing departed
  split
  · exact List.Subset.refl _
  · next gone _ =>
    split
    · exact List.Subset.refl _
    · intro d hd
      obtain ⟨row, hrow, rfl⟩ := List.mem_map.1 hd
      obtain ⟨hmem, hnode⟩ := List.mem_filter.1 (List.mem_of_mem_take hrow)
      have hrow' := (List.mem_filter.1 ((List.mem_insertionSort _).1 hmem)).1
      exact List.mem_map_of_mem (List.mem_filter.2 ⟨hrow', hnode⟩)

/-- What the sweep looks for is lost. -/
theorem lost_of_looked (hr : looked identityHash (departing n f) p r) : lost identityHash (departed n f) p r := by
  simp only [looked, lost, toOrThrough, decide_eq_true_eq] at hr ⊢
  rcases hr with hd | hi
  · exact .inl (departing_subset hd)
  · obtain ⟨d, hd, he⟩ := List.mem_filterMap.1 (List.mem_of_mem_take hi)
    exact .inr (List.mem_filterMap.2 ⟨d, departing_subset hd, he⟩)

theorem sought_of_looked (hs : sought (looked identityHash (departing n f) p) r) :
    sought (lost identityHash (departed n f) p) r := by
  obtain ⟨hroute, hl⟩ := Bool.and_eq_true_iff.1 hs
  exact Bool.and_eq_true_iff.2 ⟨hroute, lost_of_looked hl⟩

/-- For no destination there is nothing to look for. -/
theorem rnsdDropRoutesVia_eq (identityHash : Bytes → Option Bytes) (dests : List Bytes) (p : Pools) :
    rnsdDropRoutesVia identityHash dests p = sweep 48 (looked identityHash dests p) p := by
  unfold rnsdDropRoutesVia
  split
  · next he =>
    subst he
    have hnone : sought (looked identityHash [] p) = fun _ => false := by
      funext r
      simp [sought, looked, toOrThrough, collectIds]
    rw [sweep, rdirForEach_collect, Capped.collect_eq, hnone]
    simp [clearRoutes]
  · rfl

/-- The routes over interfaces that are gone go if there are at most 32 of them. -/
theorem deadIfaces_iff (h : Slots.Distinct DirRec.used DirRec.dest p.dirs) (interfaces : List Bytes) :
    Invalidates (overDead interfaces) p (rnsdDropRoutesOnDeadIfaces interfaces p) ↔
      (p.dirs.filter DirRec.used).countP (sought (overDead interfaces)) ≤ 32 := by
  rw [rnsdDropRoutesOnDeadIfaces, sweep, clearRoutes_invalidates_iff h fun _ => collected_sought, mem_collected_iff h]

/-- The routes lost with a node go if its first eight destinations lead to all
of them, and there are at most 48. -/
theorem peerDown_iff (h : Slots.Distinct DirRec.used DirRec.dest p.dirs) :
    Invalidates (lost identityHash (departed n f) p) p (onPeerDown identityHash f (n, p)).2 ↔
      (∀ r ∈ p.dirs, r.used → sought (lost identityHash (departed n f) p) r →
        sought (looked identityHash (departing n f) p) r) ∧
        (p.dirs.filter DirRec.used).countP (sought (looked identityHash (departing n f) p)) ≤ 48 := by
  have hdead : ∀ d ∈ rdirForEach (collect 48 (looked identityHash (departing n f) p)) [] p,
      ∃ r ∈ p.dirs, r.used ∧ sought (lost identityHash (departed n f) p) r ∧ r.dest = d := by
    intro d hd
    obtain ⟨r, hr, hu, hs, hk⟩ := collected_sought hd
    exact ⟨r, hr, hu, sought_of_looked hs, hk⟩
  rw [onPeerDown, rnsdDropRoutesVia_eq, sweep, clearRoutes_invalidates_iff h hdead, ← mem_collected_iff h]
  constructor
  · intro hall
    refine ⟨fun r hr hu hs => ?_, fun r hr hu hs => hall r hr hu (sought_of_looked hs)⟩
    obtain ⟨r', hr', hu', hs', hk⟩ := collected_sought (hall r hr hu hs)
    obtain ⟨i, hi⟩ := List.mem_iff_getElem?.1 hr
    obtain ⟨j, hj⟩ := List.mem_iff_getElem?.1 hr'
    obtain rfl := h j i r' r hj hi hu' hu hk
    obtain rfl := Option.some.inj (hj.symm.trans hi)
    exact hs'
  · exact fun ⟨hsub, hall⟩ r hr hu hs => hall r hr hu (hsub r hr hu hs)

/-- When the sweeps find every route that is no longer true. -/
theorem routes_invalidated (p : Pools) (h : Consistent p) (interfaces : List Bytes)
    (identityHash : Bytes → Option Bytes) (n : Neighbourhood) (f : PeerDown) :
    (Invalidates (overDead interfaces) p (rnsdDropRoutesOnDeadIfaces interfaces p) ↔
      (p.dirs.filter DirRec.used).countP (sought (overDead interfaces)) ≤ 32) ∧
    (Invalidates (lost identityHash (departed n f) p) p (onPeerDown identityHash f (n, p)).2 ↔
      (∀ r ∈ p.dirs, r.used → sought (lost identityHash (departed n f) p) r →
        sought (looked identityHash (departing n f) p) r) ∧
        (p.dirs.filter DirRec.used).countP (sought (looked identityHash (departing n f) p)) ≤ 48) :=
  ⟨deadIfaces_iff h.dirs interfaces, peerDown_iff h.dirs⟩

/-- A directory of so many routes over one interface. -/
def routes (count : Nat) : Pools where
  blobSlotSize := 512
  guards := []
  dirs := (List.range count).map fun i =>
    { dest := UInt8.ofNat i :: List.replicate 15 0, flags := F_USED ||| F_ROUTE, prio := CAT_UNCLAIMED }
  blobs := []

theorem routes_consistent_32 : Consistent (routes 32) where
  dirs := Slots.distinct_iff_nodup.2 (by decide +kernel)
  blobs := nofun
  guards := nofun
  owned := nofun
  current := by decide +kernel

theorem routes_invalidated_32 : Invalidates (overDead []) (routes 32) (rnsdDropRoutesOnDeadIfaces [] (routes 32)) :=
  (routes_invalidated (routes 32) routes_consistent_32 [] some ⟨[], []⟩ ⟨"auto/0", [], false⟩).1.2 (by decide +kernel)

/-- The thirty-third route over an interface that is gone stays. -/
theorem routes_invalidated_33 : Consistent (routes 33) ∧
    ¬ Invalidates (overDead []) (routes 33) (rnsdDropRoutesOnDeadIfaces [] (routes 33)) := by
  refine ⟨⟨Slots.distinct_iff_nodup.2 (by decide +kernel), nofun, nofun, nofun, by decide +kernel⟩, ?_⟩
  have hstays : ∃ r ∈ (rnsdDropRoutesOnDeadIfaces [] (routes 33)).dirs, r.used ∧ r.hasRoute := by decide +kernel
  intro h
  obtain ⟨r, hr, hu, hroute⟩ := hstays
  exact h.gone r hr hu hroute rfl

end MicroReticulum.Directory
