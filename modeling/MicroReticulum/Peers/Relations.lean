import MicroReticulum.Peers.Table
import MicroReticulum.Lib.Runs

/-!
# How the tables of the neighbourhood hang together

Every row is filed under a node of its own interface, or under none. A node's
count of its destinations is kept by hand, and an announce that takes a row
from another node leaves that node's count behind.
-/

namespace MicroReticulum.Peers

open Lib Lib.Runs
open MicroReticulum.MsgPack (Text)

variable {s : Table} {labels : Labels} {op : Op} {ops : List Op} {iface : Name} {key : Option Key} {a : Announce}
  {peers : List Peer} {nodes : List Node} {node : Option Nat} {p : Peer} {n : Node} {i k now : Nat}

abbrev PeersDistinct (peers : List Peer) : Prop := Slots.Distinct (·.used) (fun p : Peer => (p.iface, p.dest)) peers

abbrev NodesDistinct (nodes : List Node) : Prop := Slots.Distinct (·.used) (fun n : Node => (n.iface, n.key)) nodes

/-- A row's node is a used one of the same interface. -/
def Filed (peers : List Peer) (nodes : List Node) : Prop :=
  ∀ p ∈ peers, p.used → ∀ k, p.node = some k → ∃ n, nodes[k]? = some n ∧ n.used ∧ n.iface = p.iface

def Counted (peers : List Peer) (nodes : List Node) : Prop :=
  ∀ (k : Nat) (n : Node), nodes[k]? = some n → n.used → n.peers = filed k peers

structure Consistent (s : Table) : Prop where
  peersDistinct : PeersDistinct s.peers
  nodesDistinct : NodesDistinct s.nodes
  filing : Filed s.peers s.nodes
  counting : Counted s.peers s.nodes

-- ---------------------------------------------------------------------------
-- Counting
-- ---------------------------------------------------------------------------

theorem filed_congr {f : Peer → Peer}
    (h : ∀ p ∈ peers, (f p).used ∧ (f p).node = some k ↔ p.used ∧ p.node = some k) :
    filed k (peers.map f) = filed k peers := by
  unfold filed
  rw [List.countP_map]
  refine List.countP_congr fun p hp => ?_
  simpa using h p hp

theorem filed_eq_zero (h : ∀ p ∈ peers, p.used → p.node ≠ some k) : filed k peers = 0 := by
  refine List.countP_eq_zero.2 fun p hp => ?_
  simpa using h p hp

theorem modify_eq_set {α : Type*} {l : List α} {f : α → α} {x : α} (h : l[i]? = some x) : l.modify i f = l.set i (f x) := by
  obtain ⟨hi, rfl⟩ := List.getElem?_eq_some_iff.1 h
  apply List.ext_getElem?
  intro j
  rw [List.getElem?_modify, List.getElem?_set]
  by_cases hij : i = j
  · subst hij
    simp [hi]
  · simp [hij]

theorem filed_set (k : Nat) (p' : Peer) (h : peers[i]? = some p) :
    filed k (peers.set i p') + (if p.used ∧ p.node = some k then 1 else 0) =
      filed k peers + if p'.used ∧ p'.node = some k then 1 else 0 := by
  obtain ⟨hi, hp⟩ := List.getElem?_eq_some_iff.1 h
  unfold filed
  rw [List.countP_set hi, hp]
  have hpos : (p.used && decide (p.node = some k)) → 0 < peers.countP fun p => p.used && decide (p.node = some k) :=
    fun h' => List.countP_pos_iff.2 ⟨p, List.mem_of_getElem? h, h'⟩
  simp only [Bool.and_eq_true, decide_eq_true_eq] at hpos ⊢
  split <;> split <;> simp_all

-- ---------------------------------------------------------------------------
-- Changes that keep the tables consistent
-- ---------------------------------------------------------------------------

/-- Rows may be freed, and nodes with all that is filed under them; and nodes may change in what the
relations do not speak of. -/
theorem Consistent.shrink {f : Peer → Peer} {g : UInt32} (h : Consistent s) (hf : ∀ p, (f p).used → f p = p)
    (hold : ∀ (k : Nat) (n : Node), nodes[k]? = some n → n.used →
      n.peers = filed k (s.peers.map f) ∧ ∃ n', s.nodes[k]? = some n' ∧ n'.used ∧ n'.iface = n.iface ∧ n'.key = n.key)
    (hkept : ∀ p ∈ s.peers, (f p).used → ∀ k, p.node = some k → ∀ n, s.nodes[k]? = some n → n.used →
      n.iface = p.iface → ∃ n', nodes[k]? = some n' ∧ n'.used ∧ n'.iface = n.iface) :
    Consistent { s with peers := s.peers.map f, nodes := nodes, gen := g } := by
  refine ⟨h.peersDistinct.sub fun i p hi hu => ?_, h.nodesDistinct.sub fun k n hn hu => ?_,
    fun p hmem hu k hk => ?_, fun k n hn hu => (hold k n hn hu).1⟩
  · rw [List.getElem?_map, Option.map_eq_some_iff] at hi
    obtain ⟨p', hp', rfl⟩ := hi
    have he := hf p' hu
    exact ⟨p', hp', he ▸ hu, by rw [he]⟩
  · obtain ⟨-, n', hn', hu', hi, hk⟩ := hold k n hn hu
    exact ⟨n', hn', hu', Prod.ext hi hk⟩
  · obtain ⟨p', hp', rfl⟩ := List.mem_map.1 hmem
    have he := hf p' hu
    rw [he] at hk ⊢
    obtain ⟨n, hn, hun, hi⟩ := h.filing p' hp' (he ▸ hu) k hk
    obtain ⟨n', hn', hu', hi'⟩ := hkept p' hp' hu k hk n hn hun hi
    exact ⟨n', hn', hu', hi'.trans hi⟩

/-- A change of one node that neither its place nor its count is in. -/
theorem Consistent.touch {f : Node → Node} {g : UInt32} (h : Consistent s)
    (hf : ∀ n, (f n).used = n.used ∧ (f n).iface = n.iface ∧ (f n).key = n.key ∧ (f n).peers = n.peers) (k : Nat) :
    Consistent { s with nodes := s.nodes.modify k f, gen := g } := by
  have hget : ∀ (j : Nat) (n : Node), (s.nodes.modify k f)[j]? = some n ↔
      ∃ n', s.nodes[j]? = some n' ∧ (if k = j then f n' else n') = n := by
    intro j n
    rw [List.getElem?_modify, Option.map_eq_map, Option.map_eq_some_iff]
  have hsame : ∀ (j : Nat) (n : Node), (if k = j then f n else n).used = n.used ∧
      (if k = j then f n else n).iface = n.iface ∧ (if k = j then f n else n).key = n.key ∧
      (if k = j then f n else n).peers = n.peers := by
    intro j n
    split
    · exact hf n
    · exact ⟨rfl, rfl, rfl, rfl⟩
  have hmap : s.peers.map (fun p => p) = s.peers := List.map_id _
  have hshrink : Consistent { s with peers := s.peers.map fun p => p, nodes := s.nodes.modify k f, gen := g } := by
    refine h.shrink (fun _ _ => rfl) ?_ ?_
    · intro j n hn hu
      obtain ⟨n', hn', rfl⟩ := (hget j n).1 hn
      obtain ⟨hu', hi, hk, hp⟩ := hsame j n'
      rw [hmap, hp]
      exact ⟨h.counting j n' hn' (hu' ▸ hu), n', hn', hu' ▸ hu, hi.symm, hk.symm⟩
    · intro p hp hu j hj n hn hun hi
      obtain ⟨hu', hi', -, -⟩ := hsame j n
      exact ⟨_, (hget j _).2 ⟨n, hn, rfl⟩, hu' ▸ hun, hi'⟩
  rwa [hmap] at hshrink

theorem nodeFind_eq_some (h : nodeFind iface key nodes = some k) :
    ∃ n, nodes[k]? = some n ∧ n.used ∧ n.iface = iface ∧ some n.key = key := by
  obtain ⟨x, rfl, hf⟩ := Option.bind_eq_some_iff.1 h
  obtain ⟨n, hn, hu, he⟩ := Slots.find_eq_some hf
  obtain ⟨rfl, rfl⟩ := Prod.ext_iff.1 he
  exact ⟨n, hn, hu, rfl, rfl⟩

theorem Consistent.withdraw (h : Consistent s) (k : Nat) {g : UInt32} : Consistent
    { s with nodes := s.nodes.modify k ({ · with used := false }), peers := s.peers.map (unfile k), gen := g } := by
  have hget : ∀ (j : Nat) (n : Node), (s.nodes.modify k ({ · with used := false }))[j]? = some n → n.used →
      k ≠ j ∧ s.nodes[j]? = some n := by
    intro j n hn hu
    rw [List.getElem?_modify, Option.map_eq_map, Option.map_eq_some_iff] at hn
    obtain ⟨n', hn', he⟩ := hn
    split at he
    · subst he
      cases hu
    · next hkj => exact ⟨hkj, he ▸ hn'⟩
  have hunfile : ∀ p : Peer, (unfile k p).used → unfile k p = p ∧ p.node ≠ some k := by
    intro p hu
    unfold unfile at hu ⊢
    split at hu
    · cases hu
    · next hn => exact ⟨if_neg hn, fun hk => hn ⟨hu, hk⟩⟩
  refine h.shrink (fun p hu => (hunfile p hu).1) (fun j n hn hu => ?_) fun p hp hu j hj n hn hun _ => ?_
  · obtain ⟨hkj, hn⟩ := hget j n hn hu
    refine ⟨?_, n, hn, hu, rfl, rfl⟩
    rw [h.counting j n hn hu, filed_congr]
    intro p hp
    unfold unfile
    split
    · next hk =>
      simp only [Bool.false_eq_true, false_and, false_iff, not_and]
      exact fun _ hj => hkj (Option.some.inj (hk.2.symm.trans hj))
    · rfl
  · have hkj : k ≠ j := fun he => (hunfile p hu).2 (he ▸ hj)
    refine ⟨n, ?_, hun, rfl⟩
    rw [List.getElem?_modify, hn]
    simp [hkj]

theorem Consistent.admit (h : Consistent s) {n : Node} {g : UInt32} (hfree : Slots.free (·.used) s.nodes = some k)
    (hf : nodeFind n.iface (some n.key) s.nodes = none) (hzero : n.peers = 0) :
    Consistent { s with nodes := s.nodes.set k n, gen := g } := by
  obtain ⟨n₀, hn₀, hu₀⟩ := Slots.free_eq_some hfree
  have hother : ∀ p ∈ s.peers, p.used → p.node ≠ some k := by
    intro p hp hu hk
    obtain ⟨n', hn', hu', -⟩ := h.filing p hp hu k hk
    cases hn₀.symm.trans hn'
    rw [hu₀] at hu'
    cases hu'
  refine ⟨h.peersDistinct, h.nodesDistinct.set_new hf, fun p hp hu j hj => ?_, fun j m hm hu => ?_⟩
  · obtain ⟨n', hn', hu', hi⟩ := h.filing p hp hu j hj
    have hkj : k ≠ j := fun he => hother p hp hu (he ▸ hj)
    exact ⟨n', (List.getElem?_set_ne hkj).trans hn', hu', hi⟩
  · rcases Slots.getElem?_set_cases hm with ⟨rfl, rfl⟩ | ⟨-, hm⟩
    · rw [hzero]
      exact (filed_eq_zero hother).symm
    · exact h.counting j m hm hu

theorem Consistent.declare (h : Consistent s) (label : Text) (up : Bool) :
    Consistent (rnsdNodeDeclare iface key label up s) := by
  unfold rnsdNodeDeclare
  split
  · exact h
  cases hf : nodeFind iface (some (key.getD kNoKey)) s.nodes with
  | some k =>
    cases up with
    | false => exact h.withdraw k
    | true =>
      refine h.touch (f := fun n => { n with label := label.take (RNSD_NODE_LABEL_MAX - 1) }) (fun n => ?_) k
      exact ⟨rfl, rfl, rfl, rfl⟩
  | none =>
    cases up with
    | false => exact h
    | true =>
      cases hfree : Slots.free (·.used) s.nodes with
      | none =>
        simp only [hfree]
        exact h
      | some k =>
        simp only [hfree]
        exact h.admit hfree hf rfl

theorem Consistent.ifaceGone (h : Consistent s) : Consistent (rnsdPeersIfaceGone iface s) := by
  unfold rnsdPeersIfaceGone
  split
  · exact h
  have hpeer : ∀ p : Peer, (if peerOf iface p then { p with used := false } else p).used →
      (if peerOf iface p then { p with used := false } else p) = p ∧ p.iface ≠ iface := by
    intro p hu
    split at hu
    · cases hu
    · next hn => exact ⟨if_neg hn, fun hi => hn (by simp [peerOf, hu, hi])⟩
  have hnode : ∀ (j : Nat) (n : Node), (s.nodes.map fun n => if nodeOf iface n then { n with used := false } else n)[j]? =
      some n → n.used → s.nodes[j]? = some n ∧ n.iface ≠ iface := by
    intro j n hn hu
    rw [List.getElem?_map, Option.map_eq_some_iff] at hn
    obtain ⟨n', hn', he⟩ := hn
    split at he
    · subst he
      cases hu
    · next hno =>
      subst he
      exact ⟨hn', fun hi => hno (by simp [nodeOf, hu, hi])⟩
  refine h.shrink (fun p hu => (hpeer p hu).1) (fun j n hn hu => ?_) fun p hp hu j hj n hn hun hi => ?_
  · obtain ⟨hn, hi⟩ := hnode j n hn hu
    refine ⟨?_, n, hn, hu, rfl, rfl⟩
    rw [h.counting j n hn hu, filed_congr]
    intro p hp
    split
    · next hof =>
      simp only [Bool.false_eq_true, false_and, false_iff, not_and]
      intro hup hj
      obtain ⟨n', hn', -, hi'⟩ := h.filing p hp hup j hj
      cases hn.symm.trans hn'
      simp only [peerOf, Bool.and_eq_true, decide_eq_true_eq] at hof
      exact hi (hi'.trans hof.2)
    · rfl
  · refine ⟨n, ?_, hun, rfl⟩
    have hne : ¬ nodeOf iface n := by
      simp only [nodeOf, Bool.and_eq_true, decide_eq_true_eq, not_and]
      exact fun _ he => (hpeer p hu).2 (hi.symm.trans he)
    rw [List.getElem?_map, hn, Option.map_some, if_neg hne]

theorem Consistent.aged (h : Consistent s) (ttl now : Nat) : Consistent (age ttl now s) := by
  have hpeer : ∀ p : Peer, (if expired ttl now p then { p with used := false } else p).used →
      (if expired ttl now p then { p with used := false } else p) = p := by
    intro p hu
    split at hu
    · cases hu
    · next hn => exact if_neg hn
  unfold age
  dsimp only
  split
  · refine h.shrink hpeer (fun j n hn hu => ?_) fun p hp hu j hj n hn hun hi => ?_
    · rw [List.getElem?_mapIdx, Option.map_eq_some_iff] at hn
      obtain ⟨n', hn', rfl⟩ := hn
      unfold recount at hu ⊢
      split at hu
      · next hu' => exact ⟨by rw [if_pos hu'], n', hn', hu', by rw [if_pos hu'], by rw [if_pos hu']⟩
      · next hu' => exact absurd hu hu'
    · refine ⟨_, by rw [List.getElem?_mapIdx, hn, Option.map_some], ?_, ?_⟩
      · rw [recount, if_pos hun]
        exact hun
      · rw [recount, if_pos hun]
  · next hnone =>
    -- nothing has expired
    have hall : ∀ p ∈ s.peers, (if expired ttl now p then { p with used := false } else p) = p := by
      intro p hp
      exact if_neg (List.countP_eq_zero.1 (not_not.1 hnone) p hp)
    refine h.shrink hpeer (fun j n hn hu => ?_) fun p hp hu j hj n hn hun _ => ⟨n, hn, hun, rfl⟩
    refine ⟨?_, n, hn, hu, rfl, rfl⟩
    rw [List.map_congr_left (g := id) hall, List.map_id]
    exact h.counting j n hn hu

theorem Consistent.forward (h : Consistent s) : Consistent (forwarded iface a s) := by
  unfold forwarded
  split
  · exact h
  · split
    · exact h
    · exact h.touch (f := fun n => { n with transport := true }) (fun n => ⟨rfl, rfl, rfl, rfl⟩) _

-- ---------------------------------------------------------------------------
-- An announce that is heard directly
-- ---------------------------------------------------------------------------

/-- The row an announce takes is filed under another node. -/
def Takes (iface : Name) (a : Announce) (s : Table) : Prop :=
  ∃ i p, slotFor iface a.dest s.peers = some i ∧ s.peers[i]? = some p ∧ p.used ∧ p.node ≠ none ∧
    p.node ≠ nodeFind iface a.origin s.nodes

theorem slotFor_eq_some (h : slotFor iface a.dest peers = some i) : ∃ p, peers[i]? = some p ∧
    (p.used ∧ p.iface = iface ∧ p.dest = a.dest ∨
      Slots.find (·.used) (fun p : Peer => (p.iface, p.dest)) (iface, a.dest) peers = none) := by
  unfold slotFor at h
  cases hf : Slots.find (·.used) (fun p : Peer => (p.iface, p.dest)) (iface, a.dest) peers with
  | some j =>
    rw [hf] at h
    cases h
    obtain ⟨p, hp, hu, he⟩ := Slots.find_eq_some hf
    exact ⟨p, hp, .inl ⟨hu, Prod.ext_iff.1 he⟩⟩
  | none =>
    rw [hf, Option.orElse_none] at h
    cases hfree : Slots.free (·.used) peers with
    | some j =>
      rw [hfree] at h
      cases h
      obtain ⟨p, hp, -⟩ := Slots.free_eq_some hfree
      exact ⟨p, hp, .inr rfl⟩
    | none =>
      rw [hfree, Option.orElse_none] at h
      obtain ⟨p, hp, -⟩ := Slots.victim_eq_some h
      exact ⟨p, hp, .inr rfl⟩

theorem noted_key : (noted labels now iface a node p).used ∧ (noted labels now iface a node p).iface = iface ∧
    (noted labels now iface a node p).dest = a.dest := by
  unfold noted
  dsimp only
  split
  · exact ⟨rfl, rfl, rfl⟩
  · next hn =>
    simp only [decide_eq_true_eq, not_or, Bool.not_eq_true', Bool.not_eq_false, not_not] at hn
    exact ⟨hn.1, hn.2.2, hn.2.1⟩

/-- The row is written, and the count of its node with it. -/
theorem heardDirectly_eq (h : slotFor iface a.dest s.peers = some i) (hp : s.peers[i]? = some p) :
    heardDirectly labels now iface a s =
      let peers := s.peers.set i (noted labels now iface a (nodeFind iface a.origin s.nodes) p)
      { s with
        peers := peers, nodes := heardFrom now (nodeFind iface a.origin s.nodes) peers s.nodes, gen := s.gen + 1 } := by
  unfold heardDirectly
  simp only [h, modify_eq_set hp]

theorem getElem?_heardFrom : (heardFrom now node peers nodes)[k]? = some n ↔ ∃ n', nodes[k]? = some n' ∧
    n = if node = some k then { n' with heard := now, peers := filed k peers } else n' := by
  unfold heardFrom
  cases node with
  | none => simp
  | some j =>
    simp only [List.getElem?_modify, Option.map_eq_map, Option.map_eq_some_iff, Option.some.injEq]
    constructor
    · rintro ⟨n', hn', rfl⟩
      refine ⟨n', hn', ?_⟩
      split
      · next he => rw [he]
      · rfl
    · rintro ⟨n', hn', rfl⟩
      refine ⟨n', hn', ?_⟩
      split
      · next he => rw [he]
      · rfl

/-- A node that counts right after its row is gone to another. -/
theorem not_counted_of_takes (h : Consistent s) (ht : Takes iface a s) :
    ¬ Consistent (heardDirectly labels now iface a s) := by
  obtain ⟨i, p, hslot, hp, hu, hnone, hne⟩ := ht
  obtain ⟨k, hk⟩ := Option.ne_none_iff_exists'.1 hnone
  obtain ⟨n, hn, hun, -⟩ := h.filing p (List.mem_of_getElem? hp) hu k hk
  rw [heardDirectly_eq hslot hp]
  intro hc
  have hsame := hc.counting k n (getElem?_heardFrom.2 ⟨n, hn, (if_neg (hk ▸ Ne.symm hne)).symm⟩) hun
  have hset := filed_set k (noted labels now iface a (nodeFind iface a.origin s.nodes) p) hp
  rw [if_pos ⟨hu, hk⟩, if_neg fun hx => hne (hk.trans hx.2.symm)] at hset
  have hwas := h.counting k n hn hun
  simp only at hsame
  omega

theorem Consistent.hear (h : Consistent s) (ht : ¬ Takes iface a s) : Consistent (heardDirectly labels now iface a s) := by
  cases hslot : slotFor iface a.dest s.peers with
  | none =>
    unfold heardDirectly
    simp only [hslot]
    exact h
  | some i =>
    obtain ⟨p, hp, hown⟩ := slotFor_eq_some hslot
    rw [heardDirectly_eq hslot hp]
    obtain ⟨hu', hi', hd'⟩ := @noted_key labels iface a (nodeFind iface a.origin s.nodes) p now
    have hnode' : (noted labels now iface a (nodeFind iface a.origin s.nodes) p).node = nodeFind iface a.origin s.nodes := rfl
    generalize noted labels now iface a (nodeFind iface a.origin s.nodes) p = p' at hu' hi' hd' hnode'
    have hget : ∀ (k : Nat) (n : Node), s.nodes[k]? = some n → n.used →
        ∃ n', (heardFrom now (nodeFind iface a.origin s.nodes) (s.peers.set i p') s.nodes)[k]? = some n' ∧ n'.used ∧
          n'.iface = n.iface := by
      intro k n hn hun
      refine ⟨_, getElem?_heardFrom.2 ⟨n, hn, rfl⟩, ?_⟩
      split
      · exact ⟨hun, rfl⟩
      · exact ⟨hun, rfl⟩
    refine ⟨?_, h.nodesDistinct.sub fun k n hn hu => ?_, fun q hq hu k hk => ?_, fun k n hn hu => ?_⟩
    · rcases hown with ⟨hu, hi, hd⟩ | hnone
      · exact h.peersDistinct.set_same hp hu fun _ => Prod.ext (hi'.trans hi.symm) (hd'.trans hd.symm)
      · refine h.peersDistinct.set_new ?_
        rw [hi', hd']
        exact hnone
    · obtain ⟨n', hn', rfl⟩ := getElem?_heardFrom.1 hn
      refine ⟨n', hn', ?_⟩
      split at hu
      · next he => exact ⟨hu, by rw [if_pos he]⟩
      · next he => exact ⟨hu, by rw [if_neg he]⟩
    · rcases Slots.mem_set_cases hq with rfl | hq
      · obtain ⟨n, hn, hun, hi, -⟩ := nodeFind_eq_some (hnode'.symm.trans hk)
        obtain ⟨n', hn', hun', hin⟩ := hget k n hn hun
        exact ⟨n', hn', hun', hin.trans (hi.trans hi'.symm)⟩
      · obtain ⟨n, hn, hun, hi⟩ := h.filing q hq hu k hk
        obtain ⟨n', hn', hun', hin⟩ := hget k n hn hun
        exact ⟨n', hn', hun', hin.trans hi⟩
    · obtain ⟨n', hn', rfl⟩ := getElem?_heardFrom.1 hn
      split
      · rfl
      · next hother =>
        rw [if_neg hother] at hu
        have hset := filed_set k p' hp
        have hnew : ¬ (p'.used ∧ p'.node = some k) := fun hx => hother (hnode'.symm.trans hx.2)
        have hold : ¬ (p.used ∧ p.node = some k) := by
          rintro ⟨hup, hk⟩
          refine ht ⟨i, p, hslot, hp, hup, by simp [hk], ?_⟩
          rw [hk]
          exact Ne.symm hother
        rw [if_neg hnew, if_neg hold] at hset
        rw [h.counting k n' hn' hu]
        exact hset.symm

-- ---------------------------------------------------------------------------
-- Runs
-- ---------------------------------------------------------------------------

/-- No announce takes a row from another node. -/
def Keeps (s : Table) (op : Op) : Prop :=
  ∀ now room iface a, op = .observe now room iface a → direct iface a → s.allocated ∨ room → ¬ Takes iface a s

theorem observe_direct {room : Bool} (hd : direct iface a) (hr : s.allocated ∨ room) :
    rnsdPeersObserve labels now room iface a s = heardDirectly labels now iface a { s with allocated := true } := by
  simp only [direct, decide_eq_true_eq] at hd
  unfold rnsdPeersObserve
  rw [if_neg hd.1, if_neg (not_lt.2 hd.2.1), if_neg hd.2.2, if_neg]
  simpa [Classical.or_iff_not_imp_left] using hr

theorem Consistent.step (h : Consistent s) (hop : Keeps s op) : Consistent (s.step labels op) := by
  cases op with
  | declare iface key label up => exact h.declare label up
  | observe now room iface a =>
    by_cases hd : direct iface a ∧ (s.allocated ∨ room)
    · rw [Table.step, observe_direct hd.1 hd.2]
      exact Consistent.hear ⟨h.peersDistinct, h.nodesDistinct, h.filing, h.counting⟩ (hop now room iface a rfl hd.1 hd.2)
    · rw [Table.step, rnsdPeersObserve]
      split
      · exact h
      split
      · exact h.forward
      split
      · exact h
      split
      · exact h
      · next h₁ h₂ h₃ h₄ =>
        refine absurd ⟨?_, ?_⟩ hd
        · simp only [direct, decide_eq_true_eq]
          exact ⟨h₁, not_lt.1 h₂, h₃⟩
        · simpa [Classical.or_iff_not_imp_left] using h₄
  | ifaceGone iface => exact h.ifaceGone
  | tick ttl now => exact h.aged ttl now

theorem Consistent.broken (h : Consistent s) (hop : ¬ Keeps s op) : ¬ Consistent (s.step labels op) := by
  simp only [Keeps, not_forall, not_not] at hop
  obtain ⟨now, room, iface, a, rfl, hd, hr, ht⟩ := hop
  rw [Table.step, observe_direct hd hr]
  exact not_counted_of_takes ⟨h.peersDistinct, h.nodesDistinct, h.filing, h.counting⟩ ht

theorem empty_consistent : Consistent {} := by
  have hpeers : ∀ p ∈ List.replicate RNSD_PEERS_MAX ({} : Peer), ¬ p.used := by
    intro p hp
    rw [List.eq_of_mem_replicate hp]
    exact Bool.false_ne_true
  have hnodes : ∀ n ∈ List.replicate RNSD_NODES_MAX ({} : Node), ¬ n.used := by
    intro n hn
    rw [List.eq_of_mem_replicate hn]
    exact Bool.false_ne_true
  refine ⟨?_, ?_, fun p hp hu => absurd hu (hpeers p hp), fun k n hn hu => ?_⟩
  · intro i j a b ha _ hu
    exact absurd hu (hpeers a (List.mem_of_getElem? ha))
  · intro i j a b ha _ hu
    exact absurd hu (hnodes a (List.mem_of_getElem? ha))
  · exact absurd hu (hnodes n (List.mem_of_getElem? hn))

/-- The tables hang together in every state exactly as long as no announce takes the row of a
destination that is filed under another node. -/
theorem consistent_throughout (labels : Labels) (ops : List Op) :
    Throughout (Table.step labels) Consistent {} ops ↔ Guarded (Table.step labels) Keeps {} ops :=
  throughout_iff (fun _ _ h hop => h.step hop) (fun _ h => h) (fun _ _ h hop => h.broken hop) empty_consistent

def unlabelled : Labels where
  aspect _ := none
  announceName _ := []

def radio : Name := ⟨['l', 'o', 'r', 'a', '/', '0'], by decide⟩

/-- One destination, heard from this node. -/
def heardVia (key : Key) : Op :=
  .observe 1000 true radio
    { communityRadius := 1, hops := 1, origin := some key, dest := [7], nameHash := [], appData := [], signal := none }

/-- A destination that is heard from one node and then from another is counted by both. -/
theorem moved_counted_twice : ¬ Throughout (Table.step unlabelled) Consistent {}
    [.declare radio (some [1]) [] true, .declare radio (some [2]) [] true, heardVia [1], heardVia [2]] := by
  intro h
  exact absurd (h.last.counting 0 _ rfl rfl) (by decide)

end MicroReticulum.Peers
