import MicroReticulum.Lib.Runs
import MicroReticulum.Peers.Publishing
import MicroReticulum.Peers.Relations

/-!
# No update of the neighbourhood is lost

What a pass publishes is the table it began with, as long as nobody changes the
table under it. The generation that is noted at the end is the table's then, so
a change under the pass passes for published.
-/

namespace MicroReticulum.Peers

open Lib Lib.Runs
open MicroReticulum.MsgPack (Text)

variable {t : Table} {labels : Labels} {ifaces : List (Name × Nat)} {op : Op} {w : World} {e : Event}
  {events : List Event} {i k n used : Nat}

-- ---------------------------------------------------------------------------
-- A change of the table is a change of its generation
-- ---------------------------------------------------------------------------

/-- The tables have all their slots. -/
def Sized (t : Table) : Prop := t.peers.length = RNSD_PEERS_MAX ∧ t.nodes.length = RNSD_NODES_MAX

/-- What there is to publish is the same. -/
def Same (t t' : Table) : Prop := t'.peers = t.peers ∧ t'.nodes = t.nodes

theorem gen_succ_ne (g : UInt32) : g + 1 ≠ g := by
  intro h
  have hz : (1 : UInt32) = 0 := by simpa using h
  exact absurd hz (by decide)

theorem gen_add_eq {g : UInt32} (hn : n < 2 ^ 32) (h : g + UInt32.ofNat n = g) : n = 0 := by
  have hz : UInt32.ofNat n = 0 := by simpa using h
  have hnat := congrArg UInt32.toNat hz
  rw [UInt32.toNat_ofNat', Nat.mod_eq_of_lt hn] at hnat
  exact hnat

/-- Nothing that there is to publish changes without the generation. -/
structure Moves (t t' : Table) : Prop where
  sized : t'.peers.length = t.peers.length ∧ t'.nodes.length = t.nodes.length
  same : Sized t → t'.gen = t.gen → Same t t'

theorem Moves.refl : Moves t t := ⟨⟨rfl, rfl⟩, fun _ _ => ⟨rfl, rfl⟩⟩

/-- One more than it was. -/
theorem Moves.succ {t' : Table} (hp : t'.peers.length = t.peers.length) (hn : t'.nodes.length = t.nodes.length)
    (hg : t'.gen = t.gen + 1) : Moves t t' :=
  ⟨⟨hp, hn⟩, fun _ h => absurd (hg.symm.trans h) (gen_succ_ne _)⟩

theorem map_eq_self {α : Type*} {l : List α} {q : α → Bool} {f : α → α} (h : l.countP q = 0) :
    (l.map fun x => if q x then f x else x) = l := by
  have hall : ∀ x ∈ l, (if q x then f x else x) = id x := fun x hx => if_neg (List.countP_eq_zero.1 h x hx)
  rw [List.map_congr_left hall, List.map_id]

theorem moves_declare {iface : Name} {key : Option Key} {label : Text} {up : Bool} :
    Moves t (rnsdNodeDeclare iface key label up t) := by
  unfold rnsdNodeDeclare
  split
  · exact .refl
  split
  · exact .succ (by simp) (by simp) rfl
  · exact .refl
  · exact .succ rfl (by simp) rfl
  · split
    · exact .refl
    · exact .succ rfl (by simp) rfl

theorem moves_observe {now : Nat} {room : Bool} {iface : Name} {a : Announce} :
    Moves t (rnsdPeersObserve labels now room iface a t) := by
  unfold rnsdPeersObserve
  split
  · exact .refl
  split
  · unfold forwarded
    split
    · exact .refl
    split
    · exact .refl
    · exact .succ rfl (by simp) rfl
  split
  · exact .refl
  split
  · exact .refl
  unfold heardDirectly heardFrom
  dsimp only
  split
  · exact ⟨⟨rfl, rfl⟩, fun _ _ => ⟨rfl, rfl⟩⟩
  · refine .succ (by simp) ?_ rfl
    dsimp only
    split
    · rfl
    · simp

theorem moves_ifaceGone {iface : Name} : Moves t (rnsdPeersIfaceGone iface t) := by
  unfold rnsdPeersIfaceGone
  split
  · exact .refl
  refine ⟨⟨by simp, by simp⟩, fun hs hg => ?_⟩
  have hp := t.peers.countP_le_length (p := peerOf iface)
  have hn := t.nodes.countP_le_length (p := nodeOf iface)
  rw [hs.1] at hp
  rw [hs.2] at hn
  simp only [RNSD_PEERS_MAX, RNSD_NODES_MAX] at hp hn
  have hzero := gen_add_eq (by omega) hg
  exact ⟨map_eq_self (Nat.eq_zero_of_add_eq_zero_right hzero), map_eq_self (Nat.eq_zero_of_add_eq_zero_left hzero)⟩

theorem moves_age {ttl now : Nat} : Moves t (age ttl now t) := by
  unfold age
  refine ⟨⟨by simp, ?_⟩, fun hs hg => ?_⟩
  · dsimp only
    split
    · simp
    · rfl
  have hp := t.peers.countP_le_length (p := expired ttl now)
  rw [hs.1] at hp
  simp only [RNSD_PEERS_MAX] at hp
  have hzero := gen_add_eq (by omega) hg
  refine ⟨map_eq_self hzero, ?_⟩
  dsimp only
  rw [if_neg (not_not.2 hzero)]

theorem moves_step : Moves t (t.step labels op) := by
  cases op with
  | declare iface key label up => exact moves_declare
  | observe now room iface a => exact moves_observe
  | ifaceGone iface => exact moves_ifaceGone
  | tick ttl now => exact moves_age

theorem Moves.sized_right {t' : Table} (h : Moves t t') (hs : Sized t) : Sized t' :=
  ⟨h.sized.1.trans hs.1, h.sized.2.trans hs.2⟩

-- ---------------------------------------------------------------------------
-- What is current
-- ---------------------------------------------------------------------------

def rows (t : Table) : List PeerRow := (t.peers.filter (·.used)).map publishPeer

/-- The counts stored for an interface. -/
def IfaceCurrent (t : Table) (p : Published) (x : Name × Nat) : Prop :=
  p.ifacePeers x.1 = (if x.2 ≠ 0 then rnsdPeersCount x.1 t else 0) ∧
    p.ifaceNodes x.1 = if x.2 ≠ 0 then rnsdNodesCount x.1 t else 0

structure Current (ifaces : List (Name × Nat)) (t : Table) (p : Published) : Prop where
  peers : ∀ i, p.peers i = (rows t)[i]?
  nodes : ∀ k, p.nodes k = nodeRow t k
  count : p.count = (rows t).length
  ifaces : ∀ x ∈ ifaces, IfaceCurrent t p x

/-- What is published lies within what is noted as published. -/
structure Tracked (w : World) : Prop where
  peers : ∀ i, w.pubCount ≤ i → w.pub.peers i = none
  nodes : ∀ k, w.pubNodes k = false → w.pub.nodes k = none
  slots : ∀ k, RNSD_NODES_MAX ≤ k → w.pub.nodes k = none

/-- How far a pass has come. -/
def Done (ifaces : List (Name × Nat)) (w : World) : Phase → Prop
  | .idle => w.table.gen = w.pubGen → Current ifaces w.table w.pub
  | .compare _ => w.table.gen = w.pubGen → Current ifaces w.table w.pub
  | .count => True
  | .dropNode i used => (used = usedCount w.table ∧ w.pubCount = used) ∧
      ∀ k, k < i → nodeRow w.table k = none → w.pub.nodes k = none
  | .putNode i used => (used = usedCount w.table ∧ w.pubCount = used) ∧
      (∀ k, nodeRow w.table k = none → w.pub.nodes k = none) ∧ ∀ k, k < i → w.pub.nodes k = nodeRow w.table k
  | .putPeer i n used => (used = usedCount w.table ∧ w.pubCount = used) ∧
      (∀ k, w.pub.nodes k = nodeRow w.table k) ∧ n = (w.table.peers.take i).countP (·.used) ∧
      ∀ m, m < n → w.pub.peers m = (rows w.table)[m]?
  | .putIface rest => ∃ done, ifaces = done ++ rest ∧ Current done w.table w.pub
  | .putIfaceNodes x rest => ∃ done, ifaces = done ++ x :: rest ∧ Current done w.table w.pub ∧
      w.pub.ifacePeers x.1 = if x.2 ≠ 0 then rnsdPeersCount x.1 w.table else 0
  | .finish => Current ifaces w.table w.pub

structure Publishes (ifaces : List (Name × Nat)) (w : World) : Prop where
  sized : Sized w.table
  tracked : Tracked w
  done : Done ifaces w w.phase

theorem Current.same {t' : Table} {p : Published} (h : Current ifaces t p) (hs : Same t t') : Current ifaces t' p := by
  obtain ⟨allocated, peers, nodes, gen⟩ := t'
  obtain ⟨rfl, rfl⟩ := hs
  exact ⟨h.peers, h.nodes, h.count, h.ifaces⟩

theorem Done.same {t' : Table} {ph : Phase} (h : Done ifaces w ph) (hs : Same w.table t')
    (hg : t'.gen = w.table.gen) : Done ifaces { w with table := t' } ph := by
  have hcur : ∀ {xs}, Current xs w.table w.pub → Current xs t' w.pub := fun hc => hc.same hs
  obtain ⟨allocated, peers, nodes, gen⟩ := t'
  obtain ⟨rfl, rfl⟩ := hs
  obtain rfl : gen = w.table.gen := hg
  cases ph with
  | idle => exact fun hg => hcur (h hg)
  | compare wanted => exact fun hg => hcur (h hg)
  | putIface rest =>
    obtain ⟨done, he, hc⟩ := h
    exact ⟨done, he, hcur hc⟩
  | putIfaceNodes x rest =>
    obtain ⟨done, he, hc, hx⟩ := h
    exact ⟨done, he, hcur hc, hx⟩
  | finish => exact hcur h
  | _ => exact h

/-- A change of the table before the pass reads it. -/
theorem Current.before {t' : Table} {p : Published} {g : UInt32} (h : t.gen = g → Current ifaces t p) (hs : Sized t)
    (hm : Moves t t') (hwrap : t'.gen = g → t.gen = g) (hg : t'.gen = g) : Current ifaces t' p :=
  (h (hwrap hg)).same (hm.same hs (hg.trans (hwrap hg).symm))

-- ---------------------------------------------------------------------------
-- One step of a pass
-- ---------------------------------------------------------------------------

theorem length_rows : (rows t).length = usedCount t := by
  rw [rows, List.length_map, usedCount, List.countP_eq_length_filter]

/-- The next used row is the one that is published next. -/
theorem getElem?_rows {p : Peer} (hp : t.peers[i]? = some p) (hu : p.used) :
    (rows t)[(t.peers.take i).countP (·.used)]? = some (publishPeer p) := by
  obtain ⟨hi, rfl⟩ := List.getElem?_eq_some_iff.1 hp
  have hsplit : t.peers = t.peers.take i ++ t.peers[i] :: t.peers.drop (i + 1) := by simp
  have hrows : rows t = ((t.peers.take i).filter (·.used)).map publishPeer ++
      publishPeer t.peers[i] :: ((t.peers.drop (i + 1)).filter (·.used)).map publishPeer := by
    rw [rows]
    conv_lhs => rw [hsplit]
    rw [List.filter_append, List.filter_cons_of_pos hu, List.map_append, List.map_cons]
  rw [hrows, List.countP_eq_length_filter, List.getElem?_append_right (by simp)]
  simp

theorem countP_take_succ {p : Peer} (hp : t.peers[i]? = some p) : (t.peers.take (i + 1)).countP (·.used) =
    (t.peers.take i).countP (·.used) + if p.used then 1 else 0 := by
  rw [List.take_add_one, hp, Option.toList_some, List.countP_append, List.countP_singleton]

theorem nodeRow_none (hs : Sized t) (hk : RNSD_NODES_MAX ≤ k) : nodeRow t k = none := by
  rw [nodeRow, List.getElem?_eq_none (hs.2 ▸ hk), Option.bind_none]

theorem Publishes.dropNode (h : Publishes ifaces w) (hi : i < RNSD_NODES_MAX) (hph : w.phase = .dropNode i used) :
    Publishes ifaces { w.dropNode i with phase := .dropNode (i + 1) used } := by
  obtain ⟨hs, htr, hd⟩ := h
  rw [hph] at hd
  obtain ⟨hused, hnone⟩ := hd
  have hupto : ∀ p : Published, (nodeRow w.table i = none → p.nodes i = none) → (∀ k, k ≠ i → p.nodes k = w.pub.nodes k) →
      ∀ k, k < i + 1 → nodeRow w.table k = none → p.nodes k = none := by
    intro p hi hother k hk hrow
    rcases Nat.lt_succ_iff_lt_or_eq.1 hk with hlt | rfl
    · rw [hother k hlt.ne]
      exact hnone k hlt hrow
    · exact hi hrow
  unfold World.dropNode
  split
  · next hkeep =>
    refine ⟨hs, ⟨htr.peers, htr.nodes, htr.slots⟩, hused, hupto w.pub (fun hrow => ?_) fun _ _ => rfl⟩
    rw [hrow] at hkeep
    exact htr.nodes i (by simpa using hkeep)
  · refine ⟨hs, ⟨htr.peers, fun k hk => ?_, fun k hk => ?_⟩, hused, hupto _ (fun _ => ?_) fun k hk => ?_⟩
    · by_cases hki : k = i
      · subst hki
        exact Function.update_self ..
      · simp only [Function.update_of_ne hki] at hk ⊢
        exact htr.nodes k hk
    · simp only [Function.update_of_ne (hi.trans_le hk).ne']
      exact htr.slots k hk
    · exact Function.update_self ..
    · exact Function.update_of_ne hk ..

theorem Publishes.putNode (h : Publishes ifaces w) (hi : i < RNSD_NODES_MAX) (hph : w.phase = .putNode i used) :
    Publishes ifaces { w.putNode i with phase := .putNode (i + 1) used } := by
  obtain ⟨hs, htr, hd⟩ := h
  rw [hph] at hd
  obtain ⟨hused, hnone, hput⟩ := hd
  unfold World.putNode
  split
  · next hrow =>
    refine ⟨hs, ⟨htr.peers, htr.nodes, htr.slots⟩, hused, hnone, fun k hk => ?_⟩
    rcases Nat.lt_succ_iff_lt_or_eq.1 hk with hlt | rfl
    · exact hput k hlt
    · exact (hnone k hrow).trans hrow.symm
  · next row hrow =>
    refine ⟨hs, ⟨htr.peers, fun k hk => ?_, fun k hk => ?_⟩, hused, fun k hk => ?_, fun k hk => ?_⟩
    · have hki : k ≠ i := by
        rintro rfl
        simp at hk
      simp only [Function.update_of_ne hki] at hk ⊢
      exact htr.nodes k hk
    · simp only [Function.update_of_ne (hi.trans_le hk).ne']
      exact htr.slots k hk
    · have hki : k ≠ i := by
        rintro rfl
        exact absurd (hrow.symm.trans hk) nofun
      exact (Function.update_of_ne hki ..).trans (hnone k hk)
    · rcases Nat.lt_succ_iff_lt_or_eq.1 hk with hlt | rfl
      · exact (Function.update_of_ne hlt.ne ..).trans (hput k hlt)
      · exact (Function.update_self ..).trans hrow.symm

theorem Publishes.putPeer (h : Publishes ifaces w) (hph : w.phase = .putPeer i n used) :
    Publishes ifaces (w.advance ifaces) := by
  obtain ⟨hs, htr, hd⟩ := h
  rw [hph] at hd
  obtain ⟨⟨rfl, hcount⟩, hnodes, hn, hput⟩ := hd
  unfold World.advance
  simp only [hph]
  split
  · next hmore =>
    have hi : i < w.table.peers.length := hs.1 ▸ hmore.1
    have hp := List.getElem?_eq_getElem hi
    have hnext := countP_take_succ hp
    rw [hp]
    cases hu : w.table.peers[i].used with
    | false =>
      rw [Option.filter_some, if_neg (by simp [hu])]
      refine ⟨hs, ⟨htr.peers, htr.nodes, htr.slots⟩, ⟨rfl, hcount⟩, hnodes, ?_, hput⟩
      rw [hn, hnext, hu]
      rfl
    | true =>
      rw [Option.filter_some, if_pos hu]
      refine ⟨hs, ⟨fun m hm => ?_, htr.nodes, htr.slots⟩, ⟨rfl, hcount⟩, hnodes, ?_, fun m hm => ?_⟩
      · have hmn : m ≠ n := (hmore.2.trans_le (hcount ▸ hm)).ne'
        exact (Function.update_of_ne hmn ..).trans (htr.peers m hm)
      · rw [hn, hnext, hu]
        rfl
      · rcases Nat.lt_succ_iff_lt_or_eq.1 hm with hlt | rfl
        · exact (Function.update_of_ne hlt.ne ..).trans (hput m hlt)
        · refine (Function.update_self ..).trans ?_
          rw [hn]
          exact (getElem?_rows hp hu).symm
  · next hend =>
    -- all the used rows have been gone through
    have hall : n = usedCount w.table := by
      rcases not_and_or.1 hend with hi | hlt
      · rw [hn, List.take_of_length_le (hs.1 ▸ not_lt.1 hi)]
        rfl
      · refine le_antisymm ?_ (not_lt.1 hlt)
        rw [hn]
        exact (List.take_sublist _ _).countP_le
    refine ⟨hs, ⟨htr.peers, htr.nodes, htr.slots⟩, [], rfl, fun m => ?_, hnodes, hall.trans length_rows.symm, nofun⟩
    rcases Nat.lt_or_ge m n with hlt | hle
    · exact hput m hlt
    · refine (htr.peers m ?_).trans (List.getElem?_eq_none ?_).symm
      · rw [hcount, ← hall]
        exact hle
      · rw [length_rows, ← hall]
        exact hle

/-- The counts of an interface leave those of the others alone. -/
theorem IfaceCurrent.other {p p' : Published} {x y : Name × Nat} (h : IfaceCurrent t p y) (hne : y.1 ≠ x.1)
    (hpeers : ∀ name, name ≠ x.1 → p'.ifacePeers name = p.ifacePeers name)
    (hnodes : ∀ name, name ≠ x.1 → p'.ifaceNodes name = p.ifaceNodes name) : IfaceCurrent t p' y :=
  ⟨(hpeers _ hne).trans h.1, (hnodes _ hne).trans h.2⟩

theorem ne_of_nodup {done rest : List (Name × Nat)} {x y : Name × Nat} (hnd : ((done ++ x :: rest).map (·.1)).Nodup)
    (hy : y ∈ done) : y.1 ≠ x.1 := by
  rw [List.map_append, List.map_cons, List.nodup_append] at hnd
  exact hnd.2.2 y.1 (List.mem_map_of_mem hy) x.1 (by simp)

theorem Publishes.putIface {rest : List (Name × Nat)} (h : Publishes ifaces w) (hnd : (ifaces.map (·.1)).Nodup)
    (hph : w.phase = .putIface rest) : Publishes ifaces (w.advance ifaces) := by
  obtain ⟨hs, htr, hd⟩ := h
  rw [hph] at hd
  obtain ⟨done, rfl, hc⟩ := hd
  unfold World.advance
  simp only [hph]
  cases rest with
  | nil =>
    refine ⟨hs, ⟨htr.peers, htr.nodes, htr.slots⟩, ?_⟩
    rw [List.append_nil]
    exact hc
  | cons x rest =>
    refine ⟨hs, ⟨htr.peers, htr.nodes, htr.slots⟩, done, rfl, ⟨hc.peers, hc.nodes, hc.count, fun y hy => ?_⟩, ?_⟩
    · exact (hc.ifaces y hy).other (ne_of_nodup hnd hy) (fun name hne => Function.update_of_ne hne ..) fun _ _ => rfl
    · exact Function.update_self ..

theorem Publishes.putIfaceNodes {x : Name × Nat} {rest : List (Name × Nat)} (h : Publishes ifaces w)
    (hnd : (ifaces.map (·.1)).Nodup) (hph : w.phase = .putIfaceNodes x rest) : Publishes ifaces (w.advance ifaces) := by
  obtain ⟨hs, htr, hd⟩ := h
  rw [hph] at hd
  obtain ⟨done, rfl, hc, hx⟩ := hd
  unfold World.advance
  simp only [hph]
  refine ⟨hs, ⟨htr.peers, htr.nodes, htr.slots⟩, done ++ [x], by simp, hc.peers, hc.nodes, hc.count, fun y hy => ?_⟩
  rcases List.mem_append.1 hy with hy | hy
  · exact (hc.ifaces y hy).other (ne_of_nodup hnd hy) (fun _ _ => rfl) fun name hne => Function.update_of_ne hne ..
  · obtain rfl := List.mem_singleton.1 hy
    exact ⟨hx, Function.update_self ..⟩

theorem Publishes.advance (h : Publishes ifaces w) (hnd : (ifaces.map (·.1)).Nodup) :
    Publishes ifaces (w.advance ifaces) := by
  obtain ⟨hs, htr, hd⟩ := id h
  unfold World.advance
  cases hph : w.phase with
  | idle => exact h
  | compare wanted =>
    rw [hph] at hd
    dsimp only
    split
    · exact ⟨hs, ⟨htr.peers, htr.nodes, htr.slots⟩, hd⟩
    · exact ⟨hs, ⟨htr.peers, htr.nodes, htr.slots⟩, trivial⟩
  | count =>
    refine ⟨hs, ⟨fun i hi => ?_, htr.nodes, htr.slots⟩, ⟨rfl, rfl⟩, nofun⟩
    dsimp only
    split
    · rfl
    · next hn => exact htr.peers i (not_lt.1 fun hlt => hn ⟨hi, hlt⟩)
  | dropNode i used =>
    dsimp only
    split
    · next hi => exact h.dropNode hi hph
    · next hi =>
      rw [hph] at hd
      obtain ⟨hused, hnone⟩ := hd
      refine ⟨hs, ⟨htr.peers, htr.nodes, htr.slots⟩, hused, fun k hrow => ?_, nofun⟩
      rcases Nat.lt_or_ge k RNSD_NODES_MAX with hk | hk
      · exact hnone k (hk.trans_le (not_lt.1 hi)) hrow
      · exact htr.slots k hk
  | putNode i used =>
    dsimp only
    split
    · next hi => exact h.putNode hi hph
    · next hi =>
      rw [hph] at hd
      obtain ⟨hused, -, hput⟩ := hd
      refine ⟨hs, ⟨htr.peers, htr.nodes, htr.slots⟩, hused, fun k => ?_, rfl, nofun⟩
      rcases Nat.lt_or_ge k RNSD_NODES_MAX with hk | hk
      · exact hput k (hk.trans_le (not_lt.1 hi))
      · exact (htr.slots k hk).trans (nodeRow_none hs hk).symm
  | putPeer i n used => simpa only [World.advance, hph] using h.putPeer hph
  | putIface rest => simpa only [World.advance, hph] using h.putIface hnd hph
  | putIfaceNodes x rest => simpa only [World.advance, hph] using h.putIfaceNodes hnd hph
  | finish =>
    rw [hph] at hd
    exact ⟨hs, ⟨htr.peers, htr.nodes, htr.slots⟩, fun _ => hd⟩

-- ---------------------------------------------------------------------------
-- Runs
-- ---------------------------------------------------------------------------

/-- The pass has begun to read the table, and has not noted a generation yet. -/
def Phase.reading : Phase → Bool
  | .idle | .compare _ | .count => false
  | _ => true

/-- Nobody changes the table under a pass that reads it, nor has its generation gone all the way
round since the last one that was published. -/
def Quiet (labels : Labels) (w : World) : Event → Prop
  | .other op =>
    if w.phase.reading then (w.table.step labels op).gen = w.table.gen
    else (w.table.step labels op).gen = w.pubGen → w.table.gen = w.pubGen
  | .tick ttl now _ => (age ttl now w.table).gen = w.pubGen → w.table.gen = w.pubGen
  | .advance => True

instance (labels : Labels) (w : World) : ∀ e, Decidable (Quiet labels w e)
  | .other op => inferInstanceAs (Decidable (if w.phase.reading then (w.table.step labels op).gen = w.table.gen
      else (w.table.step labels op).gen = w.pubGen → w.table.gen = w.pubGen))
  | .tick ttl now _ => inferInstanceAs (Decidable ((age ttl now w.table).gen = w.pubGen → w.table.gen = w.pubGen))
  | .advance => .isTrue trivial

theorem Publishes.step (h : Publishes ifaces w) (hnd : (ifaces.map (·.1)).Nodup) (hq : Quiet labels w e) :
    Publishes ifaces (w.step labels ifaces e) := by
  cases e with
  | other op =>
    have hm : Moves w.table (w.table.step labels op) := moves_step
    refine ⟨hm.sized_right h.sized, ⟨h.tracked.peers, h.tracked.nodes, h.tracked.slots⟩, ?_⟩
    have hd := h.done
    simp only [Quiet] at hq
    split at hq
    · exact hd.same (hm.same h.sized hq) hq
    · next hread =>
      cases hph : w.phase with
      | idle =>
        rw [hph] at hd
        simp only [World.step, hph]
        exact Current.before hd h.sized hm hq
      | compare wanted =>
        rw [hph] at hd
        simp only [World.step, hph]
        exact Current.before hd h.sized hm hq
      | count =>
        simp only [World.step, hph]
        trivial
      | _ =>
        rw [hph] at hread
        exact absurd rfl hread
  | tick ttl now wanted =>
    unfold World.step
    dsimp only
    split
    · next hidle =>
      have hm : Moves w.table (age ttl now w.table) := moves_age
      have hd := h.done
      rw [hidle] at hd
      exact ⟨hm.sized_right h.sized, ⟨h.tracked.peers, h.tracked.nodes, h.tracked.slots⟩,
        Current.before hd h.sized hm hq⟩
    · exact h
  | advance => exact h.advance hnd

theorem publishes_empty (ifaces : List (Name × Nat)) : Publishes ifaces {} := by
  refine ⟨⟨List.length_replicate, List.length_replicate⟩, ⟨fun _ _ => rfl, fun _ _ => rfl, fun _ _ => rfl⟩, fun _ => ?_⟩
  refine ⟨fun i => rfl, fun k => ?_, rfl, fun x _ => ⟨?_, ?_⟩⟩
  · rcases Nat.lt_or_ge k RNSD_NODES_MAX with hk | hk
    · have hget : (List.replicate RNSD_NODES_MAX ({} : Node))[k]? = some {} := List.getElem?_replicate_of_lt hk
      simp only [nodeRow, hget]
      rfl
    · exact (nodeRow_none ⟨List.length_replicate, List.length_replicate⟩ hk).symm
  · split
    · refine (List.countP_eq_zero.2 fun p hp => ?_).symm
      rw [List.eq_of_mem_replicate hp]
      exact Bool.false_ne_true
    · rfl
  · split
    · refine (List.countP_eq_zero.2 fun n hn => ?_).symm
      rw [List.eq_of_mem_replicate hn]
      exact Bool.false_ne_true
    · rfl

/-- With no pass under way and the generations equal, what is published is what the tables hold. -/
def UpToDate (ifaces : List (Name × Nat)) (w : World) : Prop :=
  w.phase = .idle → w.table.gen = w.pubGen → Current ifaces w.table w.pub

theorem no_update_lost (hnd : (ifaces.map (·.1)).Nodup)
    (hq : Guarded (World.step labels ifaces) (Quiet labels) {} events) :
    Throughout (World.step labels ifaces) (UpToDate ifaces) {} events := by
  refine (hq.throughout (fun _ _ h hq => h.step hnd hq) (publishes_empty ifaces)).mono fun w h hidle => ?_
  have hd := h.done
  rw [hidle] at hd
  exact hd

/-- One radio, one node on it, and a pass over the tables. -/
def radioOnly : List (Name × Nat) := [(radio, 1)]

def onePass : List Event :=
  [.other (.declare radio (some [1]) ['a'] true), .other (heardVia [1]), .tick 86400 2000 true] ++ .replicate 80 .advance

theorem no_update_lost_onePass : Current radioOnly (run (World.step unlabelled radioOnly) {} onePass).table
    (run (World.step unlabelled radioOnly) {} onePass).pub := by
  have hq : Guarded (World.step unlabelled radioOnly) (Quiet unlabelled) {} onePass := by decide +kernel
  have hup : UpToDate radioOnly (run (World.step unlabelled radioOnly) {} onePass) :=
    no_update_lost (by decide) hq onePass List.prefix_rfl
  exact hup (by decide +kernel) (by decide +kernel)

/-- A label that changes once its row has been written: the pass ends, notes the new generation, and
the old label stays. -/
theorem update_lost : ¬ Throughout (World.step unlabelled radioOnly) (UpToDate radioOnly) {}
    ([.other (.declare radio (some [1]) ['a'] true), .tick 86400 2000 true] ++ .replicate 36 .advance ++
      .other (.declare radio (some [1]) ['b'] true) :: .replicate 50 .advance) := by
  intro h
  exact absurd ((h.last (by decide +kernel) (by decide +kernel)).nodes 0) (by decide +kernel)

end MicroReticulum.Peers
