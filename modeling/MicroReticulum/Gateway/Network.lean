import MicroReticulum.Gateway.Rows
import MicroReticulum.Lib.Hops
import MicroReticulum.Lib.Runs

/-!
# Gateway distances in a network

Nodes that hear each other deliver their distances, and sweep their tables, in
any order. Each round in which everything is delivered and swept makes the
distances right for one hop more.
-/

namespace MicroReticulum.Gateway

open Lib Lib.Runs Lib.Hops

/-- A node, and its uptime when the network's clock starts. -/
structure Site where
  ident : Ident
  settings : Settings := {}
  since : Nat := 0

structure Net (V : Type*) where
  clock : Nat := 0
  node : V → State

inductive NetOp (V : Type*) where
  | wait (dt : Nat)
  | deliver (u v : V)
  | sweep (v : V)
  deriving DecidableEq

namespace Net

variable {V : Type*} [DecidableEq V]

def now (site : V → Site) (n : Net V) (v : V) : Nat := (site v).since + n.clock

def step (site : V → Site) (n : Net V) : NetOp V → Net V
  | .wait dt => { n with clock := n.clock + dt }
  | .deliver u v =>
    let noted := rnsdGatewayNote (site v).settings (n.now site v) (n.node v) (site u).ident
      (rnsdGatewayDistance (n.node u))
    { n with node := Function.update n.node v noted.1 }
  | .sweep v => { n with node := Function.update n.node v (rnsdGatewayTick (site v).settings (n.now site v) (n.node v)) }

end Net

/-- Nodes of different identities, none of which hears more than its table holds; no operator has
said anything of a neighbour. -/
structure Community (V : Type*) where
  graph : SimpleGraph V
  site : V → Site
  distinct : Function.Injective fun v => (site v).ident
  unnamed : ∀ v id, (site v).settings.peer id = -1
  small : ∀ v, (graph.neighborSet v).Finite ∧ (graph.neighborSet v).ncard ≤ RNSD_GW_NBRS_MAX

variable {V : Type*} {N : Community V} {S : Set V} {n : Net V} {u v w : V} {op : NetOp V} {ops : List (NetOp V)}
  {T lo limit r : Nat} {c : Nbr} {s s' : State} {g : Settings}

def horizon (N : Community V) (v : V) : Nat := horizonS (N.site v).settings

-- ---------------------------------------------------------------------------
-- Tables
-- ---------------------------------------------------------------------------

/-- Of which node a row is. -/
def Of (N : Community V) (u : V) (c : Nbr) : Prop := c.used ∧ c.id = (N.site u).ident

/-- The table of a node, as the code keeps it: a row for each identity, nothing known of wired
interfaces, and rows of others than neighbours past the horizon at time `T`. -/
structure Kept (N : Community V) (S : Set V) (T : Nat) (v : V) (s : State) : Prop where
  length : s.nbrs.length = RNSD_GW_NBRS_MAX
  distinct : Distinct s.nbrs
  plain : ∀ c ∈ s.nbrs, c.used → c.discoveryGw = false
  gateway : s.uplink ∨ (N.site v).settings.self ↔ v ∈ S
  past : ∀ c ∈ s.nbrs, c.used → (∃ u, N.graph.Adj u v ∧ Of N u c) ∨ c.heard + horizon N v < (N.site v).since + T

theorem Kept.ne_nil (h : Kept N S T v s) : s.nbrs ≠ [] := by
  rintro he
  have hlen := h.length
  rw [he] at hlen
  cases hlen

theorem effectiveOf_plain (v : V) (hc : c.discoveryGw = false) : effectiveOf (N.site v).settings c = c.declared := by
  simp [effectiveOf, N.unnamed, hc]

/-- Where used rows of a table come from: from before, or from the neighbour that declares. -/
theorem Noted.mem {now d : Nat} {id : Ident} (h : Noted g now s id d s') (hc : c ∈ s'.nbrs) (hu : c.used) :
    c ∈ s.nbrs ∨ c.id = id ∧ c.declared = d ∧ c.heard = now ∧ (c.discoveryGw → ∃ a ∈ s.nbrs, a.used ∧ a.discoveryGw) := by
  cases h with
  | @stamped i n hn hun hid hd hs =>
    rw [hs] at hc
    rcases Slots.mem_set_cases hc with rfl | hc
    · exact .inr ⟨hid, hd, rfl, fun hg => ⟨n, List.mem_of_getElem? hn, hun, hg⟩⟩
    · exact .inl hc
  | @written i n hi hun hid hn hw hs =>
    rw [hs] at hc
    rcases Slots.mem_set_cases (mem_expire hc hu).1 with rfl | hc
    · refine .inr ⟨hid, rfl, rfl, fun hg => ?_⟩
      rcases hn with hn | ⟨-, rfl⟩
      · exact ⟨n, List.mem_of_getElem? hn, hun, hg⟩
      · cases hg
    · exact .inl hc

theorem Noted.length {now d : Nat} {id : Ident} (h : Noted g now s id d s') : s'.nbrs.length = s.nbrs.length := by
  cases h with
  | stamped hn hu hid hd hs => simp [hs]
  | written hi hu hid hn hw hs => simp [hs]

/-- The row of the neighbour that declares. -/
theorem Noted.row {now d : Nat} {id : Ident} (h : Noted g now s id d s') :
    ∃ c ∈ s'.nbrs, c.used ∧ c.id = id ∧ c.heard = now ∧ c.declared = d := by
  cases h with
  | @stamped i n hn hun hid hd hs =>
    refine ⟨{ n with heard := now }, ?_, hun, hid, rfl, hd⟩
    rw [hs]
    exact List.mem_of_getElem? (List.getElem?_set_self (List.getElem?_eq_some_iff.1 hn).1)
  | @written i n hi hun hid hn hw hs =>
    refine ⟨{ n with declared := d, heard := now }, ?_, hun, hid, rfl, rfl⟩
    rw [hs]
    refine mem_expire_of_young (List.mem_of_getElem? (List.getElem?_set_self hi)) ?_
    simp

/-- A row of another that is not old, and not the oldest of a full table, stays. -/
theorem Noted.stays {now d : Nat} {id : Ident} (h : Noted g now s id d s') (hc : c ∈ s.nbrs) (hu : c.used)
    (hne : c.id ≠ id) (hage : now - c.heard ≤ horizonS g)
    (hold : find id s.nbrs = none → (∀ b ∈ s.nbrs, b.used) → ∃ b ∈ s.nbrs, b.heard < c.heard) : c ∈ s'.nbrs := by
  obtain ⟨j, hj⟩ := List.mem_iff_getElem?.1 hc
  cases h with
  | @stamped i n hn hun hid hd hs =>
    have hij : i ≠ j := by
      rintro rfl
      cases hn.symm.trans hj
      exact hne hid
    rw [hs]
    exact List.mem_of_getElem? ((List.getElem?_set_ne hij).trans hj)
  | @written i n hi hun hid hn hw hs =>
    have hij : i ≠ j := by
      rintro rfl
      rcases hw c hj hu with he | ⟨hnone, hfull, hmin⟩
      · exact hne he
      · obtain ⟨b, hb, hlt⟩ := hold hnone hfull
        exact absurd (hmin b hb) (not_le.2 hlt)
    rw [hs]
    exact mem_expire_of_young (List.mem_of_getElem? ((List.getElem?_set_ne hij).trans hj)) hage

theorem Noted.distinct {now d : Nat} {id : Ident} (h : Noted g now s id d s') (hd : Distinct s.nbrs) : Distinct s'.nbrs := by
  cases h with
  | @stamped i n hn hun hid hd' hs =>
    rw [hs]
    exact Slots.Distinct.set_same hd hn hun fun _ => rfl
  | @written i n hi hu hid hn hw hs =>
    rw [hs]
    apply Distinct.expire
    rcases hn with hn | ⟨hnone, rfl⟩
    · exact Slots.Distinct.set_same hd hn hu fun _ => rfl
    · exact Slots.Distinct.set_new hd hnone

theorem Noted.uplink {now d : Nat} {id : Ident} (h : Noted g now s id d s') : s'.uplink = s.uplink := by
  cases h with
  | stamped _ _ _ _ _ _ hup => exact hup
  | written _ _ _ _ _ _ _ hup => exact hup

/-- A full table without a neighbour's row has a row to give away. -/
theorem Kept.foreign (h : Kept N S T v s) (hadj : N.graph.Adj u v) (hnone : find (N.site u).ident s.nbrs = none)
    (hfull : ∀ b ∈ s.nbrs, b.used) : ∃ b ∈ s.nbrs, b.heard + horizon N v < (N.site v).since + T := by
  by_contra! hno
  have hids : ∀ b ∈ s.nbrs, ∃ w ∈ N.graph.neighborSet v \ {u}, (N.site w).ident = b.id := by
    intro b hb
    rcases h.past b hb (hfull b hb) with ⟨w, hw, -, hid⟩ | hold
    · refine ⟨w, ⟨hw.symm, ?_⟩, hid.symm⟩
      rintro rfl
      exact Slots.find_eq_none.1 hnone b hb (hfull b hb) hid
    · exact absurd hold (not_lt.2 (hno b hb))
  have hnodup : (s.nbrs.map (·.id)).Nodup := by
    have hd := Slots.distinct_iff_nodup.1 h.distinct
    rwa [List.filter_eq_self.2 hfull] at hd
  have hcard : (s.nbrs.map (·.id)).toFinset.card = RNSD_GW_NBRS_MAX := by
    rw [List.toFinset_card_of_nodup hnodup, List.length_map, h.length]
  have hsub : ((s.nbrs.map (·.id)).toFinset : Set Ident) ⊆
      (fun w => (N.site w).ident) '' (N.graph.neighborSet v \ {u}) := by
    intro id hid
    obtain ⟨b, hb, rfl⟩ := List.mem_map.1 (List.mem_toFinset.1 hid)
    exact hids b hb
  obtain ⟨hfin, hsmall⟩ := N.small v
  have hle := Set.ncard_le_ncard hsub (hfin.diff.image _)
  rw [Set.ncard_coe_finset, hcard] at hle
  have himage := Set.ncard_image_le (f := fun w => (N.site w).ident) (hfin.diff (t := {u}))
  have hlt := Set.ncard_diff_singleton_lt_of_mem (a := u) (s := N.graph.neighborSet v) hadj.symm hfin
  exact absurd (hle.trans himage) (not_le.2 (hlt.trans_le hsmall))

-- ---------------------------------------------------------------------------
-- What an operation does to one node
-- ---------------------------------------------------------------------------

variable [DecidableEq V]

/-- Nodes are heard by their neighbours only. -/
def Neighbourly (N : Community V) (op : NetOp V) : Prop := ∀ u v, op = .deliver u v → N.graph.Adj u v

inductive Moved (N : Community V) (n : Net V) (v : V) : NetOp V → State → Prop
  | same {op : NetOp V} (hne : ∀ u, op ≠ .deliver u v) (hsweep : op ≠ .sweep v) : Moved N n v op (n.node v)
  | heard {u : V} {s' : State} (h : Noted (N.site v).settings (n.now N.site v) (n.node v) (N.site u).ident
      (min (rnsdGatewayDistance (n.node u)) RNSD_GW_NONE) s') : Moved N n v (.deliver u v) s'
  | swept : Moved N n v (.sweep v) (recompute (N.site v).settings (n.now N.site v) (n.node v))

theorem moved (hne : (n.node v).nbrs ≠ []) : Moved N n v op ((Net.step N.site n op).node v) := by
  cases op with
  | wait dt => exact .same nofun nofun
  | deliver u w =>
    by_cases h : v = w
    · subst h
      simp only [Net.step, Function.update_self]
      exact .heard (noted _ _ hne _ _)
    · simp only [Net.step, Function.update_of_ne h]
      refine .same ?_ nofun
      rintro u' he
      cases he
      exact h rfl
  | sweep w =>
    by_cases h : v = w
    · subst h
      simp only [Net.step, Function.update_self]
      exact .swept
    · simp only [Net.step, Function.update_of_ne h]
      refine .same nofun ?_
      rintro he
      cases he
      exact h rfl

theorem Kept.step (h : Kept N S T v (n.node v)) (hop : Neighbourly N op) :
    Kept N S T v ((Net.step N.site n op).node v) := by
  generalize hs : (Net.step N.site n op).node v = s'
  have hm : Moved N n v op s' := hs ▸ moved h.ne_nil
  clear hs
  cases hm with
  | same => exact h
  | @heard u _ hn =>
    refine ⟨hn.length.trans h.length, hn.distinct h.distinct, ?_, ?_, ?_⟩
    · intro c hc hu
      rcases hn.mem hc hu with hold | ⟨-, -, -, hg⟩
      · exact h.plain c hold hu
      · by_contra hgw
        obtain ⟨a, ha, hua, hga⟩ := hg (by simpa using hgw)
        rw [h.plain a ha hua] at hga
        cases hga
    · rw [hn.uplink]
      exact h.gateway
    · intro c hc hu
      rcases hn.mem hc hu with hold | ⟨hid, -⟩
      · exact h.past c hold hu
      · exact .inl ⟨u, hop u v rfl, hu, hid⟩
  | swept =>
    refine ⟨?_, ?_, ?_, ?_, ?_⟩
    · rw [nbrs_recompute, List.length_map]
      exact h.length
    · rw [nbrs_recompute]
      exact h.distinct.expire
    · intro c hc hu
      rw [nbrs_recompute] at hc
      exact h.plain c (mem_expire hc hu).1 hu
    · rw [uplink_recompute]
      exact h.gateway
    · intro c hc hu
      rw [nbrs_recompute] at hc
      exact h.past c (mem_expire hc hu).1 hu

end MicroReticulum.Gateway
