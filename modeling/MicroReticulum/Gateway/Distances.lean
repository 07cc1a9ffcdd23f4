import MicroReticulum.Gateway.Rounds
import Mathlib.Combinatorics.SimpleGraph.Hasse

/-!
# The distances of a network

Rounds settle every node's distance, and no distance is ever below the true one
in a network that starts with empty tables. A round may not be as long as a row
lasts: a row can then run out between two rounds that both brought it.
-/

namespace MicroReticulum.Gateway

open Lib Lib.Runs Lib.Hops

variable {V : Type*} [DecidableEq V] {N : Community V} {S : Set V} {n : Net V} {v : V} {op : NetOp V}
  {ops : List (NetOp V)} {s s' : State}

-- ---------------------------------------------------------------------------
-- From empty tables
-- ---------------------------------------------------------------------------

/-- A node that has just started. -/
structure Fresh (N : Community V) (S : Set V) (v : V) (s : State) : Prop where
  nbrs : s.nbrs = .replicate RNSD_GW_NBRS_MAX {}
  own : s.own = RNSD_GW_NONE
  gateway : s.uplink ∨ (N.site v).settings.self ↔ v ∈ S

/-- Nothing the node has, or takes for its own, is below the true distance. -/
structure NotBelow (N : Community V) (S : Set V) (v : V) (s : State) : Prop where
  kept : Kept N S 0 v s
  rows : ∀ c ∈ s.nbrs, c.used → ∃ u, N.graph.Adj u v ∧ AtLeast N.graph S RNSD_GW_NONE u c.declared
  own : AtLeast N.graph S RNSD_GW_NONE v s.own

omit [DecidableEq V] in
theorem Fresh.notBelow (h : Fresh N S v s) : NotBelow N S v s := by
  have hunused : ∀ c ∈ s.nbrs, ¬ c.used := by
    intro c hc
    rw [h.nbrs] at hc
    rw [List.eq_of_mem_replicate hc]
    simp
  refine ⟨⟨?_, ?_, ?_, h.gateway, ?_⟩, ?_, ?_⟩
  · rw [h.nbrs, List.length_replicate]
  · intro i j a b ha _ hu
    exact absurd hu (hunused a (List.mem_of_getElem? ha))
  · exact fun c hc hu => absurd hu (hunused c hc)
  · exact fun c hc hu => absurd hu (hunused c hc)
  · exact fun c hc hu => absurd hu (hunused c hc)
  · rw [h.own]
    exact atLeast_of_le le_rfl

omit [DecidableEq V] in
theorem NotBelow.computed (hk : Kept N S 0 v s)
    (hrows : ∀ c ∈ s.nbrs, c.used → ∃ u, N.graph.Adj u v ∧ AtLeast N.graph S RNSD_GW_NONE u c.declared)
    (ho : s.own = ownOf (N.site v).settings s s.nbrs) : NotBelow N S v s := by
  refine ⟨hk, hrows, ?_⟩
  rw [ho]
  refine ownOf_atLeast (r := 7) hk (by decide) fun c hc hu => ?_
  obtain ⟨u, hadj, hleast⟩ := hrows c hc hu
  exact ⟨u, hadj, hleast.mono (by decide)⟩

theorem NotBelow.step (h : ∀ v, NotBelow N S v (n.node v)) (hop : Neighbourly N op) (v : V) :
    NotBelow N S v ((Net.step N.site n op).node v) := by
  have hk := (h v).kept.step hop
  generalize hs : (Net.step N.site n op).node v = s' at hk
  have hm : Moved N n v op s' := hs ▸ moved (h v).kept.ne_nil
  clear hs
  cases hm with
  | same => exact h v
  | @heard u _ hn =>
    have hleast : AtLeast N.graph S RNSD_GW_NONE u (min (n.node u).own RNSD_GW_NONE) := by
      rcases min_choice (n.node u).own RNSD_GW_NONE with he | he
      · rw [he]
        exact (h u).own
      · rw [he]
        exact atLeast_of_le le_rfl
    have hrows : ∀ c ∈ s'.nbrs, c.used →
        ∃ u, N.graph.Adj u v ∧ AtLeast N.graph S RNSD_GW_NONE u c.declared := by
      intro c hc hu
      rcases hn.mem hc hu with hold | ⟨-, hd, -⟩
      · exact (h v).rows c hold hu
      · exact ⟨u, hop u v rfl, hd ▸ hleast⟩
    cases hn with
    | stamped _ _ _ _ _ hown => exact ⟨hk, hrows, hown ▸ (h v).own⟩
    | written _ _ _ _ _ _ hown => exact .computed hk hrows hown
  | swept =>
    refine .computed hk (fun c hc hu => ?_) own_recompute
    rw [nbrs_recompute] at hc
    exact (h v).rows c (mem_expire hc hu).1 hu

theorem never_below (hfresh : ∀ v, Fresh N S v (n.node v)) (hall : ∀ op ∈ ops, Neighbourly N op) (v : V) :
    min (hops N.graph S v) RNSD_GW_NONE ≤ rnsdGatewayDistance ((run (Net.step N.site) n ops).node v) := by
  have hg := guarded_during (n := n) hall le_rfl le_rfl
  have hstep : ∀ (m : Net V) (op : NetOp V), (∀ v, NotBelow N S v (m.node v)) →
      During N n.clock (duration ops) m op → ∀ v, NotBelow N S v ((Net.step N.site m op).node v) :=
    fun m op h hop => NotBelow.step h hop.1
  exact (hg.invariant hstep (fun v => (hfresh v).notBelow) v).own

-- ---------------------------------------------------------------------------
-- Both together
-- ---------------------------------------------------------------------------

/-- A gateway, a node that hears it, and one that hears that. -/
def row : Community (Fin 3) where
  graph := SimpleGraph.pathGraph 3
  site v := { ident := .replicate 16 (UInt8.ofNat v) }
  distinct := by decide
  unnamed _ _ := rfl
  small v := by
    refine ⟨Set.toFinite _, (Set.ncard_le_card _).trans ?_⟩
    simp [RNSD_GW_NBRS_MAX]

def started : Net (Fin 3) where
  node v := { uplink := v = 0 }

/-- All that is said in a round, some time into it. -/
def turn (early late : Nat) : List (NetOp (Fin 3)) :=
  [.wait early, .sweep 0, .sweep 1, .deliver 1 2, .deliver 1 0, .deliver 0 1, .deliver 2 1, .sweep 2, .wait late]

theorem started_fresh (v : Fin 3) : Fresh row {0} v (started.node v) := ⟨rfl, rfl, by simp [started, row]⟩

theorem turn_round (early late : Nat) : Round row (turn early late) := by
  refine ⟨fun op hop u v he => ?_, fun u v hadj => ?_, fun v => ?_⟩
  · subst he
    simp only [turn, List.mem_cons, NetOp.deliver.injEq, reduceCtorEq, List.not_mem_nil, false_or, or_false] at hop
    refine SimpleGraph.pathGraph_adj.2 ?_
    rcases hop with ⟨rfl, rfl⟩ | ⟨rfl, rfl⟩ | ⟨rfl, rfl⟩ | ⟨rfl, rfl⟩ <;> decide
  · have hadj := SimpleGraph.pathGraph_adj.1 hadj
    fin_cases u <;> fin_cases v <;> simp_all [turn]
  · fin_cases v <;> simp [turn]

end MicroReticulum.Gateway
