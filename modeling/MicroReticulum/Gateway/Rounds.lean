import MicroReticulum.Gateway.Network

/-!
# Rounds of declarations

In a round every node declares its distance to all its neighbours and sweeps its
table, in any order. The first round rids the tables of what was there before;
each later one makes the distances right for one hop more.
-/

namespace MicroReticulum.Gateway

open Lib Lib.Runs Lib.Hops

variable {V : Type*} [DecidableEq V] {N : Community V} {S : Set V} {n : Net V} {u v w : V} {op : NetOp V}
  {ops : List (NetOp V)} {rounds : List (List (NetOp V))} {T lo r : Nat} {c : Nbr} {s s' : State}

-- ---------------------------------------------------------------------------
-- What a node knows
-- ---------------------------------------------------------------------------

/-- Both bounds on what is taken for the distance of a node. -/
def Near (N : Community V) (S : Set V) (r : Nat) (v : V) (d : Nat) : Prop :=
  AtLeast N.graph S r v d ∧ AtMost N.graph S r v d

/-- The row of a neighbour, heard since `lo`, and right as far as `r` hops go. -/
def Known (N : Community V) (S : Set V) (r lo : Nat) (u v : V) (s : State) : Prop :=
  ∃ c ∈ s.nbrs, Of N u c ∧ (N.site v).since + lo ≤ c.heard ∧ Near N S r u c.declared

/-- The rows are those of neighbours only, and the node has computed its own distance from them. -/
structure Swept (N : Community V) (v : V) (s : State) : Prop where
  clean : ∀ c ∈ s.nbrs, c.used → ∃ u, N.graph.Adj u v ∧ Of N u c
  own : s.own = ownOf (N.site v).settings s s.nbrs

theorem Near.mono {d : Nat} (h : Near N S r v d) {r' : Nat} (hr : r' ≤ r) : Near N S r' v d :=
  ⟨h.1.mono hr, h.2.mono hr⟩

theorem Known.mono (h : Known N S r lo u v s) {r' : Nat} (hr : r' ≤ r) : Known N S r' lo u v s := by
  obtain ⟨c, hc, hof, hh, hnear⟩ := h
  exact ⟨c, hc, hof, hh, hnear.mono hr⟩

theorem ownOf_le {g : Settings} {nbrs : List Nbr} : ownOf g s nbrs ≤ RNSD_GW_NONE := by
  unfold ownOf
  split
  · exact Nat.zero_le _
  · exact foldl_nearer_le

/-- A neighbour's row is known, and the operation leaves it or brings it again. -/
theorem Known.step (hk : Kept N S T v (n.node v)) (h : Known N S r lo u v (n.node v)) (hop : Neighbourly N op)
    (hT : T ≤ lo) (hlo : lo ≤ n.clock) (hage : n.clock ≤ lo + horizon N v)
    (hd : op = .deliver u v → Near N S r u (min (n.node u).own RNSD_GW_NONE)) :
    Known N S r lo u v ((Net.step N.site n op).node v) := by
  obtain ⟨c, hc, ⟨hu, hid⟩, hheard, hnear⟩ := h
  have hyoung : n.now N.site v - c.heard ≤ horizon N v := by
    unfold Net.now
    omega
  generalize hs : (Net.step N.site n op).node v = s'
  have hm : Moved N n v op s' := hs ▸ moved hk.ne_nil
  clear hs
  cases hm with
  | same => exact ⟨c, hc, ⟨hu, hid⟩, hheard, hnear⟩
  | @heard w _ hn =>
    by_cases hw : w = u
    · subst hw
      obtain ⟨c', hc', hu', hid', hh', hd'⟩ := hn.row
      refine ⟨c', hc', ⟨hu', hid'⟩, ?_, ?_⟩
      · rw [hh']
        exact Nat.add_le_add_left hlo _
      · rw [hd']
        exact hd rfl
    · refine ⟨c, hn.stays hc hu ?_ hyoung ?_, ⟨hu, hid⟩, hheard, hnear⟩
      · rw [hid]
        exact fun he => hw (N.distinct he).symm
      · intro hnone hfull
        obtain ⟨b, hb, hold⟩ := hk.foreign (hop w v rfl) hnone hfull
        exact ⟨b, hb, by omega⟩
  | swept =>
    refine ⟨c, ?_, ⟨hu, hid⟩, hheard, hnear⟩
    rw [nbrs_recompute]
    exact mem_expire_of_young hc hyoung

theorem Known.start (hk : Kept N S T v (n.node v)) (hlo : lo ≤ n.clock)
    (hd : Near N S r u (min (n.node u).own RNSD_GW_NONE)) :
    Known N S r lo u v ((Net.step N.site n (.deliver u v)).node v) := by
  generalize hs : (Net.step N.site n (.deliver u v)).node v = s'
  have hm : Moved N n v (.deliver u v) s' := hs ▸ moved hk.ne_nil
  clear hs
  cases hm with
  | same hne => exact absurd rfl (hne u)
  | heard hn =>
    obtain ⟨c, hc, hu, hid, hh, hd'⟩ := hn.row
    refine ⟨c, hc, ⟨hu, hid⟩, ?_, ?_⟩
    · rw [hh]
      exact Nat.add_le_add_left hlo _
    · rw [hd']
      exact hd

theorem Noted.own {g : Settings} {now d : Nat} {id : Ident} (h : Noted g now s id d s') (ho : s.own = ownOf g s s.nbrs) :
    s'.own = ownOf g s' s'.nbrs := by
  cases h with
  | @stamped i n hn hu hid hd hs hown hup =>
    have hfold := @foldl_nearer_set g s.nbrs RNSD_GW_NONE i n { n with heard := now } hn fun _ => rfl
    rw [hown, ho, hs]
    simp only [ownOf, hup, hfold]
  | written _ _ _ _ _ _ hown => exact hown

theorem Swept.start (hk : Kept N S T v (n.node v)) (hT : T ≤ n.clock) :
    Swept N v ((Net.step N.site n (.sweep v)).node v) := by
  simp only [Net.step, Function.update_self, rnsdGatewayTick]
  refine ⟨fun c hc hu => ?_, own_recompute⟩
  rw [nbrs_recompute] at hc
  obtain ⟨hc, hage⟩ := mem_expire hc hu
  rcases hk.past c hc hu with hn | hpast
  · exact hn
  · have hold : horizon N v < n.now N.site v - c.heard := by
      unfold Net.now
      omega
    exact absurd hage (not_le.2 hold)

theorem Swept.step (hk : Kept N S T v (n.node v)) (h : Swept N v (n.node v)) (hop : Neighbourly N op) :
    Swept N v ((Net.step N.site n op).node v) := by
  generalize hs : (Net.step N.site n op).node v = s'
  have hm : Moved N n v op s' := hs ▸ moved hk.ne_nil
  clear hs
  cases hm with
  | same => exact h
  | @heard u _ hn =>
    refine ⟨fun c hc hu => ?_, hn.own h.own⟩
    rcases hn.mem hc hu with hold | ⟨hid, -⟩
    · exact h.clean c hold hu
    · exact ⟨u, hop u v rfl, hu, hid⟩
  | swept =>
    refine ⟨fun c hc hu => ?_, own_recompute⟩
    rw [nbrs_recompute] at hc
    exact h.clean c (mem_expire hc hu).1 hu

-- ---------------------------------------------------------------------------
-- One hop more
-- ---------------------------------------------------------------------------

/-- What holds after a round: tables of neighbours' rows only, all heard since `lo`, and right as far
as `r` hops go. -/
structure Settled (N : Community V) (S : Set V) (T lo r : Nat) (n : Net V) : Prop where
  kept : ∀ v, Kept N S T v (n.node v)
  swept : ∀ v, Swept N v (n.node v)
  known : ∀ u v, N.graph.Adj u v → Known N S r lo u v (n.node v)

omit [DecidableEq V] in
/-- The row of a neighbour is the known one. -/
theorem Known.of (h : Known N S r lo u v s) (hk : Kept N S T v s) (hc : c ∈ s.nbrs) (hof : Of N u c) :
    Near N S r u c.declared := by
  obtain ⟨a, ha, ⟨hua, hida⟩, -, hnear⟩ := h
  obtain ⟨i, hi⟩ := List.mem_iff_getElem?.1 hc
  obtain ⟨j, hj⟩ := List.mem_iff_getElem?.1 ha
  obtain rfl := hk.distinct i j c a hi hj hof.1 hua (hof.2.trans hida.symm)
  cases hi.symm.trans hj
  exact hnear

omit [DecidableEq V] in
theorem ownOf_atLeast (hk : Kept N S T v s) (hr : r < RNSD_GW_NONE)
    (hrows : ∀ c ∈ s.nbrs, c.used → ∃ u, N.graph.Adj u v ∧ AtLeast N.graph S r u c.declared) :
    AtLeast N.graph S (r + 1) v (ownOf (N.site v).settings s s.nbrs) := by
  unfold ownOf
  split
  · next hup => exact atLeast_mem (hk.gateway.1 hup)
  · rcases @foldl_nearer_cases (N.site v).settings s.nbrs RNSD_GW_NONE with he | ⟨c, hc, hcount, he⟩
    · rw [he]
      exact atLeast_of_le hr
    · obtain ⟨u, hadj, hleast⟩ := hrows c hc hcount.1
      rw [he, effectiveOf_plain v (hk.plain c hc hcount.1)]
      exact hleast.next hadj

theorem Settled.own_le (h : Settled N S T lo r n) (v : V) : (n.node v).own ≤ RNSD_GW_NONE := by
  rw [(h.swept v).own]
  exact ownOf_le

/-- A node's own distance is right for one hop more than its rows. -/
theorem Settled.own (h : Settled N S T lo r n) (hr : r < RNSD_GW_NONE) (v : V) : Near N S (r + 1) v (n.node v).own := by
  have hk := h.kept v
  rw [(h.swept v).own]
  constructor
  · refine ownOf_atLeast hk hr fun c hc hu => ?_
    obtain ⟨u, hadj, hof⟩ := (h.swept v).clean c hc hu
    exact ⟨u, hadj, ((h.known u v hadj).of hk hc hof).1⟩
  · intro hlt
    unfold ownOf
    split
    · simp
    next hup =>
    have hv : v ∉ S := fun hv => hup (hk.gateway.2 hv)
    obtain ⟨u, hadj, hhops⟩ := exists_nearer hv hlt
    obtain ⟨c, hc, hof, -, -, hmost⟩ := h.known u v hadj
    have hnearer : hops N.graph S u < r := by
      rw [← hhops] at hlt
      push_cast at hlt
      exact lt_of_add_lt_add_right hlt
    have hle := hmost hnearer
    have heff := effectiveOf_plain (N := N) v (hk.plain c hc hof.1)
    have hcount : Counts (N.site v).settings c := by
      refine ⟨hof.1, ?_⟩
      rw [heff]
      have hd : (c.declared : ℕ∞) < r := hle.trans_lt hnearer
      exact (Nat.cast_lt.1 hd).trans hr
    have hfold := @foldl_nearer_counts (N.site v).settings (n.node v).nbrs RNSD_GW_NONE c hc hcount
    rw [heff] at hfold
    rw [← hhops]
    refine le_trans (Nat.cast_le.2 hfold) ?_
    push_cast
    exact add_le_add_left hle 1

theorem Settled.mono (h : Settled N S T lo r n) {r' : Nat} (hr : r' ≤ r) : Settled N S T lo r' n :=
  ⟨h.kept, h.swept, fun u v hadj => (h.known u v hadj).mono hr⟩

theorem Settled.step (h : Settled N S T lo r n) (hr : r < RNSD_GW_NONE) (hop : Neighbourly N op) (hT : T ≤ lo)
    (hlo : lo ≤ n.clock) (hage : ∀ v, n.clock ≤ lo + horizon N v) : Settled N S T lo r (Net.step N.site n op) := by
  refine ⟨fun v => (h.kept v).step hop, fun v => (h.swept v).step (h.kept v) hop, fun u v hadj => ?_⟩
  refine (h.known u v hadj).step (h.kept v) hop hT hlo (hage v) fun _ => ?_
  rw [min_eq_left (h.own_le u)]
  exact (h.own hr u).mono (Nat.le_succ r)

-- ---------------------------------------------------------------------------
-- Rounds
-- ---------------------------------------------------------------------------

def elapsed : NetOp V → Nat
  | .wait dt => dt
  | _ => 0

def duration (ops : List (NetOp V)) : Nat := (ops.map elapsed).sum

structure Round (N : Community V) (ops : List (NetOp V)) : Prop where
  neighbourly : ∀ op ∈ ops, Neighbourly N op
  delivered : ∀ u v, N.graph.Adj u v → .deliver u v ∈ ops
  swept : ∀ v, .sweep v ∈ ops

theorem clock_step : (Net.step N.site n op).clock = n.clock + elapsed op := by
  cases op <;> rfl

theorem clock_run : (run (Net.step N.site) n ops).clock = n.clock + duration ops := by
  induction ops generalizing n with
  | nil => rfl
  | cons op ops ih => rw [run_cons, ih, clock_step, duration, duration, List.map_cons, List.sum_cons, add_assoc]

/-- Between the start and the end of a round. -/
def During (N : Community V) (start length : Nat) (n : Net V) (op : NetOp V) : Prop :=
  Neighbourly N op ∧ start ≤ n.clock ∧ n.clock ≤ start + length

theorem guarded_during {start length : Nat} (hops : ∀ op ∈ ops, Neighbourly N op) (hstart : start ≤ n.clock)
    (hend : n.clock + duration ops ≤ start + length) : Guarded (Net.step N.site) (During N start length) n ops := by
  induction ops generalizing n with
  | nil => trivial
  | cons op ops ih =>
    rw [duration, List.map_cons, List.sum_cons, ← add_assoc] at hend
    have hclock : (Net.step N.site n op).clock = n.clock + elapsed op := clock_step
    refine ⟨⟨hops op (by simp), hstart, by omega⟩, ih (fun o ho => hops o (by simp [ho])) ?_ ?_⟩
    · omega
    · rw [hclock]
      exact hend

/-- The first round: whatever the tables were, they come to hold neighbours' rows, all heard since. -/
theorem first_round (hk : ∀ v, Kept N S n.clock v (n.node v)) (hround : Round N ops)
    (hpace : ∀ v, duration ops ≤ horizon N v) : Settled N S n.clock n.clock 0 (run (Net.step N.site) n ops) := by
  have hg := guarded_during (n := n) hround.neighbourly le_rfl le_rfl
  have hnear : ∀ {u : V} {d : Nat}, Near N S 0 u d := ⟨atLeast_zero, atMost_zero⟩
  have hkept : ∀ (m : Net V) (op : NetOp V), (∀ v, Kept N S n.clock v (m.node v)) → During N n.clock (duration ops) m op →
      ∀ v, Kept N S n.clock v ((Net.step N.site m op).node v) := fun m op h hop v => (h v).step hop.1
  refine ⟨hg.invariant hkept hk, fun v => ?_, fun u v hadj => ?_⟩
  · exact hg.attains (P := fun m => Swept N v (m.node v)) hkept (fun m op h hop hs => hs.step (h v) hop.1)
      (fun m h hop => .start (h v) hop.2.1) hk (hround.swept v)
  · refine hg.attains (P := fun m => Known N S 0 n.clock u v (m.node v)) hkept ?_
      (fun m h hop => .start (h v) hop.2.1 hnear) hk (hround.delivered u v hadj)
    intro m op h hop hknown
    exact hknown.step (h v) hop.1 le_rfl hop.2.1 (hop.2.2.trans (Nat.add_le_add_left (hpace v) _)) fun _ => hnear

/-- Each later round, for one hop more, if the rows of the round before last through it. -/
theorem next_round (h : Settled N S T lo r n) (hr : r < RNSD_GW_NONE) (hT : T ≤ lo) (hlo : lo ≤ n.clock)
    (hround : Round N ops) (hpace : ∀ v, n.clock + duration ops ≤ lo + horizon N v) :
    Settled N S T n.clock (r + 1) (run (Net.step N.site) n ops) := by
  have hg := guarded_during (n := n) hround.neighbourly le_rfl le_rfl
  have hsettled : ∀ (m : Net V) (op : NetOp V), Settled N S T lo r m → During N n.clock (duration ops) m op →
      Settled N S T lo r (Net.step N.site m op) := fun m op h hop =>
    h.step hr hop.1 hT (hlo.trans hop.2.1) fun v => hop.2.2.trans (hpace v)
  have hend := hg.invariant hsettled h
  refine ⟨hend.kept, hend.swept, fun u v hadj => ?_⟩
  have hnear : ∀ {m : Net V}, Settled N S T lo r m → Near N S (r + 1) u (min (m.node u).own RNSD_GW_NONE) := by
    intro m hm
    rw [min_eq_left (hm.own_le u)]
    exact hm.own hr u
  refine hg.attains (P := fun m => Known N S (r + 1) n.clock u v (m.node v)) hsettled ?_
    (fun m h hop => .start (h.kept v) hop.2.1 (hnear h)) h (hround.delivered u v hadj)
  intro m op h hop hknown
  refine hknown.step (h.kept v) hop.1 (hT.trans hlo) hop.2.1 ?_ fun _ => hnear h
  exact (hop.2.2.trans (hpace v)).trans (Nat.add_le_add_right hlo _)

/-- No two rounds on end are longer together than a row lasts. -/
def Paced (N : Community V) (rounds : List (List (NetOp V))) : Prop :=
  rounds.IsChain fun a b => ∀ v, duration a + duration b ≤ horizon N v

theorem Settled.later {before : List (NetOp V)} (h : Settled N S T lo r n) (hr : r < RNSD_GW_NONE) (hT : T ≤ lo)
    (hclock : n.clock = lo + duration before) (hround : ∀ ops ∈ rounds, Round N ops) (hpace : Paced N (before :: rounds)) :
    ∃ lo', Settled N S T lo' (min (r + rounds.length) 7) (run (Net.step N.site) n rounds.flatten) := by
  induction rounds generalizing n lo r before with
  | nil => exact ⟨lo, h.mono (min_le_left _ _)⟩
  | cons ops rounds ih =>
    obtain ⟨hpair, hrest⟩ := List.isChain_cons_cons.1 hpace
    have hnext := next_round h hr hT (by omega) (hround ops (by simp)) fun v => by
      rw [hclock, add_assoc]
      exact Nat.add_le_add_left (hpair v) lo
    have hmin : min (r + 1) 7 < RNSD_GW_NONE := lt_of_le_of_lt (min_le_right _ _) (by decide)
    obtain ⟨lo', hlast⟩ := ih (hnext.mono (min_le_left (r + 1) 7)) hmin (by omega) clock_run
      (fun o ho => hround o (by simp [ho])) hrest
    rw [List.flatten_cons, run_append]
    refine ⟨lo', hlast.mono ?_⟩
    rw [List.length_cons]
    omega

theorem rounds_settle (hk : ∀ v, Kept N S n.clock v (n.node v)) (hround : ∀ ops ∈ rounds, Round N ops)
    (hpace : Paced N rounds) (hlen : RNSD_GW_NONE ≤ rounds.length) (v : V) :
    (rnsdGatewayDistance ((run (Net.step N.site) n rounds.flatten).node v) : ℕ∞) =
      min (hops N.graph S v) RNSD_GW_NONE := by
  have hlen : 8 ≤ rounds.length := hlen
  match rounds with
  | first :: second :: more =>
    have hpair := (List.isChain_cons_cons.1 hpace).1
    have hfirst := first_round hk (hround first (by simp)) fun v => le_of_add_le_left (hpair v)
    obtain ⟨lo, hlast⟩ := hfirst.later (by decide) le_rfl clock_run
      (fun ops hops => hround ops (List.mem_cons_of_mem first hops)) hpace
    rw [List.flatten_cons, run_append]
    have hseven : 7 ≤ min (0 + (second :: more).length) 7 := by
      simp only [List.length_cons] at hlen ⊢
      omega
    have hown := (hlast.mono hseven).own (by decide) v
    exact eq_of_bounds hown.1 hown.2 (hlast.own_le v)

end MicroReticulum.Gateway
