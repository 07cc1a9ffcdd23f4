import MicroReticulum.Gateway.Rows
import MicroReticulum.Lib.Runs

/-!
# What a neighbour's distance rests on

A row has one time stamp for two kinds of evidence: the announce that declared a
distance and the one that showed a wired interface. The stamp is that of the
evidence in force as long as no declaration is noted for a row with a wired
interface.
-/

namespace MicroReticulum.Gateway

open Lib Lib.Runs

variable {g : Settings} {now : Nat} {s : State} {id : Ident} {nbrs more : List Nbr} {i : Nat} {n c : Nbr}

-- ---------------------------------------------------------------------------
-- A node and what it has heard
-- ---------------------------------------------------------------------------

inductive Evidence where
  | declared (d : Nat)
  | discovered
  deriving DecidableEq

structure Node where
  settings : Settings := {}
  now : Nat := 0
  state : State := {}
  /-- What was heard, from whom and when. -/
  log : List (Nat × Ident × Evidence) := []

inductive Op where
  | wait (dt : Nat)
  | set (g : Settings)
  | note (id : Ident) (distance : Nat)
  | discovery (id : Ident)
  | heard (id : Ident)
  | uplink (up : Bool)
  | tick
  | owed

namespace Node

def step (n : Node) : Op → Node
  | .wait dt => { n with now := n.now + dt }
  | .set g => { n with settings := g }
  | .note id d => { n with
      state := (rnsdGatewayNote n.settings n.now n.state id d).1
      log := n.log ++ [(n.now, id, .declared (min d RNSD_GW_NONE))] }
  | .discovery id => { n with
      state := rnsdGatewayDiscoveryNote n.settings n.now n.state id, log := n.log ++ [(n.now, id, .discovered)] }
  | .heard id => { n with state := rnsdGatewayHeard n.settings n.now n.state id }
  | .uplink up => { n with state := rnsdGatewaySetUplink n.settings n.now n.state up }
  | .tick => { n with state := rnsdGatewayTick n.settings n.now n.state }
  | .owed => { n with state := (rnsdGatewayAnnounceOwed n.state).2 }

end Node

def declares (id : Ident) : Nat × Ident × Evidence → Option (Nat × Nat)
  | (t, id', .declared d) => if id' = id then some (t, d) else none
  | (_, _, .discovered) => none

/-- The latest declaration of an identity: when it was heard, and of what. -/
def latest (log : List (Nat × Ident × Evidence)) (id : Ident) : Option (Nat × Nat) :=
  (log.filterMap (declares id)).getLast?

/-- What a neighbour counts for: towards the node's own distance, or where its own is asked for. -/
inductive Contributes (n : Node) (id : Ident) : Nat → Prop
  | counted {c : Nbr} (hc : c ∈ n.state.nbrs) (hid : c.id = id) (h : Counts n.settings c)
      (hage : n.now - c.heard ≤ horizonS n.settings) : Contributes n id (effectiveOf n.settings c)
  | answered (h : rnsdGatewayDistanceOf n.settings n.now n.state id ≠ RNSD_GW_UNKNOWN) :
      Contributes n id (rnsdGatewayDistanceOf n.settings n.now n.state id)

/-- What counts for a neighbour is the operator's word, or evidence heard within the horizon. -/
def Founded (n : Node) : Prop :=
  ∀ id d, Contributes n id d →
    d = 0 ∧ n.settings.peer id = 1 ∨
    (∃ t, latest n.log id = some (t, d) ∧ n.now - t ≤ horizonS n.settings) ∨
    d = 0 ∧ ∃ t, (t, id, .discovered) ∈ n.log ∧ n.now - t ≤ horizonS n.settings

/-- No declaration is noted for a row that has a wired interface to its name. -/
def Unmixed (n : Node) : Op → Prop
  | .note id _ => ∀ c ∈ n.state.nbrs, c.used → c.id = id → c.discoveryGw = false
  | _ => True

-- ---------------------------------------------------------------------------
-- Stamps
-- ---------------------------------------------------------------------------

variable {log : List (Nat × Ident × Evidence)} {t d : Nat}

/-- The stamp of a row is that of the evidence in force. -/
def Stamped (log : List (Nat × Ident × Evidence)) (c : Nbr) : Prop :=
  (c.discoveryGw → (c.heard, c.id, .discovered) ∈ log) ∧
    (c.discoveryGw = false → c.declared ≠ RNSD_GW_UNKNOWN → latest log c.id = some (c.heard, c.declared))

structure Sound (log : List (Nat × Ident × Evidence)) (nbrs : List Nbr) : Prop where
  distinct : Distinct nbrs
  stamped : ∀ c ∈ nbrs, c.used → Stamped log c

theorem latest_concat_self : latest (log ++ [(t, id, .declared d)]) id = some (t, d) := by
  simp [latest, declares]

theorem latest_concat_other {id' : Ident} (hne : id' ≠ id) : latest (log ++ [(t, id', .declared d)]) id = latest log id := by
  simp [latest, declares, hne]

theorem latest_concat_discovered {id' : Ident} : latest (log ++ [(t, id', .discovered)]) id = latest log id := by
  simp [latest, declares]

theorem Sound.recompute (h : Sound log s.nbrs) : Sound log (recompute g now s).nbrs := by
  rw [nbrs_recompute]
  exact ⟨h.distinct.expire, fun c hc hu => h.stamped c (mem_expire hc hu).1 hu⟩

/-- What is heard from another identity is nothing to a row. -/
theorem Stamped.concat (h : Stamped log c) {e : Nat × Ident × Evidence} (hne : c.id ≠ e.2.1) : Stamped (log ++ [e]) c := by
  refine ⟨fun hg => List.mem_append_left _ (h.1 hg), fun hg hd => ?_⟩
  obtain ⟨t, id, ev⟩ := e
  cases ev with
  | declared d => rw [latest_concat_other hne.symm, h.2 hg hd]
  | discovered => rw [latest_concat_discovered, h.2 hg hd]

theorem Sound.unheld (h : Sound log nbrs) {e : Nat × Ident × Evidence} (hf : find e.2.1 nbrs = none) :
    Sound (log ++ [e]) nbrs :=
  ⟨h.distinct, fun c hc hu => (h.stamped c hc hu).concat (Slots.find_eq_none.1 hf c hc hu)⟩

/-- A row that is written for an identity, with something heard from it. -/
theorem Sound.write (h : Sound log nbrs) {e : Nat × Ident × Evidence} (hf : findOrAlloc e.2.1 nbrs = some (i, more))
    (hk : c.id = e.2.1) (hc : Stamped (log ++ [e]) c) : Sound (log ++ [e]) (nbrs.set i c) := by
  refine ⟨h.distinct.note hf hk, fun a ha hu => ?_⟩
  obtain ⟨j, hj⟩ := List.mem_iff_getElem?.1 ha
  rcases Slots.getElem?_set_cases hj with ⟨rfl, rfl⟩ | ⟨hne, hold⟩
  · exact hc
  · refine (h.stamped a (List.mem_of_getElem? hold) hu).concat fun hk' => ?_
    -- another row is another identity's
    obtain ⟨n, -, -, -, -, ⟨hfind, hin⟩ | ⟨hfind, -⟩⟩ := findOrAlloc_eq_some hf
    · obtain ⟨b, hb, hub, hkb⟩ := Slots.find_eq_some hfind
      exact hne (h.distinct j i a b hold hb hu hub (hk'.trans hkb.symm))
    · exact Slots.find_eq_none.1 hfind a (List.mem_of_getElem? hold) hu hk'

-- ---------------------------------------------------------------------------
-- One step
-- ---------------------------------------------------------------------------

/-- A declaration takes the row's stamp. -/
theorem Sound.note (h : Sound log s.nbrs) (hum : ∀ c ∈ s.nbrs, c.used → c.id = id → c.discoveryGw = false) (d : Nat) :
    Sound (log ++ [(now, id, .declared (min d RNSD_GW_NONE))]) (rnsdGatewayNote g now s id d).1.nbrs := by
  unfold rnsdGatewayNote
  cases hf : findOrAlloc id s.nbrs with
  | none => exact h.unheld (find_of_findOrAlloc hf)
  | some r =>
    obtain ⟨i, more⟩ := r
    obtain ⟨n, hn⟩ := getElem?_of_findOrAlloc hf
    obtain ⟨hk, hu, hrow⟩ := row_cases hf hn
    have hdisc : n.discoveryGw = false := by
      rcases hrow with hmem | rfl
      · exact hum n hmem hu hk
      · rfl
    have hwrite : Sound (log ++ [(now, id, .declared (min d RNSD_GW_NONE))])
        (more.set i { n with declared := min d RNSD_GW_NONE, heard := now }) := by
      rw [set_of_findOrAlloc hf]
      refine h.write hf hk ⟨fun hg => ?_, fun _ _ => ?_⟩
      · rw [hdisc] at hg
        cases hg
      · show latest _ n.id = _
        rw [hk, latest_concat_self]
    simp only [hn]
    split
    · exact hwrite.recompute
    · exact hwrite

/-- So does a wired interface, and the declaration is in force no more. -/
theorem Sound.discovery (h : Sound log s.nbrs) :
    Sound (log ++ [(now, id, .discovered)]) (rnsdGatewayDiscoveryNote g now s id).nbrs := by
  unfold rnsdGatewayDiscoveryNote
  cases hf : findOrAlloc id s.nbrs with
  | none => exact h.unheld (find_of_findOrAlloc hf)
  | some r =>
    obtain ⟨i, more⟩ := r
    obtain ⟨n, hn⟩ := getElem?_of_findOrAlloc hf
    obtain ⟨hk, -, -⟩ := row_cases hf hn
    have hwrite : Sound (log ++ [(now, id, .discovered)]) (more.set i { n with discoveryGw := true, heard := now }) := by
      rw [set_of_findOrAlloc hf]
      refine h.write hf hk ⟨fun _ => ?_, nofun⟩
      rw [show ({ n with discoveryGw := true, heard := now } : Nbr).id = id from hk]
      simp
    simp only [hn]
    split
    · exact hwrite
    · exact hwrite.recompute

/-- Another announce takes the stamp of a row without evidence. -/
theorem Sound.heard (h : Sound log s.nbrs) : Sound log (rnsdGatewayHeard g now s id).nbrs := by
  -- a row that has nothing to declare may have any stamp
  have hwrite : ∀ {i : Nat} {n : Nbr}, (∃ more, findOrAlloc id s.nbrs = some (i, more)) → n.id = id →
      n.declared = RNSD_GW_UNKNOWN → n.discoveryGw = false → Sound log (s.nbrs.set i { n with heard := now }) := by
    rintro i n ⟨more, hf⟩ hk hd hg
    refine ⟨h.distinct.note hf hk, fun a ha hu => ?_⟩
    rcases Slots.mem_set_cases ha with rfl | hold
    · exact ⟨fun hg' => absurd (hg.symm.trans hg') (by simp), fun _ hne => absurd hd hne⟩
    · exact h.stamped a hold hu
  unfold rnsdGatewayHeard
  cases hfind : find id s.nbrs with
  | some i =>
    obtain ⟨n, hn, hu, hk⟩ := Slots.find_eq_some hfind
    simp only [hn]
    split
    · next hrow =>
      exact hwrite ⟨s.nbrs, by simp [findOrAlloc, hfind]⟩ hk hrow.1 (by simpa using hrow.2)
    · exact h
  | none =>
    dsimp only
    split
    · exact h
    · cases hf : findOrAlloc id s.nbrs with
      | none => exact h
      | some r =>
        obtain ⟨i, more⟩ := r
        obtain ⟨n, hn, -, hk, -, ⟨hi, -⟩ | ⟨-, -, rfl⟩⟩ := findOrAlloc_eq_some hf
        · exact absurd (hi.symm.trans hfind) nofun
        · simp only [hn]
          refine Sound.recompute (s := { s with nbrs := more.set i { fresh id with heard := now } }) ?_
          rw [set_of_findOrAlloc hf]
          exact hwrite ⟨more, hf⟩ rfl rfl rfl

theorem Sound.step {n : Node} (h : Sound n.log n.state.nbrs) {op : Op} (hop : Unmixed n op) :
    Sound (n.step op).log (n.step op).state.nbrs := by
  cases op with
  | wait | set | owed => exact h
  | note id d => exact h.note hop d
  | discovery id => exact h.discovery
  | heard id => exact h.heard
  | uplink up =>
    simp only [Node.step, rnsdGatewaySetUplink]
    split
    · exact h
    · exact Sound.recompute (s := { n.state with uplink := up }) h
  | tick => exact h.recompute

-- ---------------------------------------------------------------------------
-- Runs
-- ---------------------------------------------------------------------------

/-- A row that counts has its evidence. -/
theorem Sound.row {n : Node} (h : Sound n.log n.state.nbrs) (hc : c ∈ n.state.nbrs) (hu : c.used)
    (hage : n.now - c.heard ≤ horizonS n.settings) (hd : effectiveOf n.settings c = d) (hne : d ≠ RNSD_GW_UNKNOWN) :
    d = 0 ∧ n.settings.peer c.id = 1 ∨
      (∃ t, latest n.log c.id = some (t, d) ∧ n.now - t ≤ horizonS n.settings) ∨
      d = 0 ∧ ∃ t, (t, c.id, .discovered) ∈ n.log ∧ n.now - t ≤ horizonS n.settings := by
  obtain ⟨hdisc, hdecl⟩ := h.stamped c hc hu
  unfold effectiveOf at hd
  split at hd
  · next hp => exact .inl ⟨hd.symm, hp⟩
  · split at hd
    · exact absurd hd.symm hne
    · split at hd
      · next hg => exact .inr (.inr ⟨hd.symm, c.heard, hdisc hg, hage⟩)
      · next hg =>
        subst hd
        exact .inr (.inl ⟨c.heard, hdecl (by simpa using hg) hne, hage⟩)

theorem Sound.founded {n : Node} (h : Sound n.log n.state.nbrs) : Founded n := by
  rintro id d (⟨hc, rfl, hcount, hage⟩ | hne)
  · refine h.row hc hcount.1 hage rfl fun he => ?_
    have hlt := hcount.2
    rw [he] at hlt
    exact absurd hlt (by decide)
  · obtain ⟨d, hd⟩ : ∃ d, d = rnsdGatewayDistanceOf n.settings n.now n.state id := ⟨_, rfl⟩
    rw [← hd] at hne ⊢
    unfold rnsdGatewayDistanceOf at hd
    cases hf : find id n.state.nbrs with
    | none =>
      simp only [hf, Option.bind_none] at hd
      split at hd
      · next hp => exact .inl ⟨hd, hp⟩
      · exact absurd hd hne
    | some i =>
      obtain ⟨c, hc, hu, rfl⟩ := Slots.find_eq_some hf
      simp only [hf, Option.bind_some, hc] at hd
      split at hd
      · exact absurd hd hne
      · next hage => exact h.row (List.mem_of_getElem? hc) hu (not_lt.1 hage) hd.symm hne

/-- The node's own distance, where it is not a gateway itself, is one more than a neighbour's. -/
theorem tick_contributes (n : Node) (hg : ¬ (n.state.uplink ∨ n.settings.self))
    (hlt : (n.step .tick).state.own < RNSD_GW_NONE) :
    ∃ id d, Contributes (n.step .tick) id d ∧ (n.step .tick).state.own = d + 1 := by
  have hown : (n.step .tick).state.own = ownOf n.settings n.state (n.state.nbrs.map (expire n.settings n.now)) := by
    simp only [Node.step, rnsdGatewayTick, recompute]
    split
    · next h => exact h.1.symm
    · rfl
  rw [hown] at hlt ⊢
  unfold ownOf at *
  rw [if_neg hg] at *
  obtain ⟨swept, hswept⟩ : ∃ swept, swept = n.state.nbrs.map (expire n.settings n.now) := ⟨_, rfl⟩
  rw [← hswept] at hlt ⊢
  rcases (foldl_nearer_cases : swept.foldl (nearer n.settings) RNSD_GW_NONE = RNSD_GW_NONE ∨ _) with
    he | ⟨c, hc, hcount, he⟩
  · exact absurd he hlt.ne
  · refine ⟨c.id, _, .counted (c := c) ?_ rfl hcount ?_, he⟩
    · simpa only [Node.step, rnsdGatewayTick, nbrs_recompute, ← hswept] using hc
    · rw [hswept] at hc
      exact (mem_expire hc hcount.1).2

theorem sound_initial : Sound [] ({} : State).nbrs := by
  have hfree : ∀ c ∈ ({} : State).nbrs, c.used = false := fun c hc => by
    rw [List.eq_of_mem_replicate hc]
  exact ⟨fun i j a b ha _ hu => absurd hu (by simp [hfree a (List.mem_of_getElem? ha)]),
    fun c hc hu => absurd hu (by simp [hfree c hc])⟩

/-- A wired interface that was announced once, and a declaration since. -/
def keptAlive : List Op := [.discovery [1], .wait 5000, .note [1] 3, .wait 5000]

end MicroReticulum.Gateway
