import MicroReticulum.Bytes
import MicroReticulum.Lib.Runs
import MicroReticulum.Lib.Slots
import MicroReticulum.MsgPack.Printer

/-!
# The destinations a node hosts

Connections to `RNSD_PORT_DEST`, the probe and remote management register with
the transport, which takes a hash once; `hostedDestsRefresh` builds the snapshot
other tasks read. `snap` there has a row for each of them, and `s_hosted` and
the readers' copy have one less.
-/

namespace MicroReticulum.Rnsd.Hosted

open Lib
open Lib.Runs
open MicroReticulum.MsgPack (Text)

def RNSD_MAX_OUR_DESTS : Nat := 12
def RNSD_PEER_ASPECT_MAX : Nat := 32
/-- The rows of `snap` in `hostedDestsRefresh`. -/
def SNAP_ROWS : Nat := RNSD_MAX_OUR_DESTS + 2
/-- The rows of `s_hosted`, and of `snap` in `rnsdHostedDestsForEach`. -/
def HOSTED_ROWS : Nat := RNSD_MAX_OUR_DESTS + 1

/-- `rnsd_hosted_dest_t`. -/
structure Row where
  dest : Bytes
  aspect : Text
  deriving DecidableEq, Repr

/-- What a connection has of `our_dest_t`. -/
structure OurDest where
  used : Bool := false
  aspect : Text := []
  /-- `listener_hash`; none where the connection is outbound-only. -/
  listener : Option Bytes := none
  deriving DecidableEq, Repr

/-- The node's own two services, and what the transport has registered for itself. -/
structure Config where
  probe : Bytes
  management : Bytes
  control : List Bytes

structure State where
  ourDests : List OurDest := .replicate RNSD_MAX_OUR_DESTS {}
  /-- `s_probe_dest` and `s_rm_dest`. -/
  probe : Option Bytes := none
  management : Option Bytes := none
  /-- The transport's `_destinations`, without its own. -/
  registered : List Row := []
  /-- The first `s_hosted_n` rows. -/
  hosted : List Row := []
  /-- A copy went on behind the array it is made to. -/
  overrun : Bool := false
  deriving DecidableEq, Repr

def fitAspect (aspect : Text) : Text := aspect.take (RNSD_PEER_ASPECT_MAX - 1)

def probeAspect : Text := "rnstransport.probe".toList
def managementAspect : Text := "rnstransport.remote.management".toList

namespace State

variable (c : Config) (s : State)

-- ---------------------------------------------------------------------------
-- hostedDestsRefresh and its readers
-- ---------------------------------------------------------------------------

def ourRow (o : OurDest) : Option Row :=
  if o.used then o.listener.map fun dest => { dest, aspect := fitAspect o.aspect } else none

/-- The rows of the snapshot, in the order they are written. -/
def rows : List Row :=
  s.ourDests.filterMap ourRow ++ (s.probe.map fun dest => { dest, aspect := fitAspect probeAspect }).toList ++
    (s.management.map fun dest => { dest, aspect := fitAspect managementAspect }).toList

def hostedDestsRefresh : State := { s with
  hosted := s.rows
  overrun := s.overrun || decide (s.rows.length > SNAP_ROWS) || decide (s.rows.length > HOSTED_ROWS) }

def rnsdHostsDest (dest : Bytes) : Bool := s.hosted.any (·.dest = dest)

/-- What the callback is called with, and the copy it comes from. -/
def rnsdHostedDestsForEach : State × List Row :=
  ({ s with overrun := s.overrun || decide (s.hosted.length > HOSTED_ROWS) }, s.hosted)

-- ---------------------------------------------------------------------------
-- The transport
-- ---------------------------------------------------------------------------

def isRegistered (dest : Bytes) : Bool := dest ∈ c.control || s.registered.any (·.dest = dest)

/-- `Transport::register_destination`, which throws where the hash is there. -/
def register (row : Row) : Option State :=
  if s.isRegistered c row.dest then none else some { s with registered := row :: s.registered }

def deregister (dest : Bytes) : State := { s with registered := s.registered.filter (·.dest ≠ dest) }

-- ---------------------------------------------------------------------------
-- What changes the set
-- ---------------------------------------------------------------------------

inductive Op where
  /-- A connection opens; `listener` is the hash of the destination its identity and aspect
  make, where they make one. -/
  | connect (aspect : Text) (listener : Option Bytes)
  | disconnect (ref : Nat)
  | probeUp (identity : Bool)
  | probeDown
  | managementStart (identity : Bool)
  | managementStop
  /-- Another task reads the snapshot. -/
  | forEach

/-- A slot's destination is registered and listed, unless it is hosted already. -/
def listen (slot : Nat) (aspect : Text) (dest : Bytes) : State :=
  if s.rnsdHostsDest dest then s
  else
    match s.register c { dest, aspect := fitAspect aspect } with
    | some s => { s with ourDests := s.ourDests.set slot { used := true, aspect, listener := some dest } }.hostedDestsRefresh
    | none => s

def onOurDestConnect (aspect : Text) (listener : Option Bytes) : State :=
  match Slots.free (·.used) s.ourDests with
  | none => s
  | some slot =>
    let s := { s with ourDests := s.ourDests.set slot { used := true, aspect } }
    match listener with
    | none => s
    | some dest => s.listen c slot aspect dest

def onOurDestDisconnect (ref : Nat) : State :=
  match s.ourDests[ref]? with
  | none => s
  | some o =>
    if !o.used then s
    else
      let s := match o.listener with
        | some dest => s.deregister dest
        | none => s
      { s with ourDests := s.ourDests.set ref {} }.hostedDestsRefresh

def rnsdProbeDestUp (identity : Bool) : State :=
  if s.probe.isSome || !identity then s
  else
    match s.register c { dest := c.probe, aspect := fitAspect probeAspect } with
    | some s => { s with probe := some c.probe }.hostedDestsRefresh
    | none => s

def rnsdProbeDestDown : State :=
  match s.probe with
  | none => s
  | some dest => { s.deregister dest with probe := none }.hostedDestsRefresh

def rnsdRemoteManagementStart (identity : Bool) : State :=
  if s.management.isSome || !identity then s
  else
    match s.register c { dest := c.management, aspect := fitAspect managementAspect } with
    | some s => { s with management := some c.management }.hostedDestsRefresh
    | none => s

def rnsdRemoteManagementStop : State :=
  match s.management with
  | none => s
  | some dest => { s.deregister dest with management := none }.hostedDestsRefresh

def step (s : State) : Op → State
  | .connect aspect listener => s.onOurDestConnect c aspect listener
  | .disconnect ref => s.onOurDestDisconnect ref
  | .probeUp identity => s.rnsdProbeDestUp c identity
  | .probeDown => s.rnsdProbeDestDown
  | .managementStart identity => s.rnsdRemoteManagementStart c identity
  | .managementStop => s.rnsdRemoteManagementStop
  | .forEach => s.rnsdHostedDestsForEach.1

-- ---------------------------------------------------------------------------
-- The specification
-- ---------------------------------------------------------------------------

/-- The snapshot has what is registered, each destination once, and nothing was written
beyond an array. -/
structure Exact (s : State) : Prop where
  hosted : ∀ row, row ∈ s.hosted ↔ row ∈ s.registered
  once : (s.hosted.map (·.dest)).Nodup
  within : s.overrun = false

/-- The destination an operation registers. -/
def registers (s : State) : Op → Option Bytes
  | .connect _ listener => (Slots.free (·.used) s.ourDests).bind fun _ => listener.filter fun d => !s.isRegistered c d
  | .probeUp identity =>
    if s.probe.isNone ∧ identity = true ∧ s.isRegistered c c.probe = false then some c.probe else none
  | .managementStart identity =>
    if s.management.isNone ∧ identity = true ∧ s.isRegistered c c.management = false then some c.management else none
  | _ => none

/-- There is a row in `s_hosted` for what is registered. -/
def Room (c : Config) (s : State) (op : Op) : Prop :=
  (s.registers c op).isSome → s.registered.length < HOSTED_ROWS

instance (s : State) (op : Op) : Decidable (Room c s op) := inferInstanceAs (Decidable (_ → _))

-- ---------------------------------------------------------------------------
-- Rows and what is registered
-- ---------------------------------------------------------------------------

variable {c : Config} {s s' : State} {op : Op} {ops : List Op} {row : Row} {dest : Bytes} {i : Nat}

theorem filterMap_cons_toList {α β : Type*} (f : α → Option β) (a : α) (l : List α) :
    (a :: l).filterMap f = (f a).toList ++ l.filterMap f := by
  cases h : f a <;> simp [h]

/-- One element put for another, in what the list maps to. -/
theorem filterMap_set {α β : Type*} (f : α → Option β) {l : List α} {a b : α} (h : l[i]? = some a) :
    ((l.set i b).filterMap f ++ (f a).toList).Perm (l.filterMap f ++ (f b).toList) := by
  induction l generalizing i with
  | nil => cases h
  | cons x l ih =>
    rw [filterMap_cons_toList]
    cases i with
    | zero =>
      cases h
      rw [List.set_cons_zero, filterMap_cons_toList, List.append_assoc]
      exact List.perm_append_comm.trans (List.perm_append_comm.append_right _)
    | succ i =>
      rw [List.set_cons_succ, filterMap_cons_toList, List.append_assoc, List.append_assoc]
      exact (ih h).append_left _

theorem isRegistered_eq_false (h : s.isRegistered c dest = false) : dest ∉ s.registered.map (·.dest) := by
  simp only [isRegistered, Bool.or_eq_false_iff] at h
  simpa using h.2

structure Inv (s : State) : Prop where
  rows : s.registered.Perm s.rows
  once : (s.registered.map (·.dest)).Nodup
  hosted : s.hosted.Perm s.rows
  slots : s.ourDests.length = RNSD_MAX_OUR_DESTS
  within : s.overrun = false
  room : s.registered.length ≤ HOSTED_ROWS

theorem Inv.exact (h : Inv s) : Exact s where
  hosted _ := (h.hosted.trans h.rows.symm).mem_iff
  once := ((h.hosted.trans h.rows.symm).map _).nodup_iff.2 h.once
  within := h.within

/-- The rows are the snapshot once it is made, where there is room. -/
theorem refresh_inv (hrows : s.registered.Perm s.rows) (honce : (s.registered.map (·.dest)).Nodup)
    (hslots : s.ourDests.length = RNSD_MAX_OUR_DESTS) (hwithin : s.overrun = false)
    (hroom : s.registered.length ≤ HOSTED_ROWS) : Inv s.hostedDestsRefresh where
  rows := hrows
  once := honce
  hosted := .refl _
  slots := hslots
  within := by
    have hlen := hrows.length_eq
    have hsnap : HOSTED_ROWS ≤ SNAP_ROWS := by decide
    simp only [hostedDestsRefresh, hwithin, Bool.false_or, Bool.or_eq_false_iff, decide_eq_false_iff_not, not_lt]
    omega
  room := hroom

theorem add_inv (h : Inv s) (hrows : s'.rows.Perm (row :: s.rows)) (hreg : s'.registered = row :: s.registered)
    (hslots : s'.ourDests.length = s.ourDests.length) (hwithin : s'.overrun = s.overrun)
    (hnew : row.dest ∉ s.registered.map (·.dest)) (hroom : s.registered.length < HOSTED_ROWS) :
    Inv s'.hostedDestsRefresh := by
  apply refresh_inv
  · rw [hreg]
    exact (h.rows.cons row).trans hrows.symm
  · rw [hreg, List.map_cons, List.nodup_cons]
    exact ⟨hnew, h.once⟩
  · exact hslots.trans h.slots
  · exact hwithin.trans h.within
  · rw [hreg, List.length_cons]
    exact hroom

/-- What is left without a row is what is left without its hash. -/
theorem filter_perm {l l' : List Row} (hp : l.Perm (row :: l')) (hn : (l.map (·.dest)).Nodup) :
    (l.filter (·.dest ≠ row.dest)).Perm l' := by
  have hn' : ((row :: l').map (·.dest)).Nodup := (hp.map _).nodup_iff.1 hn
  rw [List.map_cons, List.nodup_cons] at hn'
  have hself : (row :: l').filter (·.dest ≠ row.dest) = l' := by
    rw [List.filter_cons_of_neg (by simp), List.filter_eq_self]
    intro r hr
    exact decide_eq_true fun he => hn'.1 (he ▸ List.mem_map_of_mem hr)
  exact hself ▸ hp.filter _

theorem drop_inv (row : Row) (h : Inv s) (hrows : s.rows.Perm (row :: s'.rows))
    (hreg : s'.registered = s.registered.filter (·.dest ≠ row.dest))
    (hslots : s'.ourDests.length = s.ourDests.length) (hwithin : s'.overrun = s.overrun) :
    Inv s'.hostedDestsRefresh := by
  apply refresh_inv
  · rw [hreg]
    exact filter_perm (h.rows.trans hrows) h.once
  · rw [hreg]
    exact h.once.sublist (List.filter_sublist.map _)
  · exact hslots.trans h.slots
  · exact hwithin.trans h.within
  · rw [hreg]
    exact (List.length_filter_le _ _).trans h.room

/-- The rows change by those of the one slot. -/
theorem set_rows (s' : State) {o o' : OurDest} (h : s.ourDests[i]? = some o) (hs : s'.ourDests = s.ourDests.set i o')
    (hp : s'.probe = s.probe) (hm : s'.management = s.management) :
    (s'.rows ++ (ourRow o).toList).Perm (s.rows ++ (ourRow o').toList) := by
  have hset := filterMap_set ourRow (b := o') h
  rw [List.perm_iff_count] at hset ⊢
  intro row
  have hcount := hset row
  simp only [rows, hs, hp, hm, List.count_append] at hcount ⊢
  omega

/-- What is taken by the transport is put where the snapshot finds it. -/
theorem register_inv (h : Inv s) (f : State → State)
    (hrows : (f { s with registered := row :: s.registered }).rows.Perm (row :: s.rows))
    (hreg : (f { s with registered := row :: s.registered }).registered = row :: s.registered)
    (hslots : (f { s with registered := row :: s.registered }).ourDests.length = s.ourDests.length)
    (hwithin : (f { s with registered := row :: s.registered }).overrun = s.overrun)
    (hroom : s.isRegistered c row.dest = false → s.registered.length < HOSTED_ROWS) :
    Inv (match s.register c row with
      | some s => (f s).hostedDestsRefresh
      | none => s) := by
  unfold register
  split
  · next hs =>
    split at hs
    · cases hs
    · next hnew =>
      cases hs
      rw [Bool.not_eq_true] at hnew
      exact add_inv h hrows hreg hslots hwithin (isRegistered_eq_false hnew) (hroom hnew)
  · exact h

theorem listen_rows {aspect aspect' : Text} (hslot : s.ourDests[i]? = some { used := true, aspect := aspect' }) :
    ({ s with
      registered := { dest, aspect := fitAspect aspect } :: s.registered
      ourDests := s.ourDests.set i { used := true, aspect, listener := some dest } } : State).rows.Perm
      ({ dest, aspect := fitAspect aspect } :: s.rows) := by
  have hrows := set_rows { s with
    registered := { dest, aspect := fitAspect aspect } :: s.registered
    ourDests := s.ourDests.set i { used := true, aspect, listener := some dest } } hslot rfl rfl rfl
  simpa [ourRow] using hrows.trans (List.perm_append_singleton _ _)

theorem listen_inv (h : Inv s) {aspect aspect' : Text} (hslot : s.ourDests[i]? = some { used := true, aspect := aspect' })
    (hroom : s.isRegistered c dest = false → s.registered.length < HOSTED_ROWS) :
    Inv (s.listen c i aspect dest) := by
  unfold listen
  split
  · exact h
  · refine register_inv h (fun s => { s with
      ourDests := s.ourDests.set i { used := true, aspect, listener := some dest } })
      (listen_rows hslot) rfl List.length_set rfl hroom

theorem connect_inv (h : Inv s) {aspect : Text} {listener : Option Bytes} (hroom : Room c s (.connect aspect listener)) :
    Inv (s.onOurDestConnect c aspect listener) := by
  unfold onOurDestConnect
  split
  · exact h
  · next slot hfree =>
    obtain ⟨o, ho, hu⟩ := Slots.free_eq_some hfree
    have hlt := (List.getElem?_eq_some_iff.1 ho).1
    have hrows : ({ s with ourDests := s.ourDests.set slot { used := true, aspect } }).rows.Perm s.rows := by
      have hset := set_rows { s with ourDests := s.ourDests.set slot { used := true, aspect } } ho rfl rfl rfl
      simpa [ourRow, hu] using hset
    have hinv : Inv { s with ourDests := s.ourDests.set slot { used := true, aspect } } :=
      ⟨h.rows.trans hrows.symm, h.once, h.hosted.trans hrows.symm, List.length_set.trans h.slots, h.within, h.room⟩
    cases listener with
    | none => exact hinv
    | some dest =>
      refine listen_inv hinv (List.getElem?_set_self hlt) fun hreg => hroom ?_
      have hreg' : s.isRegistered c dest = false := hreg
      simp [registers, hfree, hreg', Option.filter]

theorem disconnect_inv (h : Inv s) (ref : Nat) : Inv (s.onOurDestDisconnect ref) := by
  unfold onOurDestDisconnect
  split
  · exact h
  · next o ho =>
    split
    · exact h
    · next hu =>
      have hused : o.used = true := by simpa using hu
      dsimp only
      split
      · next dest hl =>
        have hrows := set_rows { s.deregister dest with ourDests := (s.deregister dest).ourDests.set ref {} }
          ho rfl rfl rfl
        refine drop_inv { dest, aspect := fitAspect o.aspect } h ?_ rfl List.length_set rfl
        simp only [ourRow, hused, hl] at hrows
        simpa using hrows.symm.trans (List.perm_append_singleton _ _)
      · next hl =>
        have hrows := set_rows { s with ourDests := s.ourDests.set ref {} } ho rfl rfl rfl
        refine refresh_inv (h.rows.trans ?_) h.once (List.length_set.trans h.slots) h.within h.room
        simpa [ourRow, hused, hl] using hrows.symm

theorem probe_rows (h : s.probe = none) : ({ s with probe := some dest } : State).rows.Perm
    ({ dest, aspect := fitAspect probeAspect } :: s.rows) := by
  rw [List.perm_iff_count]
  intro row
  simp [rows, h, List.count_cons]
  omega

theorem management_rows (h : s.management = none) :
    ({ s with management := some dest } : State).rows.Perm
      ({ dest, aspect := fitAspect managementAspect } :: s.rows) := by
  rw [List.perm_iff_count]
  intro row
  simp [rows, h, List.count_cons]
  omega

theorem probeUp_inv (h : Inv s) {identity : Bool} (hroom : Room c s (.probeUp identity)) :
    Inv (s.rnsdProbeDestUp c identity) := by
  unfold rnsdProbeDestUp
  split
  · exact h
  · next hup =>
    obtain ⟨hnone, hid⟩ : s.probe = none ∧ identity = true := by simpa using hup
    refine register_inv h (fun s => { s with probe := some c.probe }) (probe_rows hnone) rfl rfl rfl
      fun hreg => hroom ?_
    simp [registers, hnone, hid, hreg]

theorem probeDown_inv (h : Inv s) : Inv s.rnsdProbeDestDown := by
  unfold rnsdProbeDestDown
  split
  · exact h
  · next dest hd =>
    refine drop_inv { dest, aspect := fitAspect probeAspect } h ?_ rfl rfl rfl
    rw [List.perm_iff_count]
    intro row
    simp [rows, hd, deregister, List.count_cons]
    omega

theorem managementStart_inv (h : Inv s) {identity : Bool} (hroom : Room c s (.managementStart identity)) :
    Inv (s.rnsdRemoteManagementStart c identity) := by
  unfold rnsdRemoteManagementStart
  split
  · exact h
  · next hup =>
    obtain ⟨hnone, hid⟩ : s.management = none ∧ identity = true := by simpa using hup
    refine register_inv h (fun s => { s with management := some c.management }) (management_rows hnone) rfl rfl rfl
      fun hreg => hroom ?_
    simp [registers, hnone, hid, hreg]

theorem managementStop_inv (h : Inv s) : Inv s.rnsdRemoteManagementStop := by
  unfold rnsdRemoteManagementStop
  split
  · exact h
  · next dest hd =>
    refine drop_inv { dest, aspect := fitAspect managementAspect } h ?_ rfl rfl rfl
    rw [List.perm_iff_count]
    intro row
    simp [rows, hd, deregister, List.count_cons]
    omega

theorem step_inv (s : State) (op : Op) (h : Inv s) (hroom : Room c s op) : Inv (step c s op) := by
  cases op with
  | connect => exact connect_inv h hroom
  | disconnect ref => exact disconnect_inv h ref
  | probeUp => exact probeUp_inv h hroom
  | probeDown => exact probeDown_inv h
  | managementStart => exact managementStart_inv h hroom
  | managementStop => exact managementStop_inv h
  | forEach =>
    have hlen : s.hosted.length ≤ HOSTED_ROWS := (h.hosted.trans h.rows.symm).length_eq.trans_le h.room
    refine ⟨h.rows, h.once, h.hosted, h.slots, ?_, h.room⟩
    simp [step, rnsdHostedDestsForEach, h.within, hlen]

-- ---------------------------------------------------------------------------
-- One destination too many
-- ---------------------------------------------------------------------------

/-- The rows do not fit where one is registered for which there is no room. -/
theorem refresh_overrun (h : s.rows.length > HOSTED_ROWS) : ¬ Exact s.hostedDestsRefresh := by
  intro he
  have hwithin := he.within
  simp only [hostedDestsRefresh, Bool.or_eq_false_iff, decide_eq_false_iff_not] at hwithin
  exact hwithin.2 h

theorem register_overrun (f : State → State) (hnew : s.isRegistered c row.dest = false)
    (hrows : (f { s with registered := row :: s.registered }).rows.Perm (row :: s.rows))
    (hfull : s.rows.length ≥ HOSTED_ROWS) :
    ¬ Exact (match s.register c row with
      | some s => (f s).hostedDestsRefresh
      | none => s) := by
  unfold register
  rw [hnew]
  refine refresh_overrun ?_
  have hlen := hrows.length_eq
  rw [List.length_cons] at hlen
  omega

theorem not_hosted (h : Inv s) (hreg : s.isRegistered c dest = false) : s.rnsdHostsDest dest = false := by
  by_contra hn
  rw [Bool.not_eq_false, rnsdHostsDest, List.any_eq_true] at hn
  obtain ⟨row, hrow, hdest⟩ := hn
  have hmem := List.mem_map_of_mem (f := (·.dest)) ((h.exact.hosted row).1 hrow)
  rw [of_decide_eq_true hdest] at hmem
  exact isRegistered_eq_false hreg hmem

theorem overrun_of_not_room (s : State) (op : Op) (h : Inv s) (hroom : ¬ Room c s op) : ¬ Exact (step c s op) := by
  obtain ⟨hsome, hfull⟩ : (s.registers c op).isSome ∧ s.rows.length ≥ HOSTED_ROWS := by
    unfold Room at hroom
    rwa [Classical.not_imp, not_lt, h.rows.length_eq] at hroom
  cases op with
  | connect aspect listener =>
    obtain ⟨slot, hfree, dest, rfl, hreg⟩ : ∃ slot, Slots.free (·.used) s.ourDests = some slot ∧
        ∃ dest, listener = some dest ∧ s.isRegistered c dest = false := by
      obtain ⟨d, hd⟩ := Option.isSome_iff_exists.1 hsome
      obtain ⟨slot, hfree, hd⟩ := Option.bind_eq_some_iff.1 hd
      obtain ⟨rfl, hreg⟩ := Option.filter_eq_some_iff.1 hd
      exact ⟨slot, hfree, d, rfl, by simpa using hreg⟩
    obtain ⟨o, ho, hu⟩ := Slots.free_eq_some hfree
    have hlt := (List.getElem?_eq_some_iff.1 ho).1
    let s₁ : State := { s with ourDests := s.ourDests.set slot { used := true, aspect } }
    have hrows : s₁.rows.length = s.rows.length := by
      have hset := (set_rows s₁ ho rfl rfl rfl).length_eq
      simpa [ourRow, hu] using hset
    have hhosted : s.rnsdHostsDest dest = false := not_hosted h hreg
    have hnot : ¬ s₁.rnsdHostsDest dest = true := Bool.not_eq_true _ ▸ hhosted
    have hconnect : step c s (.connect aspect (some dest)) = s₁.listen c slot aspect dest := by
      simp only [step, onOurDestConnect, hfree]
      rfl
    rw [hconnect, listen, if_neg hnot]
    exact register_overrun (fun s => { s with
      ourDests := s.ourDests.set slot { used := true, aspect, listener := some dest } }) hreg
      (listen_rows (List.getElem?_set_self hlt)) (hrows ▸ hfull)
  | probeUp identity =>
    obtain ⟨hnone, hid, hreg⟩ : s.probe = none ∧ identity = true ∧ s.isRegistered c c.probe = false := by
      simpa [registers] using hsome
    have hup : ¬ (s.probe.isSome || !identity) = true := by simp [hnone, hid]
    rw [step, rnsdProbeDestUp, if_neg hup]
    exact register_overrun (fun s => { s with probe := some c.probe }) hreg (probe_rows hnone) hfull
  | managementStart identity =>
    obtain ⟨hnone, hid, hreg⟩ : s.management = none ∧ identity = true ∧ s.isRegistered c c.management = false := by
      simpa [registers] using hsome
    have hup : ¬ (s.management.isSome || !identity) = true := by simp [hnone, hid]
    rw [step, rnsdRemoteManagementStart, if_neg hup]
    exact register_overrun (fun s => { s with management := some c.management }) hreg (management_rows hnone) hfull
  | disconnect => cases hsome
  | probeDown => cases hsome
  | managementStop => cases hsome
  | forEach => cases hsome

theorem start_inv : Inv {} where
  rows := by decide
  once := by decide
  hosted := by decide
  slots := by decide
  within := rfl
  room := by decide

/-- Hosted destinations are read as they are in just the runs that always have room. -/
theorem hosted_exact_iff (c : Config) (ops : List Op) :
    Throughout (step c) Exact {} ops ↔ Guarded (step c) (Room c) {} ops :=
  throughout_iff step_inv (fun _ h => h.exact) overrun_of_not_room start_inv

/-- Twelve connections that host, and both services. -/
def everything : List Op :=
  (List.range 12).map (fun n => .connect [] (some [UInt8.ofNat n])) ++ [.probeUp true, .managementStart true]

theorem hosted_everything : ¬ ∀ (c : Config) (ops : List Op), Throughout (step c) Exact {} ops := by
  intro h
  have hlast := (h { probe := [100], management := [101], control := [] } everything).last
  exact absurd hlast.within (by decide +kernel)

end State

end MicroReticulum.Rnsd.Hosted
