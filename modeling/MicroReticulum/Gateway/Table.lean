import MicroReticulum.Bytes
import MicroReticulum.Lib.Slots

/-!
# How far a node is from a gateway

The neighbour table of `rnsd_gateway`, and the node's own distance as it follows
from the table. Times are uptime in whole seconds. Settings are read afresh at
every use, so each function has them as they are then.
-/

namespace MicroReticulum.Gateway

open Lib

def RNSD_GW_NBRS_MAX : Nat := 48
def RNSD_GW_HORIZON_DEFAULT_S : Nat := 5400
def RNSD_GW_REAIR_MIN_S : Nat := 60
/-- The ceiling: no gateway can be reached. -/
def RNSD_GW_NONE : Nat := 8
/-- What a neighbour counts as that has declared nothing. -/
def RNSD_GW_UNKNOWN : Nat := 255

abbrev Ident := Bytes

structure Nbr where
  used : Bool := false
  id : Ident := []
  declared : Nat := 0
  discoveryGw : Bool := false
  heard : Nat := 0
  deriving DecidableEq

/-- `s.rnsd.gateway`. -/
structure Settings where
  self : Bool := false
  horizon : Int := RNSD_GW_HORIZON_DEFAULT_S
  /-- 1 for a gateway, 0 for one never to count, -1 where the operator has not said. -/
  peer : Ident → Int := fun _ => -1

structure State where
  nbrs : List Nbr := .replicate RNSD_GW_NBRS_MAX {}
  uplink : Bool := false
  own : Nat := RNSD_GW_NONE
  announceOwed : Bool := false
  lastReair : Nat := 0
  published : Bool := false

variable (g : Settings) (now : Nat)

def horizonS : Nat := if 0 < g.horizon then g.horizon.toNat else RNSD_GW_HORIZON_DEFAULT_S

/-- What a neighbour counts as, after the operator's word. -/
def effectiveOf (n : Nbr) : Nat :=
  if g.peer n.id = 1 then 0
  else if g.peer n.id = 0 then RNSD_GW_UNKNOWN
  else if n.discoveryGw then 0
  else n.declared

def find (id : Ident) (nbrs : List Nbr) : Option Nat := Slots.find (·.used) (·.id) id nbrs

/-- The slot a new row takes: a free one, else the one heard longest ago. -/
def place (nbrs : List Nbr) : Option Nat :=
  (Slots.free (·.used) nbrs).orElse fun _ => Slots.victim (·.used) (·.heard) nbrs

def findOrAlloc (id : Ident) (nbrs : List Nbr) : Option (Nat × List Nbr) :=
  match find id nbrs with
  | some i => some (i, nbrs)
  | none => (place nbrs).map fun i => (i, nbrs.set i { used := true, id := id, declared := RNSD_GW_UNKNOWN })

def expire (n : Nbr) : Nbr := if n.used ∧ horizonS g < now - n.heard then { n with used := false } else n

/-- One row of the search for the least distance. -/
def nearer (best : Nat) (n : Nbr) : Nat :=
  if n.used ∧ effectiveOf g n < RNSD_GW_NONE ∧ effectiveOf g n + 1 < best then effectiveOf g n + 1 else best

def ownOf (s : State) (nbrs : List Nbr) : Nat :=
  if s.uplink ∨ g.self then 0 else nbrs.foldl (nearer g) RNSD_GW_NONE

def recompute (s : State) : State :=
  let nbrs := s.nbrs.map (expire g now)
  if ownOf g s nbrs = s.own ∧ s.published then { s with nbrs := nbrs }
  else { s with
    nbrs := nbrs, own := ownOf g s nbrs, announceOwed := s.announceOwed || s.published, published := true }

def rnsdGatewayDistance (s : State) : Nat := s.own

def rnsdGatewayDistanceOf (s : State) (id : Ident) : Nat :=
  match (find id s.nbrs).bind (s.nbrs[·]?) with
  | some n => if horizonS g < now - n.heard then RNSD_GW_UNKNOWN else effectiveOf g n
  | none => if g.peer id = 1 then 0 else RNSD_GW_UNKNOWN

/-- A neighbour has evidently not heard what this node declared, and a minute has passed. -/
def reairs (s : State) (distance : Nat) : Bool :=
  s.own < RNSD_GW_NONE ∧ s.own + 1 < distance ∧ (s.lastReair = 0 ∨ RNSD_GW_REAIR_MIN_S ≤ now - s.lastReair)

/-- The new state, and whether the management announce is sent again. -/
def rnsdGatewayNote (s : State) (id : Ident) (distance : Nat) : State × Bool :=
  let distance := min distance RNSD_GW_NONE
  match findOrAlloc id s.nbrs with
  | none => (s, false)
  | some (i, nbrs) =>
    match nbrs[i]? with
    | none => (s, false)
    | some n =>
      let reair := reairs now s distance
      let s' := { s with
        nbrs := nbrs.set i { n with declared := distance, heard := now }
        lastReair := if reair then (if now = 0 then 1 else now) else s.lastReair }
      (if n.declared ≠ distance then recompute g now s' else s', reair)

def rnsdGatewayDiscoveryNote (s : State) (id : Ident) : State :=
  match findOrAlloc id s.nbrs with
  | none => s
  | some (i, nbrs) =>
    match nbrs[i]? with
    | none => s
    | some n =>
      let s' := { s with nbrs := nbrs.set i { n with discoveryGw := true, heard := now } }
      if n.discoveryGw then s' else recompute g now s'

/-- An announce of any kind: a row is refreshed that only the operator's word keeps. -/
def rnsdGatewayHeard (s : State) (id : Ident) : State :=
  match find id s.nbrs with
  | some i =>
    match s.nbrs[i]? with
    | none => s
    | some n =>
      if n.declared = RNSD_GW_UNKNOWN ∧ !n.discoveryGw then { s with nbrs := s.nbrs.set i { n with heard := now } }
      else s
  | none =>
    if g.peer id < 0 then s
    else match findOrAlloc id s.nbrs with
    | none => s
    | some (i, nbrs) =>
      match nbrs[i]? with
      | none => s
      | some n => recompute g now { s with nbrs := nbrs.set i { n with heard := now } }

def rnsdGatewaySetUplink (s : State) (up : Bool) : State :=
  if up = s.uplink ∧ s.published then s else recompute g now { s with uplink := up }

def rnsdGatewayTick (s : State) : State := recompute g now s

def rnsdGatewayAnnounceOwed (s : State) : Bool × State := (s.announceOwed, { s with announceOwed := false })

-- ---------------------------------------------------------------------------
-- The least distance
-- ---------------------------------------------------------------------------

variable {g now} {nbrs : List Nbr} {best : Nat}

/-- A row that counts for something. -/
def Counts (g : Settings) (c : Nbr) : Prop := c.used ∧ effectiveOf g c < RNSD_GW_NONE

theorem nearer_le (c : Nbr) : nearer g best c ≤ best := by
  unfold nearer
  split
  · next h => exact h.2.2.le
  · exact le_rfl

theorem nearer_counts {c : Nbr} (h : Counts g c) : nearer g best c ≤ effectiveOf g c + 1 := by
  unfold nearer
  split
  · exact le_rfl
  · next hn => exact not_lt.1 fun hlt => hn ⟨h.1, h.2, hlt⟩

theorem foldl_nearer_le : nbrs.foldl (nearer g) best ≤ best := by
  induction nbrs generalizing best with
  | nil => exact le_rfl
  | cons c nbrs ih => exact ih.trans (nearer_le c)

theorem foldl_nearer_counts {c : Nbr} (hc : c ∈ nbrs) (h : Counts g c) :
    nbrs.foldl (nearer g) best ≤ effectiveOf g c + 1 := by
  induction nbrs generalizing best with
  | nil => cases hc
  | cons a nbrs ih =>
    rw [List.foldl_cons]
    rcases List.mem_cons.1 hc with rfl | hc
    · exact foldl_nearer_le.trans (nearer_counts h)
    · exact ih hc

/-- The least distance is one more than some row counts for, unless none does better. -/
theorem foldl_nearer_cases : nbrs.foldl (nearer g) best = best ∨
    ∃ c ∈ nbrs, Counts g c ∧ nbrs.foldl (nearer g) best = effectiveOf g c + 1 := by
  induction nbrs generalizing best with
  | nil => exact .inl rfl
  | cons a nbrs ih =>
    rw [List.foldl_cons]
    rcases @ih (nearer g best a) with he | ⟨c, hc, hcount, he⟩
    · rw [he]
      unfold nearer
      split
      · next h => exact .inr ⟨a, by simp, ⟨h.1, h.2.1⟩, rfl⟩
      · exact .inl rfl
    · exact .inr ⟨c, by simp [hc], hcount, he⟩

/-- A row that counts for the same may stand in its place. -/
theorem foldl_nearer_set {i : Nat} {c c' : Nbr} (h : nbrs[i]? = some c) (he : ∀ b, nearer g b c' = nearer g b c) :
    (nbrs.set i c').foldl (nearer g) best = nbrs.foldl (nearer g) best := by
  induction nbrs generalizing i best with
  | nil => rfl
  | cons a nbrs ih =>
    cases i with
    | zero =>
      cases h
      simp [he]
    | succ i => simpa using ih h

end MicroReticulum.Gateway
