import MicroReticulum.Packet.Announcement

/-!
# The ratchets of a destination

The private keys a hosted destination keeps, the newest first, and when the
newest one was made. Times are in microseconds, as the clock gives them; what
the random generator gives, or that it gives nothing, is an argument.
-/

namespace MicroReticulum.Destinations

open MicroReticulum.Announcing (RATCHETSIZE)

def RATCHET_COUNT : Nat := 32
/-- In seconds. -/
def RATCHET_INTERVAL : Nat := 60 * 60 * 12
def PR_TAG_WINDOW : Nat := 30

def second : Nat := 1000000

def interval : Nat := RATCHET_INTERVAL * second

inductive Kind
  | SINGLE | GROUP | PLAIN | LINK
  deriving DecidableEq

inductive Direction
  | IN | OUT
  deriving DecidableEq

/-- An announce kept for the path requests that bear its tag, and when it was made. -/
structure PathResponse where
  tag : Bytes
  time : Nat
  announceData : Bytes
  deriving DecidableEq

/-- `Destination::Object`, with what its announces and its ratchets need of it. -/
structure Destination where
  type : Kind := .SINGLE
  direction : Direction := .IN
  hash : Bytes := []
  nameHash : Bytes := []
  publicKey : Bytes := []
  defaultAppData : Bytes := []
  ratchetsEnabled : Bool := false
  ratchets : List Bytes := []
  latestRatchetTime : Nat := 0
  pathResponses : List PathResponse := []

/-- Keys of the wrong size are passed over. -/
def retained (privs : List Bytes) : List Bytes := (privs.filter (·.length = RATCHETSIZE)).take RATCHET_COUNT

def enableRatchets (privs : List Bytes) (latestTime : Nat) (d : Destination) : Destination :=
  if d.type ≠ .SINGLE then d
  else { d with
    ratchets := retained privs, ratchetsEnabled := true
    latestRatchetTime := if retained privs = [] then 0 else latestTime, pathResponses := [] }

def disableRatchets (d : Destination) : Destination :=
  { d with ratchetsEnabled := false, ratchets := [], latestRatchetTime := 0, pathResponses := [] }

/-- Whether the ratchets are due to be rotated. -/
def rotates (now : Nat) (d : Destination) : Bool :=
  d.ratchetsEnabled ∧ (d.ratchets = [] ∨ d.latestRatchetTime + interval ≤ now)

/-- The destination afterwards, and whether its ratchets changed. -/
def rotateRatchets (now : Nat) (generated : Option Bytes) (d : Destination) : Destination × Bool :=
  if !rotates now d then (d, false)
  else match generated with
  | none => (d, false)
  | some ratchet =>
    ({ d with ratchets := (ratchet :: d.ratchets).take RATCHET_COUNT, latestRatchetTime := now }, true)

/-- The public half of the newest ratchet; `publicBytes` gives none where it throws. -/
def latestRatchet (publicBytes : Bytes → Option Bytes) (d : Destination) : Bytes :=
  if !d.ratchetsEnabled then [] else (d.ratchets.head?.bind publicBytes).getD []

-- ---------------------------------------------------------------------------
-- What a rotation does
-- ---------------------------------------------------------------------------

variable {privs : List Bytes} {d d' : Destination} {now latestTime : Nat} {generated : Option Bytes} {changed : Bool}

theorem retained_eq (hlen : ∀ b ∈ privs, b.length = RATCHETSIZE) (hcount : privs.length ≤ RATCHET_COUNT) :
    retained privs = privs := by
  unfold retained
  rw [List.filter_eq_self.2 (by simpa using hlen), List.take_of_length_le hcount]

/-- The ratchets stay as they are, or they were due and a new one leads them. -/
theorem rotateRatchets_cases (h : rotateRatchets now generated d = (d', changed)) :
    changed = false ∧ d' = d ∨ ∃ ratchet, generated = some ratchet ∧ changed = true ∧ rotates now d ∧
      d' = { d with ratchets := (ratchet :: d.ratchets).take RATCHET_COUNT, latestRatchetTime := now } := by
  unfold rotateRatchets at h
  split at h
  · cases h
    exact .inl ⟨rfl, rfl⟩
  · next hr =>
    cases generated with
    | none =>
      cases h
      exact .inl ⟨rfl, rfl⟩
    | some ratchet =>
      cases h
      exact .inr ⟨ratchet, rfl, rfl, by simpa using hr, rfl⟩

theorem rotates_iff : rotates now d ↔
    d.ratchetsEnabled ∧ (d.ratchets = [] ∨ d.latestRatchetTime + interval ≤ now) := by
  simp [rotates]

end MicroReticulum.Destinations
