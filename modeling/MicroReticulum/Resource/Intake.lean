import MicroReticulum.Lib.Runs
import MicroReticulum.Resource.Incoming

/-!
# The incoming resources of a link

`_incoming_resources` and what `Link::receive` and `Link::resource_watchdogs` do
with it. The set is in the order of where the objects lie in memory, so a new
one is put anywhere. A part has nothing in it that says which resource it is of:
it is offered to one after the other until one takes it.
-/

namespace MicroReticulum.Resource

open Lib (Outcome)
open MsgPack (ResourceAdvertisement)

/-- Nothing more is to come for the resource. -/
def Status.concluded : Status → Bool
  | .complete | .corrupt | .failed => true
  | _ => false

structure Intake where
  /-- Every object made, oldest first. -/
  objects : List Incoming := []
  /-- `_incoming_resources`. -/
  incoming : List Nat := []
  /-- A read has left its buffer. -/
  down : Bool := false

namespace Intake

inductive Op where
  | accept (env : Env) (adv : ResourceAdvertisement) (requestId : Bytes) (concludedCallback progressCallback : Bool)
      (place : Nat)
  /-- A packet with the context `RESOURCE`, and what each resource finds around it. -/
  | part (env : Nat → Env) (handlerThrows : Bool) (data : Bytes)
  /-- One with `RESOURCE_HMU`. -/
  | hashmapUpdate (env : Env) (plaintext : Bytes)
  /-- A pass of the watchdogs comes to a resource; it goes through the set, up to a throw. -/
  | watchdog (env : Env) (k : Nat)

variable (c : Codec) (s : Intake)

def set (k : Nat) (d : Incoming) : Intake := { s with objects := s.objects.set k d }

def erase (k : Nat) : Intake := { s with incoming := s.incoming.erase k }

def accept (env : Env) (adv : ResourceAdvertisement) (requestId : Bytes)
    (concludedCallback progressCallback : Bool) (place : Nat) : Intake :=
  match (Incoming.accept env adv requestId concludedCallback progressCallback).bind Outcome.state? with
  | some d => { s with
      objects := s.objects ++ [d]
      incoming := s.incoming.take place ++ s.objects.length :: s.incoming.drop place }
  | none => s

/-- A resource that took a part leaves the set once it is concluded, unless what the link
does with a concluded request or response throws before. -/
def settle (handlerThrows : Bool) (k : Nat) (d : Incoming) : Intake :=
  if d.status.concluded ∧ ¬ (handlerThrows ∧ (d.flags.isRequest ∨ d.flags.isResponse)) then (s.set k d).erase k
  else s.set k d

/-- A part goes from resource to resource until one takes it. -/
def offer (env : Nat → Env) (handlerThrows : Bool) (data : Bytes) : List Nat → Intake → Intake
  | [], s => s
  | k :: ks, s =>
    match s.objects[k]? with
    | none => s
    | some d =>
      match d.receivePart c (env k) data with
      | (.done d, false) => offer env handlerThrows data ks (s.set k d)
      | (.done d, true) => s.settle handlerThrows k d
      | (.threw d, _) => s.set k d
      | (.aborted, _) => { s with down := true }

/-- The resource a hashmap update is for. -/
def addressed (plaintext : Bytes) : Option Nat :=
  if plaintext.length ≥ HASH_SIZE then
    s.incoming.find? fun k => s.objects[k]?.any (·.hash = plaintext.left HASH_SIZE)
  else none

def hashmapUpdate (env : Env) (plaintext : Bytes) : Intake :=
  match s.addressed plaintext with
  | none => s
  | some k =>
    match s.objects[k]? with
    | none => s
    | some d =>
      match (d.hashmapUpdatePacket env plaintext).state? with
      | some d => s.set k d
      | none => { s with down := true }

def watchdog (env : Env) (k : Nat) : Intake :=
  if k ∈ s.incoming then
    match s.objects[k]? with
    | none => s
    | some d =>
      match d.watchdog env with
      | .done d => if d.status.concluded then (s.set k d).erase k else s.set k d
      | .threw d => s.set k d
      | .aborted => { s with down := true }
  else s

def act : Op → Intake
  | .accept env adv requestId concludedCallback progressCallback place =>
    s.accept env adv requestId concludedCallback progressCallback place
  | .part env handlerThrows data => offer c env handlerThrows data s.incoming s
  | .hashmapUpdate env plaintext => s.hashmapUpdate env plaintext
  | .watchdog env k => s.watchdog env k

def step (s : Intake) (op : Op) : Intake := if s.down then s else s.act c op

-- ---------------------------------------------------------------------------
-- What is registered
-- ---------------------------------------------------------------------------

variable {c} {s} {k j : Nat} {d : Incoming}

theorem set_objects (hd : s.objects[k]? = some d) (d' : Incoming) :
    (s.set k d').objects[j]? = if k = j then some d' else s.objects[j]? := by
  have hlt : k < s.objects.length := (List.getElem?_eq_some_iff.1 hd).1
  rw [set, List.getElem?_set]
  split
  · rfl
  · rfl

end Intake

end MicroReticulum.Resource
