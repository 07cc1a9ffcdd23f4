import MicroReticulum.Lib.Recent
import MicroReticulum.Lib.Runs
import MicroReticulum.Transport.Questions

/-!
# What Transport remembers having seen

The packet hashlist and the path-request tags: each a set to look things up in
and a list in the order they came. A packet hash goes in through `remember_hash`,
a tag where the handler has not found it; `jobs` culls both from the front.
-/

namespace MicroReticulum.Transport

open Lib (Recent)
open Lib.Runs

structure Remembered where
  packetHashlist : Recent Bytes := {}
  discoveryPrTags : Recent Bytes := {}
  /-- Ghost: every hash, and every tag, ever put in, oldest first. -/
  hashLog : List Bytes := []
  tagLog : List Bytes := []

namespace Remembered

variable (s : Remembered)

/-- `insert(hash).second` tells whether the hash was new. -/
def rememberHash (hash : Bytes) : Remembered :=
  { s with packetHashlist := s.packetHashlist.remember hash, hashLog := s.packetHashlist.logged hash s.hashLog }

/-- The handler of a path request: a tag it finds is a duplicate. -/
def seeTag (uniqueTag : Bytes) : Remembered :=
  { s with discoveryPrTags := s.discoveryPrTags.remember uniqueTag, tagLog := s.discoveryPrTags.logged uniqueTag s.tagLog }

/-- The culls of `jobs`. -/
def cull (hashlistMaxsize maxPrTags : Nat) : Remembered :=
  { s with
    packetHashlist := s.packetHashlist.cull hashlistMaxsize
    discoveryPrTags := s.discoveryPrTags.cull maxPrTags }

/-- The packet filter's lookup. -/
def knowsHash (hash : Bytes) : Bool := hash ∈ s.packetHashlist.known

def knowsTag (uniqueTag : Bytes) : Bool := uniqueTag ∈ s.discoveryPrTags.known

inductive Op where
  | rememberHash (hash : Bytes)
  | seeTag (uniqueTag : Bytes)
  | lookUp (bytes : Bytes)
  | cull (hashlistMaxsize maxPrTags : Nat)

def step : Op → Remembered
  | .rememberHash hash => s.rememberHash hash
  | .seeTag uniqueTag => s.seeTag uniqueTag
  | .lookUp _ => s
  | .cull hashlistMaxsize maxPrTags => s.cull hashlistMaxsize maxPrTags

/-- Both lists agree with their sets and are the end of what was put in. -/
structure Agrees : Prop where
  hashes : s.packetHashlist.Keeps s.hashLog
  tags : s.discoveryPrTags.Keeps s.tagLog

variable {s} {op : Op} {r : Recent Bytes} {log : List Bytes}

theorem Agrees.step (h : s.Agrees) (op : Op) : (s.step op).Agrees := by
  cases op with
  | rememberHash hash => exact ⟨h.hashes.remember hash, h.tags⟩
  | seeTag uniqueTag => exact ⟨h.hashes, h.tags.remember uniqueTag⟩
  | lookUp _ => exact h
  | cull hashlistMaxsize maxPrTags => exact ⟨h.hashes.cull hashlistMaxsize, h.tags.cull maxPrTags⟩

/-- A lookup finds what is in the list. -/
theorem Agrees.knows (h : s.Agrees) (b : Bytes) :
    (s.knowsHash b ↔ b ∈ s.packetHashlist.order) ∧ (s.knowsTag b ↔ b ∈ s.discoveryPrTags.order) :=
  ⟨by rw [knowsHash, decide_eq_true_iff, h.hashes.mem], by rw [knowsTag, decide_eq_true_iff, h.tags.mem]⟩

/-- What is left of a list that is the end of a log: its last `max`, if there were more. -/
structure Culled (max : Nat) (log : List Bytes) (r r' : Recent Bytes) : Prop where
  within : r'.known.card ≤ max
  survivors : r'.order = log.drop (log.length - min max r.known.card)

theorem culled (h : r.Keeps log) (max : Nat) : Culled max log r (r.cull max) :=
  ⟨(h.survivors max).2.trans_le (min_le_left _ _), (h.survivors max).1⟩

/-- The tag list of a node's state is the order list of such a memory: a new tag
goes to its end, and a cull takes what `cullTags` takes. -/
theorem tags_of_node (h : r.Keeps log) (t : Questions.State) (ht : t.discoveryPrTags = r.order) (maxPrTags : Nat) (tag : Bytes) :
    (r.remember tag).order = (if tag ∈ t.discoveryPrTags then t.discoveryPrTags else t.discoveryPrTags ++ [tag]) ∧
      (r.cull maxPrTags).order = (Questions.cullTags maxPrTags t).1.discoveryPrTags := by
  constructor
  · rw [ht, h.remember_order]
    congr
  · rw [h.cull_eq maxPrTags]
    show _ = t.discoveryPrTags.drop _
    rw [ht]

end Remembered

end MicroReticulum.Transport
