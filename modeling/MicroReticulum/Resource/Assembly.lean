import MicroReticulum.Resource.Hashmap

/-!
# What a full receiver has

A part has no index. The sender answers a hash with the first part that has it,
and the receiver puts a part in the first empty slot that waits for its hash. So
a full receiver has the stream if parts of one hash are one; where the last hash
of a segment stands in the map before, the receiver is never full.
-/

namespace MicroReticulum.Resource

open Lib (Outcome)
open Lib.Blocks
open Lib.Cursor
open Lib.Runs

-- ---------------------------------------------------------------------------
-- The specification
-- ---------------------------------------------------------------------------

/-- Every slot is filled. -/
def Incoming.Full (d : Incoming) : Prop := ∀ i < d.totalParts, d.parts.getD i [] ≠ []

/-- A full receiver has the stream. -/
def Transfer.Reassembles (stream : Bytes) (s : Transfer) : Prop :=
  ∀ r, s.receiver = some r → r.Full → r.parts.flatten = stream

namespace Offer

variable {c : Codec} {o : Offer} {k : Nat}

/-- Parts with one hash are one part. -/
def Distinguishes (c : Codec) (o : Offer) : Prop :=
  ∀ p ∈ o.parts, ∀ q ∈ o.parts, c.mapHash o.randomHash p = c.mapHash o.randomHash q → p = q

instance (c : Codec) (o : Offer) : Decidable (o.Distinguishes c) :=
  inferInstanceAs (Decidable (∀ p ∈ o.parts, ∀ q ∈ o.parts, _ → _))

/-- The last hash of the `k`-th segment stands in the map before, and parts follow it. -/
def Blocks (c : Codec) (o : Offer) (k : Nat) : Prop :=
  k * HASHMAP_MAX_LEN < o.totalParts ∧
    ∃ j, j + 1 < k * HASHMAP_MAX_LEN ∧ (o.hashes c)[j]? = (o.hashes c)[k * HASHMAP_MAX_LEN - 1]?

end Offer

namespace Transfer

variable {c : Codec} {o : Offer} {s : Transfer} {k limit : Nat}

-- ---------------------------------------------------------------------------
-- Distinct parts
-- ---------------------------------------------------------------------------

theorem Inv.slot (h : Inv c o limit s) (hd : o.Distinguishes c) {r : Incoming} (hr : s.receiver = some r) {i : Nat}
    (hi : r.parts.getD i [] ≠ []) : o.parts[i]? = some (r.parts.getD i []) := by
  obtain ⟨-, hmem, hhash⟩ := (h.receiver r hr).1.slots i hi
  rw [Offer.hashes, List.getElem?_map, Option.map_eq_some_iff] at hhash
  obtain ⟨part, hpart, he⟩ := hhash
  rw [hpart, hd _ (List.mem_of_getElem? hpart) _ hmem he]

theorem Inv.totalParts (h : Inv c o limit s) {r : Incoming} (hr : s.receiver = some r) :
    r.totalParts = o.totalParts := by
  have htotal := (h.receiver r hr).1.knows.totalParts
  rwa [Offer.length_hashes] at htotal

theorem Inv.full (h : Inv c o limit s) (hd : o.Distinguishes c) {r : Incoming} (hr : s.receiver = some r)
    (hf : r.Full) : r.parts = o.parts := by
  have hlen : r.parts.length = o.totalParts := (h.receiver r hr).1.length_parts
  have htotal := h.totalParts hr
  apply List.ext_getElem?
  intro i
  rcases lt_or_ge i r.parts.length with hi | hi
  · have hne := hf i (by omega)
    rw [h.slot hd hr hne, List.getD_eq_getElem?_getD, List.getElem?_eq_getElem hi]
    rfl
  · have hi' : o.parts.length ≤ i := hlen.symm.trans_le hi
    rw [List.getElem?_eq_none hi, List.getElem?_eq_none hi']

-- ---------------------------------------------------------------------------
-- Blocked maps
-- ---------------------------------------------------------------------------

theorem limit_of_blocks (hb : o.Blocks c k) : Limit c o (k * HASHMAP_MAX_LEN) :=
  .inr ⟨hb.1, Nat.mul_mod_left .., hb.2⟩

/-- The slot behind the limit waits for a hash that never comes. -/
theorem Inv.not_full (h : Inv c o limit s) (hn : limit < o.totalParts) {r : Incoming} (hr : s.receiver = some r) :
    ¬ r.Full := by
  intro hf
  obtain ⟨hfollows, hle⟩ := h.receiver r hr
  have hne := hf limit (by rw [h.totalParts hr]; exact hn)
  obtain ⟨hlt, -⟩ := hfollows.slots limit hne
  exact absurd hle (not_le.2 hlt)

-- ---------------------------------------------------------------------------
-- Every run
-- ---------------------------------------------------------------------------

/-- No two parts share a hash, or no receiver gets the whole map. -/
def Safe (c : Codec) (o : Offer) : Prop := o.Distinguishes c ∨ ∃ k, o.Blocks c k

/-- Whatever is lost, repeated and overtaken, what a full receiver has is the stream. -/
theorem reassembles (c : Codec) (env : Env) (src : Outgoing.Source) (ops : List Op)
    (hs : Safe c (Outgoing.ofSource c env src).toOffer) :
    (run (step c) (start c env src) ops).Reassembles src.stream := by
  intro r hr hf
  rcases hs with hd | ⟨k, hb⟩
  · have h := run_inv env src ops (whole_limit c _)
    rw [h.full hd hr hf]
    exact flatten_pieces src.sdu_pos
  · have h := run_inv env src ops (limit_of_blocks hb)
    exact absurd hf (h.not_full hb.1 hr)

theorem reassembles_two :
    (run (step byLength) (start byLength (clear 0) twoParts)
      [.advertise (clear 0), .cancelSender (clear 1)]).Reassembles twoParts.stream :=
  reassembles byLength (clear 0) twoParts [.advertise (clear 0), .cancelSender (clear 1)]
    (.inl (by decide +kernel))

/-- A hash that tells nothing apart. -/
def byNothing : Codec where
  fullHash _ := List.replicate 32 0
  length_fullHash _ := rfl
  decompress _ _ := none

/-- The advertisement arrives, the request, and the one part the sender finds, which it is
asked for twice. -/
def foundTwice : List Op :=
  let s := start byNothing (clear 0) twoParts
  let packed := s.sender.advertisement.pack
  let request := HASHMAP_IS_NOT_EXHAUSTED :: (s.sender.hash ++ List.replicate 8 0)
  let part := List.replicate 464 0
  [.advertise (clear 0), .accept (clear 1) packed [] false false, .deliver (clear 2) [] (.request request),
    .deliver (clear 3) [] (.part part), .deliver (clear 4) [] (.part part)]

/-- Both slots have the first part. -/
theorem reassembles_first_part :
    ¬ (run (step byNothing) (start byNothing (clear 0) twoParts) foundTwice).Reassembles twoParts.stream := by
  have hparts : (run (step byNothing) (start byNothing (clear 0) twoParts) foundTwice).receiver.map
      (fun r => (r.totalParts, r.parts)) = some (2, [List.replicate 464 0, List.replicate 464 0]) := by
    decide +kernel
  intro h
  obtain ⟨r, hr, he⟩ := Option.map_eq_some_iff.1 hparts
  obtain ⟨htotal, hslots⟩ := Prod.mk.inj he
  have hfull : r.Full := by
    intro i hi
    rw [htotal] at hi
    rw [hslots]
    interval_cases i <;> decide
  have hlen := congrArg List.length (h r hr hfull)
  have hstream : twoParts.stream.length = 465 := List.length_replicate
  rw [hslots, hstream] at hlen
  simp only [List.flatten_cons, List.flatten_nil, List.length_append, List.length_replicate, List.length_nil] at hlen
  omega

end Transfer

end MicroReticulum.Resource
