import Mathlib.Data.List.GetD
import Mathlib.Tactic
import MicroReticulum.Destination.Announce

/-!
# Route trailers

A relay may say something about the path beyond it at the end of its copy of an
announce: the context byte is marked, and the last byte counts what was put
before it. `route_trailer_strip` takes count and trailer off together and puts
the context back; any other frame it leaves alone.
-/

namespace MicroReticulum.Packet

open Destinations (CONTEXT_NONE PATH_RESPONSE)

def ROUTE_CONTEXT : UInt8 := 0xC1
def ROUTE_CONTEXT_REPLY : UInt8 := 0xC2
def ANNOUNCE : Nat := 0x01
/-- Key, name hash, random hash and signature. -/
def LEAST : Nat := 64 + 10 + 10 + 64

/-- Where the context byte is, by the header's type. -/
def contextAt (raw : Bytes) : Nat := if raw.byte 0 &&& 0x40 ≠ 0 then 34 else 18

/-- The context a marked one stands for. -/
def ownContext (context : UInt8) : Option UInt8 :=
  if context = ROUTE_CONTEXT then some CONTEXT_NONE
  else if context = ROUTE_CONTEXT_REPLY then some PATH_RESPONSE
  else none

/-- The trailer, empty for none, and what is left of the frame. -/
def routeTrailerStrip (raw : Bytes) : Bytes × Bytes :=
  let n := raw.length
  if n < 2 ∨ raw.byte 0 &&& 0x80 ≠ 0 ∨ raw.byte 0 &&& 0x03 ≠ ANNOUNCE then ([], raw)
  else if n ≤ contextAt raw then ([], raw)
  else match ownContext (raw.getD (contextAt raw) 0) with
    | none => ([], raw)
    | some own =>
      let tail := raw.byte (n - 1) + 1
      if tail < 2 ∨ n < contextAt raw + 1 + LEAST + tail then ([], raw)
      else (raw.right tail, (raw.left (n - tail)).set (contextAt raw) own)

-- ---------------------------------------------------------------------------
-- The sender's side
-- ---------------------------------------------------------------------------

/-- An announce frame without an access code, its context none or that of an answer. -/
structure IsAnnounce (frame : Bytes) : Prop where
  open_ : frame.byte 0 &&& 0x80 = 0
  announce : frame.byte 0 &&& 0x03 = ANNOUNCE
  length : contextAt frame + 1 + LEAST ≤ frame.length
  context : frame.getD (contextAt frame) 0 = CONTEXT_NONE ∨ frame.getD (contextAt frame) 0 = PATH_RESPONSE

def markContext (context : UInt8) : UInt8 :=
  if context = PATH_RESPONSE then ROUTE_CONTEXT_REPLY else ROUTE_CONTEXT

/-- The announce with its context marked, and trailer and count behind it. -/
def mark (frame trailer : Bytes) : Bytes :=
  frame.set (contextAt frame) (markContext (frame.getD (contextAt frame) 0)) ++
    (trailer ++ [.ofNat trailer.length])

-- ---------------------------------------------------------------------------
-- Bytes around the context
-- ---------------------------------------------------------------------------

variable {raw frame trailer : Bytes} {context own : UInt8}

theorem contextAt_pos (raw : Bytes) : 0 < contextAt raw := by
  unfold contextAt
  split <;> decide

theorem ownContext_markContext (h : context = CONTEXT_NONE ∨ context = PATH_RESPONSE) :
    ownContext (markContext context) = some context := by
  rcases h with rfl | rfl <;> rfl

theorem markContext_ownContext (h : ownContext context = some own) :
    markContext own = context ∧ (own = CONTEXT_NONE ∨ own = PATH_RESPONSE) := by
  unfold ownContext at h
  split at h
  · next hc =>
    cases h
    exact ⟨hc.symm, .inl rfl⟩
  · split at h
    · next hc =>
      cases h
      exact ⟨hc.symm, .inr rfl⟩
    · cases h

/-- Past the first byte, a frame's header stays what it was. -/
theorem byte_zero_append {b c : Bytes} (h : 0 < b.length) : (b ++ c).byte 0 = b.byte 0 := by
  unfold Bytes.byte
  rw [List.getD_append _ _ _ _ h]

theorem byte_zero_set {b : Bytes} {i : Nat} (h : 0 < i) (x : UInt8) : Bytes.byte (b.set i x) 0 = b.byte 0 := by
  unfold Bytes.byte
  rw [List.getD_eq_getElem?_getD, List.getD_eq_getElem?_getD, List.getElem?_set_ne h.ne']

theorem contextAt_congr {b c : Bytes} (h : b.byte 0 = c.byte 0) : contextAt b = contextAt c := by
  unfold contextAt
  rw [h]

theorem last_byte (b : Bytes) (x : UInt8) : (b ++ [x]).byte ((b ++ [x]).length - 1) = x.toNat := by
  unfold Bytes.byte
  simp

theorem set_own {b : Bytes} {i : Nat} (h : i < b.length) : b.set i (b.getD i 0) = b := by
  rw [List.getD_eq_getElem _ _ h, List.set_getElem_self]

-- ---------------------------------------------------------------------------
-- Both directions
-- ---------------------------------------------------------------------------

theorem strip_mark (h : IsAnnounce frame) (hpos : 1 ≤ trailer.length) (hle : trailer.length ≤ 255) :
    routeTrailerStrip (mark frame trailer) = (trailer ++ [.ofNat trailer.length], frame) := by
  have hat := h.length
  have hlt : contextAt frame < frame.length := by unfold LEAST at hat; omega
  have hzero : (mark frame trailer).byte 0 = frame.byte 0 := by
    unfold mark
    rw [byte_zero_append (by rw [List.length_set]; omega), byte_zero_set (contextAt_pos _)]
  have hctx := contextAt_congr hzero
  have hlen : (mark frame trailer).length = frame.length + (trailer.length + 1) := by
    simp [mark]
  have hcount : (mark frame trailer).byte ((mark frame trailer).length - 1) = trailer.length := by
    unfold mark
    rw [← List.append_assoc, last_byte, UInt8.toNat_ofNat', Nat.mod_eq_of_lt (by omega)]
  have hmarked : (mark frame trailer).getD (contextAt frame) 0 =
      markContext (frame.getD (contextAt frame) 0) := by
    unfold mark
    rw [List.getD_append _ _ _ _ (by rw [List.length_set]; exact hlt), List.getD_eq_getElem?_getD,
      List.getElem?_set_self hlt, Option.getD_some]
  have hfront : ¬ ((mark frame trailer).length < 2 ∨ (mark frame trailer).byte 0 &&& 0x80 ≠ 0 ∨
      (mark frame trailer).byte 0 &&& 0x03 ≠ ANNOUNCE) := by
    rw [hzero, h.open_, h.announce, hlen]
    simp
    omega
  unfold routeTrailerStrip
  dsimp only
  rw [if_neg hfront, hctx, if_neg (by omega), hmarked, ownContext_markContext h.context]
  dsimp only
  rw [hcount, if_neg (by rw [hlen]; unfold LEAST at hat ⊢; omega), hlen]
  have hset : (frame.set (contextAt frame) (markContext (frame.getD (contextAt frame) 0))).length =
      frame.length := List.length_set
  have hright : (mark frame trailer).right (trailer.length + 1) = trailer ++ [.ofNat trailer.length] := by
    rw [Bytes.right, hlen, Nat.add_sub_cancel, mark, List.drop_left' hset]
  have hleft : (mark frame trailer).left (frame.length + (trailer.length + 1) - (trailer.length + 1)) =
      frame.set (contextAt frame) (markContext (frame.getD (contextAt frame) 0)) := by
    rw [Nat.add_sub_cancel, Bytes.left, mark, List.take_left' hset]
  rw [hright, hleft, List.set_set, set_own hlt]

/-- The last of some bytes, behind the others. -/
theorem dropLast_byte {b : Bytes} (h : b ≠ []) : b.dropLast ++ [.ofNat (b.byte (b.length - 1))] = b := by
  have hlast : UInt8.ofNat (b.byte (b.length - 1)) = b.getLast h := by
    have hlt : b.length - 1 < b.length := Nat.sub_lt (List.length_pos_iff.2 h) Nat.one_pos
    rw [Bytes.byte, UInt8.ofNat_toNat, List.getD_eq_getElem _ _ hlt, List.getLast_eq_getElem]
  rw [hlast, List.dropLast_append_getLast]

/-- A frame that a trailer is taken from was made by putting it on. -/
theorem mark_of_taken {count : Nat} (hopen : raw.byte 0 &&& 0x80 = 0) (hann : raw.byte 0 &&& 0x03 = ANNOUNCE)
    (hown : ownContext (raw.getD (contextAt raw) 0) = some own) (hcount : raw.byte (raw.length - 1) = count)
    (hpos : 1 ≤ count) (hwhole : contextAt raw + 1 + LEAST + (count + 1) ≤ raw.length) :
    ∃ frame trailer, IsAnnounce frame ∧ 1 ≤ trailer.length ∧ trailer.length ≤ 255 ∧ raw = mark frame trailer := by
  let k := raw.length - (count + 1)
  have hk : k + (count + 1) = raw.length := Nat.sub_add_cancel (le_trans (Nat.le_add_left _ _) hwhole)
  have hat : contextAt raw < k := by omega
  have hfront : (raw.take k).length = k := List.length_take_of_le (by omega)
  have hcontext : (raw.take k).getD (contextAt raw) 0 = raw.getD (contextAt raw) 0 := by
    rw [List.getD_eq_getElem?_getD, List.getD_eq_getElem?_getD, List.getElem?_take_of_lt hat]
  obtain ⟨hmark, hplain⟩ := markContext_ownContext hown
  have hzero : Bytes.byte ((raw.take k).set (contextAt raw) own) 0 = raw.byte 0 := by
    rw [byte_zero_set (contextAt_pos _)]
    unfold Bytes.byte
    rw [List.getD_eq_getElem?_getD, List.getD_eq_getElem?_getD, List.getElem?_take_of_lt (by omega)]
  have hctx := contextAt_congr hzero
  have hget : ((raw.take k).set (contextAt raw) own).getD (contextAt raw) 0 = own := by
    rw [List.getD_eq_getElem?_getD, List.getElem?_set_self (by rw [hfront]; exact hat), Option.getD_some]
  have hdrop : (raw.drop k).length = count + 1 := by rw [List.length_drop]; omega
  have htrailer : (raw.drop k).dropLast.length = count := by rw [List.length_dropLast, hdrop, Nat.add_sub_cancel]
  have hlast : Bytes.byte (raw.drop k) ((raw.drop k).length - 1) = count := by
    rw [← hcount]
    unfold Bytes.byte
    rw [List.getD_eq_getElem?_getD, List.getD_eq_getElem?_getD, List.getElem?_drop]
    congr 3
    omega
  have hbyte : count < 256 := by
    rw [← hcount]
    exact UInt8.toNat_lt _
  refine ⟨(raw.take k).set (contextAt raw) own, (raw.drop k).dropLast, ⟨?_, ?_, ?_, ?_⟩, ?_, ?_, ?_⟩
  · rw [hzero, hopen]
  · rw [hzero, hann]
  · rw [hctx, List.length_set, hfront]
    omega
  · rw [hctx, hget]
    exact hplain
  · rw [htrailer]
    exact hpos
  · rw [htrailer]
    omega
  · rw [mark, hctx, hget, hmark, List.set_set, ← hcontext, set_own (by rw [hfront]; exact hat), htrailer, ← hlast,
      dropLast_byte (List.ne_nil_of_length_pos (by omega)), List.take_append_drop]

theorem strip_none (h : ¬ ∃ frame trailer, IsAnnounce frame ∧ 1 ≤ trailer.length ∧ trailer.length ≤ 255 ∧
    raw = mark frame trailer) : routeTrailerStrip raw = ([], raw) := by
  unfold routeTrailerStrip
  dsimp only
  split
  · rfl
  · next hfront =>
    simp only [not_or, not_not] at hfront
    split
    · rfl
    · split
      · rfl
      · next own hown =>
        split
        · rfl
        · next hwhole =>
          rw [not_or, not_lt, not_lt] at hwhole
          exact absurd (mark_of_taken hfront.2.1 hfront.2.2 hown rfl (by omega) hwhole.2) h

/-- Stripping undoes the marking, and does nothing to any other frame. What it
returns is the trailer with its count. -/
theorem strip_undoes_mark (frame trailer raw : Bytes) :
    (IsAnnounce frame → 1 ≤ trailer.length → trailer.length ≤ 255 →
      routeTrailerStrip (mark frame trailer) = (trailer ++ [.ofNat trailer.length], frame)) ∧
    ((¬ ∃ frame trailer, IsAnnounce frame ∧ 1 ≤ trailer.length ∧ trailer.length ≤ 255 ∧ raw = mark frame trailer) →
      routeTrailerStrip raw = ([], raw)) :=
  ⟨strip_mark, strip_none⟩

/-- The least announce there is, nothing in it. -/
def leastAnnounce : Bytes := 0x01 :: List.replicate (18 + LEAST) 0

/-- What comes back is not the trailer alone. -/
theorem strip_returns_count : (leastAnnounce.byte 0 &&& 0x80 = 0 ∧ leastAnnounce.byte 0 &&& 0x03 = ANNOUNCE ∧
      contextAt leastAnnounce + 1 + LEAST ≤ leastAnnounce.length ∧
      leastAnnounce.getD (contextAt leastAnnounce) 0 = CONTEXT_NONE) ∧
    (routeTrailerStrip (mark leastAnnounce [7])).1 = [7, 1] ∧ (routeTrailerStrip (mark leastAnnounce [7])).1 ≠ [7] := by
  decide +kernel

end MicroReticulum.Packet
