import MicroReticulum.Bytes
import MicroReticulum.Lib.Utf8

/-!
# The name in an announce

`rnsdAnnounceName`: an announce's data is tried for four layouts in turn, and
the first that matches is copied to whole characters. `utf8Ok` counts what a
lead byte calls for and no more, and a name from an array is not looked at
before it is copied.
-/

namespace MicroReticulum.Peers

open Lib.Utf8

-- ---------------------------------------------------------------------------
-- utf8Ok
-- ---------------------------------------------------------------------------

/-- The continuation bytes a lead byte calls for. -/
def need (b : UInt8) : Option Nat :=
  if b < 0x80 then some 0
  else if b &&& 0xE0 = 0xC0 then some 1
  else if b &&& 0xF0 = 0xE0 then some 2
  else if b &&& 0xF8 = 0xF0 then some 3
  else none

def continues (b : UInt8) : Bool := b &&& 0xC0 = 0x80

/-- `utf8Ok` where a sequence still lacks so many bytes. -/
def utf8Rest : Nat → Bytes → Bool
  | 0, [] => true
  | _ + 1, [] => false
  | 0, b :: q =>
    match need b with
    | some k => utf8Rest k q
    | none => false
  | k + 1, b :: q => continues b && utf8Rest k q

def utf8Ok (q : Bytes) : Bool := utf8Rest 0 q

-- ---------------------------------------------------------------------------
-- rnsdAnnounceName
-- ---------------------------------------------------------------------------

def control (b : UInt8) : Bool := b = 0x7F || (b < 0x20 && b ≠ 0x09 && b ≠ 0x0A && b ≠ 0x0D)

def isPlausible (p : Bytes) (off len : Nat) : Bool :=
  if off ≥ p.length ∨ len = 0 then false
  else !(p.mid off len).any control && utf8Ok (p.mid off len)

/-- `while (len && !utf8Ok(q, len)) len--`. -/
def shrink (q : Bytes) : Nat → Nat
  | 0 => 0
  | len + 1 => if utf8Ok (q.take (len + 1)) then len + 1 else shrink q len

/-- `if (len >= outsz) len = outsz - 1`. -/
def room (outsz : Nat) (q : Bytes) : Nat := if q.length ≥ outsz then outsz - 1 else q.length

def copy (out q : Bytes) : Bytes :=
  let len := shrink q (room out.length q)
  q.take len ++ 0 :: out.drop (len + 1)

/-- Where the elements of an array begin that begins at `i` and is not empty. -/
def arrayBody (p : Bytes) (i : Nat) : Option Nat := do
  let b ← p[i]?
  if 0x90 ≤ b ∧ b ≤ 0x9F then
    if b &&& 0x0F = 0 then none else pure (i + 1)
  else if b = 0xDC then
    if i + 3 > p.length then none else pure (i + 3)
  else none

/-- The bytes of a string that begins at `i`: where, and how many. -/
def stringBody (p : Bytes) (t : UInt8) (i : Nat) : Option (Nat × Nat) :=
  if 0xA0 ≤ t ∧ t ≤ 0xBF then pure (i, (t &&& 0x1F).toNat)
  else if t = 0xD9 ∨ t = 0xC4 then do
    let len ← p[i]?
    pure (i + 1, len.toNat)
  else if t = 0xDA ∨ t = 0xC5 then
    if i + 2 > p.length then none else pure (i + 2, p.byte i * 256 + p.byte (i + 1))
  else none

/-- What is copied of an array; of a nil name there is nothing to copy. -/
def tryArray (p : Bytes) (i : Nat) : Option Bytes := do
  let i ← arrayBody p i
  let t ← p[i]?
  if t = 0xC0 then pure []
  else
    let (i, len) ← stringBody p t (i + 1)
    if i + len > p.length then none else pure (p.mid i len)

/-- What the first layout that matches is copied from. -/
def text (p : Bytes) : Option Bytes :=
  ((if p.length ≥ 34 then tryArray p 32 else none).or (tryArray p 0)).or
    (if p.length > 32 ∧ isPlausible p 32 (p.length - 32) then some (p.drop 32)
    else if isPlausible p 0 p.length then some p
    else none)

/-- `out` holds as many bytes as the caller's buffer. -/
def announceName (p out : Bytes) : Bytes :=
  if out = [] then out
  else if p = [] then out.set 0 0
  else
    match text p with
    | some q => copy (out.set 0 0) q
    | none => out.set 0 0

/-- A string as its reader has it: up to the first NUL. -/
def cString (out : Bytes) : Bytes := out.takeWhile (· ≠ 0)

-- ---------------------------------------------------------------------------
-- The specification
-- ---------------------------------------------------------------------------

/-- What a name is to be, whatever the announce. -/
structure Clean (p out out' : Bytes) : Prop where
  fits : out'.length = out.length
  terminated : 0 ∈ out'
  valid : Valid (cString out')
  text : ∀ b ∈ cString out', control b = false
  record : p.head? = some 0xF5 → cString out' = []

/-- Whatever of the text fits and passes `utf8Ok` is text. -/
def Harmless (p : Bytes) (outsz : Nat) : Prop :=
  ∀ q ∈ text p, ∀ v, v <+: q → v.length < outsz → utf8Ok v → 0 ∉ v →
    Fits v ∧ (∀ b ∈ v, control b = false) ∧ (p.head? = some 0xF5 → v = [])

-- ---------------------------------------------------------------------------
-- utf8Ok and the grammar
-- ---------------------------------------------------------------------------

variable {p q v w out : Bytes} {a b : UInt8} {k m n i cap : Nat}

theorem forall_byte {P : UInt8 → Prop} (h : ∀ n < 256, P (UInt8.ofNat n)) (b : UInt8) : P b := by
  have hb := h b.toNat b.toNat_lt
  rwa [UInt8.ofNat_toNat] at hb

theorem continues_iff : continues b = true ↔ Tail b := by
  revert b
  apply forall_byte
  decide +kernel

/-- The leads and what they call for, as ranges. -/
theorem need_cases (a : UInt8) :
    need a = none ∨ need a = some 0 ∧ a ≤ 0x7F ∨ need a = some 1 ∧ 0xC0 ≤ a ∧ a ≤ 0xDF ∨
      need a = some 2 ∧ 0xE0 ≤ a ∧ a ≤ 0xEF ∨ need a = some 3 ∧ 0xF0 ≤ a := by
  revert a
  apply forall_byte
  decide +kernel

theorem need_leads (a : UInt8) :
    (a ≤ 0x7F → need a = some 0) ∧ (0xC2 ≤ a → a ≤ 0xDF → need a = some 1) ∧
    (0xE0 ≤ a → a ≤ 0xEF → need a = some 2) ∧ (0xF0 ≤ a → a ≤ 0xF4 → need a = some 3) := by
  revert a
  apply forall_byte
  decide +kernel

theorem need_one (a : UInt8) : a ≤ 0x7F → need a = some 0 := (need_leads a).1

theorem need_two (a : UInt8) : 0xC2 ≤ a → a ≤ 0xDF → need a = some 1 := (need_leads a).2.1

theorem need_three (a : UInt8) : 0xE0 ≤ a → a ≤ 0xEF → need a = some 2 := (need_leads a).2.2.1

theorem need_four (a : UInt8) : 0xF0 ≤ a → a ≤ 0xF4 → need a = some 3 := (need_leads a).2.2.2

theorem utf8Rest_append_tails {tails rest : Bytes} (ht : ∀ b ∈ tails, Tail b) :
    utf8Rest tails.length (tails ++ rest) = utf8Rest 0 rest := by
  induction tails with
  | nil => rfl
  | cons b tails ih =>
    have hb := continues_iff.2 (ht b (by simp))
    rw [List.length_cons, List.cons_append, utf8Rest, hb, Bool.true_and, ih fun b h => ht b (List.mem_cons_of_mem _ h)]

/-- A sequence that lacks bytes goes on with as many tails. -/
theorem utf8Rest_tails (h : utf8Rest k q = true) :
    ∃ tails rest, q = tails ++ rest ∧ tails.length = k ∧ (∀ b ∈ tails, Tail b) ∧ utf8Rest 0 rest = true := by
  induction k generalizing q with
  | zero => exact ⟨[], q, rfl, rfl, by simp, h⟩
  | succ k ih =>
    cases q with
    | nil => cases h
    | cons b q =>
      rw [utf8Rest, Bool.and_eq_true] at h
      obtain ⟨tails, rest, rfl, hlen, ht, hrest⟩ := ih h.2
      refine ⟨b :: tails, rest, rfl, by rw [List.length_cons, hlen], ?_, hrest⟩
      simpa using ⟨continues_iff.1 h.1, ht⟩

theorem utf8Ok_sequence {c rest : Bytes} (h : Sequence c) : utf8Ok (c ++ rest) = utf8Ok rest := by
  have hstep : ∀ {a : UInt8} {tails : Bytes}, need a = some tails.length → (∀ b ∈ tails, Tail b) →
      utf8Ok (a :: tails ++ rest) = utf8Ok rest := by
    intro a tails ha ht
    rw [utf8Ok, List.cons_append, utf8Rest, ha]
    exact utf8Rest_append_tails ht
  cases h with
  | one ha => exact hstep (need_one _ ha) (by simp)
  | two ha ha' hb => exact hstep (need_two _ ha ha') (by simpa using hb)
  | three ha ha' hb hc => exact hstep (need_three _ ha ha') (by simpa using ⟨hb.tail, hc⟩)
  | four ha ha' hb hc hd => exact hstep (need_four _ ha ha') (by simpa using ⟨hb.tail, hc, hd⟩)

theorem utf8Ok_of_valid (h : Valid q) : utf8Ok q = true := by
  induction h with
  | nil => rfl
  | cons hc _ ih => exact (utf8Ok_sequence hc).trans ih

/-- What `utf8Ok` takes for a sequence is one if nothing in it is excluded. -/
theorem sequence_of_fits {tails : Bytes} (hn : need a = some tails.length) (ht : ∀ b ∈ tails, Tail b)
    (hx : ¬ Excluded a tails.head?) : Sequence (a :: tails) := by
  rcases need_cases a with h | ⟨h, ha⟩ | ⟨h, ha, ha'⟩ | ⟨h, ha, ha'⟩ | ⟨h, ha⟩
  · cases h.symm.trans hn
  all_goals
    have hlen := Option.some.inj (hn.symm.trans h)
  · cases List.length_eq_zero_iff.1 hlen
    exact .one ha
  · obtain ⟨b, rfl⟩ := List.length_eq_one_iff.1 hlen
    exact .two (lead_of_not_excluded hx ha).1 ha' (ht b (by simp))
  · obtain ⟨b, c, rfl⟩ := List.length_eq_two.1 hlen
    exact .three ha ha' (second_of_not_excluded (ht b (by simp)) hx) (ht c (by simp))
  · obtain ⟨b, c, d, rfl⟩ := List.length_eq_three.1 hlen
    have hlead := lead_of_not_excluded hx (UInt8.le_trans (by decide) ha)
    exact .four ha hlead.2 (second_of_not_excluded (ht b (by simp)) hx) (ht c (by simp)) (ht d (by simp))

/-- A text that passes is valid just if it has nothing in it that is excluded. -/
theorem valid_iff : Valid q ↔ utf8Ok q = true ∧ Fits q := by
  refine ⟨fun h => ⟨utf8Ok_of_valid h, h.fits⟩, ?_⟩
  rintro ⟨hok, hfits⟩
  induction hlen : q.length using Nat.strong_induction_on generalizing q with
  | _ n ih =>
    cases q with
    | nil => exact .nil
    | cons a q =>
      rw [utf8Ok, utf8Rest] at hok
      split at hok
      · next k hk =>
        obtain ⟨tails, rest, rfl, rfl, ht, hrest⟩ := utf8Rest_tails hok
        rw [← List.cons_append] at hfits ⊢
        obtain ⟨hx, hfits⟩ := (fits_sequence ht).1 hfits
        have hhead : ¬ Excluded a tails.head? := by
          cases tails with
          | nil => exact fun h => hx (h.grow _)
          | cons b tails => exact hx
        refine .cons (sequence_of_fits hk ht hhead) (ih rest.length ?_ hrest hfits rfl)
        simp [← hlen]
      · cases hok

-- ---------------------------------------------------------------------------
-- What is copied
-- ---------------------------------------------------------------------------

theorem shrink_le (q : Bytes) (n : Nat) : shrink q n ≤ n := by
  induction n with
  | zero => exact le_refl _
  | succ n ih =>
    unfold shrink
    split
    · exact le_refl _
    · exact Nat.le_succ_of_le ih

theorem utf8Ok_shrink (q : Bytes) (n : Nat) : utf8Ok (q.take (shrink q n)) = true := by
  induction n with
  | zero => rfl
  | succ n ih =>
    unfold shrink
    split
    · assumption
    · exact ih

/-- No longer piece passes. -/
theorem le_shrink (hm : m ≤ n) (h : utf8Ok (q.take m) = true) : m ≤ shrink q n := by
  induction n with
  | zero => exact hm
  | succ n ih =>
    unfold shrink
    split
    · exact hm
    · next hn =>
      rcases Nat.le_succ_iff.1 hm with hle | rfl
      · exact ih hle
      · exact absurd h hn

theorem utf8Rest_takeWhile (h : utf8Rest k q = true) : utf8Rest k (q.takeWhile (· ≠ 0)) = true := by
  induction q generalizing k with
  | nil => exact h
  | cons b q ih =>
    cases k with
    | zero =>
      rw [utf8Rest] at h
      split at h
      · next j hj =>
        by_cases hb : b = 0
        · simp [hb, utf8Rest]
        · simpa [hb, utf8Rest, hj] using ih h
      · cases h
    | succ k =>
      rw [utf8Rest, Bool.and_eq_true] at h
      have hb : b ≠ 0 := by
        rintro rfl
        exact absurd h.1 (by decide)
      simpa [hb, utf8Rest, h.1] using ih h.2

/-- What the copy of a text holds for its reader, in a buffer of `outsz` bytes. -/
def shown (outsz : Nat) (q : Bytes) : Bytes :=
  (q.take (shrink q (room outsz q))).takeWhile (· ≠ 0)

theorem cString_append (q rest : Bytes) : cString (q ++ 0 :: rest) = q.takeWhile (· ≠ 0) := by
  induction q with
  | nil => simp [cString]
  | cons b q ih =>
    by_cases hb : b = 0
    · simp [cString, hb]
    · simpa [cString, hb] using ih

theorem cString_copy : cString (copy out q) = shown out.length q := cString_append _ _

theorem room_le (q : Bytes) : room cap q ≤ q.length := by
  unfold room
  split
  · omega
  · exact le_refl _

theorem room_lt (h : 0 < cap) (q : Bytes) : room cap q < cap := by
  unfold room
  split
  · exact Nat.sub_lt h Nat.one_pos
  · omega

theorem le_room (hle : n ≤ q.length) (hlt : n < cap) : n ≤ room cap q := by
  unfold room
  split
  · exact Nat.le_sub_one_of_lt hlt
  · exact hle

theorem length_copy (h : out ≠ []) : (copy out q).length = out.length := by
  have hpos := List.length_pos_iff.2 h
  have hle := (shrink_le q (room out.length q)).trans (room_le q)
  have hlt := room_lt hpos q
  unfold copy
  dsimp only
  rw [List.length_append, List.length_cons, List.length_take, List.length_drop]
  have := shrink_le q (room out.length q)
  omega

theorem shown_start : shown cap q <+: q := by
  have htake : shown cap q <+: q.take (shrink q (room cap q)) := List.takeWhile_prefix _
  exact htake.trans <| List.take_prefix _ _

theorem shown_utf8Ok : utf8Ok (shown cap q) = true := utf8Rest_takeWhile (utf8Ok_shrink q _)

theorem zero_not_mem_shown : 0 ∉ shown cap q := by
  intro h
  have hall : (shown cap q).all (· ≠ 0) = true := List.all_takeWhile
  exact absurd rfl (of_decide_eq_true (List.all_eq_true.1 hall 0 h))

theorem length_shown_lt (h : 0 < cap) : (shown cap q).length < cap :=
  calc (shown cap q).length
    _ ≤ (q.take (shrink q (room cap q))).length := List.IsPrefix.length_le <| List.takeWhile_prefix _
    _ ≤ shrink q (room cap q) := List.length_take_le _ _
    _ ≤ room cap q := shrink_le _ _
    _ < cap := room_lt h q

/-- Nothing that fits, passes and has no NUL in it goes on further. -/
theorem prefix_shown (hp : v <+: q) (hlt : v.length < cap) (hok : utf8Ok v = true) (hz : 0 ∉ v) :
    v <+: shown cap q := by
  have hv : v = q.take v.length := List.prefix_iff_eq_take.1 hp
  have hlen : v.length ≤ shrink q (room cap q) := le_shrink (le_room hp.length_le hlt) (hv ▸ hok)
  have htake : v <+: q.take (shrink q (room cap q)) := by
    rw [hv]
    exact List.take_prefix_take_left hlen
  obtain ⟨more, hmore⟩ := htake
  have hpos : ∀ b ∈ v, decide (b ≠ 0) = true := fun b hb => decide_eq_true fun he => hz (he ▸ hb)
  rw [shown, ← hmore, List.takeWhile_append_of_pos hpos]
  exact List.prefix_append v _

-- ---------------------------------------------------------------------------
-- Clean names
-- ---------------------------------------------------------------------------

theorem length_announceName (p out : Bytes) : (announceName p out).length = out.length := by
  unfold announceName
  split
  · rfl
  · next ho =>
    split
    · exact List.length_set
    · split
      · have hne : out.set 0 0 ≠ [] := by simpa using ho
        exact (length_copy hne).trans List.length_set
      · exact List.length_set

/-- The reader has what is shown of the text, if there is text. -/
theorem cString_announceName (ho : out ≠ []) :
    cString (announceName p out) = ((text p).map (shown out.length)).getD [] := by
  have hempty : ∀ l : Bytes, cString (l.set 0 0) = [] := by
    intro l
    cases l <;> simp [cString]
  unfold announceName
  rw [if_neg ho]
  split
  · next hp =>
    subst hp
    rw [hempty]
    rfl
  · split
    · next q hq =>
      rw [cString_copy, List.length_set, hq]
      rfl
    · next hq =>
      rw [hempty, hq]
      rfl

theorem zero_mem_announceName (ho : out ≠ []) : 0 ∈ announceName p out := by
  have hset : 0 ∈ out.set 0 0 := List.mem_set (List.length_pos_iff.2 ho) 0
  unfold announceName
  rw [if_neg ho]
  split
  · exact hset
  · split
    · simp [copy]
    · exact hset

/-- The names are clean just where nothing harmful is shown of the text. -/
theorem names_clean_iff (p out : Bytes) (ho : out ≠ []) :
    Clean p out (announceName p out) ↔ Harmless p out.length := by
  have hpos := List.length_pos_iff.2 ho
  constructor
  · intro h q hq v hp hlt hok hz
    have hshown : cString (announceName p out) = shown out.length q := by
      rw [cString_announceName ho, hq]
      rfl
    have hv : v <+: cString (announceName p out) := hshown ▸ prefix_shown hp hlt hok hz
    refine ⟨h.valid.fits.of_prefix hv, fun b hb => h.text b (hv.subset hb), fun hrecord => ?_⟩
    exact List.prefix_nil.1 (h.record hrecord ▸ hv)
  · intro h
    have hshown : Valid (cString (announceName p out)) ∧ (∀ b ∈ cString (announceName p out), control b = false) ∧
        (p.head? = some 0xF5 → cString (announceName p out) = []) := by
      rw [cString_announceName ho]
      cases hq : text p with
      | none => exact ⟨.nil, by simp, fun _ => rfl⟩
      | some q =>
        obtain ⟨hfits, htext, hrecord⟩ :=
          h q hq (shown out.length q) shown_start (length_shown_lt hpos) shown_utf8Ok zero_not_mem_shown
        exact ⟨valid_iff.2 ⟨shown_utf8Ok, hfits⟩, htext, hrecord⟩
    exact ⟨length_announceName p out, zero_mem_announceName ho, hshown.1, hshown.2.1, hshown.2.2⟩

theorem names_clean_ab :
    Clean [0x61, 0x62] (List.replicate 8 0) (announceName [0x61, 0x62] (List.replicate 8 0)) ↔
      Harmless [0x61, 0x62] 8 :=
  names_clean_iff [0x61, 0x62] (List.replicate 8 0) (by decide)

/-- A record led by 0xF5 reads as a name of one character above U+10FFFF. -/
theorem names_record :
    ¬ ∀ p out : Bytes, out ≠ [] → Clean p out (announceName p out) := by
  intro h
  have hc := h [0xF5, 0x80, 0x80, 0x80] (List.replicate 8 0) (by decide)
  exact absurd (hc.record rfl) (by decide)

end MicroReticulum.Peers
