import MicroReticulum.Peers.Names

/-!
# Which names are recovered

A name is written raw, or as the first element of a MessagePack array. The
layouts are tried at byte 32 before byte 0, for a ratchet that may stand there;
of an announce without one, whatever begins at byte 32 is taken first.
-/

namespace MicroReticulum.Peers

open Lib.Utf8

-- ---------------------------------------------------------------------------
-- The specification
-- ---------------------------------------------------------------------------

/-- Bytes of a number, most significant first. -/
def be : Nat → Nat → Bytes
  | 0, _ => []
  | n + 1, v => be n (v / 256) ++ [UInt8.ofNat v]

/-- A name: text with no control byte in it. -/
structure IsName (name : Bytes) : Prop where
  valid : Valid name
  text : ∀ b ∈ name, control b = false
  nonempty : name ≠ []

/-- The header of a MessagePack array that is not empty; `true` for the 32-bit form. -/
inductive ArrayHeader : Bool → Bytes → Prop
  | fixarray {count : Nat} : 0 < count → count < 16 → ArrayHeader false [0x90 + UInt8.ofNat count]
  | array16 {count : Nat} : 0 < count → count < 2 ^ 16 → ArrayHeader false (0xDC :: be 2 count)
  | array32 {count : Nat} : 0 < count → count < 2 ^ 32 → ArrayHeader true (0xDD :: be 4 count)

/-- What stands before a string or binary of so many bytes; `true` for the 32-bit forms. -/
inductive StringHeader : Bool → Nat → Bytes → Prop
  | fixstr {len : Nat} : len < 32 → StringHeader false len [0xA0 + UInt8.ofNat len]
  | str8 {len : Nat} : len < 2 ^ 8 → StringHeader false len (0xD9 :: be 1 len)
  | bin8 {len : Nat} : len < 2 ^ 8 → StringHeader false len (0xC4 :: be 1 len)
  | str16 {len : Nat} : len < 2 ^ 16 → StringHeader false len (0xDA :: be 2 len)
  | bin16 {len : Nat} : len < 2 ^ 16 → StringHeader false len (0xC5 :: be 2 len)
  | str32 {len : Nat} : len < 2 ^ 16 → StringHeader true len (0xDB :: be 4 len)
  | bin32 {len : Nat} : len < 2 ^ 16 → StringHeader true len (0xC6 :: be 4 len)

/-- The longest piece of a name that fits and ends with a character. -/
structure Longest (cap : Nat) (name w : Bytes) : Prop where
  start : w <+: name
  fits : w.length ≤ cap
  whole : Valid w
  longest : ∀ v, v <+: name → v.length ≤ cap → Valid v → v.length ≤ w.length

/-- The name is recovered at every capacity. -/
def Recovered (name p : Bytes) : Prop :=
  ∀ out, Longest (out.length - 1) name (cString (announceName p out))

/-- What is shown of a text at full length. -/
def whole (q : Bytes) : Bytes := shown (q.length + 1) q

/-- The name is what there is of a text that passes `utf8Ok`, up to a NUL. -/
def Spells (q name : Bytes) : Prop := name <+: q ∧ ∀ v, v <+: q → utf8Ok v → 0 ∉ v → v <+: name

-- ---------------------------------------------------------------------------
-- What is shown at each capacity
-- ---------------------------------------------------------------------------

variable {name p q v w out h f tail : Bytes} {cap n i : Nat} {b : UInt8} {long : Bool}

theorem IsName.no_zero (hn : IsName name) : 0 ∉ name := by
  intro h
  exact absurd (hn.text 0 h) (by decide)

theorem whole_of_valid (hn : IsName name) : whole name = name := by
  have hp : name <+: whole name :=
    prefix_shown List.prefix_rfl (Nat.lt_succ_self _) (utf8Ok_of_valid hn.valid) hn.no_zero
  exact (shown_start.eq_of_length_le hp.length_le)

theorem whole_start : whole q <+: q := shown_start

theorem shown_within : shown cap q <+: whole q :=
  prefix_shown shown_start (Nat.lt_succ_of_le shown_start.length_le) shown_utf8Ok zero_not_mem_shown

theorem Longest.eq (hn : IsName name) (hl : Longest cap name w) (hcap : name.length ≤ cap) : w = name :=
  hl.start.eq_of_length_le (hl.longest name List.prefix_rfl hcap hn.valid)

/-- A text that shows the name at full length shows the longest piece of it at any. -/
theorem longest_shown (hn : IsName name) (hq : whole q = name) (hcap : 0 < cap) :
    Longest (cap - 1) name (shown cap q) := by
  have hstart : shown cap q <+: name := hq ▸ shown_within
  have hlt : (shown cap q).length < cap := length_shown_lt hcap
  refine ⟨hstart, Nat.le_sub_one_of_lt hlt, valid_iff.2 ⟨shown_utf8Ok, hn.valid.fits.of_prefix hstart⟩, ?_⟩
  intro v hv hle hvalid
  have hvq : v <+: q := hv.trans (hq ▸ whole_start)
  refine (prefix_shown hvq ?_ (utf8Ok_of_valid hvalid) fun hz => hn.no_zero (hv.subset hz)).length_le
  exact Nat.lt_of_le_sub_one hcap hle

theorem whole_eq_iff (hn : IsName name) : whole q = name ↔ Spells q name := by
  constructor
  · rintro rfl
    exact ⟨whole_start, fun v hv hok hz => prefix_shown hv (Nat.lt_succ_of_le hv.length_le) hok hz⟩
  · rintro ⟨hp, hmax⟩
    have hle : name <+: whole q :=
      prefix_shown hp (Nat.lt_succ_of_le hp.length_le) (utf8Ok_of_valid hn.valid) hn.no_zero
    exact (hmax (whole q) whole_start shown_utf8Ok zero_not_mem_shown).eq_of_length_le hle.length_le

theorem shown_eq_whole (h : q.length < cap) : shown cap q = whole q :=
  shown_within.eq_of_length_le
    (prefix_shown whole_start (whole_start.length_le.trans_lt h) shown_utf8Ok zero_not_mem_shown).length_le

theorem recovered_iff_text (hn : IsName name) : Recovered name p ↔ ∃ q ∈ text p, Spells q name := by
  simp only [← whole_eq_iff hn]
  constructor
  · intro h
    let cap := max name.length ((text p).getD []).length + 1
    have hout : List.replicate cap (0 : UInt8) ≠ [] := by simp [cap]
    have hl := h (List.replicate cap 0)
    rw [cString_announceName hout, List.length_replicate] at hl
    have heq := hl.eq hn (le_max_left _ _)
    cases hq : text p with
    | none =>
      rw [hq] at heq
      exact absurd heq.symm hn.nonempty
    | some q =>
      refine ⟨q, rfl, ?_⟩
      have hlt : q.length < cap := by
        simp only [cap, hq, Option.getD_some]
        exact Nat.lt_succ_of_le (le_max_right _ _)
      rw [hq] at heq
      exact (shown_eq_whole hlt).symm.trans heq
  · rintro ⟨q, hq, hwhole⟩ out
    rcases eq_or_ne out [] with rfl | hout
    · have hnil : [] <+: name := List.nil_prefix
      exact ⟨hnil, le_refl _, .nil, fun v _ hle _ => hle⟩
    · rw [cString_announceName hout, hq]
      exact longest_shown hn hwhole (List.length_pos_iff.2 hout)

-- ---------------------------------------------------------------------------
-- Raw names
-- ---------------------------------------------------------------------------

theorem need_of_continues (b : UInt8) : continues b = true → need b = none := by
  revert b
  apply forall_byte
  decide +kernel

/-- What is left of text is text if it begins with a character. -/
theorem utf8Rest_drop {k : Nat} (h : utf8Rest k q = true) :
    utf8Ok (q.drop n) = true ↔ ∀ b ∈ q[n]?, continues b = false := by
  induction n generalizing k q with
  | zero =>
    cases q with
    | nil => simp [utf8Ok, utf8Rest]
    | cons b q =>
      have hhead : (∀ c ∈ (b :: q)[0]?, continues c = false) ↔ continues b = false := by simp
      rw [hhead, List.drop_zero]
      cases k with
      | zero =>
        refine iff_of_true h ?_
        by_contra hb
        rw [utf8Rest, need_of_continues b (by simpa using hb)] at h
        cases h
      | succ k =>
        rw [utf8Rest, Bool.and_eq_true] at h
        rw [utf8Ok, utf8Rest, need_of_continues b h.1, h.1]
        simp
  | succ n ih =>
    cases q with
    | nil => simp [utf8Ok, utf8Rest]
    | cons b q =>
      rw [List.drop_succ_cons, List.getElem?_cons_succ]
      cases k with
      | zero =>
        rw [utf8Rest] at h
        split at h
        · exact ih h
        · cases h
      | succ k =>
        rw [utf8Rest, Bool.and_eq_true] at h
        exact ih h.2

theorem arrayBody_le (h : arrayBody p i = some n) : i + 1 ≤ n := by
  unfold arrayBody at h
  cases hb : p[i]? with
  | none => simp [hb] at h
  | some b =>
    simp only [hb, Option.bind_eq_bind, Option.bind_some, Option.pure_def] at h
    split at h
    · split at h
      · cases h
      · cases h
        exact le_refl _
    · split at h
      · split at h
        · cases h
        · cases h
          omega
      · cases h

theorem stringBody_le {t : UInt8} {j len : Nat} (h : stringBody p t i = some (j, len)) : i ≤ j := by
  unfold stringBody at h
  split at h
  · cases h
    exact le_refl _
  · split at h
    · obtain ⟨b, -, hb⟩ := Option.bind_eq_some_iff.1 h
      cases hb
      exact Nat.le_succ _
    · split at h
      · split at h
        · cases h
        · cases h
          exact Nat.le_add_right _ _
      · cases h

theorem tryArray_room (h : tryArray p i = some q) : i + 2 ≤ p.length := by
  obtain ⟨n, hn, h⟩ := Option.bind_eq_some_iff.1 h
  obtain ⟨t, ht, -⟩ := Option.bind_eq_some_iff.1 h
  exact (Nat.succ_le_succ (arrayBody_le hn)).trans (List.getElem?_eq_some_iff.1 ht).1

/-- Of an array something is left out. -/
theorem tryArray_length (h : tryArray p i = some q) : q.length < p.length - i := by
  obtain ⟨n, hn, h⟩ := Option.bind_eq_some_iff.1 h
  obtain ⟨t, ht, h⟩ := Option.bind_eq_some_iff.1 h
  have hlt : n < p.length := (List.getElem?_eq_some_iff.1 ht).1
  have hin := arrayBody_le hn
  split at h
  · cases h
    exact Nat.sub_pos_of_lt (by omega)
  · obtain ⟨⟨j, len⟩, hj, h⟩ := Option.bind_eq_some_iff.1 h
    have hle := stringBody_le hj
    dsimp only at h
    split at h
    · cases h
    · cases h
      rw [Bytes.length_mid]
      omega

theorem plausible_iff : isPlausible p n (p.length - n) = true ↔
    n < p.length ∧ (∀ b ∈ p.drop n, control b = false) ∧ utf8Ok (p.drop n) = true := by
  have hmid : p.mid n (p.length - n) = p.drop n := by rw [Bytes.mid, ← List.length_drop, List.take_length]
  unfold isPlausible
  split
  · next h => exact iff_of_false (by simp) fun hlt => by omega
  · next h =>
    have hlt : n < p.length := by omega
    rw [hmid, Bool.and_eq_true, Bool.not_eq_true', List.any_eq_false]
    simp [hlt]

theorem plausible_drop (hn : IsName name) (h : n < name.length) :
    isPlausible name n (name.length - n) = true ↔ ∀ b ∈ name[n]?, continues b = false := by
  rw [plausible_iff, ← utf8Rest_drop (utf8Ok_of_valid hn.valid)]
  exact and_iff_right h |>.trans (and_iff_right fun b hb => hn.text b (List.mem_of_mem_drop hb))

theorem plausible_zero (hn : IsName name) : isPlausible name 0 name.length = true := by
  have hpos := List.length_pos_iff.2 hn.nonempty
  refine (plausible_drop hn hpos).2 ?_
  exact (utf8Rest_drop (n := 0) (utf8Ok_of_valid hn.valid)).1 (utf8Ok_of_valid hn.valid)

theorem not_spells (h : q.length < name.length) : ¬ Spells q name := fun hs => absurd hs.1.length_le (not_le.2 h)

theorem spells_self : Spells name name := ⟨List.prefix_rfl, fun _ hv _ _ => hv⟩

/-- The layouts in turn. -/
theorem text_eq (p : Bytes) : text p = ((tryArray p 32).or (tryArray p 0)).or
    (if p.length > 32 ∧ isPlausible p 32 (p.length - 32) then some (p.drop 32)
    else if isPlausible p 0 p.length then some p
    else none) := by
  unfold text
  split
  · rfl
  · next hlen =>
    have hnone : tryArray p 32 = none := by
      rw [Option.eq_none_iff_forall_ne_some]
      exact fun q hq => hlen (tryArray_room hq)
    rw [hnone]

theorem raw_recovered_iff (hn : IsName name) :
    Recovered name name ↔ tryArray name 32 = none ∧ tryArray name 0 = none ∧
      ∀ b ∈ name[32]?, continues b = true := by
  have hshort : ∀ {q : Bytes} {i : Nat}, tryArray name i = some q → ¬ ∃ q' ∈ some q, Spells q' name := by
    rintro q i hq ⟨q', ⟨⟩, he⟩
    exact not_spells ((tryArray_length hq).trans_le (Nat.sub_le _ _)) he
  rw [recovered_iff_text hn, text_eq]
  cases h₃₂ : tryArray name 32 with
  | some q => exact iff_of_false (hshort h₃₂) fun h => by cases h.1
  | none =>
    rw [Option.none_or]
    cases h₀ : tryArray name 0 with
    | some q => exact iff_of_false (hshort h₀) fun h => by cases h.2.1
    | none =>
      rw [Option.none_or]
      split
      · next hdrop =>
        have hcut := (plausible_drop hn hdrop.1).1 hdrop.2
        refine iff_of_false ?_ fun h => ?_
        · rintro ⟨q, ⟨⟩, he⟩
          refine not_spells ?_ he
          rw [List.length_drop]
          omega
        · have hb := h.2.2 name[32] (List.getElem?_eq_getElem hdrop.1)
          rw [hcut name[32] (List.getElem?_eq_getElem hdrop.1)] at hb
          cases hb
      · next hdrop =>
        rw [if_pos (plausible_zero hn)]
        refine iff_of_true ⟨name, rfl, spells_self⟩ ⟨rfl, rfl, fun b hb => ?_⟩
        obtain ⟨hlt, rfl⟩ := List.getElem?_eq_some_iff.1 hb
        have hcut := mt (plausible_drop hn hlt).2 fun h => hdrop ⟨hlt, h⟩
        simpa [List.getElem?_eq_getElem hlt] using hcut

-- ---------------------------------------------------------------------------
-- Names in arrays
-- ---------------------------------------------------------------------------

theorem fixarray_byte : ∀ count < 16, 0 < count → (0x90 ≤ 0x90 + UInt8.ofNat count ∧ 0x90 + UInt8.ofNat count ≤ 0x9F) ∧
    (0x90 + UInt8.ofNat count) &&& 0x0F ≠ 0 := by
  decide +kernel

theorem fixstr_byte : ∀ len < 32, (0xA0 ≤ 0xA0 + UInt8.ofNat len ∧ 0xA0 + UInt8.ofNat len ≤ 0xBF) ∧
    ((0xA0 + UInt8.ofNat len) &&& 0x1F).toNat = len ∧ 0xA0 + UInt8.ofNat len ≠ 0xC0 := by
  decide +kernel

theorem arrayBody_header (hh : ArrayHeader false h) (rest : Bytes) : arrayBody (h ++ rest) 0 = some h.length := by
  cases hh with
  | fixarray hpos hlt =>
    obtain ⟨hrange, hcount⟩ := fixarray_byte _ hlt hpos
    simp [arrayBody, hrange, hcount]
  | array16 => simp [arrayBody, be]

theorem arrayBody_long (hh : ArrayHeader true h) (rest : Bytes) : arrayBody (h ++ rest) 0 = none := by
  cases hh with
  | array32 => simp [arrayBody, be]

theorem getElem?_behind (pre post : Bytes) (n : Nat) : (pre ++ post)[pre.length + n]? = post[n]? := by
  rw [List.getElem?_append_right (Nat.le_add_right _ _), Nat.add_sub_cancel_left]

/-- A length in one byte, and in two. -/
theorem stringBody_one {t : UInt8} (ht : t = 0xD9 ∨ t = 0xC4) {len : Nat} (hlt : len < 2 ^ 8) (pre post : Bytes) :
    stringBody (pre ++ t :: UInt8.ofNat len :: post) t (pre.length + 1) = some (pre.length + 2, len) := by
  have hrange : ¬ (0xA0 ≤ t ∧ t ≤ 0xBF) := by rcases ht with rfl | rfl <;> decide
  have hlen : (UInt8.ofNat len).toNat = len := by
    rw [UInt8.toNat_ofNat']
    exact Nat.mod_eq_of_lt hlt
  rw [stringBody, if_neg hrange, if_pos ht, getElem?_behind]
  simp [hlen]

theorem stringBody_two {t : UInt8} (ht : t = 0xDA ∨ t = 0xC5) {len : Nat} (hlt : len < 2 ^ 16) (pre post : Bytes) :
    stringBody (pre ++ t :: UInt8.ofNat (len / 256) :: UInt8.ofNat len :: post) t (pre.length + 1) =
      some (pre.length + 3, len) := by
  have hrange : ¬ (0xA0 ≤ t ∧ t ≤ 0xBF) := by rcases ht with rfl | rfl <;> decide
  have hone : ¬ (t = 0xD9 ∨ t = 0xC4) := by rcases ht with rfl | rfl <;> decide
  have hroom : ¬ pre.length + 1 + 2 > (pre ++ t :: UInt8.ofNat (len / 256) :: UInt8.ofNat len :: post).length := by
    simp
    omega
  rw [stringBody, if_neg hrange, if_neg hone, if_pos ht, if_neg hroom]
  simp only [Bytes.byte, List.getD_eq_getElem?_getD, Nat.add_assoc, getElem?_behind]
  have hlen : len / 256 % 256 * 256 + len % 256 = len := by omega
  simp [hlen]

/-- The header of a string, behind whatever comes before. -/
theorem stringBody_header {len : Nat} (hf : StringHeader false len f) (pre post : Bytes) :
    ∃ t more, f = t :: more ∧ t ≠ 0xC0 ∧
      stringBody (pre ++ (f ++ post)) t (pre.length + 1) = some (pre.length + f.length, len) := by
  cases hf with
  | fixstr hlt =>
    obtain ⟨hrange, hlen, hne⟩ := fixstr_byte _ hlt
    exact ⟨_, [], rfl, hne, by simp [stringBody, hrange, hlen]⟩
  | str8 hlt => exact ⟨0xD9, _, rfl, by decide, stringBody_one (.inl rfl) hlt pre post⟩
  | bin8 hlt => exact ⟨0xC4, _, rfl, by decide, stringBody_one (.inr rfl) hlt pre post⟩
  | str16 hlt => exact ⟨0xDA, _, rfl, by decide, stringBody_two (.inl rfl) hlt pre post⟩
  | bin16 hlt => exact ⟨0xC5, _, rfl, by decide, stringBody_two (.inr rfl) hlt pre post⟩

theorem stringBody_long {len : Nat} (hf : StringHeader true len f) (p : Bytes) (i : Nat) :
    ∃ t more, f = t :: more ∧ t ≠ 0xC0 ∧ stringBody p t i = none := by
  cases hf with
  | str32 => exact ⟨0xDB, _, rfl, by decide, rfl⟩
  | bin32 => exact ⟨0xC6, _, rfl, by decide, rfl⟩

theorem tryArray_zero (hh : ArrayHeader false h) (hf : StringHeader false name.length f) :
    tryArray (h ++ (f ++ (name ++ tail))) 0 = some name := by
  obtain ⟨t, more, hft, ht, hbody⟩ := stringBody_header hf h (name ++ tail)
  have hfirst : (h ++ (f ++ (name ++ tail)))[h.length]? = some t := by
    rw [hft]
    exact getElem?_behind h _ 0
  have hroom : ¬ h.length + f.length + name.length > (h ++ (f ++ (name ++ tail))).length := by
    simp only [List.length_append]
    omega
  have hmid : (h ++ (f ++ (name ++ tail))).mid (h.length + f.length) name.length = name := by
    rw [Bytes.mid, ← List.append_assoc, ← List.length_append, List.drop_left, List.take_left]
  rw [tryArray, arrayBody_header hh]
  simp only [Option.bind_eq_bind, Option.bind_some, hfirst, if_neg ht, hbody, if_neg hroom, hmid]
  rfl

/-- Of the 32-bit forms nothing is read. -/
theorem tryArray_long {long' : Bool} (hh : ArrayHeader long h) (hf : StringHeader long' name.length f)
    (hl : long = true ∨ long' = true) : tryArray (h ++ (f ++ (name ++ tail))) 0 = none := by
  cases long with
  | true => rw [tryArray, arrayBody_long hh]; rfl
  | false =>
    rw [hl.resolve_left (by decide)] at hf
    obtain ⟨t, more, hft, ht, hbody⟩ := stringBody_long hf (h ++ (f ++ (name ++ tail))) (h.length + 1)
    have hfirst : (h ++ (f ++ (name ++ tail)))[h.length]? = some t := by
      rw [hft]
      exact getElem?_behind h _ 0
    rw [tryArray, arrayBody_header hh]
    simp only [Option.bind_eq_bind, Option.bind_some, hfirst, if_neg ht, hbody]
    rfl

/-- Plain text spells only itself. -/
theorem plausible_spells (h : isPlausible p n (p.length - n) = true) (hs : Spells (p.drop n) name) :
    p.drop n = name := by
  obtain ⟨-, htext, hok⟩ := plausible_iff.1 h
  have hz : 0 ∉ p.drop n := fun hz => absurd (htext 0 hz) (by decide)
  exact (hs.2 _ List.prefix_rfl hok hz).eq_of_length_le hs.1.length_le

theorem array_recovered_iff (hn : IsName name) (h₀ : tryArray p 0 = some name) :
    Recovered name p ↔ ∀ q ∈ tryArray p 32, Spells q name := by
  rw [recovered_iff_text hn, text_eq, h₀]
  cases tryArray p 32 with
  | none => exact iff_of_true ⟨name, rfl, spells_self⟩ fun q hq => by cases hq
  | some q => simp

/-- Where neither array is read, byte 32 may begin the same text again. -/
theorem unread_recovered_iff (hn : IsName name) (h₀ : tryArray p 0 = none) (hlen : name.length < p.length) :
    Recovered name p ↔ (∃ q ∈ tryArray p 32, Spells q name) ∨ tryArray p 32 = none ∧ p.drop 32 = name := by
  rw [recovered_iff_text hn, text_eq, h₀]
  cases h₃₂ : tryArray p 32 with
  | some q => simp
  | none =>
    have hdrop : p.drop 32 = name → p.length > 32 ∧ isPlausible p 32 (p.length - 32) = true := by
      rintro rfl
      have hlt : 32 < p.length := by
        by_contra hle
        exact hn.nonempty (List.drop_eq_nil_of_le (not_lt.1 hle))
      exact ⟨hlt, plausible_iff.2 ⟨hlt, hn.text, utf8Ok_of_valid hn.valid⟩⟩
    simp only [Option.none_or, Option.mem_def, reduceCtorEq, false_and, exists_false, true_and, false_or]
    split
    · next h =>
      constructor
      · rintro ⟨q, ⟨⟩, hs⟩
        exact plausible_spells h.2 hs
      · intro he
        exact ⟨p.drop 32, rfl, he ▸ spells_self⟩
    · next h =>
      refine iff_of_false ?_ fun he => h (hdrop he)
      rintro ⟨q, hq, hs⟩
      split at hq
      · next h' =>
        cases hq
        have he : p.drop 0 = name := plausible_spells h' hs
        rw [← he] at hlen
        exact absurd hlen (by simp)
      · cases hq

/-- Which names are recovered, of every layout. -/
theorem names_recovered_iff (name : Bytes) (hn : IsName name) :
    (Recovered name name ↔
      tryArray name 32 = none ∧ tryArray name 0 = none ∧ ∀ b ∈ name[32]?, continues b = true) ∧
    (∀ h f tail, ArrayHeader false h → StringHeader false name.length f →
      (Recovered name (h ++ (f ++ (name ++ tail))) ↔
        ∀ q ∈ tryArray (h ++ (f ++ (name ++ tail))) 32, Spells q name)) ∧
    ∀ long long' h f tail, ArrayHeader long h → StringHeader long' name.length f → long = true ∨ long' = true →
      (Recovered name (h ++ (f ++ (name ++ tail))) ↔
        (∃ q ∈ tryArray (h ++ (f ++ (name ++ tail))) 32, Spells q name) ∨
          tryArray (h ++ (f ++ (name ++ tail))) 32 = none ∧ (h ++ (f ++ (name ++ tail))).drop 32 = name) := by
  refine ⟨raw_recovered_iff hn, fun h f tail hh hf => ?_, fun long long' h f tail hh hf hl => ?_⟩
  · exact array_recovered_iff hn (tryArray_zero hh hf)
  · refine unread_recovered_iff hn (tryArray_long hh hf hl) ?_
    have hne : f ≠ [] := by cases hf <;> simp
    have hpos := List.length_pos_iff.2 hne
    simp only [List.length_append]
    omega

theorem names_recovered_ab :
    Recovered [0x61, 0x62] [0x61, 0x62] ↔
      tryArray [0x61, 0x62] 32 = none ∧ tryArray [0x61, 0x62] 0 = none ∧
        ∀ b ∈ ([0x61, 0x62] : Bytes)[32]?, continues b = true :=
  (names_recovered_iff [0x61, 0x62]
    ⟨.cons (c := [0x61]) (.one (by decide)) (.cons (c := [0x62]) (.one (by decide)) .nil),
      by rintro b (_ | ⟨_, _ | ⟨_, ⟨⟩⟩⟩) <;> rfl, by decide⟩).1

/-- Thirty-two letters and one more: the last is taken for the name. -/
theorem names_recovered_tail : ¬ ∀ name, IsName name → Recovered name name := by
  intro h
  let name := List.replicate 32 (0x61 : UInt8) ++ [0x62]
  have hvalid : Valid name := valid_iff.2 (by decide)
  have htext : ∀ b ∈ name, control b = false := by
    intro b hb
    rcases List.mem_append.1 hb with hb | hb
    · rw [List.eq_of_mem_replicate hb]
      rfl
    · rw [List.mem_singleton.1 hb]
      rfl
  have hl := h name ⟨hvalid, htext, by decide⟩ (List.replicate 34 0)
  have hshort : cString (announceName name (List.replicate 34 0)) = [0x62] := by decide +kernel
  have hle := hl.longest name List.prefix_rfl (by decide) hvalid
  rw [hshort] at hle
  exact absurd hle (by decide)

end MicroReticulum.Peers
