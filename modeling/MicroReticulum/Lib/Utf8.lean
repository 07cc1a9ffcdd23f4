import Mathlib.Tactic

/-!
# UTF-8

The grammar of RFC 3629: a sequence is one character, and text is valid that is
made of sequences. `Fits` says of bytes one after the other what the grammar has
nowhere, wherever the sequences begin: overlong forms, surrogates, and what is
above U+10FFFF.
-/

namespace Lib.Utf8

def Tail (b : UInt8) : Prop := 0x80 ≤ b ∧ b ≤ 0xBF

instance (b : UInt8) : Decidable (Tail b) := inferInstanceAs (Decidable (_ ∧ _))

/-- What may follow the first byte of a longer sequence. -/
structure Second (a b : UInt8) : Prop where
  tail : Tail b
  /-- No overlong forms. -/
  e0 : a = 0xE0 → 0xA0 ≤ b
  f0 : a = 0xF0 → 0x90 ≤ b
  /-- No surrogates. -/
  ed : a = 0xED → b ≤ 0x9F
  /-- Nothing above U+10FFFF. -/
  f4 : a = 0xF4 → b ≤ 0x8F

inductive Sequence : List UInt8 → Prop
  | one {a : UInt8} : a ≤ 0x7F → Sequence [a]
  | two {a b : UInt8} : 0xC2 ≤ a → a ≤ 0xDF → Tail b → Sequence [a, b]
  | three {a b c : UInt8} : 0xE0 ≤ a → a ≤ 0xEF → Second a b → Tail c → Sequence [a, b, c]
  | four {a b c d : UInt8} : 0xF0 ≤ a → a ≤ 0xF4 → Second a b → Tail c → Tail d → Sequence [a, b, c, d]

inductive Valid : List UInt8 → Prop
  | nil : Valid []
  | cons {c rest : List UInt8} : Sequence c → Valid rest → Valid (c ++ rest)

-- ---------------------------------------------------------------------------
-- Bytes the grammar has nowhere
-- ---------------------------------------------------------------------------

/-- A byte that begins no sequence, or none that goes on like this. -/
def Excluded (a : UInt8) (next : Option UInt8) : Prop :=
  a = 0xC0 ∨ a = 0xC1 ∨ 0xF5 ≤ a ∨
    ∃ b ∈ next, a = 0xE0 ∧ b < 0xA0 ∨ a = 0xED ∧ 0x9F < b ∨ a = 0xF0 ∧ b < 0x90 ∨ a = 0xF4 ∧ 0x8F < b

instance (a : UInt8) (next : Option UInt8) : Decidable (Excluded a next) :=
  match next with
  | none => decidable_of_iff (a = 0xC0 ∨ a = 0xC1 ∨ 0xF5 ≤ a) (by simp [Excluded])
  | some b => decidable_of_iff (a = 0xC0 ∨ a = 0xC1 ∨ 0xF5 ≤ a ∨ a = 0xE0 ∧ b < 0xA0 ∨ a = 0xED ∧ 0x9F < b ∨
      a = 0xF0 ∧ b < 0x90 ∨ a = 0xF4 ∧ 0x8F < b) (by simp [Excluded])

def Fits : List UInt8 → Prop
  | [] => True
  | a :: rest => ¬ Excluded a rest.head? ∧ Fits rest

instance Fits.decide : ∀ q, Decidable (Fits q)
  | [] => .isTrue trivial
  | _ :: rest => @instDecidableAnd _ _ _ (Fits.decide rest)

variable {a b : UInt8} {q v tails rest : List UInt8}

theorem not_excluded_of_le (h : a ≤ 0xBF) (next : Option UInt8) : ¬ Excluded a next := by
  rintro (rfl | rfl | h' | ⟨b, -, ⟨rfl, -⟩ | ⟨rfl, -⟩ | ⟨rfl, -⟩ | ⟨rfl, -⟩⟩)
  · exact absurd h (by decide)
  · exact absurd h (by decide)
  · exact absurd (UInt8.le_trans h' h) (by decide)
  all_goals exact absurd h (by decide)

/-- The first bytes of longer sequences. -/
theorem lead_of_not_excluded {next : Option UInt8} (h : ¬ Excluded a next) (ha : 0xC0 ≤ a) :
    0xC2 ≤ a ∧ a ≤ 0xF4 := by
  have h₀ : a ≠ 0xC0 := fun he => h (.inl he)
  have h₁ : a ≠ 0xC1 := fun he => h (.inr (.inl he))
  have h₂ : ¬ 0xF5 ≤ a := fun he => h (.inr (.inr (.inl he)))
  simp only [UInt8.le_iff_toNat_le, ne_eq, ← UInt8.toNat_inj, UInt8.reduceToNat] at ha h₀ h₁ h₂ ⊢
  omega

theorem Excluded.grow (h : Excluded a none) (next : Option UInt8) : Excluded a next := by
  rcases h with h | h | h | ⟨b, hb, -⟩
  · exact .inl h
  · exact .inr (.inl h)
  · exact .inr (.inr (.inl h))
  · cases hb

theorem Fits.of_prefix (h : Fits q) (hp : v <+: q) : Fits v := by
  obtain ⟨more, rfl⟩ := hp
  induction v with
  | nil => trivial
  | cons a v ih =>
    refine ⟨fun hx => h.1 ?_, ih h.2⟩
    cases v with
    | nil => exact hx.grow _
    | cons b v => exact hx

theorem fits_tails (ht : ∀ b ∈ tails, Tail b) : Fits (tails ++ rest) ↔ Fits rest := by
  induction tails with
  | nil => rfl
  | cons b tails ih =>
    have hb := ht b (by simp)
    rw [List.cons_append, Fits, ih fun b h => ht b (List.mem_cons_of_mem _ h)]
    exact and_iff_right (not_excluded_of_le hb.2 _)

theorem fits_sequence (ht : ∀ b ∈ tails, Tail b) :
    Fits (a :: tails ++ rest) ↔ ¬ Excluded a (tails ++ rest).head? ∧ Fits rest := by
  rw [List.cons_append, Fits, fits_tails ht]

theorem Second.not_excluded (h : Second a b) (ha : 0xE0 ≤ a) (ha' : a ≤ 0xF4) : ¬ Excluded a (some b) := by
  rintro (rfl | rfl | hhigh | ⟨b', hb, hc⟩)
  · exact absurd ha (by decide)
  · exact absurd ha (by decide)
  · exact absurd (UInt8.le_trans hhigh ha') (by decide)
  · cases hb
    rcases hc with ⟨rfl, hlt⟩ | ⟨rfl, hlt⟩ | ⟨rfl, hlt⟩ | ⟨rfl, hlt⟩
    · exact absurd (h.e0 rfl) (UInt8.not_le.2 hlt)
    · exact absurd (h.ed rfl) (UInt8.not_le.2 hlt)
    · exact absurd (h.f0 rfl) (UInt8.not_le.2 hlt)
    · exact absurd (h.f4 rfl) (UInt8.not_le.2 hlt)

theorem second_of_not_excluded (hb : Tail b) (h : ¬ Excluded a (some b)) : Second a b where
  tail := hb
  e0 ha := UInt8.not_lt.1 fun hlt => h (.inr (.inr (.inr ⟨b, rfl, .inl ⟨ha, hlt⟩⟩)))
  ed ha := UInt8.not_lt.1 fun hlt => h (.inr (.inr (.inr ⟨b, rfl, .inr (.inl ⟨ha, hlt⟩)⟩)))
  f0 ha := UInt8.not_lt.1 fun hlt => h (.inr (.inr (.inr ⟨b, rfl, .inr (.inr (.inl ⟨ha, hlt⟩))⟩)))
  f4 ha := UInt8.not_lt.1 fun hlt => h (.inr (.inr (.inr ⟨b, rfl, .inr (.inr (.inr ⟨ha, hlt⟩))⟩)))

/-- A sequence is a first byte and tails, and nothing in it is excluded. -/
theorem Sequence.fits {c : List UInt8} (h : Sequence c) : Fits (c ++ rest) ↔ Fits rest := by
  cases h with
  | one ha =>
    rw [fits_sequence (by simp)]
    exact and_iff_right (not_excluded_of_le (UInt8.le_trans ha (by decide)) _)
  | @two a b ha ha' hb =>
    rw [fits_sequence (by simpa using hb)]
    refine and_iff_right ?_
    rintro (rfl | rfl | hx | ⟨b, -, ⟨rfl, -⟩ | ⟨rfl, -⟩ | ⟨rfl, -⟩ | ⟨rfl, -⟩⟩)
    · exact absurd ha (by decide)
    · exact absurd ha (by decide)
    · exact absurd (UInt8.le_trans hx ha') (by decide)
    all_goals exact absurd ha' (by decide)
  | three ha ha' hb hc =>
    rw [fits_sequence (by simpa using ⟨hb.tail, hc⟩)]
    exact and_iff_right (hb.not_excluded ha (UInt8.le_trans ha' (by decide)))
  | four ha ha' hb hc hd =>
    rw [fits_sequence (by simpa using ⟨hb.tail, hc, hd⟩)]
    exact and_iff_right (hb.not_excluded (UInt8.le_trans (by decide) ha) ha')

theorem Valid.fits (h : Valid q) : Fits q := by
  induction h with
  | nil => trivial
  | cons hc _ ih => exact hc.fits.2 ih

end Lib.Utf8
