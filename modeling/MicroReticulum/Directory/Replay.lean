import MicroReticulum.Directory.Guard

/-!
# Replays at the guard

When a blob that the guard reported as fresh is reported as fresh again. A
check in bypass mode always says fresh, and what it pushes into the ring takes
the place of what ordinary checks pushed.
-/

namespace MicroReticulum.Directory

open Lib.Runs (run Guarded)

variable {base e held : UInt32} {k : UInt32} {d fp : Bytes} {c c₁ c₂ : Check} {g : GuardRec} {m : Nat}
  {guards : List GuardRec} {checks pre mid post : List Check}

-- ---------------------------------------------------------------------------
-- Emissions within half the clock
-- ---------------------------------------------------------------------------

/-- How long after `base` an emission was. -/
def since (base emitted : UInt32) : Nat := (emitted - base).toNat

def InWindow (base emitted : UInt32) : Prop := since base emitted < 2 ^ 31

instance : Decidable (InWindow base e) := inferInstanceAs (Decidable (_ < _))

theorem elapsed_toNat (e held : UInt32) : elapsed e held = ((e - held).toNat : Int).bmod (2 ^ 32) :=
  BitVec.toInt_eq_toNat_bmod _

/-- In a window the sign of the difference tells the later emission. -/
theorem elapsed_eq (he : InWindow base e) (hh : InWindow base held) :
    elapsed e held = since base e - since base held := by
  simp only [InWindow, since, UInt32.toNat_sub] at he hh ⊢
  rw [elapsed_toNat, UInt32.toNat_sub, Int.bmod_def]
  have he₀ := e.toNat_lt
  have hh₀ := held.toNat_lt
  have hb₀ := base.toNat_lt
  omega

theorem since_inj (base : UInt32) (h : since base e = since base held) : e = held := by
  have hsub := UInt32.toNat_inj.1 h
  simpa using hsub

-- ---------------------------------------------------------------------------
-- Runs
-- ---------------------------------------------------------------------------

def guardStep (guards : List GuardRec) (c : Check) : List GuardRec := (rdirGuardFresh c guards).1

/-- The check neither evicts nor resets the entry of the key. -/
def Undisturbed (k : UInt32) (guards : List GuardRec) (c : Check) : Prop :=
  if dest4Of c.dest = k then ∀ g, entryOf k guards = some g → resets c g = false
  else evicts c k guards = false

instance : Decidable (Undisturbed k guards c) :=
  decidable_of_iff (if dest4Of c.dest = k then (entryOf k guards).all (!resets c ·) = true
    else evicts c k guards = false) (by unfold Undisturbed; cases entryOf k guards <;> simp)

/-- What the announces of one destination are like: no other shares its key,
their emissions are within half the clock, and a blob stands for an emission. -/
structure Emissions (d : Bytes) (base : UInt32) (checks : List Check) : Prop where
  alone : ∀ c ∈ checks, dest4Of c.dest = dest4Of d → c.dest = d
  window : ∀ c ∈ checks, c.dest = d → InWindow base c.emitted
  blob_iff : ∀ a ∈ checks, ∀ b ∈ checks, a.dest = d → b.dest = d →
    (a.blob = b.blob ↔ a.emitted = b.emitted)

/-- The guard reports the check after these as fresh. -/
def FreshAfter (guards : List GuardRec) (pre : List Check) (c : Check) : Prop :=
  (rdirGuardFresh c (run guardStep guards pre)).2.fresh = true

/-- Checks in bypass mode of the destination. -/
def bypasses (d : Bytes) (checks : List Check) : Nat := checks.countP fun c => c.bypass ∧ c.dest = d

-- ---------------------------------------------------------------------------
-- What an entry remembers
-- ---------------------------------------------------------------------------

/-- The entry holds an emission of the window. -/
def Held (k base : UInt32) (guards : List GuardRec) : Prop :=
  ∀ g, entryOf k guards = some g → InWindow base g.emitted

/-- The entry is past the emission, or at it and its fingerprint was pushed no
more than `m` pushes ago. -/
def Kept (k base e : UInt32) (fp : Bytes) (m : Nat) (guards : List GuardRec) : Prop :=
  ∃ g, entryOf k guards = some g ∧ InWindow base g.emitted ∧ since base e ≤ since base g.emitted ∧
    (g.emitted = e → g.ring.Recent fp m)

theorem held_check (hg : InWindow base g.emitted) (hc : InWindow base c.emitted) :
    InWindow base (g.check c).1.emitted := by
  have hcase := GuardRec.checked c g
  generalize (g.check c).1 = g', (g.check c).2.fresh = fresh at hcase ⊢
  cases hcase with
  | bypass =>
    simp only [bypassed, runSet]
    split <;> assumption
  | seen | suppressed => exact hg
  | reset | accepted => exact hc

theorem Undisturbed.not_evicts (h : Undisturbed k guards c) (hk : dest4Of c.dest ≠ k) :
    evicts c k guards = false := by
  rwa [Undisturbed, if_neg hk] at h

theorem Held.step (h : Held k base guards) (hev : dest4Of c.dest ≠ k → evicts c k guards = false)
    (hc : dest4Of c.dest = k → InWindow base c.emitted) : Held k base (guardStep guards c) := by
  intro g' hg'
  by_cases hk : dest4Of c.dest = k
  · subst hk
    cases hold : entryOf (dest4Of c.dest) guards with
    | some g =>
      cases (entryOf_known hold).symm.trans hg'
      exact held_check (h g hold) (hc rfl)
    | none =>
      by_cases hne : guards = []
      · subst hne
        cases hg'
      · cases (entryOf_unknown hold hne).symm.trans hg'
        exact hc rfl
  · exact h g' ((entryOf_other hk (hev hk)).symm.trans hg')

/-- One more check of the entry: only one in bypass mode makes the fingerprint
older while the entry stays at the emission. -/
theorem kept_check (hg : InWindow base g.emitted) (hle : since base e ≤ since base g.emitted)
    (hrec : g.emitted = e → g.ring.Recent fp m) (hc : InWindow base c.emitted)
    (hfp : c.emitted = e → fingerprint c.blob = fp) (hr : resets c g = false)
    (hm : m + (if c.bypass then 1 else 0) ≤ 4) :
    since base e ≤ since base (g.check c).1.emitted ∧
      ((g.check c).1.emitted = e → (g.check c).1.ring.Recent fp (m + if c.bypass then 1 else 0)) := by
  have hcase := GuardRec.checked c g
  generalize (g.check c).1 = g', (g.check c).2.fresh = fresh at hcase ⊢
  cases hcase with
  | bypass hb =>
    simp only [hb, if_true] at hm ⊢
    simp only [bypassed, runSet]
    split
    · next hlater =>
      rw [elapsed_eq hc hg] at hlater
      exact ⟨by omega, fun he => absurd (congrArg (since base) he) (by omega)⟩
    · refine ⟨hle, fun he => ?_⟩
      split
      · exact (hrec he).mono (Nat.le_succ m)
      · exact (hrec he).push (by omega)
  | seen hb | suppressed hb =>
    simp only [hb, Bool.false_eq_true, if_false, Nat.add_zero]
    exact ⟨hle, hrec⟩
  | reset hb hs he hrun => simp [resets, hb, hs, he, hrun] at hr
  | accepted hb hs he =>
    rw [elapsed_eq hc hg] at he
    refine ⟨show since base e ≤ since base c.emitted by omega, fun hce => ?_⟩
    -- a later copy of the emission held would have been seen
    have hsame : g.emitted = e := by
      have hce : c.emitted = e := hce
      rw [hce] at he
      exact since_inj base (by omega)
    have hseen : g.seen c = true := by
      rw [GuardRec.seen, hfp hce]
      exact (hrec hsame).has (by omega)
    simp [hseen] at hs

theorem Kept.step (h : Kept k base e fp m guards) (hund : Undisturbed k guards c)
    (hc : dest4Of c.dest = k → InWindow base c.emitted ∧ (c.emitted = e → fingerprint c.blob = fp))
    (hm : m + (if c.bypass ∧ dest4Of c.dest = k then 1 else 0) ≤ 4) :
    Kept k base e fp (m + if c.bypass ∧ dest4Of c.dest = k then 1 else 0) (guardStep guards c) := by
  obtain ⟨g, hg, hwin, hle, hrec⟩ := h
  by_cases hk : dest4Of c.dest = k
  · subst hk
    simp only [Undisturbed, if_pos] at hund
    simp only [and_true] at hm ⊢
    obtain ⟨hcw, hfp⟩ := hc rfl
    obtain ⟨hle', hrec'⟩ := kept_check hwin hle hrec hcw hfp (hund g hg) hm
    exact ⟨(g.check c).1, entryOf_known hg, held_check hwin hcw, hle', hrec'⟩
  · simp only [hk, and_false, if_false, Nat.add_zero]
    exact ⟨g, (entryOf_other hk (hund.not_evicts hk)).trans hg, hwin, hle, hrec⟩

theorem Kept.run (h : Kept k base e fp m guards) (hund : Guarded guardStep (Undisturbed k) guards mid)
    (hc : ∀ c ∈ mid, dest4Of c.dest = k →
      InWindow base c.emitted ∧ (c.emitted = e → fingerprint c.blob = fp))
    (hm : m + mid.countP (fun c => c.bypass ∧ dest4Of c.dest = k) ≤ 4) :
    Kept k base e fp (m + mid.countP fun c => c.bypass ∧ dest4Of c.dest = k) (run guardStep guards mid) := by
  induction mid generalizing m guards with
  | nil => exact h
  | cons c mid ih =>
    simp only [List.countP_cons, decide_eq_true_eq] at hm ⊢
    have hstep := h.step hund.1 (hc c (by simp)) (by omega)
    have hrest := ih hstep hund.2 (fun a ha => hc a (by simp [ha])) (by omega)
    rw [Nat.add_comm (List.countP _ mid), ← Nat.add_assoc]
    exact hrest

/-- What the entry remembers of an announce just reported as fresh. -/
theorem kept_of_fresh (hne : guards ≠ []) (hheld : Held k base guards) (hund : Undisturbed k guards c)
    (hk : dest4Of c.dest = k) (hc : InWindow base c.emitted)
    (hfresh : (rdirGuardFresh c guards).2.fresh = true) :
    Kept k base c.emitted (fingerprint c.blob) (if c.bypass then 4 else 1) (guardStep guards c) := by
  subst hk
  cases hold : entryOf (dest4Of c.dest) guards with
  | none =>
    refine ⟨c.entry, entryOf_unknown hold hne, hc, le_rfl, fun _ => ?_⟩
    exact Lib.Ring.recent_push.mono (by split <;> decide)
  | some g =>
    have hr : resets c g = false := by
      simp only [Undisturbed, if_pos] at hund
      exact hund g hold
    have hwin := hheld g hold
    have hcase := GuardRec.checked c g
    rw [← answer_known hold, hfresh] at hcase
    refine ⟨(g.check c).1, entryOf_known hold, held_check hwin hc, ?_⟩
    generalize (g.check c).1 = g' at hcase ⊢
    cases hcase with
    | bypass hb =>
      simp only [bypassed, runSet, hb, if_true]
      constructor
      · split
        · exact le_rfl
        · next hlater =>
          rw [elapsed_eq hc hwin] at hlater
          omega
      · intro _
        split
        · next hs => exact Lib.Ring.has_iff.1 hs
        · exact Lib.Ring.recent_push.mono (by decide)
    | reset hb hs he hrun => simp [resets, hb, hs, he, hrun] at hr
    | accepted hb hs he =>
      simp only [hb, Bool.false_eq_true, if_false]
      exact ⟨le_rfl, fun _ => Lib.Ring.recent_push⟩

/-- An ordinary check of what the entry remembers is not fresh. -/
theorem Kept.not_fresh (h : Kept (dest4Of c.dest) base c.emitted (fingerprint c.blob) m guards)
    (hm : m ≤ 4) (hc : InWindow base c.emitted) (hb : c.bypass = false)
    (hund : Undisturbed (dest4Of c.dest) guards c) : (rdirGuardFresh c guards).2.fresh = false := by
  obtain ⟨g, hg, hwin, hle, hrec⟩ := h
  have hr : resets c g = false := by
    simp only [Undisturbed, if_pos] at hund
    exact hund g hg
  rw [answer_known hg]
  have hcase := GuardRec.checked c g
  generalize (g.check c).1 = g', (g.check c).2.fresh = fresh at hcase ⊢
  cases hcase with
  | bypass h => simp [hb] at h
  | seen | suppressed => rfl
  | reset _ hs he hrun => simp [resets, hb, hs, he, hrun] at hr
  | accepted _ hs he =>
    rw [elapsed_eq hc hwin] at he
    have hsame : g.emitted = c.emitted := since_inj base (by omega)
    have hseen : g.seen c = true := (hrec hsame).has hm
    simp [hseen] at hs

-- ---------------------------------------------------------------------------
-- Fresh again
-- ---------------------------------------------------------------------------

theorem guardStep_ne_nil (hne : guards ≠ []) : run guardStep guards checks ≠ [] := by
  have hstep : ∀ gs c, gs ≠ [] → guardStep gs c ≠ [] := by
    intro gs c h
    rw [← List.length_pos_iff] at h ⊢
    rwa [guardStep, rdirGuardFresh_length]
  exact Lib.Runs.invariant hstep hne

theorem Held.run (h : Held k base guards) (hund : Guarded guardStep (Undisturbed k) guards checks)
    (hc : ∀ c ∈ checks, dest4Of c.dest = k → InWindow base c.emitted) :
    Held k base (run guardStep guards checks) := by
  induction checks generalizing guards with
  | nil => exact h
  | cons c checks ih =>
    exact ih (h.step hund.1.not_evicts (hc c (by simp))) hund.2 fun a ha => hc a (by simp [ha])

/-- A blob reported as fresh is reported as fresh again only in bypass mode, or
after checks in bypass mode: four of them, or one where the first report was in
bypass mode itself. -/
theorem fresh_again (d : Bytes) (base : UInt32) (guards : List GuardRec) (checks : List Check)
    (hne : guards ≠ []) (hheld : Held (dest4Of d) base guards) (hem : Emissions d base checks)
    (hund : Guarded guardStep (Undisturbed (dest4Of d)) guards checks) :
    ∀ pre c₁ mid c₂ post, checks = pre ++ c₁ :: (mid ++ c₂ :: post) → c₁.dest = d → c₂.dest = d →
      c₁.blob = c₂.blob → FreshAfter guards pre c₁ → FreshAfter guards (pre ++ c₁ :: mid) c₂ →
        c₂.bypass = true ∨ (if c₁.bypass then 1 else 4) ≤ bypasses d mid := by
  intro pre c₁ mid c₂ post hsplit hd₁ hd₂ hblob hf₁ hf₂
  subst hsplit
  have hmem₁ : c₁ ∈ pre ++ c₁ :: (mid ++ c₂ :: post) := by simp
  have hmem₂ : c₂ ∈ pre ++ c₁ :: (mid ++ c₂ :: post) := by simp
  have hkey : ∀ c ∈ pre ++ c₁ :: (mid ++ c₂ :: post), dest4Of c.dest = dest4Of d →
      InWindow base c.emitted := fun c hc hk => hem.window c hc (hem.alone c hc hk)
  have hsame : c₂.emitted = c₁.emitted := ((hem.blob_iff c₁ hmem₁ c₂ hmem₂ hd₁ hd₂).1 hblob).symm
  obtain ⟨hpre, hc₁, hrest⟩ := Lib.Runs.guarded_append.1 hund
  obtain ⟨hmid, hc₂, -⟩ := Lib.Runs.guarded_append.1 hrest
  by_contra hno
  obtain ⟨hb₂, hfew⟩ := not_or.1 hno
  have hcount : mid.countP (fun c => c.bypass ∧ dest4Of c.dest = dest4Of d) = bypasses d mid := by
    refine List.countP_congr fun c hc => ?_
    have hdest : dest4Of c.dest = dest4Of d ↔ c.dest = d :=
      ⟨hem.alone c (by simp [hc]), fun h => by rw [h]⟩
    simp [hdest]
  -- what the first report leaves behind lasts until the second check
  have hkept := kept_of_fresh (guardStep_ne_nil hne) (hheld.run hpre fun c hc => hkey c (by simp [hc]))
    hc₁ (by rw [hd₁]) (hkey c₁ hmem₁ (by rw [hd₁])) hf₁
  have hroom : (if c₁.bypass then 4 else 1) + bypasses d mid ≤ 4 := by
    cases hb₁ : c₁.bypass <;> simp only [hb₁, if_true, Bool.false_eq_true, if_false] at hfew ⊢ <;> omega
  have hlast := hkept.run hmid (fun c hc hk => ⟨hkey c (by simp [hc]) hk, fun he => ?_⟩) (by rwa [hcount])
  · rw [← hsame, hblob, ← hd₂] at hlast
    have hnot := hlast.not_fresh (by rwa [hd₂, hcount]) (hkey c₂ hmem₂ (by rw [hd₂]))
      (Bool.eq_false_iff.2 hb₂) (by rwa [hd₂])
    rw [FreshAfter, Lib.Runs.run_append, Lib.Runs.run_cons, hnot] at hf₂
    exact absurd hf₂ (by decide)
  · have hcd := hem.alone c (by simp [hc]) hk
    rw [(hem.blob_iff c (by simp [hc]) c₁ hmem₁ hcd hd₁).2 he]

-- ---------------------------------------------------------------------------
-- Two runs
-- ---------------------------------------------------------------------------

/-- No blob of the destination is reported as fresh twice. -/
def AtMostOnce (d : Bytes) (guards : List GuardRec) (checks : List Check) : Prop :=
  ∀ pre c₁ mid c₂ post, checks = pre ++ c₁ :: (mid ++ c₂ :: post) → c₁.dest = d → c₂.dest = d →
    c₁.blob = c₂.blob → ¬ (FreshAfter guards pre c₁ ∧ FreshAfter guards (pre ++ c₁ :: mid) c₂)

instance : Decidable (FreshAfter guards pre c) := inferInstanceAs (Decidable (_ = true))

def neighbour : Bytes := .replicate 16 1

/-- Its announce number `n`, sent at second `n`. -/
def sent (n : UInt8) (bypass : Bool) : Check :=
  { dest := neighbour, blob := [n, 0, 0, 0, 0, 0, 0, 0, 0, n], emitted := .ofNat n.toNat, bypass, minutes := 0 }

/-- A relay answers the same path request twice. -/
def answeredTwice : List Check := [sent 9 true, sent 9 true]

/-- Four older announces out of relays' caches between two copies of one. -/
def crowdedOut : List Check :=
  [sent 9 false, sent 1 true, sent 2 true, sent 3 true, sent 4 true, sent 9 false]

theorem answeredTwice_emissions : Emissions neighbour 0 answeredTwice :=
  ⟨by decide, by decide, by decide⟩

theorem crowdedOut_emissions : Emissions neighbour 0 crowdedOut :=
  ⟨by decide, by decide, by decide⟩

theorem held_unused : Held (dest4Of neighbour) 0 [GuardRec.zero] := by
  intro g hg
  have hnone : entryOf (dest4Of neighbour) [GuardRec.zero] = none := by decide
  simp [hnone] at hg

theorem fresh_again_crowdedOut :
    (sent 9 false).bypass = true ∨
      (if (sent 9 false).bypass then 1 else 4) ≤
        bypasses neighbour [sent 1 true, sent 2 true, sent 3 true, sent 4 true] :=
  fresh_again neighbour 0 [GuardRec.zero] crowdedOut (by decide) held_unused crowdedOut_emissions (by decide)
    [] (sent 9 false) [sent 1 true, sent 2 true, sent 3 true, sent 4 true] (sent 9 false) []
    rfl rfl rfl rfl (by decide) (by decide)

/-- The same blob is fresh twice: in bypass mode, and pushed out by checks in
bypass mode. -/
theorem fresh_twice :
    (Emissions neighbour 0 answeredTwice ∧
      Guarded guardStep (Undisturbed (dest4Of neighbour)) [GuardRec.zero] answeredTwice ∧
        ¬ AtMostOnce neighbour [GuardRec.zero] answeredTwice) ∧
    (Emissions neighbour 0 crowdedOut ∧
      Guarded guardStep (Undisturbed (dest4Of neighbour)) [GuardRec.zero] crowdedOut ∧
        ¬ AtMostOnce neighbour [GuardRec.zero] crowdedOut) := by
  refine ⟨⟨answeredTwice_emissions, by decide, fun h => ?_⟩, crowdedOut_emissions, by decide, fun h => ?_⟩
  · exact h [] (sent 9 true) [] (sent 9 true) [] rfl rfl rfl rfl ⟨by decide, by decide⟩
  · exact h [] (sent 9 false) [sent 1 true, sent 2 true, sent 3 true, sent 4 true] (sent 9 false) []
      rfl rfl rfl rfl ⟨by decide, by decide⟩

end MicroReticulum.Directory
