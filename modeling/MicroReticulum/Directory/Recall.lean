import MicroReticulum.Directory.Replay

/-!
# What the guard remembers of an emission

A check says whether the emission is new. It is not where the entry is past it,
or at it and has its fingerprint, and every check leaves the emission checked in
that state. Another destination's announce takes the memory away with the entry,
the destination's own older announces by a reset or by pushing it out of the ring.
-/

namespace MicroReticulum.Directory

variable {base e : UInt32} {k : UInt32} {fp : Bytes} {c : Check} {g : GuardRec} {guards : List GuardRec}

/-- The entry has the fingerprint of an emission it has not come to: that of
another announce. -/
def mistaken (c : Check) (g : GuardRec) : Bool :=
  !c.bypass && g.seen c && decide (0 < elapsed c.emitted g.emitted)

/-- The check starts the entry anew at an earlier emission, or at this one under
another fingerprint. -/
def rewinds (e : UInt32) (fp : Bytes) (c : Check) (g : GuardRec) : Bool :=
  resets c g && !decide (0 < elapsed c.emitted e) && !decide (c.emitted = e ∧ fingerprint c.blob = fp)

/-- The check pushes the fingerprint out of the ring of an entry that stays at
the emission. -/
def crowds (e : UInt32) (fp : Bytes) (c : Check) (g : GuardRec) : Bool :=
  !g.seen c && (c.bypass || decide (0 ≤ elapsed c.emitted g.emitted)) && decide (elapsed c.emitted e ≤ 0) &&
    decide (g.emitted = e) && decide (g.ring.next = some fp)

/-- The check makes the guard forget the emission. -/
def forgets (k e : UInt32) (fp : Bytes) (guards : List GuardRec) (c : Check) : Bool :=
  if dest4Of c.dest = k then (entryOf k guards).any fun g => rewinds e fp c g || crowds e fp c g
  else evicts c k guards

/-- The entry is past the emission, or at it and has its fingerprint. -/
def Remembers (k base e : UInt32) (fp : Bytes) (guards : List GuardRec) : Prop :=
  ∃ g, entryOf k guards = some g ∧ InWindow base g.emitted ∧ since base e ≤ since base g.emitted ∧
    (g.emitted = e → g.ring.has fp = true)

-- ---------------------------------------------------------------------------
-- One check of the entry
-- ---------------------------------------------------------------------------

/-- Every check of an emission is remembered, unless its fingerprint is taken
for another's. -/
theorem remembers_check (hg : InWindow base g.emitted) (hc : InWindow base c.emitted)
    (hm : mistaken c g = false) :
    since base c.emitted ≤ since base (g.check c).1.emitted ∧
      ((g.check c).1.emitted = c.emitted → (g.check c).1.ring.has (fingerprint c.blob) = true) := by
  have hcase := GuardRec.checked c g
  generalize (g.check c).1 = g', (g.check c).2.fresh = fresh at hcase ⊢
  cases hcase with
  | bypass hb =>
    simp only [bypassed, runSet]
    constructor
    · split
      · exact le_rfl
      · next hlater =>
        rw [elapsed_eq hc hg] at hlater
        omega
    · intro _
      split
      · next hs => exact hs
      · exact Lib.Ring.has_push_self
  | seen hb hs =>
    refine ⟨?_, fun _ => hs⟩
    have hnot : ¬ 0 < elapsed c.emitted g.emitted := by simpa [mistaken, hb, hs] using hm
    rw [elapsed_eq hc hg] at hnot
    exact show since base c.emitted ≤ since base g.emitted by omega
  | reset => exact ⟨le_rfl, fun _ => Lib.Ring.has_push_self⟩
  | suppressed hb hs he =>
    rw [elapsed_eq hc hg] at he
    refine ⟨show since base c.emitted ≤ since base g.emitted by omega, fun heq => ?_⟩
    have hsame : since base g.emitted = since base c.emitted := congrArg (since base) heq
    omega
  | accepted => exact ⟨le_rfl, fun _ => Lib.Ring.has_push_self⟩

theorem remembers_other_check (hg : InWindow base g.emitted) (hle : since base e ≤ since base g.emitted)
    (hhas : g.emitted = e → g.ring.has fp = true) (hc : InWindow base c.emitted) (he : InWindow base e)
    (hr : rewinds e fp c g = false) (hcr : crowds e fp c g = false) :
    since base e ≤ since base (g.check c).1.emitted ∧
      ((g.check c).1.emitted = e → (g.check c).1.ring.has fp = true) := by
  have hcase := GuardRec.checked c g
  generalize (g.check c).1 = g', (g.check c).2.fresh = fresh at hcase ⊢
  cases hcase with
  | bypass hb =>
    simp only [bypassed, runSet]
    split
    · next hlater =>
      rw [elapsed_eq hc hg] at hlater
      exact ⟨by omega, fun heq => absurd (congrArg (since base) heq) (by omega)⟩
    · next hlater =>
      refine ⟨hle, fun heq => ?_⟩
      split
      · exact hhas heq
      · next hs =>
        have hnext : g.ring.next ≠ some fp := by
          rw [heq] at hlater
          simpa [crowds, hs, hb, heq, not_lt.1 hlater] using hcr
        exact Lib.Ring.has_push (hhas heq) hnext
  | seen | suppressed => exact ⟨hle, hhas⟩
  | reset hb hs hel hrun =>
    have hres : resets c g = true := by simp [resets, hb, hs, hel, hrun]
    simp only [rewinds, hres, Bool.true_and, Bool.and_eq_false_iff, Bool.not_eq_false', decide_eq_true_eq] at hr
    obtain hlater | ⟨heq, rfl⟩ := hr
    · rw [elapsed_eq hc he] at hlater
      have hne : since base c.emitted ≠ since base e := by omega
      exact ⟨show since base e ≤ since base c.emitted by omega,
        fun heq => absurd (congrArg (since base) heq) hne⟩
    · subst heq
      exact ⟨le_rfl, fun _ => Lib.Ring.has_push_self⟩
  | accepted hb hs hel =>
    have hlater := hel
    rw [elapsed_eq hc hg] at hlater
    refine ⟨show since base e ≤ since base c.emitted by omega, fun heq => ?_⟩
    have heq : c.emitted = e := heq
    -- an emission the entry was at already
    have hsame : g.emitted = e := by
      rw [heq] at hlater
      exact since_inj base (by omega)
    have hzero : elapsed c.emitted e ≤ 0 := by
      rw [elapsed_eq hc he, heq, Int.sub_self]
    have hnext : g.ring.next ≠ some fp := by
      rw [hsame] at hel
      simpa [crowds, hs, hel, hsame, hzero] using hcr
    exact Lib.Ring.has_push (hhas hsame) hnext

-- ---------------------------------------------------------------------------
-- The pool
-- ---------------------------------------------------------------------------

theorem Remembers.held (h : Remembers k base e fp guards) : Held k base guards := by
  obtain ⟨g, hg, hwin, -, -⟩ := h
  intro g' hg'
  cases hg.symm.trans hg'
  exact hwin

theorem remembers_of_checked (hne : guards ≠ []) (hheld : Held (dest4Of c.dest) base guards)
    (hc : InWindow base c.emitted) (hm : (entryOf (dest4Of c.dest) guards).any (mistaken c) = false) :
    Remembers (dest4Of c.dest) base c.emitted (fingerprint c.blob) (guardStep guards c) := by
  cases hold : entryOf (dest4Of c.dest) guards with
  | none => exact ⟨c.entry, entryOf_unknown hold hne, hc, le_rfl, fun _ => Lib.Ring.has_push_self⟩
  | some g =>
    have hwin := hheld g hold
    rw [hold, Option.any_some] at hm
    obtain ⟨hle, hhas⟩ := remembers_check hwin hc hm
    exact ⟨(g.check c).1, entryOf_known hold, held_check hwin hc, hle, hhas⟩

theorem Remembers.step (h : Remembers k base e fp guards)
    (hc : dest4Of c.dest = k → InWindow base c.emitted) (hf : forgets k e fp guards c = false) :
    Remembers k base e fp (guardStep guards c) := by
  obtain ⟨g, hg, hwin, hle, hhas⟩ := h
  by_cases hk : dest4Of c.dest = k
  · subst hk
    simp only [forgets, if_true, hg, Option.any_some, Bool.or_eq_false_iff] at hf
    have he : InWindow base e := hle.trans_lt hwin
    obtain ⟨hle', hhas'⟩ := remembers_other_check hwin hle hhas (hc rfl) he hf.1 hf.2
    exact ⟨(g.check c).1, entryOf_known hg, held_check hwin (hc rfl), hle', hhas'⟩
  · simp only [forgets, if_neg hk] at hf
    exact ⟨g, (entryOf_other hk hf).trans hg, hwin, hle, hhas⟩

/-- What is remembered is not a new emission. -/
theorem Remembers.not_novel (hc : InWindow base c.emitted)
    (h : Remembers (dest4Of c.dest) base c.emitted (fingerprint c.blob) guards) :
    (rdirGuardFresh c guards).2.novel = false := by
  obtain ⟨g, hg, hwin, hle, hhas⟩ := h
  rw [answer_known hg, GuardRec.check_novel]
  by_cases hsame : g.emitted = c.emitted
  · have hs : g.seen c = true := hhas hsame
    simp [hs]
  · have hne : since base g.emitted ≠ since base c.emitted := fun h => hsame (since_inj base h)
    have hneg : ¬ elapsed c.emitted g.emitted ≥ 0 := by
      rw [elapsed_eq hc hwin]
      omega
    simp [hneg]

end MicroReticulum.Directory
