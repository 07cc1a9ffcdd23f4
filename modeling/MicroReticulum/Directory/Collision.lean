import MicroReticulum.Directory.Replay

/-!
# Two destinations behind one guard entry

Destinations whose hashes share four bytes share an entry, and the one with the
older emissions is suppressed. The run counter is there to let it through; it
is a counter of the entry, so an accepted announce of the other clears it.
-/

namespace MicroReticulum.Directory

open Lib.Runs (run Guarded Throughout)

/-- The guard, watched from outside: each destination's consecutive
suppressions, its last emission, and whose announce came last. -/
structure Watch where
  guards : List GuardRec
  silenced : Bytes → Nat
  last : Bytes → Option UInt32
  previous : Option Bytes

def watching (guards : List GuardRec) : Watch :=
  { guards, silenced := fun _ => 0, last := fun _ => none, previous := none }

def watchStep (w : Watch) (c : Check) : Watch :=
  { guards := guardStep w.guards c
    silenced := Function.update w.silenced c.dest
      (if (rdirGuardFresh c w.guards).2.fresh then 0 else w.silenced c.dest + 1)
    last := Function.update w.last c.dest (some c.emitted)
    previous := some c.dest }

/-- Announces of two destinations with one key, emitted ever later and with
ever new blobs. -/
structure Collide (a b : Bytes) (checks : List Check) : Prop where
  ne : a ≠ b
  key_eq : dest4Of a = dest4Of b
  dest : ∀ c ∈ checks, c.dest = a ∨ c.dest = b
  increasing : checks.Pairwise fun x y => x.dest = y.dest → x.emitted < y.emitted
  fresh_blobs : (checks.map Check.blob).Nodup

/-- Neither destination has more of its announces suppressed in a row. -/
def Heard (a b : Bytes) (w : Watch) : Prop :=
  w.silenced a ≤ G_RUN_LIMIT ∧ w.silenced b ≤ G_RUN_LIMIT

/-- The check does not clear the run of another destination's suppression: its
fingerprint is not in the ring, and where the announce before it was suppressed
and was another's, it is an ordinary one and older than the emission held. The
destination's emissions are less than half the clock apart. -/
def Audible (k : UInt32) (w : Watch) (c : Check) : Prop :=
  (∀ e, w.last c.dest = some e → 0 < elapsed c.emitted e) ∧
    ∀ g, entryOf k w.guards = some g →
      (c.bypass = false → g.seen c = false) ∧
        (c.bypass = true ∨ 0 ≤ elapsed c.emitted g.emitted → g.run = 0 ∨ w.previous = some c.dest)

-- ---------------------------------------------------------------------------
-- Whose turn it is
-- ---------------------------------------------------------------------------

variable {a b x y : Bytes} {w : Watch} {c : Check} {g g' : GuardRec} {k : UInt32} {checks : List Check}

-- not by going through every emission there is
instance : Decidable (Audible k w c) :=
  @instDecidableAnd (∀ e ∈ w.last c.dest, 0 < elapsed c.emitted e)
    (∀ g ∈ entryOf k w.guards, (c.bypass = false → g.seen c = false) ∧
      (c.bypass = true ∨ 0 ≤ elapsed c.emitted g.emitted → g.run = 0 ∨ w.previous = some c.dest))
    (Option.decidableForallMem _) (Option.decidableForallMem _)

/-- Where `x` stands with the entry, while `y` is heard. -/
inductive Turn (x y : Bytes) (g : GuardRec) (w : Watch) : Prop
  | heard (hx : w.silenced x = 0) (hy : w.silenced y = 0)
  /-- The entry was reset for `y`, and `x` has not been heard since. -/
  | waiting (hx : w.silenced x = 1) (hy : w.silenced y = 0) (hrun : g.run = 0)
    (hlast : w.last y = some g.emitted)
  /-- The last announce was `x`'s, and it was suppressed. -/
  | suppressed (hx : w.silenced x = 1 ∨ w.silenced x = 2 ∧ w.last y = some g.emitted)
    (hy : w.silenced y = 0) (hrun : g.run ≠ 0) (hprev : w.previous = some x)

def Shared (k : UInt32) (a b : Bytes) (w : Watch) : Prop :=
  match entryOf k w.guards with
  | none => w.silenced a = 0 ∧ w.silenced b = 0
  | some g => Turn a b g w ∨ Turn b a g w

theorem Turn.heard_of (h : Turn x y g w) : w.silenced x ≤ G_RUN_LIMIT ∧ w.silenced y ≤ G_RUN_LIMIT := by
  cases h with
  | heard hx hy => simp [hx, hy]
  | waiting hx hy => simp [hx, hy, G_RUN_LIMIT]
  | suppressed hx hy =>
    obtain hx | ⟨hx, -⟩ := hx <;> simp [hx, hy, G_RUN_LIMIT]

theorem Shared.heard (h : Shared k a b w) : Heard a b w := by
  unfold Shared at h
  split at h
  · exact ⟨by simp [h.1], by simp [h.2]⟩
  · obtain h | h := h
    · exact h.heard_of
    · exact h.heard_of.symm

theorem watchStep_fresh (hf : (rdirGuardFresh c w.guards).2.fresh = true) :
    (watchStep w c).silenced c.dest = 0 := by
  simp [watchStep, hf]

theorem watchStep_suppressed (hf : (rdirGuardFresh c w.guards).2.fresh = false) :
    (watchStep w c).silenced c.dest = w.silenced c.dest + 1 := by
  simp [watchStep, hf]

theorem watchStep_other (h : x ≠ c.dest) :
    (watchStep w c).silenced x = w.silenced x ∧ (watchStep w c).last x = w.last x :=
  ⟨Function.update_of_ne h _ _, Function.update_of_ne h _ _⟩

theorem watchStep_last : (watchStep w c).last c.dest = some c.emitted := Function.update_self ..

-- ---------------------------------------------------------------------------
-- One announce
-- ---------------------------------------------------------------------------

theorem Audible.not_seen (h : Audible k w c) (hg : entryOf k w.guards = some g) (hb : c.bypass = false) :
    g.seen c ≠ true := by
  simp [(h.2 g hg).1 hb]

/-- An announce of the destination that may have been suppressed. -/
theorem Turn.own (h : Turn x y g w) (hne : x ≠ y) (hd : c.dest = x) (hg : entryOf (dest4Of c.dest) w.guards = some g)
    (hok : Audible (dest4Of c.dest) w c) : Turn x y (g.check c).1 (watchStep w c) := by
  subst hd
  obtain ⟨hsil, hlast⟩ := watchStep_other (w := w) hne.symm
  have hy : w.silenced y = 0 := by cases h <;> assumption
  have hfresh : (g.check c).2.fresh = true → Turn c.dest y (g.check c).1 (watchStep w c) :=
    fun hf => .heard (watchStep_fresh (by rw [answer_known hg, hf])) (hsil.trans hy)
  have hsupp : (g.check c).2.fresh = false → (watchStep w c).silenced c.dest = w.silenced c.dest + 1 :=
    fun hf => watchStep_suppressed (by rw [answer_known hg, hf])
  have hcase := GuardRec.checked c g
  generalize (g.check c).1 = g', (g.check c).2.fresh = fresh at hcase hfresh hsupp ⊢
  cases hcase with
  | bypass | reset | accepted => exact hfresh rfl
  | seen hb hs => exact absurd hs (hok.not_seen hg hb)
  | suppressed hb hs he hrun =>
    cases h with
    | heard hx => exact .suppressed (.inl (by rw [hsupp rfl, hx])) (hsil.trans hy) Nat.one_ne_zero rfl
    | waiting hx _ _ hl =>
      exact .suppressed (.inr ⟨by rw [hsupp rfl, hx], hlast.trans hl⟩) (hsil.trans hy) Nat.one_ne_zero rfl
    | suppressed _ _ hr => exact absurd hrun hr

/-- An announce of the destination that is heard. -/
theorem Turn.other (h : Turn x y g w) (hne : x ≠ y) (hd : c.dest = y) (hg : entryOf (dest4Of c.dest) w.guards = some g)
    (hok : Audible (dest4Of c.dest) w c) :
    Turn x y (g.check c).1 (watchStep w c) ∨ Turn y x (g.check c).1 (watchStep w c) := by
  subst hd
  obtain ⟨hsil, -⟩ := watchStep_other (w := w) hne
  have hlater : w.last c.dest = some g.emitted → 0 < elapsed c.emitted g.emitted := hok.1 g.emitted
  have hclear := (hok.2 g hg).2
  have hfresh : (g.check c).2.fresh = true → (watchStep w c).silenced c.dest = 0 :=
    fun hf => watchStep_fresh (by rw [answer_known hg, hf])
  have hsupp : (g.check c).2.fresh = false → (watchStep w c).silenced c.dest = w.silenced c.dest + 1 :=
    fun hf => watchStep_suppressed (by rw [answer_known hg, hf])
  have hcase := GuardRec.checked c g
  generalize (g.check c).1 = g', (g.check c).2.fresh = fresh at hcase hfresh hsupp ⊢
  cases h with
  | heard hx hy =>
    cases hcase with
    | bypass | reset | accepted => exact .inl (.heard (hsil.trans hx) (hfresh rfl))
    | seen hb hs => exact absurd hs (hok.not_seen hg hb)
    | suppressed =>
      exact .inr (.suppressed (.inl (by rw [hsupp rfl, hy])) (hsil.trans hx) Nat.one_ne_zero rfl)
  | waiting hx hy hrun hl =>
    have hpos := hlater hl
    cases hcase with
    | bypass =>
      refine .inl (.waiting (hsil.trans hx) (hfresh rfl) rfl ?_)
      rw [watchStep_last, bypassed, runSet]
      simp [hpos]
    | accepted => exact .inl (.waiting (hsil.trans hx) (hfresh rfl) rfl watchStep_last)
    | seen hb hs => exact absurd hs (hok.not_seen hg hb)
    | reset _ _ he | suppressed _ _ he => omega
  | suppressed hx hy hrun hprev =>
    have hturn : ¬ (c.bypass = true ∨ 0 ≤ elapsed c.emitted g.emitted) := by
      intro hc
      obtain h | h := hclear hc
      · exact hrun h
      · exact hne (Option.some.inj (hprev.symm.trans h))
    cases hcase with
    | bypass hb => exact absurd (.inl hb) hturn
    | accepted _ _ he => exact absurd (.inr he) hturn
    | seen hb hs => exact absurd hs (hok.not_seen hg hb)
    | suppressed _ _ _ hr => exact absurd hr hrun
    | reset _ _ he =>
      obtain hx | ⟨-, hl⟩ := hx
      · exact .inl (.waiting (hsil.trans hx) (hfresh rfl) rfl watchStep_last)
      · have hpos := hlater hl
        omega

theorem Turn.step (h : Turn x y g w) (hne : x ≠ y) (hd : c.dest = x ∨ c.dest = y)
    (hg : entryOf (dest4Of c.dest) w.guards = some g) (hok : Audible (dest4Of c.dest) w c) :
    Turn x y (g.check c).1 (watchStep w c) ∨ Turn y x (g.check c).1 (watchStep w c) := by
  obtain hd | hd := hd
  · exact .inl (h.own hne hd hg hok)
  · exact h.other hne hd hg hok

/-- An announce for which there is no entry is heard, and makes one. -/
theorem watchStep_unknown (h : entryOf (dest4Of c.dest) w.guards = none) (hx : w.silenced x = 0) :
    (watchStep w c).silenced x = 0 := by
  by_cases hd : x = c.dest
  · subst hd
    exact watchStep_fresh (by rw [rdirGuardFresh_unknown h])
  · exact (watchStep_other hd).1.trans hx

theorem Shared.step (h : Shared k a b w) (hne : a ≠ b) (hd : c.dest = a ∨ c.dest = b)
    (hk : dest4Of c.dest = k) (hok : Audible k w c) : Shared k a b (watchStep w c) := by
  subst hk
  unfold Shared at h ⊢
  cases hold : entryOf (dest4Of c.dest) w.guards with
  | none =>
    rw [hold] at h
    have ha := watchStep_unknown hold h.1
    have hb := watchStep_unknown hold h.2
    split
    · exact ⟨ha, hb⟩
    · exact .inl (.heard ha hb)
  | some g =>
    rw [hold] at h
    have hnew : entryOf (dest4Of c.dest) (watchStep w c).guards = some (g.check c).1 := entryOf_known hold
    rw [hnew]
    obtain h | h := h
    · exact h.step hne hd hold hok
    · exact (h.step hne.symm hd.symm hold hok).symm

-- ---------------------------------------------------------------------------
-- Runs
-- ---------------------------------------------------------------------------

/-- In every run that clears no other destination's suppressions, neither of
the two is silenced. -/
theorem neither_silenced (a b : Bytes) (guards : List GuardRec) (checks : List Check)
    (hc : Collide a b checks) (hok : Guarded watchStep (Audible (dest4Of a)) (watching guards) checks) :
    Throughout watchStep (Heard a b) (watching guards) checks := by
  have hstart : Shared (dest4Of a) a b (watching guards) := by
    unfold Shared
    split
    · exact ⟨rfl, rfl⟩
    · exact .inl (.heard rfl rfl)
  have hkey : ∀ c ∈ checks, (c.dest = a ∨ c.dest = b) ∧ dest4Of c.dest = dest4Of a := by
    intro c hm
    refine ⟨hc.dest c hm, ?_⟩
    obtain h | h := hc.dest c hm
    · rw [h]
    · rw [h, hc.key_eq]
  have hstep : ∀ w c, Shared (dest4Of a) a b w →
      Audible (dest4Of a) w c ∧ (c.dest = a ∨ c.dest = b) ∧ dest4Of c.dest = dest4Of a →
        Shared (dest4Of a) a b (watchStep w c) :=
    fun w c h hok => h.step hc.ne hok.2.1 hok.2.2 hok.1
  exact ((hok.with_mem hkey).throughout hstep hstart).mono fun _ => Shared.heard

def winner : Bytes := .replicate 4 1 ++ .replicate 12 0

def loser : Bytes := .replicate 16 1

/-- An ordinary announce emitted at second `n`. -/
def announced (dest : Bytes) (n : UInt8) : Check :=
  { dest, blob := [n, dest.getD 4 0, 0, 0, 0, 0, 0, 0, 0, n], emitted := .ofNat n.toNat, bypass := false,
    minutes := 0 }

def inTurn : List Check :=
  [announced winner 100, announced loser 1, announced loser 2, announced winner 101, announced winner 102]

def alternating : List Check :=
  [announced winner 100, announced loser 1, announced winner 101, announced loser 2, announced winner 102,
    announced loser 3]

theorem inTurn_collide : Collide winner loser inTurn :=
  ⟨by decide, by decide, by decide, by decide, by decide⟩

theorem alternating_collide : Collide winner loser alternating :=
  ⟨by decide, by decide, by decide, by decide, by decide⟩

theorem neither_silenced_inTurn :
    Throughout watchStep (Heard winner loser) (watching [GuardRec.zero]) inTurn :=
  neither_silenced winner loser [GuardRec.zero] inTurn inTurn_collide (by decide)

/-- Every other announce of the winner clears the run: the loser is silenced. -/
theorem loser_silenced :
    Collide winner loser alternating ∧
      ¬ Throughout watchStep (Heard winner loser) (watching [GuardRec.zero]) alternating := by
  refine ⟨alternating_collide, fun h => ?_⟩
  have hheard : (run watchStep (watching [GuardRec.zero]) alternating).silenced loser ≤ G_RUN_LIMIT :=
    h.last.2
  revert hheard
  decide

end MicroReticulum.Directory
