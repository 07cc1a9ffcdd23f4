import MicroReticulum.Resource.Bookkeeping
import MicroReticulum.Resource.Budget

/-!
# Where a receiving resource stands

Its status, and how often it was assembled and concluded. Only the last part and
a cancel move it: a transfer under way has neither behind it, and one that ended
has been assembled once, or cancelled, and concluded at most once.
-/

namespace MicroReticulum.Resource.Incoming

open Lib (Outcome)
open Lib.Filling

variable {c : Codec} {d d' : Incoming} {env : Env} {w : Wire} {part : Bytes} {e : Event}

-- ---------------------------------------------------------------------------
-- The specification
-- ---------------------------------------------------------------------------

def conclusions (d : Incoming) : Nat := d.log.count .concluded

def standing (d : Incoming) : Status × Nat × Nat × Bool :=
  (d.status, d.assemblies, d.conclusions, d.concludedCallback)

/-- The transfer goes on. -/
structure Under (d : Incoming) : Prop where
  status : d.status = .transferring
  assemblies : d.assemblies = 0
  conclusions : d.conclusions = 0

/-- The transfer has come to its end. -/
structure Ended (d : Incoming) : Prop where
  status : d.status.concluded = true
  assemblies : d.assemblies ≤ 1
  conclusions : d.conclusions ≤ 1

-- ---------------------------------------------------------------------------
-- What leaves the standing as it is
-- ---------------------------------------------------------------------------

theorem note_standing (ha : e ≠ .assembled) (hc : e ≠ .concluded) : (d.note e).standing = d.standing := by
  simp only [standing, assemblies, conclusions, note, List.count_append]
  simp [ha, hc]

theorem transmit_standing : (d.transmit env w).Leaves (·.standing = d.standing) := by
  unfold transmit
  split
  · exact Outcome.leaves_done.2 (note_standing nofun nofun)
  · exact Outcome.leaves_threw.2 rfl

theorem notify_standing : (d.notify env).Leaves (·.standing = d.standing) := by
  unfold notify
  split
  · exact Outcome.leaves_done.2 rfl
  · split
    · exact Outcome.leaves_threw.2 (note_standing nofun nofun)
    · exact Outcome.leaves_done.2 (note_standing nofun nofun)

theorem requestWindow_standing : (d.requestWindow env).Leaves (·.standing = d.standing) := by
  unfold requestWindow
  split
  · exact Outcome.leaves_done.2 rfl
  · generalize d.wanted d.window (d.consec + 1).toNat = want
    obtain ⟨requested, exhausted⟩ := want
    dsimp only
    split
    · exact Outcome.leaves_done.2 rfl
    · exact Outcome.Leaves.andThen (transmit_standing.mono fun _ h => h) fun _ h => Outcome.leaves_done.2 h

theorem heard_standing : (d.heard env part).standing = d.standing := by
  obtain ⟨_, _, _, _, _, _, he⟩ := heard_fields env d part
  rw [he]
  rfl

theorem adapt_standing : (d.adapt env).standing = d.standing := by
  obtain ⟨_, _, _, _, _, _, _, _, -, he⟩ := adapt_fields env d
  rw [he]
  rfl

theorem requestNext_standing : (d.requestNext env).Leaves (·.standing = d.standing) := by
  unfold requestNext
  split
  · exact requestWindow_standing.mono fun _ h => h.trans adapt_standing
  · exact Outcome.leaves_done.2 rfl

theorem store_standing (mhs : List Bytes) (idx : Nat) : (d.store mhs idx).standing = d.standing := by
  induction mhs generalizing d idx with
  | nil => rfl
  | cons mh mhs ih =>
    unfold store
    split
    · rfl
    · split
      · exact ih _
      · rw [ih]
        rfl

theorem hashmapUpdatePacket_standing {plaintext : Bytes} :
    (d.hashmapUpdatePacket env plaintext).All (·.standing = d.standing) := by
  unfold hashmapUpdatePacket
  split
  · exact Outcome.all_done.2 rfl
  · dsimp only
    split
    · obtain ⟨d', hd', h⟩ : (requestWindow _ env).Leaves _ := requestWindow_standing
      intro d'' hd''
      cases hd'.symm.trans hd''
      exact h.trans (store_standing (d := { d with lastActivity := env.now }) _ _)
    · exact Outcome.all_done.2 rfl
    · exact Outcome.all_done.2 rfl
    · exact Outcome.all_aborted

/-- An update reaches the map alone. -/
theorem hashmapUpdatePacket_updated {plaintext : Bytes} : (d.hashmapUpdatePacket env plaintext).All fun d' =>
    d'.toAdvertised = d.toAdvertised ∧ d'.parts = d.parts := by
  unfold hashmapUpdatePacket
  split
  · exact Outcome.all_done.2 ⟨rfl, rfl⟩
  · dsimp only
    split
    · obtain ⟨d', hd', hspeaks⟩ : (requestWindow _ env).Leaves (Speaks (Asks _) _) := requestWindow_speaks
      obtain ⟨-, hadv, hparts, -⟩ := store_leaves (d := { d with lastActivity := env.now }) _ _
      intro d'' hd''
      cases hd'.symm.trans hd''
      exact ⟨hspeaks.advertised.trans hadv, hspeaks.parts.trans hparts⟩
    · exact Outcome.all_done.2 ⟨rfl, rfl⟩
    · exact Outcome.all_done.2 ⟨rfl, rfl⟩
    · exact Outcome.all_aborted

theorem narrow_standing : d.narrow.standing = d.standing := by
  unfold narrow
  split
  · dsimp only
    split <;> rfl
  · rfl

-- ---------------------------------------------------------------------------
-- The end of a transfer
-- ---------------------------------------------------------------------------

/-- The end is told once, to a consumer that may throw. -/
theorem conclude_once_told : (d.conclude env).Leaves fun d' =>
    d'.status = d.status ∧ d'.assemblies = d.assemblies ∧ d'.conclusions ≤ d.conclusions + 1 := by
  have hnote : (d.note .concluded).assemblies = d.assemblies := note_assemblies nofun
  have hcount : (d.note .concluded).conclusions = d.conclusions + 1 := by simp [conclusions, note]
  unfold conclude
  split
  · exact Outcome.leaves_done.2 ⟨rfl, rfl, Nat.le_succ _⟩
  · split
    · exact Outcome.leaves_threw.2 ⟨rfl, hnote, hcount.le⟩
    · exact Outcome.leaves_done.2 ⟨rfl, hnote, hcount.le⟩

/-- The consumer is told, and throws. -/
def Tells (env : Env) (d : Incoming) : Prop := d.concludedCallback ∧ env.concludedThrows

theorem conclude_done (h : ¬ d.Tells env) : ∃ d', d.conclude env = .done d' := by
  unfold conclude
  split
  · exact ⟨d, rfl⟩
  · next hcb =>
    rw [if_neg fun ht => h ⟨by simpa using hcb, ht⟩]
    exact ⟨_, rfl⟩

theorem payload_full {data : Bytes} (h : d.payload c env = some data) : d.Full := by
  unfold payload at h
  simp only [Option.bind_eq_bind, Option.bind_eq_some_iff, Option.guard_eq_some'] at h
  obtain ⟨_, hfull, -⟩ := h
  exact hfull

theorem Under.of_standing (h : d.Under) (hs : d'.standing = d.standing) : d'.Under := by
  simp only [standing, Prod.mk.injEq] at hs
  exact ⟨hs.1.trans h.status, hs.2.1.trans h.assemblies, hs.2.2.1.trans h.conclusions⟩

theorem Ended.of_standing (h : d.Ended) (hs : d'.standing = d.standing) : d'.Ended := by
  simp only [standing, Prod.mk.injEq] at hs
  exact ⟨hs.1 ▸ h.status, hs.2.1.trans_le h.assemblies, hs.2.2.1.trans_le h.conclusions⟩

theorem Tells.of_standing (hs : d'.standing = d.standing) : d'.Tells env ↔ d.Tells env := by
  simp only [standing, Prod.mk.injEq] at hs
  unfold Tells
  rw [hs.2.2.2]

/-- Behind the last part there is one assembly, and the consumer is told of it once. -/
theorem judge_ended (h : d.Under) : ((d.note .assembled).judge c env).Leaves fun d' =>
    d'.status.concluded = true ∧ d'.assemblies = 1 ∧ d'.conclusions = 0 := by
  have ha : (d.note .assembled).assemblies = 1 := by
    have h0 := h.assemblies
    unfold assemblies at h0
    simp [assemblies, note, h0]
  have hc : (d.note .assembled).conclusions = 0 := by
    have h0 := h.conclusions
    unfold conclusions at h0
    simp [conclusions, note, h0]
  unfold judge
  split
  · exact Outcome.leaves_done.2 ⟨rfl, ha, hc⟩
  · refine transmit_standing.mono fun d' h' => ?_
    simp only [standing, Prod.mk.injEq] at h'
    rw [h'.1]
    exact ⟨rfl, h'.2.1.trans ha, h'.2.2.1.trans hc⟩

theorem assemble_ended (h : d.Under) : (d.assemble c env).Leaves fun d' => d'.Ended ∧ d'.assemblies = 1 := by
  refine Outcome.Leaves.bind (judge_ended h) (fun d' h' => ?_) fun d' h' => ?_
  · exact ⟨⟨h'.1, h'.2.1.le, h'.2.2.trans_le zero_le_one⟩, h'.2.1⟩
  · refine conclude_once_told.mono fun d'' h'' =>
      ⟨⟨h''.1 ▸ h'.1, h''.2.1.trans_le h'.2.1.le, ?_⟩, h''.2.1.trans h'.2.1⟩
    exact h''.2.2.trans_eq (congrArg (· + 1) h'.2.2)

/-- Nothing else than the consumer, or a proof that cannot be sent, throws out of an assembly. -/
theorem assemble_threw (h : d.assemble c env = .threw d') : d.Full ∨ d.Tells env := by
  by_contra hn
  rw [not_or] at hn
  have hnone : (d.note .assembled).payload c env = none := by
    rw [Option.eq_none_iff_forall_ne_some]
    intro data hdata
    exact hn.1 (payload_full hdata)
  unfold assemble judge at h
  rw [hnone] at h
  dsimp only at h
  have hdone : ∃ d'', conclude { d.note .assembled with status := .corrupt } env = .done d'' := conclude_done hn.2
  obtain ⟨d'', hd''⟩ := hdone
  rw [Outcome.andThen_done, hd''] at h
  cases h

/-- How a call on a transfer under way may end: it goes on, or it has ended; and a throw out
of the end comes from the consumer, or leaves nothing to wait for. -/
def Lands (env : Env) (d : Incoming) (o : Outcome Incoming) : Prop :=
  o.Leaves fun d' => d'.Under ∨ (d'.Ended ∧ d'.assemblies = 1) ∧ (o = .threw d' → d'.Full ∨ d.Tells env)

theorem Leaves.full (h : Leaves d d') : d'.Full ↔ d.Full := by
  have hl := h.ledger
  simp only [Incoming.ledger, Prod.mk.injEq] at hl
  unfold Full
  rw [hl.1, hl.2.1]

theorem Assembles.full {n : Nat} (h : Assembles n d d') : d'.Full ↔ d.Full := by
  have hl := h.ledger
  simp only [Incoming.ledger, Prod.mk.injEq] at hl
  unfold Full
  rw [hl.1, hl.2.1]

theorem lands_of_standing {o : Outcome Incoming} (h : d.Under) (ho : o.Leaves (·.standing = d.standing)) :
    Lands env d o :=
  ho.mono fun _ hs => .inl (h.of_standing hs)

theorem assembleFull_lands (h : d.Under) : Lands env d (d.assembleFull c env) := by
  obtain ⟨d'', hd'', hsame⟩ : (d.assembleFull c env).Leaves (Assembles _ d) := assembleFull_assembles
  have hfull : d''.Full ↔ d.Full := hsame.full
  unfold assembleFull at hd'' ⊢
  split
  · next hall =>
    rw [if_pos hall] at hd''
    obtain ⟨d', hd', hended⟩ : (d.assemble c env).Leaves _ := assemble_ended h
    cases hd'.symm.trans hd''
    exact ⟨_, hd'', .inr ⟨hended, fun hthrew => (assemble_threw hthrew).imp_left hfull.2⟩⟩
  · exact Outcome.leaves_done.2 (.inl h)

/-- A call behind one that leaves the standing as it is. -/
theorem Lands.after {o : Outcome Incoming} {f : Incoming → Outcome Incoming} (h : d.Under)
    (ho : o.Leaves (·.standing = d.standing)) (hf : ∀ d', d'.Under → Lands env d' (f d')) :
    Lands env d (o.andThen f) := by
  cases o with
  | done e =>
    have hs := Outcome.leaves_done.1 ho
    obtain ⟨d', hd', hl⟩ := hf e (h.of_standing hs)
    exact ⟨d', hd', hl.imp_right fun hl => ⟨hl.1, fun ht => (hl.2 ht).imp_right (Tells.of_standing hs).1⟩⟩
  | threw e => exact lands_of_standing h ho
  | aborted =>
    obtain ⟨s, hs, -⟩ := ho
    cases hs

/-- A part goes to a transfer under way. -/
theorem receivePart_lands {i : Nat} (h : d.Under) (hslot : d.findSlot (c.mapHash d.randomHash part) = some i) :
    Lands env d (d.receivePart c env part).1 := by
  rw [receivePart_taken hslot]
  have hfill : ((d.heard env part).fill i part).standing = d.standing := heard_standing
  refine Lands.after h ?_ fun d' h' => assembleFull_lands h'
  refine Outcome.Leaves.andThen (notify_standing.mono fun _ hs => hs.trans hfill) fun d' hs => ?_
  exact requestNext_standing.mono fun _ hs' => hs'.trans hs

theorem receivePart_flag : (d.receivePart c env part).2 = (d.findSlot (c.mapHash d.randomHash part)).isSome := by
  unfold receivePart
  dsimp only
  rw [heard_findSlot, heard_randomHash]
  split
  · next hslot => rw [hslot]; rfl
  · next hslot => rw [hslot]; rfl

/-- The books were right, and the part that went in was the last. -/
theorem Fills.full {i : Nat} (hf : Fills env i part d d') (hslot : d.findSlot (c.mapHash d.randomHash part) = some i)
    (hlen : d.parts.length = d.totalParts) (hbooks : d.received = d.parts.countP (· ≠ [])) (hne : part ≠ [])
    (hends : d.received + 1 ≥ d.totalParts) : d'.Full := by
  obtain ⟨hlt, -, hempty⟩ := findSlot_some hslot
  have hi : i < d.parts.length := hlen.symm ▸ hlt
  have hgap : decide (d.parts[i] ≠ []) = false := by
    rw [List.getD_eq_getElem?_getD, List.getElem?_eq_getElem hi] at hempty
    simpa using hempty
  have hcount : (d.parts.set i part).countP (· ≠ []) = d.received + 1 := by
    rw [countP_set_filled hi hgap (by simpa using hne), hbooks]
  have hlen' : (d.parts.set i part).length = d.totalParts := List.length_set.trans hlen
  have hall : (d.parts.set i part).countP (· ≠ []) = (d.parts.set i part).length :=
    le_antisymm List.countP_le_length (by rw [hcount, hlen']; exact hends)
  intro k hk
  rw [hf.totalParts, ← hlen'] at hk
  have hfilled := List.countP_eq_length.1 hall _ (List.getElem_mem hk)
  rw [hf.parts, List.getD_eq_getElem?_getD, List.getElem?_eq_getElem hk]
  simpa using hfilled

theorem cancel_ended (h : d.Under) : (d.cancel env).Leaves Ended := by
  unfold cancel
  rw [if_pos (by rw [h.status]; decide)]
  refine conclude_once_told.mono fun d' h' => ⟨h'.1 ▸ rfl, ?_, ?_⟩
  · exact (h'.2.1.trans h.assemblies).trans_le zero_le_one
  · exact h'.2.2.trans_eq (congrArg (· + 1) h.conclusions)

/-- With nobody to tell, a cancel counts nothing. -/
theorem cancel_untold (h : d.Ended) (hcb : d.concludedCallback = false) : ∃ d', d.cancel env = .done d' ∧ d'.Ended ∧
    d'.toAdvertised = d.toAdvertised ∧ d'.parts = d.parts := by
  unfold cancel conclude
  split
  · rw [if_pos (by simp [hcb])]
    exact ⟨_, rfl, ⟨rfl, h.assemblies, h.conclusions⟩, rfl, rfl⟩
  · rw [if_pos (by simp [hcb])]
    exact ⟨d, rfl, h, rfl, rfl⟩

theorem cancel_done (h : ¬ d.Tells env) : ∃ d', d.cancel env = .done d' := by
  unfold cancel
  split
  · exact conclude_done h
  · exact conclude_done h

/-- The watchdog gives the transfer up. -/
def GivesUp (env : Env) (d : Incoming) : Prop := d.timesOut env ∧ d.retriesLeft ≤ 0

theorem watchdog_over (h : d.status ≠ .transferring) : d.watchdog env = .done d := by
  unfold watchdog
  rw [if_pos h]

theorem watchdog_lands (h : d.Under) : (d.watchdog env).Leaves fun d' => d'.Under ∨
    d'.Ended ∧ d.GivesUp env ∧ (d.watchdog env = .threw d' → d.Tells env) := by
  unfold watchdog
  rw [if_neg (not_not.2 h.status)]
  dsimp only
  split
  · exact Outcome.leaves_done.2 (.inl ⟨h.1, h.2, h.3⟩)
  · next hlate =>
    rw [not_or, not_le, not_le] at hlate
    split
    · refine requestWindow_standing.mono fun d' hs => .inl ?_
      exact h.of_standing (hs.trans (narrow_standing (d := d.updateEifr env)))
    · next hleft =>
      have hunder : (d.updateEifr env).Under := ⟨h.1, h.2, h.3⟩
      refine (cancel_ended hunder).mono fun d' hended => .inr ⟨hended, ?_, fun hthrew => ?_⟩
      · exact ⟨decide_eq_true ⟨h.status, hlate⟩, not_lt.1 hleft⟩
      · by_contra hn
        obtain ⟨e, he⟩ : ∃ e, (d.updateEifr env).cancel env = .done e := cancel_done hn
        cases he.symm.trans hthrew

end MicroReticulum.Resource.Incoming
