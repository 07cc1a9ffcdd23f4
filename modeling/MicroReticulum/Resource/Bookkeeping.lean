import MicroReticulum.Lib.Filling
import MicroReticulum.Resource.Assembly
import MicroReticulum.Resource.Inputs

/-!
# The receiver's books

`_received`, `_consec` and `_outstanding_parts` beside the slots they count. A
slot is filled by what is in it, so an empty part is counted and its slot still
waits; and a progress callback that throws takes the assembly with it.
-/

namespace MicroReticulum.Resource.Incoming

open Lib (Outcome)
open Lib.Filling
open Lib.Runs
open MsgPack (SIZE ResourceAdvertisement)

variable {c : Codec} {d d' : Incoming} {i : Input} {env : Env} {part : Bytes}

-- ---------------------------------------------------------------------------
-- The specification
-- ---------------------------------------------------------------------------

structure Books (d : Incoming) : Prop where
  received : d.received = d.parts.countP (· ≠ [])
  consec : d.consec + 1 = height (· ≠ []) d.parts
  outstanding : d.outstandingParts ≤ d.window

/-- How often the parts have been put together. -/
def assemblies (d : Incoming) : Nat := d.log.count .assembled

/-- The books are right after a step, and it is an assembly if it fills the last slot. -/
def Kept (c : Codec) (d : Incoming) (i : Input) : Prop :=
  Books (d.take c i) ∧ (d.assemblies < (d.take c i).assemblies ↔ ¬ d.Full ∧ (d.take c i).Full)

/-- No empty part goes in, and the last one meets no progress callback that throws. -/
def Proper (c : Codec) (d : Incoming) : Input → Prop
  | .part env data => (d.findSlot (c.mapHash d.randomHash data)).isSome →
      data ≠ [] ∧ (d.received + 1 = d.totalParts → ¬ (d.progressCallback ∧ env.progressThrows))
  | _ => True

-- ---------------------------------------------------------------------------
-- What the books hang on
-- ---------------------------------------------------------------------------

/-- All in the books but what is outstanding. -/
def ledger (d : Incoming) : Nat × List Bytes × Nat × Int × Nat :=
  (d.totalParts, d.parts, d.received, d.consec, d.assemblies)

theorem note_assemblies {e : Event} (h : e ≠ .assembled) : (d.note e).assemblies = d.assemblies := by
  simp [assemblies, note, h]

theorem ledger_deaf : Deaf ledger := by
  intro d e he
  simp only [ledger, note_assemblies he]
  rfl

/-- What a call leaves that fills no slot and does not assemble. -/
structure Leaves (d d' : Incoming) : Prop where
  ledger : d'.ledger = d.ledger
  outstanding : d.outstandingParts ≤ d.window → d'.outstandingParts ≤ d'.window

theorem Leaves.refl : Leaves d d := ⟨rfl, id⟩

theorem Leaves.trans (h : Leaves d d') (h' : Leaves d' d'') : Leaves d d'' :=
  ⟨h'.ledger.trans h.ledger, h'.outstanding ∘ h.outstanding⟩

theorem length_wanted (left pn : Nat) : (d.wanted left pn).1.length ≤ left := by
  induction left generalizing pn with
  | zero => exact le_rfl
  | succ left ih =>
    unfold wanted
    split
    · exact Nat.zero_le _
    · split
      · exact (ih _).trans (Nat.le_succ _)
      · split
        · exact Nat.zero_le _
        · exact Nat.succ_le_succ (ih _)

/-- A request counts what it asks for, which is no more than a window. -/
theorem requestWindow_ledger : (d.requestWindow env).Leaves fun d' => d'.ledger = d.ledger ∧ d'.window = d.window ∧
    (d'.outstandingParts ≤ d.window ∨ (d.waitingHmu ∨ d.status ≠ .transferring) ∧
      d'.outstandingParts = d.outstandingParts) := by
  unfold requestWindow
  split
  · next hblocked => exact Outcome.leaves_done.2 ⟨rfl, rfl, .inr ⟨hblocked, rfl⟩⟩
  · have hlen := length_wanted (d := d) d.window (d.consec + 1).toNat
    generalize d.wanted d.window (d.consec + 1).toNat = want at hlen
    obtain ⟨requested, exhausted⟩ := want
    dsimp only at hlen ⊢
    split
    · exact Outcome.leaves_done.2 ⟨rfl, rfl, .inl hlen⟩
    · unfold transmit
      split
      · refine Outcome.leaves_done.2 ⟨?_, rfl, .inl hlen⟩
        simp only [ledger, assemblies, note, List.count_append]
        rfl
      · exact Outcome.leaves_threw.2 ⟨rfl, rfl, .inl hlen⟩

theorem requestWindow_leaves : (d.requestWindow env).Leaves (Leaves d) :=
  requestWindow_ledger.mono fun d' h => ⟨h.1, fun hle => by
    rw [h.2.1]
    rcases h.2.2 with ho | ⟨-, ho⟩
    · exact ho
    · exact ho.trans_le hle⟩

theorem store_leaves_books (mhs : List Bytes) (idx : Nat) : Leaves d (d.store mhs idx) := by
  induction mhs generalizing d idx with
  | nil => exact .refl
  | cons mh mhs ih =>
    unfold store
    split
    · exact .refl
    · split
      · exact ih _
      · refine Leaves.trans ?_ (ih (idx + 1))
        exact ⟨rfl, id⟩

theorem hashmapUpdatePacket_leaves {plaintext : Bytes} : (d.hashmapUpdatePacket env plaintext).All (Leaves d) := by
  unfold hashmapUpdatePacket
  split
  · exact Outcome.all_done.2 .refl
  · extract_lets e
    have he : Leaves d e := ⟨rfl, id⟩
    split
    · next segment hm _ =>
      let known := { e.store (hashesIn hm) (segment % SIZE * HASHMAP_MAX_LEN % SIZE) with waitingHmu := false }
      have hknown : Leaves d known := he.trans (Leaves.trans (store_leaves_books _ _) ⟨rfl, id⟩)
      have hrequest : (known.requestWindow env).Leaves (Leaves known) := requestWindow_leaves
      obtain ⟨d', hd', h⟩ := hrequest
      intro d'' hd''
      cases hd'.symm.trans hd''
      exact hknown.trans h
    · exact Outcome.all_done.2 he
    · exact Outcome.all_done.2 he
    · exact Outcome.all_aborted

theorem outstanding_aloof : Aloof fun d : Incoming => (d.ledger, d.outstandingParts, d.window) := by
  refine ⟨fun d e he => ?_, fun _ _ _ => rfl⟩
  rw [ledger_deaf d e he]
  rfl

theorem cancel_leaves : (d.cancel env).Leaves (Leaves d) := by
  refine (cancel_view outstanding_aloof).mono fun d' h => ?_
  simp only [Prod.mk.injEq] at h
  exact ⟨h.1, fun hle => by rw [h.2.1, h.2.2]; exact hle⟩

/-- A timeout narrows the window, and counts anew what the narrower one asks for. -/
theorem watchdog_leaves : (d.watchdog env).Leaves (Leaves d) := by
  unfold watchdog
  split
  · exact Outcome.leaves_done.2 .refl
  · next hstatus =>
    dsimp only
    split
    · exact Outcome.leaves_done.2 ⟨rfl, id⟩
    · split
      · let e := d.updateEifr env
        let narrowed := { e.narrow with retriesLeft := e.retriesLeft - 1, waitingHmu := false }
        have hnarrow : narrowed.ledger = d.ledger ∧ narrowed.status = d.status := by
          simp only [narrowed]
          unfold narrow
          split
          · dsimp only
            split <;> exact ⟨rfl, rfl⟩
          · exact ⟨rfl, rfl⟩
        have hrequest : (narrowed.requestWindow env).Leaves (Leaves d) := by
          refine requestWindow_ledger.mono fun d' h => ⟨h.1.trans hnarrow.1, fun _ => ?_⟩
          rw [h.2.1]
          rcases h.2.2 with ho | ⟨hwait | hst, -⟩
          · exact ho
          · cases hwait
          · rw [hnarrow.2] at hst
            exact absurd hst hstatus
        exact hrequest
      · exact cancel_leaves.mono fun d' h => ⟨h.ledger, h.outstanding⟩

-- ---------------------------------------------------------------------------
-- A part
-- ---------------------------------------------------------------------------

theorem heard_leaves : Leaves d (d.heard env part) := by
  obtain ⟨_, _, _, _, _, _, he⟩ := heard_fields env d part
  rw [he]
  exact ⟨rfl, id⟩

theorem adapt_leaves : Leaves d (d.adapt env) := by
  obtain ⟨_, _, _, _, _, _, _, _, hle, he⟩ := adapt_fields env d
  rw [he]
  exact ⟨rfl, fun h => h.trans hle⟩

theorem requestNext_leaves : (d.requestNext env).Leaves (Leaves d) := by
  unfold requestNext
  split
  · exact requestWindow_leaves.mono fun _ h => adapt_leaves.trans h
  · exact Outcome.leaves_done.2 .refl

/-- With all parts in, no window is asked for. -/
theorem requestNext_full (h : d.totalParts ≤ d.received) : d.requestNext env = .done d := by
  unfold requestNext
  rw [if_neg fun hn => h.not_gt hn.1]

/-- The ledger with some more assemblies in it. -/
structure Assembles (n : Nat) (d d' : Incoming) : Prop where
  ledger : d'.ledger = (d.totalParts, d.parts, d.received, d.consec, d.assemblies + n)
  outstanding : d.outstandingParts ≤ d.window → d'.outstandingParts ≤ d'.window

theorem Leaves.assembles (h : Leaves d d') : Assembles 0 d d' := ⟨h.ledger, h.outstanding⟩

theorem Leaves.trans_assembles {n : Nat} (h : Leaves d d') (h' : Assembles n d' d'') : Assembles n d d'' := by
  refine ⟨h'.ledger.trans ?_, h'.outstanding ∘ h.outstanding⟩
  have hl := h.ledger
  simp only [Incoming.ledger, Prod.mk.injEq] at hl
  rw [hl.1, hl.2.1, hl.2.2.1, hl.2.2.2.1, hl.2.2.2.2]

theorem assembleFull_assembles : (d.assembleFull c env).Leaves
    (Assembles (if d.totalParts > 0 ∧ d.received ≥ d.totalParts then 1 else 0) d) := by
  refine (assembleFull_view outstanding_aloof).mono fun d' h => ?_
  split at h
  · next hfull =>
    rw [if_pos hfull]
    simp only [Prod.mk.injEq] at h
    refine ⟨h.1.trans ?_, fun hle => by rw [h.2.1, h.2.2]; exact hle⟩
    simp only [ledger, assemblies, note, List.count_append]
    rfl
  · next hmissing =>
    rw [if_neg hmissing]
    simp only [Prod.mk.injEq] at h
    exact ⟨h.1, fun hle => by rw [h.2.1, h.2.2]; exact hle⟩

/-- Behind a part in its slot, the assembly comes where all parts are in. -/
theorem requestNext_assembles : ((d.requestNext env).andThen (·.assembleFull c env)).Leaves
    (Assembles (if d.totalParts > 0 ∧ d.received ≥ d.totalParts then 1 else 0) d) := by
  by_cases hfull : d.totalParts ≤ d.received
  · rw [requestNext_full hfull, Outcome.andThen_done]
    exact assembleFull_assembles
  · rw [if_neg fun h => hfull h.2]
    obtain ⟨d₁, hd₁, hl⟩ : (d.requestNext env).Leaves (Leaves d) := requestNext_leaves
    cases hreq : d.requestNext env with
    | done e =>
      rw [hreq] at hd₁
      cases hd₁
      have hsame := hl.ledger
      simp only [ledger, Prod.mk.injEq] at hsame
      have hnot : ¬ (d₁.totalParts > 0 ∧ d₁.received ≥ d₁.totalParts) := by
        rw [hsame.1, hsame.2.2.1]
        exact fun h => hfull h.2
      refine Outcome.Leaves.mono assembleFull_assembles fun d' h => ?_
      rw [if_neg hnot] at h
      exact hl.trans_assembles h
    | threw e =>
      rw [hreq] at hd₁
      cases hd₁
      exact Outcome.leaves_threw.2 hl.assembles
    | aborted =>
      rw [hreq] at hd₁
      cases hd₁

/-- The last part is in and nothing keeps it from its assembly. -/
def EndsTransfer (env : Env) (d : Incoming) : Prop :=
  ¬ (d.progressCallback ∧ env.progressThrows) ∧ d.totalParts > 0 ∧ d.received + 1 ≥ d.totalParts

/-- What a part that goes into slot `i` does to the books. -/
structure Fills (env : Env) (i : Nat) (part : Bytes) (d d' : Incoming) : Prop where
  totalParts : d'.totalParts = d.totalParts
  parts : d'.parts = d.parts.set i part
  received : d'.received = d.received + 1
  consec : d'.consec = d.consec +
    (((d.parts.set i part).drop (d.consec + 1).toNat).takeWhile (· ≠ [])).length
  outstanding : d.outstandingParts ≤ d.window → d'.outstandingParts ≤ d'.window
  starts : d.assemblies < d'.assemblies ↔ d.EndsTransfer env

theorem receivePart_fills {i : Nat} (hslot : d.findSlot (c.mapHash d.randomHash part) = some i) :
    (d.receivePart c env part).1.Leaves (Fills env i part d) := by
  rw [receivePart_taken hslot]
  obtain ⟨_, _, _, _, _, _, he⟩ := heard_fields env d part
  let e := (d.heard env part).fill i part
  have hledger : e.ledger = (d.totalParts, d.parts.set i part, d.received + 1, d.consec +
      (((d.parts.set i part).drop (d.consec + 1).toNat).takeWhile (· ≠ [])).length, d.assemblies) := by
    simp only [e, he]
    rfl
  have hout : d.outstandingParts ≤ d.window → e.outstandingParts ≤ e.window := by
    have h0 : e.outstandingParts = d.outstandingParts - 1 ∧ e.window = d.window := by
      simp only [e, he]
      exact ⟨rfl, rfl⟩
    rw [h0.1, h0.2]
    exact (Nat.sub_le _ 1).trans
  have hcb : e.progressCallback = d.progressCallback := by
    simp only [e, he]
    rfl
  have hfinish : ∀ {n : Nat} {d' : Incoming}, Assembles n e d' → (0 < n ↔ d.EndsTransfer env) →
      Fills env i part d d' := by
    intro n d' h hn
    have hl := h.ledger
    have hl' := hledger
    simp only [ledger, Prod.mk.injEq] at hl hl'
    refine ⟨hl.1.trans hl'.1, hl.2.1.trans hl'.2.1, hl.2.2.1.trans hl'.2.2.1, hl.2.2.2.1.trans hl'.2.2.2.1,
      h.outstanding ∘ hout, ?_⟩
    rw [hl.2.2.2.2, hl'.2.2.2.2, ← hn]
    omega
  by_cases hthrow : d.progressCallback ∧ env.progressThrows
  · rw [notify_threw (hcb.symm ▸ hthrow)]
    have hnote : Leaves e (e.note .progress) := ⟨ledger_deaf e _ nofun, id⟩
    exact Outcome.leaves_threw.2 (hfinish hnote.assembles ⟨nofun, fun h => absurd hthrow h.1⟩)
  · obtain ⟨e', hnotify, hnote⟩ : ∃ e', e.notify env = .done e' ∧ Leaves e e' := by
      rcases notify_done (by rwa [hcb]) with hsame | hnote
      · exact ⟨e, hsame, .refl⟩
      · exact ⟨_, hnote, ledger_deaf e _ nofun, id⟩
    have hcounts : e'.totalParts = d.totalParts ∧ e'.received = d.received + 1 := by
      have hl := hnote.ledger.trans hledger
      simp only [ledger, Prod.mk.injEq] at hl
      exact ⟨hl.1, hl.2.2.1⟩
    rw [hnotify, Outcome.andThen_done]
    refine Outcome.Leaves.mono requestNext_assembles fun d' h => hfinish (hnote.trans_assembles h) ?_
    rw [hcounts.1, hcounts.2]
    split
    · next hall => exact ⟨fun _ => ⟨hthrow, hall⟩, fun _ => Nat.one_pos⟩
    · next hall => exact ⟨nofun, fun h => absurd h.2 hall⟩

-- ---------------------------------------------------------------------------
-- The books
-- ---------------------------------------------------------------------------

structure Fit (d : Incoming) : Prop extends Books d where
  length : d.parts.length = d.totalParts

theorem Fit.full (h : Fit d) : d.Full ↔ d.received = d.totalParts := by
  rw [h.received, ← h.length, countP_eq_length_iff]
  constructor
  · intro hfull k hk
    have hne := hfull k (h.length ▸ hk)
    rw [List.getD_eq_getElem?_getD, List.getElem?_eq_getElem hk] at hne
    simpa using hne
  · intro hall k hk
    have hne := hall k (h.length.symm ▸ hk)
    rw [List.getD_eq_getElem?_getD, List.getElem?_eq_getElem (h.length.symm ▸ hk)]
    simpa using hne

theorem Fit.leaves (h : Fit d) (hl : Leaves d d') : Fit d' := by
  have hsame := hl.ledger
  simp only [ledger, Prod.mk.injEq] at hsame
  obtain ⟨htotal, hparts, hreceived, hconsec, -⟩ := hsame
  refine ⟨⟨?_, ?_, hl.outstanding h.outstanding⟩, ?_⟩
  · rw [hreceived, hparts, h.received]
  · rw [hconsec, hparts, h.consec]
  · rw [hparts, htotal, h.length]

/-- A call that fills no slot keeps the books and assembles nothing. -/
theorem Fit.kept_leaves (h : Fit d) (hl : Leaves d (d.take c i)) : Kept c d i := by
  have hfit := h.leaves hl
  have hsame := hl.ledger
  simp only [ledger, Prod.mk.injEq] at hsame
  refine ⟨hfit.toBooks, ?_⟩
  rw [hfit.full, h.full, hsame.1, hsame.2.2.1, hsame.2.2.2.2]
  exact ⟨fun hlt => absurd hlt (lt_irrefl _), fun hfull => absurd hfull.2 hfull.1⟩

/-- The slot a part goes into. -/
theorem Fit.gap (h : Fit d) {k : Nat} {mh : Bytes} (hslot : d.findSlot mh = some k) :
    ∃ hk : k < d.parts.length, d.parts[k] = [] := by
  obtain ⟨hlt, -, hempty⟩ := findSlot_some hslot
  have hk : k < d.parts.length := h.length.symm ▸ hlt
  rw [List.getD_eq_getElem?_getD, List.getElem?_eq_getElem hk] at hempty
  exact ⟨hk, hempty⟩

theorem not_full {k : Nat} {mh : Bytes} (hslot : d.findSlot mh = some k) : ¬ d.Full := by
  obtain ⟨hlt, -, hempty⟩ := findSlot_some hslot
  exact fun hfull => hfull k hlt hempty

theorem Fit.fills (h : Fit d) {k : Nat} {mh : Bytes} (hslot : d.findSlot mh = some k) (hne : part ≠ [])
    (hf : Fills env k part d d') : Fit d' := by
  obtain ⟨hk, hgap⟩ := h.gap hslot
  have hempty : decide (d.parts[k] ≠ []) = false := by simp [hgap]
  refine ⟨⟨?_, ?_, hf.outstanding h.outstanding⟩, ?_⟩
  · rw [hf.received, hf.parts, h.received, countP_set_filled hk hempty (by simpa using hne)]
  · have hheight : height (· ≠ []) (d.parts.set k part) = height (· ≠ []) d.parts +
        (((d.parts.set k part).drop (height (· ≠ []) d.parts)).takeWhile (· ≠ [])).length :=
      height_set hk hempty part
    have hstart : (d.consec + 1).toNat = height (· ≠ []) d.parts := by rw [h.consec]; rfl
    rw [hf.consec, hf.parts, hheight, hstart, Nat.cast_add, ← h.consec]
    ring
  · rw [hf.parts, List.length_set, h.length, hf.totalParts]

/-- An empty part is counted, and its slot is not filled. -/
theorem Fit.empty (h : Fit d) {k : Nat} {mh : Bytes} (hslot : d.findSlot mh = some k)
    (hf : Fills env k [] d d') : ¬ Books d' := by
  obtain ⟨hk, hgap⟩ := h.gap hslot
  have hsame : d.parts.set k [] = d.parts := by
    conv_rhs => rw [← List.set_getElem_self hk, hgap]
  intro hbooks
  have hcount := hbooks.received
  rw [hf.received, hf.parts, hsame, ← h.received] at hcount
  omega

theorem Fit.kept_fills (h : Fit d) {k : Nat} (hslot : d.findSlot (c.mapHash d.randomHash part) = some k)
    (hf : Fills env k part d (d.take c (.part env part))) :
    Kept c d (.part env part) ↔ Proper c d (.part env part) := by
  have hnot := not_full hslot
  simp only [Proper, hslot, Option.isSome_some, true_implies]
  by_cases hne : part = []
  · subst hne
    exact ⟨fun hkept => absurd hkept.1 (h.empty hslot hf), fun hproper => absurd rfl hproper.1⟩
  · have hfit := h.fills hslot hne hf
    obtain ⟨hk, -⟩ := h.gap hslot
    have hpos : d.totalParts > 0 := h.length ▸ Nat.zero_lt_of_lt hk
    have hle : d.received + 1 ≤ d.totalParts := by
      rw [← hf.received, hfit.received, ← hf.totalParts, ← hfit.length]
      exact List.countP_le_length
    unfold Kept
    rw [hfit.full, hf.starts, hf.received, hf.totalParts]
    unfold EndsTransfer
    constructor
    · rintro ⟨-, hstarts⟩
      exact ⟨hne, fun hlast => (hstarts.2 ⟨hnot, hlast⟩).1⟩
    · rintro ⟨-, hquiet⟩
      refine ⟨hfit.toBooks, fun hends => ⟨hnot, le_antisymm hle hends.2.2⟩, fun hlast => ?_⟩
      exact ⟨hquiet hlast.2, hpos, hlast.2.ge⟩

theorem Fit.kept_iff (h : Fit d) : Kept c d i ↔ Proper c d i := by
  cases i with
  | part env data =>
    cases hslot : d.findSlot (c.mapHash d.randomHash data) with
    | none =>
      have hheard : d.take c (.part env data) = d.heard env data := by
        simp only [take, call, receivePart_missed hslot]
        rfl
      refine iff_of_true (h.kept_leaves (hheard ▸ heard_leaves)) fun hsome => ?_
      rw [hslot] at hsome
      cases hsome
    | some k => exact h.kept_fills hslot (take_of_leaves (P := Fills env k data d) (receivePart_fills hslot))
  | hashmapUpdate env plaintext =>
    exact iff_of_true (h.kept_leaves (take_of_all (P := Leaves d) hashmapUpdatePacket_leaves .refl)) trivial
  | watchdog env => exact iff_of_true (h.kept_leaves (take_of_leaves (P := Leaves d) watchdog_leaves)) trivial
  | cancel env => exact iff_of_true (h.kept_leaves (take_of_leaves (P := Leaves d) cancel_leaves)) trivial

theorem Fit.take (h : Fit d) (hok : Proper c d i) : Fit (d.take c i) := by
  refine ⟨(h.kept_iff.2 hok).1, ?_⟩
  have hleaves : ∀ {d'}, Leaves d d' → d'.parts.length = d'.totalParts := fun hl => (h.leaves hl).length
  cases i with
  | part env data =>
    cases hslot : d.findSlot (c.mapHash d.randomHash data) with
    | none =>
      have hheard : d.take c (.part env data) = d.heard env data := by
        simp only [Incoming.take, call, receivePart_missed hslot]
        rfl
      exact hleaves (hheard ▸ heard_leaves)
    | some k =>
      have hf : Fills env k data d (d.take c (.part env data)) :=
        take_of_leaves (P := Fills env k data d) (receivePart_fills hslot)
      rw [hf.parts, List.length_set, h.length, hf.totalParts]
  | hashmapUpdate env plaintext =>
    exact hleaves (take_of_all (P := Leaves d) hashmapUpdatePacket_leaves .refl)
  | watchdog env => exact hleaves (take_of_leaves (P := Leaves d) watchdog_leaves)
  | cancel env => exact hleaves (take_of_leaves (P := Leaves d) cancel_leaves)

theorem height_replicate (n : Nat) : height (· ≠ ([] : Bytes)) (List.replicate n []) = 0 := by
  cases n <;> rfl

theorem accepted_fit (env : Env) (adv : ResourceAdvertisement) (requestId : Bytes)
    (concludedCallback progressCallback : Bool) :
    Fit (accepted env adv requestId concludedCallback progressCallback) := by
  refine accepted_of_leaves (P := Fit) (requestWindow_leaves.mono fun d' h => Fit.leaves ?_ h)
  refine ⟨⟨?_, ?_, Nat.zero_le _⟩, List.length_replicate⟩
  · simp [ofAdvertisement, List.countP_replicate]
  · rw [ofAdvertisement, height_replicate]
    rfl

/-- The books start right, and stay right with an assembly in just the step that
fills the last slot, as long as no empty part goes in and no progress callback
throws on the last one. -/
theorem books_kept (c : Codec) (env : Env) (adv : ResourceAdvertisement) (requestId : Bytes)
    (concludedCallback progressCallback : Bool) (inputs : List Input) :
    Books (accepted env adv requestId concludedCallback progressCallback) ∧
      (Guarded (take c) (Kept c) (accepted env adv requestId concludedCallback progressCallback) inputs ↔
        Guarded (take c) (Proper c) (accepted env adv requestId concludedCallback progressCallback) inputs) := by
  have hstart := accepted_fit env adv requestId concludedCallback progressCallback
  exact ⟨hstart.toBooks, guarded_iff (fun _ _ h hok => Fit.take h hok) (fun _ _ h => h.kept_iff) hstart⟩

/-- A resource of two parts. -/
def twoSlots : ResourceAdvertisement :=
  { n := 2, t := 2, d := 2, h := List.replicate 32 0, r := List.replicate 4 0, m := [0, 0, 0, 0, 2, 0, 0, 0] }

/-- A part with nothing in it, twice, under the hash of the first slot. -/
def emptyParts : List Input := [.part (Transfer.clear 2) [], .part (Transfer.clear 3) []]

/-- An empty part is counted with every copy: two of them start the assembly of no part at all. -/
theorem books_empty :
    let d := run (take Transfer.byNothing) (accepted (Transfer.clear 1) twoSlots [] false false) emptyParts
    d.received = 2 ∧ d.parts = [[], []] ∧ d.assemblies = 1 ∧ ¬ Books d ∧ ¬ d.Full := by
  have h : let d := run (take Transfer.byNothing) (accepted (Transfer.clear 1) twoSlots [] false false) emptyParts
      d.received = 2 ∧ d.parts = [[], []] ∧ d.assemblies = 1 ∧ d.totalParts = 2 := by
    decide +kernel
  obtain ⟨hreceived, hparts, hstarts, htotal⟩ := h
  refine ⟨hreceived, hparts, hstarts, fun hbooks => ?_, fun hfull => ?_⟩
  · have hcount := hbooks.received
    rw [hreceived, hparts] at hcount
    exact absurd hcount (by decide)
  · refine hfull 0 (by rw [htotal]; decide) ?_
    rw [hparts]
    rfl

end MicroReticulum.Resource.Incoming
