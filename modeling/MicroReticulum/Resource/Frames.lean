import MicroReticulum.Resource.Transfer

/-!
# What a call leaves, and what it logs

`Speaks P` is a call that keeps what the object is about and logs only events
that `P` allows; each function of the two ends says what it says. What a
request is answered with, and what is asked for, is read off here once.
-/

namespace MicroReticulum.Resource

open Lib (Outcome)
open Lib.Cursor

/-- A log went on, with events that `P` allows. -/
def Adds (P : Event → Prop) (log log' : List Event) : Prop := ∃ more, log' = log ++ more ∧ ∀ e ∈ more, P e

section
variable {P Q : Event → Prop} {log log' log'' : List Event} {e : Event}

theorem Adds.refl : Adds P log log := ⟨[], by simp, by simp⟩

theorem Adds.one (h : P e) : Adds P log (log ++ [e]) := ⟨[e], rfl, by simpa using h⟩

theorem Adds.trans (h : Adds P log log') (h' : Adds P log' log'') : Adds P log log'' := by
  obtain ⟨more, rfl, hm⟩ := h
  obtain ⟨more', rfl, hm'⟩ := h'
  refine ⟨more ++ more', by simp, fun e he => ?_⟩
  rcases List.mem_append.1 he with he | he
  · exact hm e he
  · exact hm' e he

theorem Adds.mono (h : Adds P log log') (hw : ∀ e, P e → Q e) : Adds Q log log' := by
  obtain ⟨more, he, hm⟩ := h
  exact ⟨more, he, fun e h => hw e (hm e h)⟩

theorem Adds.mem (h : Adds P log log') (he : e ∈ log') : e ∈ log ∨ P e := by
  obtain ⟨more, rfl, hm⟩ := h
  exact (List.mem_append.1 he).imp_right (hm e)

theorem Adds.sub (h : Adds P log log') (he : e ∈ log) : e ∈ log' := by
  obtain ⟨more, rfl, -⟩ := h
  exact List.mem_append_left _ he

end

-- ---------------------------------------------------------------------------
-- The sender
-- ---------------------------------------------------------------------------

namespace Outgoing

variable {P Q : Event → Prop} {c : Codec} {env : Env} {d d' d'' : Outgoing} {w : Wire} {data : Bytes}

structure Speaks (P : Event → Prop) (d d' : Outgoing) : Prop where
  offer : d'.toOffer = d.toOffer
  log : Adds P d.log d'.log

theorem Speaks.refl : Speaks P d d := ⟨rfl, .refl⟩

theorem Speaks.trans (h : Speaks P d d') (h' : Speaks P d' d'') : Speaks P d d'' where
  offer := h'.offer.trans h.offer
  log := h.log.trans h'.log

theorem Speaks.mono (h : Speaks P d d') (hw : ∀ e, P e → Q e) : Speaks Q d d' := { h with log := h.log.mono hw }

theorem note_speaks {e : Event} (h : P e) : Speaks P d (d.note e) := ⟨rfl, .one h⟩

theorem transmit_speaks (h : P (.sent w)) : (d.transmit env w).Leaves (Speaks P d) := by
  unfold transmit
  split
  · exact Outcome.leaves_done.2 (note_speaks h)
  · exact Outcome.leaves_threw.2 .refl

theorem conclude_speaks (h : P .concluded) : (d.conclude env).Leaves (Speaks P d) := by
  unfold conclude
  split
  · exact Outcome.leaves_done.2 .refl
  · split
    · exact Outcome.leaves_threw.2 (note_speaks h)
    · exact Outcome.leaves_done.2 (note_speaks h)

/-- One call behind another. -/
theorem Speaks.andThen {o : Outcome Outgoing} {f : Outgoing → Outcome Outgoing} (ho : o.Leaves (Speaks P d))
    (hf : ∀ d', Speaks P d d' → (f d').Leaves (Speaks P d')) : (o.andThen f).Leaves (Speaks P d) :=
  Outcome.Leaves.andThen ho fun d' h => (hf d' h).mono fun _ h' => h.trans h'

theorem cancel_speaks (hs : P (.sent (.cancel d.hash))) (hc : P .concluded) : (d.cancel env).Leaves (Speaks P d) := by
  refine Speaks.andThen ?_ fun d' _ => conclude_speaks hc
  unfold fail
  split
  · exact Outcome.leaves_done.2 .refl
  · split
    · exact Outcome.Leaves.mono (transmit_speaks hs) fun _ h => ⟨h.offer, h.log⟩
    · exact Outcome.leaves_done.2 ⟨rfl, .refl⟩

theorem advertise_speaks (h : P (.sent (.advertisement d.advertisement.pack))) : (d.advertise env).Leaves (Speaks P d) :=
  Speaks.andThen (transmit_speaks h) fun _ _ => Outcome.leaves_done.2 ⟨rfl, .refl⟩

theorem sendPart_speaks {wanted : Bytes} (h : ∀ part ∈ d.parts, P (.sent (.part part))) :
    (d.sendPart c env wanted).Leaves (Speaks P d) := by
  unfold sendPart
  split
  · exact Outcome.leaves_done.2 .refl
  · next i hi =>
    have hlt : i < d.parts.length := (List.findIdx?_eq_some_iff_findIdx_eq.1 hi).1
    have hget : d.parts.getD i [] = d.parts[i] := by simp [List.getD_eq_getElem?_getD, hlt]
    refine Speaks.andThen (transmit_speaks (h _ ?_)) fun _ _ => Outcome.leaves_done.2 ⟨rfl, .refl⟩
    rw [hget]
    exact List.getElem_mem hlt

theorem sendParts_speaks (wanted : List Bytes) (h : ∀ part ∈ d.parts, P (.sent (.part part))) :
    (sendParts c env wanted d).Leaves (Speaks P d) := by
  induction wanted generalizing d with
  | nil => exact Outcome.leaves_done.2 .refl
  | cons mh wanted ih => exact Speaks.andThen (sendPart_speaks h) fun d' hd' => ih (by rwa [hd'.offer])

/-- What a request may be answered with. -/
inductive Answers (d : Offer) (data : Bytes) : Event → Prop
  | part {part : Bytes} : part ∈ d.parts → Answers d data (.sent (.part part))
  | hashmapUpdate {index : Nat} : data.byte 0 = HASHMAP_IS_EXHAUSTED.toNat →
      d.partIndex (data.mid 1 MAPHASH_LEN) = some index → index % HASHMAP_MAX_LEN = 0 →
      Answers d data (.sent (.hashmapUpdate (d.packHmu (index / HASHMAP_MAX_LEN))))
  | sequencingError : data.byte 0 = HASHMAP_IS_EXHAUSTED.toNat →
      (∀ index, d.partIndex (data.mid 1 MAPHASH_LEN) = some index → index % HASHMAP_MAX_LEN ≠ 0) →
      Answers d data .sequencingError
  | cancel : Answers d data (.sent (.cancel d.hash))
  | concluded : Answers d data .concluded

theorem sendHmu_speaks (he : data.byte 0 = HASHMAP_IS_EXHAUSTED.toNat) :
    (d.sendHmu env (data.mid 1 MAPHASH_LEN)).1.Leaves (Speaks (Answers d.toOffer data) d) := by
  have herror : (∀ index, d.partIndex (data.mid 1 MAPHASH_LEN) = some index → index % HASHMAP_MAX_LEN ≠ 0) →
      ((d.note .sequencingError).cancel env).Leaves (Speaks (Answers d.toOffer data) d) := by
    intro h
    have hn : Speaks (Answers d.toOffer data) d (d.note .sequencingError) := note_speaks (.sequencingError he h)
    exact Outcome.Leaves.mono (cancel_speaks (d := d.note .sequencingError) .cancel .concluded) fun _ h => hn.trans h
  unfold sendHmu
  split
  · next index hi =>
    split
    · next hmod =>
      refine herror fun index' hi' => ?_
      rw [hi] at hi'
      exact Option.some.inj hi' ▸ hmod
    · next hmod =>
      exact Speaks.andThen (transmit_speaks (.hashmapUpdate he hi (not_not.1 hmod)))
        fun _ _ => Outcome.leaves_done.2 ⟨rfl, .refl⟩
  · next hi =>
    refine herror fun index' hi' => ?_
    rw [hi] at hi'
    cases hi'

theorem awaitProof_speaks : Speaks P d d.awaitProof := by
  unfold awaitProof
  split <;> exact ⟨rfl, .refl⟩

theorem request_speaks (c : Codec) (env : Env) (d : Outgoing) (data : Bytes) :
    (d.request c env data).Leaves (Speaks (Answers d.toOffer data) d) := by
  unfold request
  split
  · exact Outcome.leaves_done.2 .refl
  · extract_lets e
    have hparts : ∀ wanted, (sendParts c env wanted e).Leaves (Speaks (Answers d.toOffer data) d) := fun wanted =>
      Outcome.Leaves.mono (sendParts_speaks (d := e) wanted fun _ h => .part h) fun _ h => ⟨h.offer, h.log⟩
    split
    · next he =>
      split
      · exact Outcome.leaves_done.2 ⟨rfl, .refl⟩
      · refine Speaks.andThen (hparts _) fun d' hd' => ?_
        have hh : (d'.sendHmu env (data.mid 1 MAPHASH_LEN)).1.Leaves (Speaks (Answers d'.toOffer data) d') :=
          sendHmu_speaks he
        rw [hd'.offer] at hh
        dsimp only
        split
        · exact Speaks.andThen hh fun d'' _ => Outcome.leaves_done.2 awaitProof_speaks
        · exact hh
    · exact Speaks.andThen (hparts _) fun d' _ => Outcome.leaves_done.2 awaitProof_speaks

theorem validateProof_speaks {proof : Bytes} (h : P .concluded) : (d.validateProof env proof).Leaves (Speaks P d) := by
  unfold validateProof
  split
  · exact Outcome.Leaves.mono (conclude_speaks h) fun _ h => ⟨h.offer, h.log⟩
  · exact Outcome.leaves_done.2 .refl

/-- What the watchdog may say. -/
inductive Retries (d : Offer) : Event → Prop
  | advertisement : Retries d (.sent (.advertisement d.advertisement.pack))
  | cancel : Retries d (.sent (.cancel d.hash))
  | concluded : Retries d .concluded

theorem watchdog_speaks (env : Env) (d : Outgoing) : (d.watchdog env).Leaves (Speaks (Retries d.toOffer) d) := by
  have hcancel : (d.cancel env).Leaves (Speaks (Retries d.toOffer) d) := cancel_speaks .cancel .concluded
  have hstay : (Outcome.done d).Leaves (Speaks (Retries d.toOffer) d) := Outcome.leaves_done.2 .refl
  unfold watchdog
  split
  · extract_lets tmo
    split
    · exact hstay
    · split
      · exact hcancel
      · exact Outcome.Leaves.mono (advertise_speaks .advertisement) fun _ h => ⟨h.offer, h.log⟩
  · extract_lets rtt mr maxWait
    split
    · exact hcancel
    · exact hstay
  · extract_lets rtt
    split
    · exact hstay
    · split
      · exact hcancel
      · exact Outcome.leaves_done.2 ⟨rfl, .refl⟩
  · exact hstay

end Outgoing

-- ---------------------------------------------------------------------------
-- The receiver
-- ---------------------------------------------------------------------------

namespace Incoming

variable {P Q : Event → Prop} {c : Codec} {env : Env} {d d' d'' : Incoming} {w : Wire} {part : Bytes}

structure Speaks (P : Event → Prop) (d d' : Incoming) : Prop where
  advertised : d'.toAdvertised = d.toAdvertised
  mapHashes : d'.mapHashes = d.mapHashes
  hashmapHeight : d'.hashmapHeight = d.hashmapHeight
  parts : d'.parts = d.parts
  log : Adds P d.log d'.log

theorem Speaks.refl : Speaks P d d := ⟨rfl, rfl, rfl, rfl, .refl⟩

theorem Speaks.trans (h : Speaks P d d') (h' : Speaks P d' d'') : Speaks P d d'' where
  advertised := h'.advertised.trans h.advertised
  mapHashes := h'.mapHashes.trans h.mapHashes
  hashmapHeight := h'.hashmapHeight.trans h.hashmapHeight
  parts := h'.parts.trans h.parts
  log := h.log.trans h'.log

theorem Speaks.mono (h : Speaks P d d') (hw : ∀ e, P e → Q e) : Speaks Q d d' := { h with log := h.log.mono hw }

theorem note_speaks {e : Event} (h : P e) : Speaks P d (d.note e) := ⟨rfl, rfl, rfl, rfl, .one h⟩

theorem Speaks.andThen {o : Outcome Incoming} {f : Incoming → Outcome Incoming} (ho : o.Leaves (Speaks P d))
    (hf : ∀ d', Speaks P d d' → (f d').Leaves (Speaks P d')) : (o.andThen f).Leaves (Speaks P d) :=
  Outcome.Leaves.andThen ho fun d' h => (hf d' h).mono fun _ h' => h.trans h'

theorem transmit_speaks (h : P (.sent w)) : (d.transmit env w).Leaves (Speaks P d) := by
  unfold transmit
  split
  · exact Outcome.leaves_done.2 (note_speaks h)
  · exact Outcome.leaves_threw.2 .refl

theorem conclude_speaks (h : P .concluded) : (d.conclude env).Leaves (Speaks P d) := by
  unfold conclude
  split
  · exact Outcome.leaves_done.2 .refl
  · split
    · exact Outcome.leaves_threw.2 (note_speaks h)
    · exact Outcome.leaves_done.2 (note_speaks h)

theorem notify_speaks (h : P .progress) : (d.notify env).Leaves (Speaks P d) := by
  unfold notify
  split
  · exact Outcome.leaves_done.2 .refl
  · split
    · exact Outcome.leaves_threw.2 (note_speaks h)
    · exact Outcome.leaves_done.2 (note_speaks h)

/-- What a receiver may ask for: the map goes on only from where it ends. -/
inductive Asks (d : Incoming) : Event → Prop
  | exhausted {requested : List Bytes} {pn : Nat} : pn < d.totalParts → d.mapHashes.getD pn none = none →
      Asks d (.sent (.request (d.packRequest requested true)))
  | parts {requested : List Bytes} : Asks d (.sent (.request (d.packRequest requested false)))

theorem wanted_exhausted {left pn : Nat} (h : (d.wanted left pn).2 = true) :
    ∃ pn, pn < d.totalParts ∧ d.mapHashes.getD pn none = none := by
  induction left generalizing pn with
  | zero => cases h
  | succ left ih =>
    unfold wanted at h
    split at h
    · cases h
    · next hlt =>
      split at h
      · exact ih h
      · split at h
        · next hmh => exact ⟨pn, not_le.1 hlt, hmh⟩
        · exact ih h

theorem requestWindow_speaks : (d.requestWindow env).Leaves (Speaks (Asks d) d) := by
  unfold requestWindow
  split
  · exact Outcome.leaves_done.2 .refl
  · generalize hw : d.wanted d.window (d.consec + 1).toNat = want
    obtain ⟨requested, exhausted⟩ := want
    dsimp only
    split
    · exact Outcome.leaves_done.2 ⟨rfl, rfl, rfl, rfl, .refl⟩
    · have hasks : Asks d (.sent (.request (d.packRequest requested exhausted))) := by
        cases exhausted with
        | false => exact .parts
        | true =>
          obtain ⟨pn, hlt, hmh⟩ := wanted_exhausted (congrArg Prod.snd hw)
          exact .exhausted hlt hmh
      refine Outcome.Leaves.andThen ?_ fun d' h => Outcome.leaves_done.2 ⟨h.1, h.2, h.3, h.4, h.5⟩
      exact Outcome.Leaves.mono (transmit_speaks hasks) fun _ h => ⟨h.1, h.2, h.3, h.4, h.5⟩

theorem Speaks.asks {e : Event} (h : Speaks P d d') (ha : Asks d' e) : Asks d e := by
  have hpack : d'.packRequest = d.packRequest := by
    funext requested exhausted
    simp only [packRequest, lastKnown, h.advertised, h.mapHashes, h.hashmapHeight]
  cases ha with
  | exhausted hpn hmh =>
    rw [h.advertised] at hpn
    rw [h.mapHashes] at hmh
    exact hpack ▸ .exhausted hpn hmh
  | parts => exact hpack ▸ .parts

/-- A part received: what may be said behind it. -/
inductive Receives (d : Incoming) : Event → Prop
  | asks {e : Event} : Asks d e → Receives d e
  | progress : Receives d .progress
  | assembled : Receives d .assembled
  | proof {proof : Bytes} : Receives d (.sent (.proof proof))
  | concluded : Receives d .concluded

theorem Speaks.receives {e : Event} (h : Speaks P d d') (hr : Receives d' e) : Receives d e := by
  cases hr with
  | asks ha => exact .asks (h.asks ha)
  | progress => exact .progress
  | assembled => exact .assembled
  | proof => exact .proof
  | concluded => exact .concluded

-- Bookkeeping of rates, times and windows says nothing.

theorem Speaks.countFast (h : Speaks P d d') (rate : ℚ) : Speaks P d (d'.countFast rate) := by
  unfold Incoming.countFast
  split
  · exact ⟨h.1, h.2, h.3, h.4, h.5⟩
  · exact h

theorem Speaks.countVerySlow (h : Speaks P d d') (rate : ℚ) : Speaks P d (d'.countVerySlow rate) := by
  unfold Incoming.countVerySlow
  split
  · exact ⟨h.1, h.2, h.3, h.4, h.5⟩
  · exact h

theorem heard_speaks : Speaks P d (d.heard env part) := by
  unfold heard
  extract_lets
  split
  · split
    · refine Speaks.countFast ?_ _
      exact ⟨rfl, rfl, rfl, rfl, .refl⟩
    · exact ⟨rfl, rfl, rfl, rfl, .refl⟩
  · exact ⟨rfl, rfl, rfl, rfl, .refl⟩

theorem adapt_speaks : Speaks P d (d.adapt env) := by
  unfold adapt
  extract_lets e
  have he : Speaks P d e := by
    unfold e
    split <;> exact ⟨rfl, rfl, rfl, rfl, .refl⟩
  split
  · refine Speaks.countVerySlow (Speaks.countFast ?_ _) _
    exact ⟨he.1, he.2, he.3, he.4, he.5⟩
  · exact he

theorem requestNext_speaks : (d.requestNext env).Leaves (Speaks (Receives d) d) := by
  unfold requestNext
  split
  · have ha : Speaks (Receives d) d (d.adapt env) := adapt_speaks
    refine Outcome.Leaves.mono requestWindow_speaks fun d' h => ha.trans ?_
    exact h.mono fun e he => .asks (ha.asks he)
  · exact Outcome.leaves_done.2 .refl

theorem judge_speaks : (d.judge c env).Leaves (Speaks (Receives d) d) := by
  unfold judge
  split
  · exact Outcome.leaves_done.2 ⟨rfl, rfl, rfl, rfl, .refl⟩
  · exact Outcome.Leaves.mono (transmit_speaks .proof) fun _ h => ⟨h.1, h.2, h.3, h.4, h.5⟩

theorem assembleFull_speaks : (d.assembleFull c env).Leaves (Speaks (Receives d) d) := by
  unfold assembleFull
  split
  · refine Speaks.andThen ?_ fun _ _ => conclude_speaks .concluded
    have hn : Speaks (Receives d) d (d.note .assembled) := note_speaks .assembled
    exact Outcome.Leaves.mono judge_speaks fun _ h => hn.trans (h.mono fun _ => hn.receives)
  · exact Outcome.leaves_done.2 .refl

/-- A part has gone into a slot that waited for its hash, or nowhere. -/
structure Takes (c : Codec) (part : Bytes) (d d' : Incoming) : Prop where
  advertised : d'.toAdvertised = d.toAdvertised
  mapHashes : d'.mapHashes = d.mapHashes
  hashmapHeight : d'.hashmapHeight = d.hashmapHeight
  parts : d'.parts = d.parts ∨ ∃ i < d.totalParts, d.mapHashes.getD i none = some (c.mapHash d.randomHash part) ∧
    d.parts.getD i [] = [] ∧ d'.parts = d.parts.set i part
  log : Adds (Receives d) d.log d'.log

theorem findSlot_some {mh : Bytes} {i : Nat} (h : d.findSlot mh = some i) :
    i < d.totalParts ∧ d.mapHashes.getD i none = some mh ∧ d.parts.getD i [] = [] := by
  have hp := List.find?_some h
  have hm := List.mem_of_find?_eq_some h
  exact ⟨List.mem_range.1 hm, by simpa using hp⟩

/-- What follows a part into its slot says only what a receiver may. -/
theorem filled_speaks : ((d.notify env).andThen (·.requestNext env) |>.andThen (·.assembleFull c env)).Leaves
    (Speaks (Receives d) d) := by
  refine Speaks.andThen (Speaks.andThen (notify_speaks .progress) fun d' h => ?_) fun d' h => ?_
  · exact Outcome.Leaves.mono requestNext_speaks fun _ h' => h'.mono fun _ => h.receives
  · exact Outcome.Leaves.mono assembleFull_speaks fun _ h' => h'.mono fun _ => h.receives

theorem receivePart_takes (c : Codec) (env : Env) (d : Incoming) (part : Bytes) :
    (d.receivePart c env part).1.Leaves (Takes c part d) := by
  have hh : Speaks (Receives d) d (d.heard env part) := heard_speaks
  unfold receivePart
  generalize d.heard env part = e at hh
  dsimp only
  split
  · exact Outcome.leaves_done.2 ⟨hh.advertised, hh.mapHashes, hh.hashmapHeight, .inl hh.parts, hh.log⟩
  · next i hi =>
    obtain ⟨hlt, hmh, hempty⟩ := findSlot_some hi
    refine Outcome.Leaves.mono (filled_speaks (d := e.fill i part)) fun d' h => ?_
    have hreceives : ∀ ev, Receives (e.fill i part) ev → Receives d ev := by
      intro ev hev
      refine hh.receives ?_
      cases hev with
      | asks ha => cases ha with
        | exhausted hpn hn => exact .asks (.exhausted (d := e) hpn hn)
        | parts => exact .asks (.parts (d := e))
      | progress => exact .progress
      | assembled => exact .assembled
      | proof => exact .proof
      | concluded => exact .concluded
    rw [hh.advertised] at hlt hmh
    rw [hh.mapHashes] at hmh
    rw [hh.parts] at hempty
    refine ⟨h.advertised.trans hh.advertised, h.mapHashes.trans hh.mapHashes,
      h.hashmapHeight.trans hh.hashmapHeight, .inr ⟨i, hlt, hmh, hempty, ?_⟩, ?_⟩
    · rw [h.parts, ← hh.parts]
      rfl
    · exact hh.log.trans (h.log.mono hreceives)

theorem cancel_speaks (h : P .concluded) : (d.cancel env).Leaves (Speaks P d) := by
  unfold cancel
  split
  · exact Outcome.Leaves.mono (conclude_speaks h) fun _ h => ⟨h.1, h.2, h.3, h.4, h.5⟩
  · exact conclude_speaks h

theorem narrow_speaks : Speaks P d d.narrow := by
  unfold narrow
  split
  · extract_lets
    split <;> exact ⟨rfl, rfl, rfl, rfl, .refl⟩
  · exact .refl

theorem watchdog_speaks : (d.watchdog env).Leaves (Speaks (Receives d) d) := by
  have he : Speaks (Receives d) d (d.updateEifr env) := ⟨rfl, rfl, rfl, rfl, .refl⟩
  unfold watchdog
  split
  · exact Outcome.leaves_done.2 .refl
  · extract_lets e
    split
    · exact Outcome.leaves_done.2 he
    · split
      · have hn : Speaks (Receives d) d { e.narrow with retriesLeft := e.retriesLeft - 1, waitingHmu := false } := by
          have h := he.trans (narrow_speaks (d := d.updateEifr env))
          exact ⟨h.1, h.2, h.3, h.4, h.5⟩
        exact Outcome.Leaves.mono requestWindow_speaks fun _ h => hn.trans (h.mono fun _ h => .asks (hn.asks h))
      · exact Outcome.Leaves.mono (cancel_speaks .concluded) fun _ h => he.trans h

end Incoming

end MicroReticulum.Resource
