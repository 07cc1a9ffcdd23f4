import MicroReticulum.Resource.Once

/-!
# How a resource ends

A resource of either end with its place in the link's set. What concludes it is
to tell the consumer and take it out of the set, in one step and for good.
`cancel` looks for `COMPLETE` alone and tells the consumer whatever it finds, and
neither it nor `link_closed` takes the resource out: `Link::resource_concluded`,
which would, is called by nobody.
-/

namespace MicroReticulum.Resource

open Lib (Outcome)
open Lib.Runs
open MsgPack (ResourceAdvertisement)

-- ---------------------------------------------------------------------------
-- The sender's standing
-- ---------------------------------------------------------------------------

namespace Outgoing

variable {c : Codec} {d d' : Outgoing} {env : Env} {w : Wire} {data : Bytes} {e : Event}

def conclusions (d : Outgoing) : Nat := d.log.count .concluded

def standing (d : Outgoing) : Status × Nat × Bool := (d.status, d.conclusions, d.concludedCallback)

/-- The consumer is told, and throws. -/
def Tells (env : Env) (d : Outgoing) : Prop := d.concludedCallback ∧ env.concludedThrows

/-- The transfer goes on as far as the consumer knows. -/
structure Goes (d d' : Outgoing) : Prop where
  status : d'.status.concluded = false
  conclusions : d'.conclusions = d.conclusions
  callback : d'.concludedCallback = d.concludedCallback

/-- It is over, and the consumer has been told. -/
structure Told (d d' : Outgoing) (st : Status) : Prop where
  status : d'.status = st
  conclusions : d'.conclusions = d.conclusions + if d.concludedCallback then 1 else 0
  callback : d'.concludedCallback = d.concludedCallback

/-- The watchdog gives the transfer up. -/
def GivesUp (env : Env) (d : Outgoing) : Prop :=
  match d.status with
  | .advertised =>
    let tmo := if d.timeout ≤ 0 then env.rtt * d.timeoutFactor else d.timeout
    ¬ (tmo ≤ 0 ∨ env.now ≤ d.advSent + tmo + PROCESSING_GRACE) ∧ d.retriesLeft ≤ 0
  | .transferring =>
    let rtt := if d.rtt > 0 then d.rtt else env.rtt
    let mr : ℚ := MAX_RETRIES
    env.now > d.lastActivity +
      (rtt * d.timeoutFactor * mr + SENDER_GRACE_TIME + PER_RETRY_DELAY * (mr * (mr + 1) / 2))
  | .awaitingProof =>
    let rtt := if d.rtt > 0 then d.rtt else env.rtt
    ¬ (rtt ≤ 0 ∨ env.now ≤ d.lastPartSent + rtt * PROOF_TIMEOUT_FACTOR + SENDER_GRACE_TIME) ∧ d.retriesLeft ≤ 0
  | _ => False

theorem ofSource_status {src : Source} : (ofSource c env src).status = .advertised := rfl

theorem ofSource_conclusions {src : Source} : (ofSource c env src).conclusions = 0 := rfl

theorem note_standing (h : e ≠ .concluded) : (d.note e).standing = d.standing := by
  simp only [standing, conclusions, note, List.count_append]
  simp [h]

theorem transmit_standing : (d.transmit env w).Leaves (·.standing = d.standing) := by
  unfold transmit
  split
  · exact Outcome.leaves_done.2 (note_standing nofun)
  · exact Outcome.leaves_threw.2 rfl

theorem sendPart_standing {wanted : Bytes} : (d.sendPart c env wanted).Leaves (·.standing = d.standing) := by
  unfold sendPart
  split
  · exact Outcome.leaves_done.2 rfl
  · exact Outcome.Leaves.andThen transmit_standing fun _ h => Outcome.leaves_done.2 h

theorem sendParts_standing (wanted : List Bytes) : (sendParts c env wanted d).Leaves (·.standing = d.standing) := by
  induction wanted generalizing d with
  | nil => exact Outcome.leaves_done.2 rfl
  | cons mh wanted ih =>
    exact Outcome.Leaves.andThen sendPart_standing fun d' h => ih.mono fun _ h' => h'.trans h

theorem Goes.of_standing (h : d.status.concluded = false) (hs : d'.standing = d.standing) : Goes d d' := by
  simp only [standing, Prod.mk.injEq] at hs
  exact ⟨hs.1 ▸ h, hs.2.1, hs.2.2⟩

theorem conclude_told (h : ¬ d.Tells env) : ∃ d', d.conclude env = .done d' ∧ Told d d' d.status := by
  unfold conclude
  by_cases hcb : d.concludedCallback
  · rw [if_neg (by simp [hcb]), if_neg fun ht => h ⟨hcb, ht⟩]
    refine ⟨_, rfl, rfl, ?_, rfl⟩
    simp [conclusions, note, hcb]
  · rw [if_pos (by simpa using hcb)]
    exact ⟨d, rfl, rfl, by simp [hcb], rfl⟩

/-- A cancel that gets its packet out and finds a consumer that does not throw. -/
theorem cancel_told (h : ¬ d.Tells env) (hsends : env.linkActive → env.sends) (hst : d.status ≠ .complete) :
    ∃ d', d.cancel env = .done d' ∧ Told d d' .failed := by
  have hfail : ∃ d₁, d.fail env = .done d₁ ∧ d₁.standing = (.failed, d.conclusions, d.concludedCallback) := by
    unfold fail transmit
    rw [if_neg hst]
    split
    · next hactive =>
      rw [if_pos (hsends hactive)]
      exact ⟨_, rfl, note_standing nofun⟩
    · exact ⟨_, rfl, rfl⟩
  obtain ⟨d₁, hd₁, hs⟩ := hfail
  simp only [standing, Prod.mk.injEq] at hs
  obtain ⟨d', hd', htold⟩ : ∃ d', d₁.conclude env = .done d' ∧ Told d₁ d' d₁.status :=
    conclude_told fun ht => h ⟨hs.2.2 ▸ ht.1, ht.2⟩
  refine ⟨d', ?_, htold.status.trans hs.1, ?_, htold.callback.trans hs.2.2⟩
  · unfold cancel
    rw [hd₁, Outcome.andThen_done, hd']
  · rw [htold.conclusions, hs.2.1, hs.2.2]

theorem conclude_status : (d.conclude env).Leaves (·.status = d.status) := by
  unfold conclude
  split
  · exact Outcome.leaves_done.2 rfl
  · split
    · exact Outcome.leaves_threw.2 rfl
    · exact Outcome.leaves_done.2 rfl

/-- However a cancel ends, the resource has failed by then. -/
theorem cancel_fails (hst : d.status ≠ .complete) : (d.cancel env).Leaves (·.status = .failed) := by
  refine Outcome.Leaves.andThen ?_ fun d' hs => conclude_status.mono fun _ hs' => hs'.trans hs
  unfold fail
  rw [if_neg hst]
  split
  · refine transmit_standing.mono fun d' hs => ?_
    simp only [standing, Prod.mk.injEq] at hs
    exact hs.1
  · exact Outcome.leaves_done.2 rfl

/-- With nobody to tell, a cancel leaves what has failed or is complete as it stands. -/
theorem cancel_untold (hcb : d.concludedCallback = false) (hst : d.status = .complete ∨ d.status = .failed) :
    (d.cancel env).Leaves (·.standing = d.standing) := by
  refine Outcome.Leaves.andThen ?_ fun d' hs => ?_
  · unfold fail
    rcases hst with hst | hst
    · rw [if_pos hst]
      exact Outcome.leaves_done.2 rfl
    · have hsame : { d with status := .failed } = d := by rw [← hst]
      rw [if_neg (by rw [hst]; decide), hsame]
      split
      · exact transmit_standing
      · exact Outcome.leaves_done.2 rfl
  · have hcb' : d'.concludedCallback = false := by
      simp only [standing, Prod.mk.injEq] at hs
      exact hs.2.2.trans hcb
    unfold conclude
    rw [if_pos (by simp [hcb'])]
    exact Outcome.leaves_done.2 hs

/-- A request has the next segment of the map to ask for, where it asks for one. -/
def InSequence (d : Outgoing) (data : Bytes) : Prop :=
  data.byte 0 = HASHMAP_IS_EXHAUSTED.toNat →
    ∃ index, d.partIndex (data.mid 1 MAPHASH_LEN) = some index ∧ index % HASHMAP_MAX_LEN = 0

theorem awaitProof_goes (h : Goes d d') : Goes d d'.awaitProof := by
  unfold awaitProof
  split
  · exact ⟨rfl, h.conclusions, h.callback⟩
  · exact h

theorem request_goes (hst : d.status.concluded = false) (hseq : d.InSequence data) :
    (d.request c env data).Leaves (Goes d) := by
  unfold request
  split
  · exact Outcome.leaves_done.2 (.of_standing hst rfl)
  · extract_lets e
    have he : Goes d e := ⟨rfl, rfl, rfl⟩
    have hparts : ∀ wanted, (sendParts c env wanted e).Leaves (Speaks (fun _ => True) e) ∧
        (sendParts c env wanted e).Leaves (Goes d) := fun wanted =>
      ⟨sendParts_speaks wanted fun _ _ => trivial, (sendParts_standing wanted).mono fun _ hs => by
        have hgoes : Goes e _ := .of_standing he.status hs
        exact ⟨hgoes.status, hgoes.conclusions, hgoes.callback⟩⟩
    split
    · next hexhausted =>
      obtain ⟨index, hindex, hmod⟩ := hseq hexhausted
      split
      · exact Outcome.leaves_done.2 he
      · obtain ⟨hspeaks, hgoes⟩ := hparts (hashesIn (data.drop (1 + MAPHASH_LEN + HASH_SIZE)))
        generalize sendParts c env (hashesIn (data.drop (1 + MAPHASH_LEN + HASH_SIZE))) e = o at hspeaks hgoes
        cases o with
        | done d₁ =>
          have hoffer : d₁.toOffer = d.toOffer := (Outcome.leaves_done.1 hspeaks).offer
          have hg := Outcome.leaves_done.1 hgoes
          rw [Outcome.andThen_done]
          unfold sendHmu
          rw [hoffer, hindex]
          dsimp only
          rw [if_neg (not_not.2 hmod), if_pos rfl]
          refine Outcome.Leaves.andThen (Outcome.Leaves.andThen (transmit_standing.mono fun d₂ hs => ?_) fun d₂ h₂ =>
            Outcome.leaves_done.2 ⟨h₂.1, h₂.2, h₂.3⟩) fun d₂ h₂ => Outcome.leaves_done.2 (awaitProof_goes h₂)
          have h₂ : Goes d₁ d₂ := .of_standing hg.status hs
          exact ⟨h₂.status, h₂.conclusions.trans hg.conclusions, h₂.callback.trans hg.callback⟩
        | threw d₁ => exact Outcome.leaves_threw.2 (Outcome.leaves_threw.1 hgoes)
        | aborted =>
          obtain ⟨_, h, -⟩ := hgoes
          cases h
    · exact Outcome.Leaves.andThen (hparts _).2 fun d' h => Outcome.leaves_done.2 (awaitProof_goes h)

theorem advertise_goes (hst : d.status.concluded = false) : (d.advertise env).Leaves (Goes d) := by
  refine Outcome.Leaves.andThen (transmit_standing.mono fun d' hs => .of_standing hst hs) fun d' h => ?_
  exact Outcome.leaves_done.2 ⟨rfl, h.conclusions, h.callback⟩

theorem watchdog_goes (hst : d.status.concluded = false) (h : ¬ d.GivesUp env) :
    (d.watchdog env).Leaves (Goes d) := by
  have hstays : (Outcome.done d).Leaves (Goes d) := Outcome.leaves_done.2 (.of_standing hst rfl)
  unfold GivesUp at h
  unfold watchdog
  split
  · next hadv =>
    rw [hadv] at h
    dsimp only at h ⊢
    generalize (if d.timeout ≤ 0 then env.rtt * d.timeoutFactor else d.timeout) = tmo at h ⊢
    split
    · exact hstays
    · next hlate =>
      rw [if_neg fun hr => h ⟨hlate, hr⟩]
      exact (advertise_goes (d := { d with retriesLeft := d.retriesLeft - 1 }) hst).mono fun _ hg =>
        ⟨hg.1, hg.2, hg.3⟩
  · next htransfer =>
    rw [htransfer] at h
    dsimp only at h ⊢
    rw [if_neg h]
    exact hstays
  · next hawait =>
    rw [hawait] at h
    dsimp only at h ⊢
    generalize (if d.rtt > 0 then d.rtt else env.rtt) = rtt at h ⊢
    split
    · exact hstays
    · next hlate =>
      rw [if_neg fun hr => h ⟨hlate, hr⟩]
      exact Outcome.leaves_done.2 ⟨hst, rfl, rfl⟩
  · exact hstays

theorem watchdog_told (h : d.GivesUp env) (ht : ¬ d.Tells env) (hsends : env.linkActive → env.sends) :
    ∃ d', d.watchdog env = .done d' ∧ Told d d' .failed := by
  unfold GivesUp at h
  split at h
  · next hadv =>
    have hcancel : d.watchdog env = d.cancel env := by
      unfold watchdog
      simp only [hadv]
      rw [if_neg h.1, if_pos h.2]
    rw [hcancel]
    exact cancel_told ht hsends (by rw [hadv]; decide)
  · next htransfer =>
    have hcancel : d.watchdog env = d.cancel env := by
      unfold watchdog
      simp only [htransfer]
      rw [if_pos h]
    rw [hcancel]
    exact cancel_told ht hsends (by rw [htransfer]; decide)
  · next hawait =>
    have hcancel : d.watchdog env = d.cancel env := by
      unfold watchdog
      simp only [hawait]
      rw [if_neg h.1, if_pos h.2]
    rw [hcancel]
    exact cancel_told ht hsends (by rw [hawait]; decide)
  · exact h.elim

/-- The proof is the one that is expected. -/
def Proves (d : Outgoing) (proof : Bytes) : Prop :=
  proof.length ≥ 64 ∧ d.expectedProof.length ≥ HASH_SIZE ∧
    proof.mid HASH_SIZE HASH_SIZE = d.expectedProof.left HASH_SIZE

theorem validateProof_told (h : d.Proves data) (ht : ¬ d.Tells env) :
    ∃ d', d.validateProof env data = .done d' ∧ Told d d' .complete := by
  obtain ⟨d', hd', htold⟩ : ∃ d', { d with status := .complete }.conclude env = .done d' ∧
      Told { d with status := .complete } d' .complete := conclude_told (d := { d with status := .complete }) ht
  refine ⟨d', ?_, htold.1, htold.2, htold.3⟩
  unfold validateProof
  exact (if_pos h).trans hd'

theorem validateProof_missed (h : ¬ d.Proves data) : d.validateProof env data = .done d := by
  unfold validateProof
  exact if_neg h

end Outgoing

-- ---------------------------------------------------------------------------
-- The receiver's end
-- ---------------------------------------------------------------------------

namespace Incoming

variable {c : Codec} {d d' : Incoming} {env : Env} {data : Bytes}

structure Told (d d' : Incoming) : Prop where
  status : d'.status.concluded = true
  conclusions : d'.conclusions = d.conclusions + if d.concludedCallback then 1 else 0
  callback : d'.concludedCallback = d.concludedCallback

theorem conclude_told (h : ¬ d.Tells env) (hst : d.status.concluded = true) :
    ∃ d', d.conclude env = .done d' ∧ Told d d' := by
  unfold conclude
  by_cases hcb : d.concludedCallback
  · rw [if_neg (by simp [hcb]), if_neg fun ht => h ⟨hcb, ht⟩]
    refine ⟨_, rfl, hst, ?_, rfl⟩
    simp [conclusions, note, hcb]
  · rw [if_pos (by simpa using hcb)]
    exact ⟨d, rfl, hst, by simp [hcb], rfl⟩

theorem cancel_told (h : ¬ d.Tells env) : ∃ d', d.cancel env = .done d' ∧ Told d d' := by
  unfold cancel
  split
  · obtain ⟨d', hd', htold⟩ : ∃ d', { d with status := .failed }.conclude env = .done d' ∧
      Told { d with status := .failed } d' := conclude_told (d := { d with status := .failed }) h rfl
    exact ⟨d', hd', htold.1, htold.2, htold.3⟩
  · next hst => exact conclude_told h (by rw [not_not.1 hst]; rfl)

/-- With nobody to tell, a cancel leaves what has failed or is complete as it stands. -/
theorem cancel_silent (hcb : d.concludedCallback = false) (hst : d.status = .complete ∨ d.status = .failed) :
    ∃ d', d.cancel env = .done d' ∧ d'.standing = d.standing := by
  have hsilent : ∀ e : Incoming, e.concludedCallback = false → e.conclude env = .done e := fun e he => by
    unfold conclude
    rw [if_pos (by simp [he])]
  have hsame : (if d.status ≠ .complete then { d with status := .failed } else d) = d := by
    split
    · next hne => rw [← hst.resolve_left hne]
    · rfl
  unfold cancel
  rw [hsame]
  exact ⟨d, hsilent d hcb, rfl⟩

theorem watchdog_told (hst : d.status = .transferring) (h : d.GivesUp env) (ht : ¬ d.Tells env) :
    ∃ d', d.watchdog env = .done d' ∧ Told d d' := by
  have hlate : ¬ ((d.updateEifr env).eifr ≤ 0 ∨ env.now ≤ (d.updateEifr env).deadline) := by
    rw [not_or, not_le, not_le]
    exact (of_decide_eq_true h.1).2
  have hcancel : d.watchdog env = (d.updateEifr env).cancel env := by
    unfold watchdog
    rw [if_neg (not_not.2 hst)]
    dsimp only
    rw [if_neg hlate]
    exact if_neg (not_lt.2 h.2)
  obtain ⟨d', hd', htold⟩ : ∃ d', (d.updateEifr env).cancel env = .done d' ∧ Told (d.updateEifr env) d' :=
    cancel_told ht
  exact ⟨d', hcancel.trans hd', htold.1, htold.2, htold.3⟩

/-- The parts with this one are what was advertised, which goes out as a proof. -/
def Verifies (c : Codec) (env : Env) (d : Incoming) (part : Bytes) : Prop :=
  ∃ i, d.findSlot (c.mapHash d.randomHash part) = some i ∧
    (((d.heard env part).fill i part).payload c env).isSome

theorem assemble_told (h : ¬ d.Tells env) (hsends : (d.payload c env).isSome → env.sends) :
    ∃ d', d.assemble c env = .done d' ∧ Told d d' := by
  have hpayload : (d.note .assembled).payload c env = d.payload c env := rfl
  have hjudge : ∃ d₁, (d.note .assembled).judge c env = .done d₁ ∧ d₁.status.concluded = true ∧
      d₁.conclusions = d.conclusions ∧ d₁.concludedCallback = d.concludedCallback := by
    have hnote : (d.note .assembled).conclusions = d.conclusions := by simp [conclusions, note]
    unfold judge
    rw [hpayload]
    split
    · exact ⟨_, rfl, rfl, hnote, rfl⟩
    · next data hdata =>
      unfold transmit
      rw [if_pos (hsends (by rw [hdata]; rfl))]
      refine ⟨_, rfl, rfl, ?_, rfl⟩
      simp [conclusions, note]
  obtain ⟨d₁, hd₁, hst, hc, hcb⟩ := hjudge
  obtain ⟨d', hd', htold⟩ : ∃ d', d₁.conclude env = .done d' ∧ Told d₁ d' :=
    conclude_told (fun ht => h ⟨hcb ▸ ht.1, ht.2⟩) hst
  refine ⟨d', ?_, htold.status, ?_, htold.callback.trans hcb⟩
  · unfold assemble
    rw [hd₁, Outcome.andThen_done, hd']
  · rw [htold.conclusions, hc, hcb]

/-- The last part, with nothing that throws behind it. -/
theorem receivePart_told {i : Nat} (hslot : d.findSlot (c.mapHash d.randomHash data) = some i)
    (hends : d.EndsTransfer env) (h : ¬ d.Tells env) (hsends : Verifies c env d data → env.sends) :
    ∃ d', (d.receivePart c env data).1 = .done d' ∧ Told d d' := by
  obtain ⟨_, _, _, _, _, _, he⟩ := heard_fields env d data
  have hfill : ∀ e, e = (d.heard env data).fill i data → e.totalParts = d.totalParts ∧ e.received = d.received + 1 ∧
      e.progressCallback = d.progressCallback ∧ e.concludedCallback = d.concludedCallback ∧
      e.conclusions = d.conclusions := by
    rintro e rfl
    rw [he]
    exact ⟨rfl, rfl, rfl, rfl, rfl⟩
  have hverifies : (((d.heard env data).fill i data).payload c env).isSome → env.sends := fun hp =>
    hsends ⟨i, hslot, hp⟩
  rw [receivePart_taken hslot]
  generalize hfilled : (d.heard env data).fill i data = e at hverifies
  obtain ⟨htotal, hreceived, hprogress, hcb, hcount⟩ := hfill e hfilled.symm
  have hrest : ∀ e', e' = e ∨ e' = e.note .progress →
      ∃ d', ((Outcome.done e').andThen (·.requestNext env)).andThen (·.assembleFull c env) = .done d' ∧
        Told d d' := by
    intro e' he'
    have hsame : e'.totalParts = e.totalParts ∧ e'.received = e.received ∧ e'.conclusions = e.conclusions ∧
        e'.concludedCallback = e.concludedCallback ∧ e'.payload c env = e.payload c env := by
      rcases he' with rfl | rfl
      · exact ⟨rfl, rfl, rfl, rfl, rfl⟩
      · exact ⟨rfl, rfl, by simp [conclusions, note], rfl, rfl⟩
    have hall : e'.totalParts > 0 ∧ e'.received ≥ e'.totalParts := by
      rw [hsame.1, hsame.2.1, htotal, hreceived]
      exact hends.2
    have hcb' := hsame.2.2.2.1.trans hcb
    obtain ⟨d', hd', htold⟩ : ∃ d', e'.assemble c env = .done d' ∧ Told e' d' :=
      assemble_told (fun ht => h ⟨hcb' ▸ ht.1, ht.2⟩) fun hp => hverifies (hsame.2.2.2.2 ▸ hp)
    refine ⟨d', ?_, htold.status, ?_, htold.callback.trans hcb'⟩
    · rw [Outcome.andThen_done, requestNext_full hall.2, Outcome.andThen_done]
      unfold assembleFull
      rw [if_pos hall, hd']
    · rw [htold.conclusions, hsame.2.2.1, hcount, hcb']
  have hquiet : ¬ (e.progressCallback ∧ env.progressThrows) := by
    rw [hprogress]
    exact hends.1
  rcases notify_done hquiet with hn | hn
  · rw [hn]
    exact hrest e (.inl rfl)
  · rw [hn]
    exact hrest _ (.inr rfl)

end Incoming

-- ---------------------------------------------------------------------------
-- A resource and its link
-- ---------------------------------------------------------------------------

inductive End where
  | sender (d : Outgoing)
  | receiver (d : Incoming)

namespace End

def status : End → Status
  | .sender d => d.status
  | .receiver d => d.status

def conclusions : End → Nat
  | .sender d => d.conclusions
  | .receiver d => d.conclusions

def callback : End → Bool
  | .sender d => d.concludedCallback
  | .receiver d => d.concludedCallback

end End

/-- One resource, and where its link has it. -/
structure Course where
  resource : End
  /-- It is in the link's set. -/
  listed : Bool := true
  /-- The link is open. -/
  up : Bool := true

namespace Course

/-- What may reach a resource; `cancel` is a call from outside. -/
inductive Op where
  | request (env : Env) (packetHash plaintext : Bytes)
  | proof (env : Env) (data : Bytes)
  | part (env : Env) (handlerThrows : Bool) (data : Bytes)
  | hashmapUpdate (env : Env) (plaintext : Bytes)
  | cancelPacket (env : Env) (plaintext : Bytes)
  | watchdog (env : Env)
  | linkClosed (env : Env)
  | cancel (env : Env)

variable (c : Codec) (s : Course)

/-- A call on the sender is over; one that returned may be followed by its removal. -/
def sent (removes : Status → Bool) : Outcome Outgoing → Course
  | .done d => { s with resource := .sender d, listed := s.listed && !removes d.status }
  | .threw d => { s with resource := .sender d }
  | .aborted => { s with up := false }

def received (removes : Incoming → Bool) : Outcome Incoming → Course
  | .done d => { s with resource := .receiver d, listed := s.listed && !removes d }
  | .threw d => { s with resource := .receiver d }
  | .aborted => { s with up := false }

/-- What the link hands on to a sender in its set. -/
def atSender (d : Outgoing) : Op → Course
  | .request env packetHash plaintext =>
    if plaintext.length ≥ 1 + HASH_SIZE ∧ Transfer.requested plaintext = d.hash ∧ !d.hasRequestHash packetHash then
      s.sent (fun _ => false) ((d.noteRequestHash packetHash).request c env plaintext)
    else s
  | .proof env data =>
    if data.left HASH_SIZE = d.hash then s.sent (· = .complete) (d.validateProof env data) else s
  | .watchdog env => s.sent (fun st => st = .failed ∨ st = .complete) (d.watchdog env)
  | _ => s

/-- What it hands on to a receiver. -/
def atReceiver (d : Incoming) : Op → Course
  | .part env handlerThrows data =>
    let (o, taken) := d.receivePart c env data
    s.received (fun d => taken ∧ d.status.concluded ∧ ¬ (handlerThrows ∧ (d.flags.isRequest ∨ d.flags.isResponse))) o
  | .hashmapUpdate env plaintext =>
    if plaintext.length ≥ HASH_SIZE ∧ plaintext.left HASH_SIZE = d.hash then
      s.received (fun _ => false) (d.hashmapUpdatePacket env plaintext)
    else s
  | .cancelPacket env plaintext =>
    if plaintext.length ≥ HASH_SIZE ∧ plaintext.left HASH_SIZE = d.hash then
      s.received (fun _ => true) (d.cancel env)
    else s
  | .watchdog env => s.received (·.status.concluded) (d.watchdog env)
  | _ => s

/-- `Resource::cancel`, from wherever. -/
def cancelled (env : Env) : Course :=
  match s.resource with
  | .sender d => s.sent (fun _ => false) (d.cancel env)
  | .receiver d => s.received (fun _ => false) (d.cancel env)

def step : Op → Course
  | .cancel env => s.cancelled env
  | .linkClosed env =>
    { (if s.listed ∧ s.up then s.cancelled { env with linkActive := false } else s) with up := false }
  | op =>
    if s.listed ∧ s.up then
      match s.resource with
      | .sender d => s.atSender c d op
      | .receiver d => s.atReceiver c d op
    else s

-- ---------------------------------------------------------------------------
-- The specification
-- ---------------------------------------------------------------------------

/-- The consumer is told, and the resource leaves the set, when it is concluded and not else. -/
structure Settled (s : Course) : Prop where
  told : s.resource.conclusions = if s.resource.status.concluded ∧ s.resource.callback then 1 else 0
  listed : s.listed = !s.resource.status.concluded

/-- What a run from here has to do with a concluded resource: nothing. -/
def Absorbs (c : Codec) (s : Course) (ops : List Op) : Prop :=
  ∀ pre more, pre ++ more <+: ops → (run (step c) s pre).resource.status.concluded →
    (run (step c) s (pre ++ more)).resource.status = (run (step c) s pre).resource.status

/-- A resource as it is made. -/
inductive Made (c : Codec) : Course → Prop
  | sender (env : Env) (src : Outgoing.Source) : Made c { resource := .sender (.ofSource c env src) }
  | advertised (env : Env) (src : Outgoing.Source) {d : Outgoing}
      (h : ((Outgoing.ofSource c env src).advertise env).state? = some d) : Made c { resource := .sender d }
  | receiver (env : Env) (adv : ResourceAdvertisement) (requestId : Bytes)
      (concludedCallback progressCallback : Bool) :
      Made c { resource := .receiver (.accepted env adv requestId concludedCallback progressCallback) }

-- ---------------------------------------------------------------------------
-- The condition
-- ---------------------------------------------------------------------------

/-- Where a packet or the watchdog concludes the resource nothing throws, a request is in
sequence, the link is not closed on a resource that goes on, and none is cancelled from
outside, short of one that has ended, has nobody to tell and is not corrupt. -/
def Ok (c : Codec) (s : Course) : Op → Prop
  | .request _ _ plaintext => match s.resource with
    | .sender d => d.InSequence plaintext
    | .receiver _ => True
  | .proof env data => match s.resource with
    | .sender d => d.Proves data → ¬ d.Tells env
    | .receiver _ => True
  | .part env handlerThrows data => match s.resource with
    | .sender _ => True
    | .receiver d => (d.findSlot (c.mapHash d.randomHash data)).isSome → d.EndsTransfer env →
        ¬ d.Tells env ∧ (d.Verifies c env data → env.sends) ∧
          ¬ (handlerThrows ∧ (d.flags.isRequest ∨ d.flags.isResponse))
  | .hashmapUpdate .. => True
  | .cancelPacket env _ => match s.resource with
    | .sender _ => True
    | .receiver d => ¬ d.Tells env
  | .watchdog env => match s.resource with
    | .sender d => d.GivesUp env → ¬ d.Tells env ∧ (env.linkActive → env.sends)
    | .receiver d => d.GivesUp env → ¬ d.Tells env
  | .linkClosed _ => ¬ s.listed
  | .cancel _ => ¬ s.listed ∧ s.resource.callback = false ∧ s.resource.status ≠ .corrupt

-- ---------------------------------------------------------------------------
-- The invariant
-- ---------------------------------------------------------------------------

variable {c : Codec} {s : Course} {op : Op} {ops : List Op}

structure Inv (s : Course) : Prop extends Settled s where
  under : ∀ d, s.resource = .receiver d → s.listed → d.Under

theorem Inv.open (h : Inv s) (hl : s.listed) : s.resource.status.concluded = false := by
  simpa [hl] using h.listed

theorem Inv.untold (h : Inv s) (hl : s.listed) : s.resource.conclusions = 0 := by
  rw [h.told, h.open hl]
  rfl

theorem Inv.over (h : Inv s) (hl : ¬ s.listed) : s.resource.status.concluded = true := by
  simpa [hl] using h.listed

section
variable {d : Outgoing} {o : Outcome Outgoing} {removes : Status → Bool}

theorem Inv.sent_goes (h : Inv s) (hd : s.resource = .sender d) (hl : s.listed) (ho : o.Leaves (Outgoing.Goes d))
    (hr : ∀ st : Status, st.concluded = false → removes st = false) : Inv (s.sent removes o) := by
  have hzero : d.conclusions = 0 := by
    have h0 := h.untold hl
    rwa [hd] at h0
  have hstays : ∀ d' listed, Outgoing.Goes d d' → listed = true → Inv { s with resource := .sender d', listed } := by
    intro d' listed hg hlisted
    refine ⟨⟨?_, ?_⟩, fun _ he => nomatch he⟩
    · simp [End.conclusions, End.status, hg.status, hg.conclusions, hzero]
    · simp [End.status, hg.status, hlisted]
  cases o with
  | done d' =>
    have hg := Outcome.leaves_done.1 ho
    exact hstays d' _ hg (by rw [hl, hr _ hg.status]; rfl)
  | threw d' => exact hstays d' _ (Outcome.leaves_threw.1 ho) hl
  | aborted =>
    obtain ⟨_, he, -⟩ := ho
    cases he

theorem Inv.sent_told (h : Inv s) (hd : s.resource = .sender d) (hl : s.listed) {st : Status}
    (ho : ∃ d', o = .done d' ∧ Outgoing.Told d d' st) (hst : st.concluded = true) (hr : removes st = true) :
    Inv (s.sent removes o) := by
  obtain ⟨d', rfl, htold⟩ := ho
  have hzero : d.conclusions = 0 := by
    have h0 := h.untold hl
    rwa [hd] at h0
  refine ⟨⟨?_, ?_⟩, fun _ he => nomatch he⟩
  · simp [sent, End.conclusions, End.status, End.callback, htold.status, htold.conclusions, htold.callback, hst,
      hzero]
  · simp [sent, End.status, htold.status, hst, hr]

end

section
variable {d : Incoming} {o : Outcome Incoming} {removes : Incoming → Bool}

theorem Inv.received_goes (h : Inv s) (hl : s.listed) (ho : o.All Incoming.Under)
    (hr : ∀ d : Incoming, d.Under → removes d = false) : Inv (s.received removes o) := by
  have hstays : ∀ (d' : Incoming) listed, d'.Under → listed = true →
      Inv { s with resource := .receiver d', listed } := by
    intro d' listed hu hlisted
    refine ⟨⟨?_, ?_⟩, fun e he _ => ?_⟩
    · simp [End.conclusions, End.status, hu.status, hu.conclusions, Status.concluded]
    · simp [End.status, hu.status, hlisted, Status.concluded]
    · cases he
      exact hu
  cases o with
  | done d' =>
    have hu := Outcome.all_done.1 ho
    exact hstays d' _ hu (by rw [hl, hr d' hu]; rfl)
  | threw d' => exact hstays d' _ (Outcome.all_threw.1 ho) hl
  | aborted => exact ⟨⟨h.told, h.listed⟩, h.under⟩

theorem Inv.received_told (hu : d.Under) (ho : ∃ d', o = .done d' ∧ Incoming.Told d d')
    (hr : ∀ d', o = .done d' → removes d' = true) : Inv (s.received removes o) := by
  obtain ⟨d', rfl, htold⟩ := ho
  have hgone := hr d' rfl
  refine ⟨⟨?_, ?_⟩, fun e _ hl => ?_⟩
  · simp [received, End.conclusions, End.status, End.callback, htold.status, htold.conclusions, htold.callback,
      hu.conclusions]
  · simp [received, End.status, htold.status, hgone]
  · simp [received, hgone] at hl

end

theorem removes_failed (st : Status) (h : st.concluded = false) :
    decide (st = .failed ∨ st = .complete) = false := by
  cases st <;> simp_all [Status.concluded]

theorem Inv.atSender (h : Inv s) {d : Outgoing} (hd : s.resource = .sender d) (hl : s.listed) (hok : Ok c s op) :
    Inv (s.atSender c d op) := by
  have hopen : d.status.concluded = false := by
    have h0 := h.open hl
    rwa [hd] at h0
  cases op with
  | request env packetHash plaintext =>
    unfold Course.atSender
    dsimp only
    split
    · have hseq : d.InSequence plaintext := by
        unfold Ok at hok
        rwa [hd] at hok
      have hrequest : ((d.noteRequestHash packetHash).request c env plaintext).Leaves (Outgoing.Goes d) :=
        (Outgoing.request_goes (d := d.noteRequestHash packetHash) hopen hseq).mono fun _ hg => ⟨hg.1, hg.2, hg.3⟩
      exact h.sent_goes hd hl hrequest fun _ _ => rfl
    · exact h
  | proof env data =>
    unfold Course.atSender
    dsimp only
    split
    · unfold Ok at hok
      rw [hd] at hok
      by_cases hproves : d.Proves data
      · exact h.sent_told hd hl (Outgoing.validateProof_told hproves (hok hproves)) rfl rfl
      · rw [Outgoing.validateProof_missed hproves]
        refine h.sent_goes hd hl (Outcome.leaves_done.2 (.of_standing hopen rfl)) fun st hst => ?_
        cases st <;> simp_all [Status.concluded]
    · exact h
  | watchdog env =>
    unfold Course.atSender
    unfold Ok at hok
    rw [hd] at hok
    by_cases hgives : d.GivesUp env
    · exact h.sent_told hd hl (Outgoing.watchdog_told hgives (hok hgives).1 (hok hgives).2) rfl rfl
    · exact h.sent_goes hd hl (Outgoing.watchdog_goes hopen hgives) removes_failed
  | _ => exact h

theorem Inv.atReceiver (h : Inv s) {d : Incoming} (hd : s.resource = .receiver d) (hl : s.listed) (hok : Ok c s op) :
    Inv (s.atReceiver c d op) := by
  have hu := h.under d hd hl
  cases op with
  | part env handlerThrows data =>
    unfold Ok at hok
    rw [hd] at hok
    dsimp only at hok
    have hcall : s.atReceiver c d (.part env handlerThrows data) = s.received (fun d' =>
        (d.receivePart c env data).2 ∧ d'.status.concluded ∧
          ¬ (handlerThrows ∧ (d'.flags.isRequest ∨ d'.flags.isResponse))) (d.receivePart c env data).1 := rfl
    have hflag : (d.receivePart c env data).2 = (d.findSlot (c.mapHash d.randomHash data)).isSome :=
      Incoming.receivePart_flag
    rw [hcall, hflag]
    have hstays : (d.receivePart c env data).1.All Incoming.Under →
        Inv (s.received (fun d' => (d.findSlot (c.mapHash d.randomHash data)).isSome ∧ d'.status.concluded ∧
          ¬ (handlerThrows ∧ (d'.flags.isRequest ∨ d'.flags.isResponse))) (d.receivePart c env data).1) := fun ho =>
      h.received_goes hl ho fun e he => by simp [he.status, Status.concluded]
    cases hslot : d.findSlot (c.mapHash d.randomHash data) with
    | none =>
      rw [hslot] at hstays
      refine hstays ?_
      rw [Incoming.receivePart_missed hslot]
      exact Outcome.all_done.2 (hu.of_standing Incoming.heard_standing)
    | some i =>
      rw [hslot] at hstays hok
      obtain ⟨d', hd', hlands⟩ : Incoming.Lands env d (d.receivePart c env data).1 :=
        Incoming.receivePart_lands hu hslot
      obtain ⟨d'', hd'', hfills⟩ : (d.receivePart c env data).1.Leaves (Incoming.Fills env i data d) :=
        Incoming.receivePart_fills hslot
      cases hd'.symm.trans hd''
      by_cases hends : d.EndsTransfer env
      · obtain ⟨hquiet, hsends, hhandler⟩ := hok rfl hends
        have htold := Incoming.receivePart_told hslot hends hquiet hsends
        refine received_told hu htold fun e he => ?_
        obtain ⟨e', he', htold⟩ := htold
        cases he'.symm.trans he
        obtain ⟨e'', he'', htakes⟩ := Incoming.receivePart_takes c env d data
        rw [he] at he''
        cases he''
        rw [htakes.advertised]
        exact decide_eq_true ⟨rfl, htold.status, hhandler⟩
      · have hu' : d'.Under := hlands.resolve_right fun hl => hends (hfills.starts.1 (by
          rw [hu.assemblies, hl.1.2]
          exact Nat.one_pos))
        refine hstays fun e he => ?_
        cases hd'.symm.trans he
        exact hu'
  | hashmapUpdate env plaintext =>
    unfold Course.atReceiver
    dsimp only
    split
    · have hsame : (d.hashmapUpdatePacket env plaintext).All Incoming.Under :=
        Incoming.hashmapUpdatePacket_standing.mono fun _ hs => hu.of_standing hs
      exact h.received_goes hl hsame fun _ _ => rfl
    · exact h
  | cancelPacket env plaintext =>
    unfold Course.atReceiver
    dsimp only
    split
    · unfold Ok at hok
      rw [hd] at hok
      exact received_told hu (Incoming.cancel_told hok) fun _ _ => rfl
    · exact h
  | watchdog env =>
    unfold Course.atReceiver
    unfold Ok at hok
    rw [hd] at hok
    by_cases hgives : d.GivesUp env
    · have htold := Incoming.watchdog_told hu.status hgives (hok hgives)
      refine received_told hu htold fun d' hd' => ?_
      obtain ⟨e, he, htold⟩ := htold
      cases he.symm.trans hd'
      exact htold.status
    · obtain ⟨d', hd', hlands⟩ : (d.watchdog env).Leaves _ := Incoming.watchdog_lands hu
      have hu' : d'.Under := hlands.resolve_right fun hl => hgives hl.2.1
      refine h.received_goes hl (fun e he => ?_) fun e he => by rw [he.status]; rfl
      cases hd'.symm.trans he
      exact hu'
  | _ => exact h

-- ---------------------------------------------------------------------------
-- Every run
-- ---------------------------------------------------------------------------

theorem ended_of_concluded {st : Status} (h : st.concluded = true) (hc : st ≠ .corrupt) :
    st = .complete ∨ st = .failed := by
  cases st <;> simp_all [Status.concluded]

/-- The same in all that a conclusion is about. -/
theorem Inv.same (h : Inv s) (hl : ¬ s.listed) {e : End} {listed : Bool} (hlisted : listed = s.listed)
    (hst : e.status = s.resource.status) (hc : e.conclusions = s.resource.conclusions)
    (hcb : e.callback = s.resource.callback) :
    Inv { s with resource := e, listed } ∧ e.status = s.resource.status := by
  refine ⟨⟨⟨?_, ?_⟩, fun d _ hin => absurd (hlisted ▸ hin) hl⟩, hst⟩
  · rw [hst, hc, hcb]
    exact h.told
  · rw [hlisted, hst]
    exact h.listed

/-- Out of the set only a cancel reaches a resource. -/
theorem step_unlisted (c : Codec) (op : Op) (hl : s.listed = false) :
    (∃ env, op = .cancel env) ∨ (step c s op).resource = s.resource ∧ (step c s op).listed = s.listed := by
  cases op with
  | cancel env => exact .inl ⟨env, rfl⟩
  | _ => exact .inr (by simp [step, hl])

theorem Inv.cancelled {env : Env} (h : Inv s) (hl : ¬ s.listed) (hcb : s.resource.callback = false)
    (hcorrupt : s.resource.status ≠ .corrupt) :
    Inv (s.cancelled env) ∧ (s.cancelled env).resource.status = s.resource.status := by
  have hended := ended_of_concluded (h.over hl) hcorrupt
  unfold Course.cancelled
  cases hd : s.resource with
  | sender d =>
    rw [hd] at hcb hended
    obtain ⟨d', hd', hs⟩ : (d.cancel env).Leaves (·.standing = d.standing) := Outgoing.cancel_untold hcb hended
    simp only [Outgoing.standing, Prod.mk.injEq] at hs
    have hkeeps : ∀ listed, listed = s.listed → Inv { s with resource := .sender d', listed } ∧
        d'.status = (End.sender d).status := fun listed hlisted => by
      have hsame := h.same (e := .sender d') hl hlisted
      rw [hd] at hsame
      exact hsame hs.1 hs.2.1 hs.2.2
    dsimp only
    generalize d.cancel env = o at hd'
    cases o with
    | done e =>
      cases hd'
      exact hkeeps _ (Bool.and_true _)
    | threw e =>
      cases hd'
      exact hkeeps _ rfl
    | aborted => cases hd'
  | receiver d =>
    rw [hd] at hcb hended
    obtain ⟨d', hd', hs⟩ : ∃ d', d.cancel env = .done d' ∧ d'.standing = d.standing :=
      Incoming.cancel_silent hcb hended
    simp only [Incoming.standing, Prod.mk.injEq] at hs
    have hsame := h.same (e := .receiver d') hl (Bool.and_true s.listed)
    rw [hd] at hsame
    dsimp only
    rw [hd']
    exact hsame hs.1 hs.2.2.1 hs.2.2.2

/-- Out of the set, a resource is left alone but by a cancel, which leaves it as it stands. -/
theorem Inv.unlisted (h : Inv s) (hl : ¬ s.listed) (hok : Ok c s op) :
    Inv (step c s op) ∧ (step c s op).resource.status = s.resource.status := by
  rcases step_unlisted c op (Bool.eq_false_of_not_eq_true hl) with ⟨env, rfl⟩ | ⟨hsame, hlisted⟩
  · exact h.cancelled hl hok.2.1 hok.2.2
  · refine ⟨⟨⟨?_, ?_⟩, fun d _ hin => absurd (hlisted ▸ hin) hl⟩, by rw [hsame]⟩
    · rw [hsame]
      exact h.told
    · rw [hlisted, hsame]
      exact h.listed

/-- A cancel from outside ends a resource and leaves it in the set. -/
theorem Inv.cancelled_listed (env : Env) (h : Inv s) (hl : s.listed) :
    (s.cancelled env).resource.status.concluded = true ∧ (s.cancelled env).listed = true := by
  have hopen := h.open hl
  unfold Course.cancelled
  cases hd : s.resource with
  | sender d =>
    rw [hd] at hopen
    have hst : d.status ≠ .complete := fun he => by
      have hfalse : d.status.concluded = false := hopen
      rw [he] at hfalse
      cases hfalse
    obtain ⟨d', hd', hfailed⟩ : (d.cancel env).Leaves (·.status = .failed) := Outgoing.cancel_fails hst
    have hconcluded : d'.status.concluded = true := by rw [hfailed]; rfl
    dsimp only
    generalize d.cancel env = o at hd'
    cases o with
    | done e =>
      cases hd'
      exact ⟨hconcluded, (Bool.and_true _).trans hl⟩
    | threw e =>
      cases hd'
      exact ⟨hconcluded, hl⟩
    | aborted => cases hd'
  | receiver d =>
    obtain ⟨d', hd', hended⟩ : (d.cancel env).Leaves Incoming.Ended := Incoming.cancel_ended (h.under d hd hl)
    dsimp only
    generalize d.cancel env = o at hd'
    cases o with
    | done e =>
      cases hd'
      exact ⟨hended.status, (Bool.and_true _).trans hl⟩
    | threw e =>
      cases hd'
      exact ⟨hended.status, hl⟩
    | aborted => cases hd'

/-- So does the link when it closes. -/
theorem Inv.unsettled {env : Env} (h : Inv s) (hl : s.listed) (hup : s.up) :
    ¬ Settled (step c s (.cancel env)) ∧ ¬ Settled (step c s (.linkClosed env)) := by
  have hclosed : (step c s (.linkClosed env)).resource = (s.cancelled { env with linkActive := false }).resource ∧
      (step c s (.linkClosed env)).listed = (s.cancelled { env with linkActive := false }).listed := by
    simp only [step, hl, hup, and_self, if_true]
  constructor
  · intro hsettled
    obtain ⟨hst, hin⟩ := Inv.cancelled_listed env h hl
    have hlisted := hsettled.listed
    rw [show step c s (.cancel env) = s.cancelled env from rfl, hst, hin] at hlisted
    cases hlisted
  · intro hsettled
    obtain ⟨hst, hin⟩ := Inv.cancelled_listed { env with linkActive := false } h hl
    have hlisted := hsettled.listed
    rw [hclosed.1, hclosed.2, hst, hin] at hlisted
    cases hlisted

theorem Inv.step (h : Inv s) (hok : Ok c s op) : Inv (step c s op) := by
  by_cases hl : s.listed
  · have hup : ∀ t : Course, Inv t → Inv (if s.listed ∧ s.up then t else s) := by
      intro t ht
      split
      · exact ht
      · exact h
    have hmatch : Inv (match s.resource with
        | .sender d => s.atSender c d op
        | .receiver d => s.atReceiver c d op) := by
      split
      · next d hd => exact h.atSender hd hl hok
      · next d hd => exact h.atReceiver hd hl hok
    cases op with
    | cancel env => exact absurd hl hok.1
    | linkClosed env => exact absurd hl hok
    | _ => exact hup _ hmatch
  · exact (h.unlisted hl hok).1

theorem Inv.stays (h : Inv s) (hok : Guarded (Course.step c) (Ok c) s ops) (hs : s.resource.status.concluded) :
    (run (Course.step c) s ops).resource.status = s.resource.status := by
  induction ops generalizing s with
  | nil => rfl
  | cons op ops ih =>
    have hl : ¬ s.listed := by simp [h.listed, hs]
    obtain ⟨hnext, hsame⟩ := h.unlisted hl hok.1
    rw [run_cons, ih hnext hok.2 (hsame ▸ hs), hsame]

theorem made_sender {d : Outgoing} (hst : d.status.concluded = false) (hc : d.conclusions = 0) :
    Inv { resource := .sender d } := by
  refine ⟨⟨?_, ?_⟩, fun _ he => nomatch he⟩
  · simp [End.conclusions, End.status, hst, hc]
  · simp [End.status, hst]

theorem made_inv (h : Made c s) : Inv s := by
  cases h with
  | sender env src => exact made_sender (Outgoing.ofSource_status ▸ rfl) Outgoing.ofSource_conclusions
  | advertised env src hadv =>
    obtain ⟨d', hd', hg⟩ : ((Outgoing.ofSource c env src).advertise env).Leaves (Outgoing.Goes _) :=
      Outgoing.advertise_goes (Outgoing.ofSource_status ▸ rfl)
    cases hd'.symm.trans hadv
    exact made_sender hg.status (hg.conclusions.trans Outgoing.ofSource_conclusions)
  | receiver env adv requestId concludedCallback progressCallback =>
    have hu : (Incoming.accepted env adv requestId concludedCallback progressCallback).Under :=
      Incoming.accepted_of_leaves (Incoming.requestWindow_standing.mono fun _ hs =>
        Incoming.Under.of_standing ⟨rfl, rfl, rfl⟩ hs)
    refine ⟨⟨?_, ?_⟩, fun d hd _ => ?_⟩
    · simp [End.conclusions, End.status, hu.status, hu.conclusions, Status.concluded]
    · simp [End.status, hu.status, Status.concluded]
    · cases hd
      exact hu

/-- A resource is concluded once, with its consumer told and its place in the set given up in
that step, and then stays as it ended. -/
theorem concluded_once (c : Codec) (s : Course) (ops : List Op) (hs : Made c s)
    (hok : Guarded (step c) (Ok c) s ops) : Throughout (step c) Settled s ops ∧ Absorbs c s ops := by
  have hinv := made_inv hs
  refine ⟨(hok.throughout (fun _ _ h hok => h.step hok) hinv).mono fun _ h => h.toSettled, ?_⟩
  intro pre more hp hconcluded
  obtain ⟨hpre, hmore⟩ := guarded_append.1 (hok.initial hp)
  rw [run_append]
  exact (hpre.invariant (fun _ _ h hok => h.step hok) hinv).stays hmore hconcluded

/-- A resource of two parts, with a consumer. -/
def watched : Course where
  resource := .sender <| .ofSource Transfer.byNothing (Transfer.clear 0)
    { Transfer.twoParts with concludedCallback := true }

/-- The proof of the resource, where every hash is the same. -/
def proven (t : ℚ) : Op := .proof (Transfer.clear t) (List.replicate 64 0)

theorem concluded_once_proven :
    Throughout (step Transfer.byNothing) Settled watched [proven 1] ∧ Absorbs Transfer.byNothing watched [proven 1] :=
  concluded_once Transfer.byNothing watched [proven 1] (.sender (Transfer.clear 0) _)
    ⟨fun _ ht => absurd ht.2 (by decide), trivial⟩

/-- The sender is cancelled, and the proof comes before the watchdog has swept it out. -/
def provenLate : List Op := [.cancel (Transfer.clear 1), proven 2]

/-- What has failed is then complete, and the consumer is told of both. -/
theorem failed_then_complete : ¬ Throughout (step Transfer.byNothing) Settled watched provenLate ∧
    ¬ Absorbs Transfer.byNothing watched provenLate := by
  have hfailed : (run (step Transfer.byNothing) watched [.cancel (Transfer.clear 1)]).resource.status = .failed := by
    decide +kernel
  have hcomplete : (run (step Transfer.byNothing) watched provenLate).resource.status = .complete ∧
      (run (step Transfer.byNothing) watched provenLate).resource.conclusions = 2 := by decide +kernel
  constructor
  · intro h
    have htold := h.last.told
    rw [hcomplete.2] at htold
    split at htold
    · exact absurd htold (by decide)
    · exact absurd htold (by decide)
  · intro h
    have hstays := h [.cancel (Transfer.clear 1)] [proven 2] List.prefix_rfl (by rw [hfailed]; rfl)
    rw [hfailed] at hstays
    exact absurd (hcomplete.1.symm.trans hstays) (by decide)

end Course

end MicroReticulum.Resource
