import Mathlib.Tactic
import MicroReticulum.Link.Proof

/-!
# What an unsigned link proof does to a link

A frame that does not verify, or that names another mode, passes a link by
without a trace in some states and ends it in the others. `Shrugs` says which;
the run lemmas say that nothing else matters, whatever arrives in whatever
order, and what a genuine proof then meets.
-/

namespace MicroReticulum.Link

open Lib (Outcome)
open Lib.Runs (run)

variable {c : Crypto} {now : ℚ} {p : Packet} {l l' : Link} {frames : List (ℚ × Packet)} {mode : Mode}

-- ---------------------------------------------------------------------------
-- The specification
-- ---------------------------------------------------------------------------

/-- Signed by the destination, over this link and the key the frame carries. -/
def verifies (c : Crypto) (l : Link) (p : Packet) : Bool :=
  match proofParts p, l.destinationIdentity with
  | some parts, some identity => parts.data.length = PROOF_SIZE &&
      identity.validate c parts.signature
        (l.linkId ++ parts.peerPubBytes ++ destinationSigPub identity ++ parts.signalling) = some true
  | _, _ => false

def Forged (c : Crypto) (l : Link) (p : Packet) : Prop :=
  verifies c l p = false ∨ modeFromLpPacket p ≠ l.mode

instance : Decidable (Forged c l p) := inferInstanceAs (Decidable (_ ∨ _))

structure Standing where
  status : Status
  peerPubBytes : Bytes
  peerSigPubBytes : Bytes
  derivedKey : Bytes
  mtu : Nat
  mdu : Nat
  rtt : ℚ
  deriving DecidableEq

def standing (l : Link) : Standing :=
  ⟨l.status, l.peerPubBytes, l.peerSigPubBytes, l.derivedKey, l.mtu, l.mdu, l.rtt⟩

/-- What the initiator's constructor sets up and activation adds: it throws for
a mode that is not enabled, generates the exchange key, and the destination's
identity, where known, holds its public key. -/
structure Initiated (l : Link) : Prop where
  initiator : l.initiator = true
  mode : l.mode ∈ ENABLED_MODES
  prv : l.status = .pending → l.prv ≠ none
  identity : ∀ i, l.destinationIdentity = some i → i.pubBytes ≠ []
  peerSig : l.status = .active ∨ l.status = .stale →
    ∀ i, l.destinationIdentity = some i → l.peerSigPubBytes = destinationSigPub i

/-- The frame is one the link neither acts on nor chokes on. -/
def Shrugs (l : Link) (p : Packet) : Prop :=
  l.takesProof p → match l.status with
    | .pending => modeFromLpPacket p = l.mode ∧ p.data.length ≠ PROOF_SIZE ∧
        p.data.length ≠ PROOF_SIZE + LINK_MTU_SIZE
    | .active | .stale =>
        p.data.length = PROOF_SIZE + LINK_MTU_SIZE → modeFromLpPacket p ∈ ENABLED_MODES
    | .handshake | .closed => True

/-- A proof of the link's own destination, over keys both sides can use. -/
structure Genuine (c : Crypto) (l : Link) (p : Packet) : Prop where
  takes : l.takesProof p
  mode : modeFromLpPacket p = l.mode
  verifies : verifies c l p = true
  exchange : ∀ prv parts, l.prv = some prv → proofParts p = some parts →
    ∃ shared key, c.exchange prv parts.peerPubBytes = some shared ∧
      (derivedKeyLength l.mode).bind (c.hkdf · shared l.linkId []) = some key ∧ tokenKeyOk key

/-- The link is past saving: closed, or keyed with somebody else, or the device
has stopped. -/
def Lost (o : Option Link) : Prop := ∀ l, o = some l → l.status = .handshake ∨ l.status = .closed

-- ---------------------------------------------------------------------------
-- The parts of a frame
-- ---------------------------------------------------------------------------

theorem proofParts_eq_none :
    proofParts p = none ↔
      p.data.length = PROOF_SIZE + LINK_MTU_SIZE ∧ modeFromLpPacket p ∉ ENABLED_MODES := by
  by_cases hs : p.data.length = PROOF_SIZE + LINK_MTU_SIZE <;> simp [proofParts, hs, signallingBytes]

theorem proofParts_size (h : proofParts p = some parts) :
    parts.data.length = PROOF_SIZE ↔
      p.data.length = PROOF_SIZE ∨ p.data.length = PROOF_SIZE + LINK_MTU_SIZE := by
  by_cases hs : p.data.length = PROOF_SIZE + LINK_MTU_SIZE
  · simp only [proofParts, hs, if_true, Option.map_eq_some_iff] at h
    obtain ⟨_, _, rfl⟩ := h
    simp [hs]
  · simp only [proofParts, hs, if_false, Option.some.injEq] at h
    subst h
    simp [hs]

theorem verifies_iff : verifies c l p = true ↔
    ∃ parts identity, proofParts p = some parts ∧ l.destinationIdentity = some identity ∧
      parts.data.length = PROOF_SIZE ∧ identity.validate c parts.signature
        (l.linkId ++ parts.peerPubBytes ++ destinationSigPub identity ++ parts.signalling) = some true := by
  unfold verifies
  split
  · next hp hd => simp [hp, hd]
  · next h =>
    simp only [Bool.false_eq_true, false_iff]
    rintro ⟨parts, identity, hp, hd, -⟩
    exact h parts identity hp hd

-- ---------------------------------------------------------------------------
-- Links that were initiated
-- ---------------------------------------------------------------------------

theorem initiate_initiated {linkId prv : Bytes} (hid : ∀ i, identity = some i → i.pubBytes ≠ [])
    (h : initiate linkId prv identity mode hops cost cb now = some l) : Initiated l := by
  obtain ⟨_, hm, rfl⟩ := Option.map_eq_some_iff.1 h
  refine ⟨rfl, ?_, by simp, hid, by simp⟩
  by_contra hn
  simp [signallingBytes, hn] at hm

/-- What no step of the validation touches. -/
structure Keeps (l l' : Link) : Prop where
  initiator : l'.initiator = l.initiator
  mode : l'.mode = l.mode
  prv : l'.prv = l.prv
  destination : l'.destinationIdentity = l.destinationIdentity
  peerSig : l'.peerSigPubBytes = l.peerSigPubBytes
  pending : l'.status = .pending → l.status = .pending

theorem Keeps.refl (l : Link) : Keeps l l := ⟨rfl, rfl, rfl, rfl, rfl, id⟩

theorem Keeps.trans (h : Keeps l l') (h' : Keeps l' l'') : Keeps l l'' :=
  ⟨h'.1.trans h.1, h'.2.trans h.2, h'.3.trans h.3, h'.4.trans h.4, h'.5.trans h.5, h.6 ∘ h'.6⟩

theorem handshake_keeps : (handshake c l).All (Keeps l) := by
  unfold handshake
  split
  · dsimp only
    split
    · exact Outcome.all_threw.2 ⟨rfl, rfl, rfl, rfl, rfl, nofun⟩
    · split
      · exact Outcome.all_threw.2 ⟨rfl, rfl, rfl, rfl, rfl, nofun⟩
      · exact Outcome.all_done.2 ⟨rfl, rfl, rfl, rfl, rfl, nofun⟩
  · exact Outcome.all_done.2 (Keeps.refl l)

theorem sendRtt_keeps : (sendRtt now l).All (Keeps l) := by
  have hr : Keeps l (raiseRtt (now - l.requestTime + RTT_SEND_ALLOWANCE) l) := by
    unfold raiseRtt
    split <;> exact ⟨rfl, rfl, rfl, rfl, rfl, id⟩
  refine Outcome.All.andThen (P := Keeps l) ?_ fun l₁ h => ?_
  · unfold withToken
    split
    · exact Outcome.all_done.2 hr
    · split
      · exact Outcome.all_done.2 (hr.trans ⟨rfl, rfl, rfl, rfl, rfl, id⟩)
      · exact Outcome.all_threw.2 hr
  · exact Outcome.all_done.2 (h.trans ⟨rfl, rfl, rfl, rfl, rfl, id⟩)

theorem establish_keeps : (establish now p confirmedMtu l).All (Keeps l) := by
  have ha : Keeps l (emit .markAlive (activated now p confirmedMtu l)) :=
    ⟨rfl, rfl, rfl, rfl, rfl, nofun⟩
  unfold establish
  split
  · exact Outcome.all_threw.2 (Keeps.refl l)
  · refine Outcome.All.andThen (P := Keeps l) (sendRtt_keeps.mono fun _ => ha.trans) fun l₁ h => ?_
    exact Outcome.all_done.2 (h.trans ⟨rfl, rfl, rfl, rfl, rfl, id⟩)

theorem Keeps.initiated (h : Keeps l l') (hi : Initiated l)
    (hs : l'.status = .active ∨ l'.status = .stale →
      ∀ i, l.destinationIdentity = some i → l.peerSigPubBytes = destinationSigPub i) :
    Initiated l' where
  initiator := h.initiator.trans hi.initiator
  mode := h.mode ▸ hi.mode
  prv hp := h.prv ▸ hi.prv (h.pending hp)
  identity i hd := hi.identity i (h.destination ▸ hd)
  peerSig ha i hd := h.peerSig ▸ hs ha i (h.destination ▸ hd)

theorem validatePending_initiated (hi : Initiated l) (hp : l.status = .pending) :
    (validatePending c now p l).All Initiated := by
  unfold validatePending
  split
  · exact Outcome.all_threw.2 hi
  · split
    · exact Outcome.all_threw.2 hi
    · next parts _ =>
      split
      · split
        · exact Outcome.all_aborted
        · next identity hd =>
          let loaded := loadPeer parts.peerPubBytes (destinationSigPub identity) l
          have hl : Initiated loaded := ⟨hi.1, hi.2, hi.3, hi.4, by simp [loaded, loadPeer, hp]⟩
          refine Outcome.All.mono (P := Keeps loaded) ?_ fun l' h => h.initiated hl fun _ i hid => ?_
          · refine Outcome.All.andThen handshake_keeps fun l₁ h => ?_
            have h₂ : Keeps loaded { l₁ with
              establishmentCost := (l₁.establishmentCost + p.rawSize) % 65536 } :=
                h.trans ⟨rfl, rfl, rfl, rfl, rfl, id⟩
            dsimp only
            split
            · exact Outcome.all_threw.2 h₂
            · exact Outcome.all_done.2 h₂
            · exact establish_keeps.mono fun _ => h₂.trans
          · have : identity = i := Option.some.inj (hd.symm.trans hid)
            simp [loaded, loadPeer, this]
      · exact Outcome.all_done.2 hi

theorem validateRepeat_keeps : (validateRepeat c now p l).All (Keeps l) := by
  have hl := Keeps.refl l
  unfold validateRepeat
  split
  · exact Outcome.all_threw.2 hl
  · split
    · exact Outcome.all_done.2 hl
    · split
      · exact Outcome.all_done.2 hl
      · split
        · exact Outcome.all_done.2 hl
        · dsimp only
          split
          · exact Outcome.all_threw.2 hl
          · exact Outcome.all_done.2 hl
          · refine Outcome.All.andThen (P := Keeps l) (sendRtt_keeps.mono fun _ h => ?_) fun l₁ h => ?_
            · have he : Keeps l (emit .markAlive l) := ⟨rfl, rfl, rfl, rfl, rfl, id⟩
              exact he.trans h
            · exact Outcome.all_done.2 (h.trans ⟨rfl, rfl, rfl, rfl, rfl, id⟩)

/-- No frame undoes what the constructor set up. -/
theorem validateProof_initiated (hi : Initiated l) : (validateProof c now p l).All Initiated := by
  refine Outcome.All.caught ?_ fun l' h => ⟨h.1, h.2, nofun, h.4, by simp⟩
  split
  · next hp => exact validatePending_initiated hi hp
  · split
    · next ha => exact validateRepeat_keeps.mono fun _ h => h.initiated hi fun _ => hi.peerSig ha.2
    · exact Outcome.all_done.2 hi

-- ---------------------------------------------------------------------------
-- One frame
-- ---------------------------------------------------------------------------

theorem handshake_done (hs : l.status = .pending) (hp : l.prv ≠ none)
    (h : handshake c l = .done l') :
    l'.status = .handshake ∧ l'.linkId = l.linkId ∧ l'.peerPubBytes = l.peerPubBytes ∧
      l'.peerSigPubBytes = l.peerSigPubBytes := by
  obtain ⟨prv, hprv⟩ := Option.ne_none_iff_exists'.1 hp
  simp only [handshake, hs, hprv] at h
  split at h
  · cases h
  · split at h
    · cases h
    · cases h
      exact ⟨rfl, rfl, rfl, rfl⟩

theorem validateProof_closed (h : l.status = .closed ∨ l.status = .handshake) :
    validateProof c now p l = .done l := by
  rcases h with h | h <;> simp [validateProof, h]

theorem lost_step (h : Lost o) : Lost (proofStep c o frame) := by
  cases o with
  | none => simp [Lost, proofStep]
  | some l =>
    have hv : validateProof c frame.1 frame.2 l = .done l := validateProof_closed (h l rfl).symm
    by_cases ht : l.takesProof frame.2 <;> simpa [proofStep, inboundLrproof, ht, hv, Outcome.state?]

theorem validatePending_shrugged (hm : modeFromLpPacket p = l.mode) (hs : p.data.length ≠ PROOF_SIZE)
    (hl : p.data.length ≠ PROOF_SIZE + LINK_MTU_SIZE) : validatePending c now p l = .done l := by
  simp [validatePending, hm, proofParts, hs, hl]

/-- With an enabled mode on both sides, what makes a frame forged is its
signature. -/
theorem Forged.not_verifies (hi : Initiated l) (hf : Forged c l p) (h : proofParts p = some parts)
    (hs : parts.data.length = PROOF_SIZE) : ¬ verifies c l p = true := by
  rcases hf with hf | hm
  · simp [hf]
  · have hl : l.mode = .aes256Cbc := by simpa [ENABLED_MODES] using hi.mode
    rcases (proofParts_size h).1 hs with hp | hp
    · simp [modeFromLpPacket, hp, hl, MODE_DEFAULT] at hm
    · have hn : ¬ (modeFromLpPacket p ∉ ENABLED_MODES) := fun hn => by
        simp [proofParts_eq_none.2 ⟨hp, hn⟩] at h
      simp_all [ENABLED_MODES]

theorem validateRepeat_shrugged (hi : Initiated l) (ha : l.status = .active ∨ l.status = .stale)
    (hf : Forged c l p)
    (hm : p.data.length = PROOF_SIZE + LINK_MTU_SIZE → modeFromLpPacket p ∈ ENABLED_MODES) :
    validateRepeat c now p l = .done l := by
  unfold validateRepeat
  cases hparts : proofParts p with
  | none =>
    obtain ⟨hs, hn⟩ := proofParts_eq_none.1 hparts
    exact absurd (hm hs) hn
  | some parts =>
    cases hd : l.destinationIdentity with
    | none => rfl
    | some identity =>
      by_cases hs : parts.data.length = PROOF_SIZE
      · by_cases hk : parts.peerPubBytes = l.peerPubBytes
        · have hv := hf.not_verifies hi hparts hs
          have hsig := hi.peerSig ha identity hd
          have hfalse : identity.validate c parts.signature
              (l.linkId ++ l.peerPubBytes ++ l.peerSigPubBytes ++ parts.signalling) = some false := by
            rw [Identity.validate, if_neg (hi.identity identity hd), Option.some.injEq]
            by_contra ht
            refine hv (verifies_iff.2 ⟨parts, identity, hparts, hd, hs, ?_⟩)
            rw [Identity.validate, if_neg (hi.identity identity hd), hk, ← hsig]
            simpa using ht
          simp only [hs, hk, ne_eq, not_true, if_false, hfalse]
        · simp [hs, hk]
      · simp [hs]

theorem proofStep_shrugged (hi : Initiated l) (hf : Forged c l frame.2) (h : Shrugs l frame.2) :
    proofStep c (some l) frame = some l := by
  by_cases ht : l.takesProof frame.2
  · have h := h ht
    have hv : validateProof c frame.1 frame.2 l = .done l := by
      unfold validateProof
      cases hs : l.status with
      | pending =>
        simp only [hs] at h
        simp [validatePending_shrugged h.1 h.2.1 h.2.2]
      | active =>
        simp only [hs] at h
        simp [validateRepeat_shrugged hi (.inl hs) hf h]
      | stale =>
        simp only [hs] at h
        simp [validateRepeat_shrugged hi (.inr hs) hf h]
      | handshake => simp
      | closed => simp
    simp [proofStep, inboundLrproof, ht, hv, Outcome.state?]
  · simp [proofStep, inboundLrproof, ht, Outcome.state?]

/-- On a pending link every other forged frame gets past the size check and
into the handshake, or throws before it. -/
theorem validatePending_lost (hi : Initiated l) (hp : l.status = .pending) (hf : Forged c l p)
    (h : ¬ (modeFromLpPacket p = l.mode ∧ p.data.length ≠ PROOF_SIZE ∧
      p.data.length ≠ PROOF_SIZE + LINK_MTU_SIZE))
    (hd : validatePending c now p l = .done l') : l'.status = .handshake := by
  by_cases hm : modeFromLpPacket p = l.mode
  · cases hparts : proofParts p with
    | none => simp [validatePending, hm, hparts] at hd
    | some parts =>
      have hs : parts.data.length = PROOF_SIZE := (proofParts_size hparts).2 (by tauto)
      cases hid : l.destinationIdentity with
      | none => simp [validatePending, hm, hparts, hi.initiator, hs, hid] at hd
      | some identity =>
        simp only [validatePending, hm, hparts, hi.initiator, hs, hid, ne_eq, not_true, if_false,
          and_self, if_true, Outcome.andThen_eq_done] at hd
        obtain ⟨l₁, hl₁, hd⟩ := hd
        obtain ⟨hst, hlid, hpub, hsig⟩ := handshake_done (by exact hp) (by exact hi.prv hp) hl₁
        have hv := hf.not_verifies hi hparts hs
        split at hd
        · cases hd
        · cases hd
          exact hst
        · next ht =>
          refine absurd (verifies_iff.2 ⟨parts, identity, hparts, hid, hs, ?_⟩) hv
          simpa [hlid, hpub, hsig, loadPeer] using ht
  · simp [validatePending, hm] at hd

theorem validateRepeat_lost
    (h : ¬ (p.data.length = PROOF_SIZE + LINK_MTU_SIZE → modeFromLpPacket p ∈ ENABLED_MODES)) :
    validateRepeat c now p l = .threw l := by
  have hn : proofParts p = none := proofParts_eq_none.2 (by tauto)
  simp [validateRepeat, hn]

theorem proofStep_lost (hi : Initiated l) (hf : Forged c l frame.2) (h : ¬ Shrugs l frame.2) :
    Lost (proofStep c (some l) frame) := by
  obtain ⟨ht, h⟩ := Classical.not_imp.1 h
  simp only [proofStep, inboundLrproof, ht, if_true, Option.bind_some]
  refine Outcome.caught_all (fun l' hd => ?_) fun _ => .inr rfl
  cases hs : l.status with
  | pending =>
    simp only [hs] at h
    simp only [hs, if_true] at hd
    exact .inl (validatePending_lost hi hs hf h hd)
  | active | stale =>
    simp only [hs] at h
    simp [hs, hi.initiator, validateRepeat_lost h] at hd
  | handshake | closed => simp [hs] at h

/-- A link that a frame can lose is not lost yet, and shows it. -/
theorem standing_ne_of_lost (h : ¬ ∀ f ∈ frames, Shrugs l f.2) (hlost : Lost o) :
    o.map standing ≠ some l.standing := by
  push Not at h
  obtain ⟨f, -, hf⟩ := h
  intro ho
  obtain ⟨l', rfl, hl'⟩ := Option.map_eq_some_iff.1 ho
  have hs : l'.status = l.status := congrArg Standing.status hl'
  rcases hlost l' rfl with h | h <;> simp [Shrugs, ← hs, h] at hf

-- ---------------------------------------------------------------------------
-- Runs
-- ---------------------------------------------------------------------------

theorem forged_run (hi : Initiated l) (hf : ∀ f ∈ frames, Forged c l f.2) :
    (∀ f ∈ frames, Shrugs l f.2) ∧ run (proofStep c) (some l) frames = some l ∨
      (¬ ∀ f ∈ frames, Shrugs l f.2) ∧ Lost (run (proofStep c) (some l) frames) :=
  Lib.Runs.still_or_lost (fun f hm h => proofStep_shrugged hi (hf f hm) h)
    (fun _ _ => lost_step) fun f hm h => proofStep_lost hi (hf f hm) h

theorem sendRtt_ok (h : tokenKeyOk l.derivedKey) :
    ∃ l', sendRtt now l = .done l' ∧ l'.status = l.status := by
  have hd : ∀ t, (raiseRtt t l).derivedKey = l.derivedKey ∧ (raiseRtt t l).status = l.status := by
    intro t
    unfold raiseRtt
    split <;> exact ⟨rfl, rfl⟩
  unfold sendRtt withToken
  split
  · exact ⟨_, rfl, (hd _).2⟩
  · rw [(hd _).1, if_pos h]
    exact ⟨_, rfl, (hd _).2⟩

theorem establish_ok (hs : l.status = .handshake) (h : tokenKeyOk l.derivedKey) :
    ∃ l', establish now p confirmedMtu l = .done l' ∧ l'.status = .active := by
  obtain ⟨l₁, h₁, hst⟩ : ∃ l₁, sendRtt now (emit .markAlive (activated now p confirmedMtu l)) = .done l₁ ∧
      l₁.status = .active := sendRtt_ok h
  simp only [establish, hs, ne_eq, not_true, if_false, Outcome.andThen_eq_done]
  exact ⟨_, ⟨l₁, h₁, rfl⟩, hst⟩

theorem genuine_activates (hi : Initiated l) (hp : l.status = .pending) (hg : Genuine c l g.2) :
    (proofStep c (some l) g).map status = some .active := by
  obtain ⟨parts, identity, hparts, hid, hs, hv⟩ := verifies_iff.1 hg.verifies
  obtain ⟨prv, hprv⟩ := Option.ne_none_iff_exists'.1 (hi.prv hp)
  obtain ⟨shared, key, hx, hk, hok⟩ := hg.exchange prv parts hprv hparts
  have hh : handshake c (loadPeer parts.peerPubBytes (destinationSigPub identity) l) = .done
      { loadPeer parts.peerPubBytes (destinationSigPub identity) l with
        status := .handshake, sharedKey := shared, derivedKey := key } := by
    simp only [handshake, loadPeer, hp, hprv, hx, hk]
  have he : ∃ l', validatePending c g.1 g.2 l = .done l' ∧ l'.status = .active := by
    simp only [validatePending, hg.mode, hparts, hi.initiator, hs, hid, hh, ne_eq, not_true, if_false,
      and_self, if_true, Outcome.andThen_done]
    simp only [loadPeer, hv]
    exact establish_ok rfl hok
  obtain ⟨l', hl', hst⟩ := he
  have ht := hg.takes
  simp [proofStep, inboundLrproof, ht, validateProof, hp, hl', Outcome.state?, hst]

theorem Lost.status (h : Lost o) : o.map status ≠ some .pending ∧ o.map status ≠ some .active := by
  cases o with
  | none => simp
  | some l => rcases h l rfl with hs | hs <;> simp [hs]

def Closed (o : Option Link) : Prop := o.map status = some .closed

theorem closed_step (h : Closed o) : Closed (proofStep c o frame) := by
  obtain ⟨l, rfl, hl⟩ := Option.map_eq_some_iff.1 h
  by_cases ht : l.takesProof frame.2 <;>
    simp [Closed, proofStep, inboundLrproof, ht, validateProof_closed (.inl hl), Outcome.state?, hl]

/-- An active link has only one way to lose: a throw, and the handler behind it. -/
theorem active_closed (hi : Initiated l) (ha : l.status = .active) (h : ¬ Shrugs l frame.2) :
    Closed (proofStep c (some l) frame) := by
  obtain ⟨ht, h⟩ := Classical.not_imp.1 h
  simp only [ha] at h
  simp [Closed, proofStep, inboundLrproof, ht, validateProof, ha, hi.initiator, validateRepeat_lost h,
    Outcome.state?]

theorem active_run (hi : Initiated l) (hf : ∀ f ∈ frames, Forged c l f.2) (ha : l.status = .active) :
    Closed (run (proofStep c) (some l) frames) ↔ ¬ ∀ f ∈ frames, Shrugs l f.2 := by
  have h : (∀ f ∈ frames, Shrugs l f.2) ∧ run (proofStep c) (some l) frames = some l ∨
      (¬ ∀ f ∈ frames, Shrugs l f.2) ∧ Closed (run (proofStep c) (some l) frames) :=
    Lib.Runs.still_or_lost (fun f hm h => proofStep_shrugged hi (hf f hm) h) (fun _ _ => closed_step)
      fun f _ h => active_closed hi ha h
  rcases h with ⟨hall, hrun⟩ | ⟨hnot, hlost⟩
  · simpa [hrun, Closed, ha] using hall
  · exact ⟨fun _ => hnot, fun _ => hlost⟩

namespace Sample

def identity : Identity := ⟨.replicate 32 1, .replicate 32 2⟩

def link : Link where
  linkId := .replicate 16 9
  status := .pending
  mode := .aes256Cbc
  initiator := true
  expectedHops := 1
  destinationIdentity := some identity
  remoteIdentity := none
  registry := .pending
  prv := some (.replicate 32 3)
  peerPubBytes := []
  peerSigPubBytes := []
  sharedKey := []
  derivedKey := []
  token := none
  mtu := 500
  mdu := 0
  rtt := 0
  requestTime := 0
  activatedAt := 0
  lastProof := 0
  lastOutbound := 0
  lastData := 0
  keepalive := 360
  staleTime := 720
  establishmentCost := 83
  establishmentRate := 0
  attachedInterface := none
  establishedCallback := true
  events := []

/-- The same link once its proof has arrived. -/
def activeLink : Link := { link with
  status := .active
  registry := .active
  peerPubBytes := .replicate 32 5
  peerSigPubBytes := identity.sigPubBytes
  rtt := 1 }

def frame (data : Bytes) : Packet := ⟨link.linkId, data, 1, 0, 19 + data.length⟩

def genuine : Packet := frame (.replicate 64 4 ++ .replicate 32 5)

/-- Nothing in it is right, but its size is. -/
def forged : Packet := frame (.replicate 96 0)

/-- A proof that signals mode 0 and an MTU of 500. -/
def oddMode : Packet := frame (.replicate 96 0 ++ [0, 1, 244])

def short : Packet := frame [1, 2, 3]

/-- An ideal signature: only what the destination signed verifies. -/
def crypto : Crypto where
  exchange prv pub := some (prv.zipWith (· ^^^ ·) pub)
  hkdf length secret _ _ := some ((List.range length).map fun i => secret.getD (i % 32) 0)
  verify key signature message := key == identity.sigPubBytes && signature == .replicate 64 4 &&
    message == link.linkId ++ .replicate 32 5 ++ identity.sigPubBytes

theorem initiated : Initiated link :=
  ⟨rfl, by decide, by decide, by rintro _ ⟨rfl⟩; decide, by decide⟩

theorem active_initiated : Initiated activeLink :=
  ⟨rfl, by decide, by decide, by rintro _ ⟨rfl⟩; decide, by rintro _ _ ⟨rfl⟩; decide⟩

theorem genuine_genuine : Genuine crypto link genuine := by
  refine ⟨by decide, by decide, by decide +kernel, ?_⟩
  rintro _ parts ⟨rfl⟩ hparts
  exact ⟨_, _, rfl, rfl, by simp [tokenKeyOk]⟩

end Sample

end MicroReticulum.Link
