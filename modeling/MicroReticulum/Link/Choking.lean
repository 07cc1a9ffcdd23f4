import MicroReticulum.Link.ProofSound

/-!
# What a link proof throws at

`validate_proof` throws for a handful of frames, and the handler behind it sets
the link to closed. `Chokes` tells those frames by what is in them and in the
link.
-/

namespace MicroReticulum.Link

open Lib (Outcome)

/-- The key a proof's frame leads to. -/
def sessionKey (c : Crypto) (l : Link) (parts : ProofParts) : Option Bytes :=
  l.prv.bind fun prv => (c.exchange prv parts.peerPubBytes).bind fun shared =>
    (derivedKeyLength l.mode).bind (c.hkdf · shared l.linkId [])

/-- What the validation of a link proof cannot take: a mode other than the
link's or not enabled, keys that do not agree on one, an identity without keys,
and a key no token takes. -/
def Chokes (c : Crypto) (l : Link) (p : Packet) : Prop :=
  match l.status with
  | .pending => modeFromLpPacket p ≠ l.mode ∨ proofParts p = none ∨
      ∃ parts identity, proofParts p = some parts ∧ l.initiator = true ∧ parts.data.length = PROOF_SIZE ∧
        l.destinationIdentity = some identity ∧ (identity.pubBytes = [] ∨
          ∀ key, sessionKey c l parts = some key →
            verifies c l p = true ∧ l.token = none ∧ tokenKeyOk key = false)
  | .active | .stale => l.initiator = true ∧ (proofParts p = none ∨
      ∃ parts identity, proofParts p = some parts ∧ l.destinationIdentity = some identity ∧
        parts.data.length = PROOF_SIZE ∧ parts.peerPubBytes = l.peerPubBytes ∧ (identity.pubBytes = [] ∨
          identity.validate c parts.signature
            (l.linkId ++ l.peerPubBytes ++ l.peerSigPubBytes ++ parts.signalling) = some true ∧
          l.token = none ∧ tokenKeyOk l.derivedKey = false))
  | .handshake | .closed => False

variable {c : Crypto} {now : ℚ} {p : Packet} {l l' : Link}

theorem withToken_throws : l.withToken.Throws ↔ l.token = none ∧ tokenKeyOk l.derivedKey = false := by
  unfold Link.withToken
  cases l.token with
  | some t => simp
  | none => cases tokenKeyOk l.derivedKey <;> simp

theorem sendRtt_throws : (sendRtt now l).Throws ↔ l.token = none ∧ tokenKeyOk l.derivedKey = false := by
  have hr : ∀ t, (raiseRtt t l).token = l.token ∧ (raiseRtt t l).derivedKey = l.derivedKey := by
    intro t
    unfold raiseRtt
    split <;> exact ⟨rfl, rfl⟩
  simp [sendRtt, Outcome.throws_andThen, withToken_throws, hr]

theorem establish_throws (hs : l.status = .handshake) :
    (establish now p confirmedMtu l).Throws ↔ l.token = none ∧ tokenKeyOk l.derivedKey = false := by
  have ha : (emit .markAlive (activated now p confirmedMtu l)).token = l.token ∧
      (emit .markAlive (activated now p confirmedMtu l)).derivedKey = l.derivedKey := ⟨rfl, rfl⟩
  simp [establish, hs, Outcome.throws_andThen, sendRtt_throws, ha]

/-- A pending link's handshake, over a frame whose peer key is loaded. -/
theorem handshake_eq (hs : l.status = .pending) (hp : l.prv ≠ none) (parts : ProofParts) (sig : Bytes) :
    match sessionKey c l parts with
    | none => (handshake c (loadPeer parts.peerPubBytes sig l)).Throws
    | some key => ∃ shared, handshake c (loadPeer parts.peerPubBytes sig l) =
        .done { loadPeer parts.peerPubBytes sig l with
          status := .handshake, sharedKey := shared, derivedKey := key } := by
  obtain ⟨prv, hprv⟩ := Option.ne_none_iff_exists'.1 hp
  simp only [sessionKey, handshake, loadPeer, hs, hprv, Option.bind_some]
  cases c.exchange prv parts.peerPubBytes with
  | none => simp
  | some shared =>
    cases hk : (derivedKeyLength l.mode).bind (c.hkdf · shared l.linkId []) with
    | none => simp [hk]
    | some key => simp [hk]

theorem validatePending_throws (hs : l.status = .pending) (hp : l.prv ≠ none) :
    (validatePending c now p l).Throws ↔ Chokes c l p := by
  simp only [Chokes, hs]
  by_cases hm : modeFromLpPacket p = l.mode
  · cases hparts : proofParts p with
    | none => simp [validatePending, hm, hparts]
    | some parts =>
      by_cases hsize : l.initiator = true ∧ parts.data.length = PROOF_SIZE
      · cases hid : l.destinationIdentity with
        | none => simp [validatePending, hm, hparts, hsize, hid]
        | some identity =>
          have hh := handshake_eq (c := c) hs hp parts (destinationSigPub identity)
          simp only [validatePending, hm, hparts, hsize, hid, ne_eq, not_true, if_false, and_self, if_true,
            Outcome.throws_andThen]
          cases hk : sessionKey c l parts with
          | none =>
            simp only [hk] at hh
            simp [hh, hk, hsize]
          | some key =>
            simp only [hk] at hh
            obtain ⟨shared, hh⟩ := hh
            simp only [hh, Outcome.throws_done, false_or, Outcome.done.injEq, exists_eq_left']
            simp only [loadPeer]
            have hver : verifies c l p = true ↔ identity.validate c parts.signature
                (l.linkId ++ parts.peerPubBytes ++ destinationSigPub identity ++ parts.signalling) = some true := by
              simp only [verifies, hparts, hid, hsize, decide_true, Bool.true_and, decide_eq_true_eq]
            cases hv : identity.validate c parts.signature
              (l.linkId ++ parts.peerPubBytes ++ destinationSigPub identity ++ parts.signalling) with
            | none =>
              have hpub : identity.pubBytes = [] := by
                simpa [Identity.validate] using hv
              simp [hsize, hpub]
            | some b =>
              have hpub : identity.pubBytes ≠ [] := by
                rintro hpub
                simp [Identity.validate, hpub] at hv
              rw [hv, Option.some.injEq] at hver
              cases b with
              | false => simp [hsize, hpub, Bool.eq_false_iff.2 (mt hver.1 Bool.false_ne_true), hk]
              | true => simp [hsize, hpub, hver.2 rfl, hk, establish_throws]
      · simp only [validatePending, hm, hparts, hsize, ne_eq, not_true, if_false, Outcome.throws_done, false_iff]
        rintro (h | h | ⟨_, identity, ⟨⟩, hi, hl, -⟩)
        · exact h
        · cases h
        · exact hsize ⟨hi, hl⟩
  · simp [validatePending, hm]

theorem validateRepeat_throws (ha : l.status = .active ∨ l.status = .stale) (hi : l.initiator = true) :
    (validateRepeat c now p l).Throws ↔ Chokes c l p := by
  have hc : Chokes c l p ↔ l.initiator = true ∧ (proofParts p = none ∨
      ∃ parts identity, proofParts p = some parts ∧ l.destinationIdentity = some identity ∧
        parts.data.length = PROOF_SIZE ∧ parts.peerPubBytes = l.peerPubBytes ∧ (identity.pubBytes = [] ∨
          identity.validate c parts.signature
            (l.linkId ++ l.peerPubBytes ++ l.peerSigPubBytes ++ parts.signalling) = some true ∧
          l.token = none ∧ tokenKeyOk l.derivedKey = false)) := by
    rcases ha with ha | ha <;> simp only [Chokes, ha]
  rw [hc, validateRepeat]
  cases hparts : proofParts p with
  | none => simp [hi]
  | some parts =>
    cases hid : l.destinationIdentity with
    | none => simp
    | some identity =>
      by_cases hsize : parts.data.length = PROOF_SIZE
      · by_cases hkey : parts.peerPubBytes = l.peerPubBytes
        · by_cases hpub : identity.pubBytes = []
          · simp [hsize, hkey, Identity.validate, hpub, hi]
          · cases hv : c.verify identity.sigPubBytes parts.signature
              (l.linkId ++ l.peerPubBytes ++ l.peerSigPubBytes ++ parts.signalling) with
            | false => simp_all [Identity.validate]
            | true =>
              have he : (emit .markAlive l).token = l.token ∧
                (emit .markAlive l).derivedKey = l.derivedKey := ⟨rfl, rfl⟩
              simp_all [Identity.validate, Outcome.throws_andThen, sendRtt_throws]
        · simp [hsize, hkey, hi]
      · simp [hsize, hi]

/-- Whatever a part of the validation does, it neither closes the link nor
touches its private key. -/
def Held (prv : Option Bytes) (l : Link) : Prop := l.status ≠ .closed ∧ l.prv = prv

variable {prv : Option Bytes}

theorem handshake_held (h : Held prv l) : (handshake c l).All (Held prv) := by
  unfold handshake
  split
  · dsimp only
    split
    · exact Outcome.all_threw.2 ⟨nofun, h.2⟩
    · split
      · exact Outcome.all_threw.2 ⟨nofun, h.2⟩
      · exact Outcome.all_done.2 ⟨nofun, h.2⟩
  · exact Outcome.all_done.2 h

theorem sendRtt_held (h : Held prv l) : (sendRtt now l).All (Held prv) := by
  have hr : ∀ t, Held prv (raiseRtt t l) := by
    intro t
    unfold raiseRtt
    split <;> exact h
  refine Outcome.All.andThen (P := Held prv) ?_ fun l₁ h₁ => Outcome.all_done.2 h₁
  unfold Link.withToken
  split
  · exact Outcome.all_done.2 (hr _)
  · split
    · exact Outcome.all_done.2 (hr _)
    · exact Outcome.all_threw.2 (hr _)

theorem establish_held (h : Held prv l) : (establish now p confirmedMtu l).All (Held prv) := by
  unfold establish
  split
  · exact Outcome.all_threw.2 h
  · refine Outcome.All.andThen (P := Held prv) (sendRtt_held ?_) fun l₁ h₁ => Outcome.all_done.2 h₁
    exact ⟨Status.noConfusion, h.2⟩

theorem validatePending_held (h : Held prv l) : (validatePending c now p l).All (Held prv) := by
  unfold validatePending
  split
  · exact Outcome.all_threw.2 h
  · split
    · exact Outcome.all_threw.2 h
    · split
      · split
        · exact Outcome.all_aborted
        · refine Outcome.All.andThen (P := Held prv) (handshake_held ?_) fun l₁ h₁ => ?_
          · exact h
          dsimp only
          split
          · exact Outcome.all_threw.2 h₁
          · exact Outcome.all_done.2 h₁
          · exact establish_held h₁
      · exact Outcome.all_done.2 h

theorem validateRepeat_held (h : Held prv l) : (validateRepeat c now p l).All (Held prv) := by
  unfold validateRepeat
  split
  · exact Outcome.all_threw.2 h
  · split
    · exact Outcome.all_done.2 h
    · split
      · exact Outcome.all_done.2 h
      · split
        · exact Outcome.all_done.2 h
        · dsimp only
          split
          · exact Outcome.all_threw.2 h
          · exact Outcome.all_done.2 h
          · exact Outcome.All.andThen (P := Held prv) (sendRtt_held h) fun l₁ h₁ => Outcome.all_done.2 h₁

theorem caught_held {o : Outcome Link} (ho : o.All (Held prv))
    (hk : o.caught (fun l => { l with status := .closed }) = .done l') :
    (l'.status = .closed ↔ o.Throws) ∧ l'.prv = prv := by
  cases o with
  | done k =>
    cases hk
    have hheld : Held prv l' := Outcome.all_done.1 ho
    exact ⟨iff_of_false hheld.1 Outcome.throws_done, hheld.2⟩
  | threw k =>
    cases hk
    have hheld : Held prv k := Outcome.all_threw.1 ho
    exact ⟨by simp, hheld.2⟩
  | aborted => cases hk

/-- The handler behind the validation closes the link, and nothing else in it. -/
theorem validateProof_closes (ho : l.status ≠ .closed) (hp : l.status = .pending → l.prv ≠ none)
    (hk : validateProof c now p l = .done l') : (l'.status = .closed ↔ Chokes c l p) ∧ l'.prv = l.prv := by
  have hl : Held l.prv l := ⟨ho, rfl⟩
  unfold validateProof at hk
  by_cases hpend : l.status = .pending
  · rw [if_pos hpend] at hk
    have hthrows : (validatePending c now p l).Throws ↔ Chokes c l p := validatePending_throws hpend (hp hpend)
    rw [← hthrows]
    exact caught_held (validatePending_held hl) hk
  · rw [if_neg hpend] at hk
    by_cases ha : l.initiator = true ∧ (l.status = .active ∨ l.status = .stale)
    · rw [if_pos ha] at hk
      have hthrows : (validateRepeat c now p l).Throws ↔ Chokes c l p := validateRepeat_throws ha.2 ha.1
      rw [← hthrows]
      exact caught_held (validateRepeat_held hl) hk
    · rw [if_neg ha] at hk
      cases hk
      refine ⟨iff_of_false ho fun hch => ?_, rfl⟩
      unfold Chokes at hch
      cases hs : l.status <;> simp_all

theorem inboundLrproof_closes (ho : l.status ≠ .closed) (hp : l.status = .pending → l.prv ≠ none)
    (hk : inboundLrproof c now p l = .done l') :
    (l'.status = .closed ↔ l.takesProof p = true ∧ Chokes c l p) ∧ l'.prv = l.prv := by
  unfold inboundLrproof at hk
  split at hk
  · next ht =>
    have h := validateProof_closes ho hp hk
    exact ⟨by rw [h.1]; exact (and_iff_right ht).symm, h.2⟩
  · next ht =>
    cases hk
    exact ⟨iff_of_false ho fun h => ht h.1, rfl⟩

/-- An assertion that fails is no throw. -/
theorem inboundLrproof_aborted (ho : l.status ≠ .closed) (hp : l.status = .pending → l.prv ≠ none)
    (hk : inboundLrproof c now p l = .aborted) : ¬ (l.takesProof p = true ∧ Chokes c l p) := by
  have hcaught : ∀ (o : Outcome Link) h, o.caught h = .aborted → ¬ o.Throws := by
    intro o h ho
    cases o <;> simp_all
  rintro ⟨ht, hch⟩
  rw [inboundLrproof, if_pos ht, validateProof] at hk
  split at hk
  · next hpend => exact hcaught _ _ hk ((validatePending_throws hpend (hp hpend)).2 hch)
  · split at hk
    · next ha => exact hcaught _ _ hk ((validateRepeat_throws ha.2 ha.1).2 hch)
    · cases hk

theorem inboundLrproof_not_throws : ¬ (inboundLrproof c now p l).Throws := by
  have hcaught : ∀ (o : Outcome Link) h, ¬ (o.caught h).Throws := by
    intro o h
    cases o <;> simp
  unfold inboundLrproof validateProof
  split
  · exact hcaught _ _
  · exact Outcome.throws_done

end MicroReticulum.Link
