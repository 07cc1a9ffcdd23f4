import MicroReticulum.Link.Closing
import MicroReticulum.Link.ProofSound
import MicroReticulum.MsgPack.Readers

/-!
# Whose requests are answered

A request comes in a packet or in a resource, and `handle_request` asks who the
other side is. That is set when a `LINKIDENTIFY` packet verifies and, on the side
that opened the link, when the link proof does: there it is the destination's
own identity.
-/

namespace MicroReticulum.Link

open Lib (Outcome)
open Lib.Runs

-- ---------------------------------------------------------------------------
-- Handlers
-- ---------------------------------------------------------------------------

inductive RequestPolicy where
  | allowNone | allowAll | allowList
  deriving DecidableEq, Repr

structure RequestHandler where
  path : Bytes
  allow : RequestPolicy
  allowedList : List Bytes
  deriving DecidableEq, Repr

def RequestHandler.allows (h : RequestHandler) (remote : Option Bytes) : Bool :=
  match h.allow with
  | .allowNone => false
  | .allowList => remote.any (h.allowedList.contains ·)
  | .allowAll => true

/-- What the response generator is called with. -/
structure Invocation where
  handler : RequestHandler
  requestData : Bytes
  requestId : Bytes
  linkId : Bytes
  remoteIdentity : Option Identity
  requestedAt : Nat
  deriving DecidableEq, Repr

structure Keys where
  c : Crypto
  r : Reader
  truncatedHash : Bytes → Bytes

def Keys.hash (k : Keys) (i : Identity) : Bytes := k.truncatedHash i.getPublicKey

def loadPublicKey (b : Bytes) : Identity := ⟨b.left (ECPUBSIZE / 2), b.drop (ECPUBSIZE / 2)⟩

/-- What there is to a packet besides: the truncated hash of a `REQUEST`, and
what has been assembled where a part completes a resource marked as a request. -/
inductive Carried where
  | plain
  | request (truncatedHash : Bytes)
  | resource (data : Bytes)
  deriving DecidableEq, Repr

-- ---------------------------------------------------------------------------
-- A link and its destination's handlers
-- ---------------------------------------------------------------------------

structure Serving where
  life : Life
  /-- By the hash of the path. -/
  handlers : List (Bytes × RequestHandler) := []
  /-- Identities that wait for the owner's callback to return: how deep the stack
  is under it, and whether the packet can be proved. -/
  identifying : List (Nat × Identity × Bool) := []

namespace Serving

variable (k : Keys) (s : Serving)

def setRemote (i : Identity) : Serving :=
  { s with life := { s.life with link := { s.life.link with remoteIdentity := some i } } }

/-- The packet is proved first, and a throw there leaves the identity unset. -/
def identify (i : Identity) (proveFails : Bool) : Serving := if proveFails then s else s.setRemote i

def registerRequestHandler (path : Bytes) (generator : Bool) (allow : RequestPolicy)
    (allowedList : List Bytes) : Serving :=
  if path = [] ∨ generator = false then s
  else { s with handlers := (k.truncatedHash path, ⟨path, allow, allowedList⟩) ::
    s.handlers.filter (·.1 ≠ k.truncatedHash path) }

def deregisterRequestHandler (path : Bytes) : Serving :=
  { s with handlers := s.handlers.filter (·.1 ≠ k.truncatedHash path) }

def findRequestHandler (pathHash : Bytes) : Option RequestHandler := s.handlers.lookup pathHash

def handleRequest (requestId : Bytes) (q : MsgPack.Request) : Option Invocation :=
  if s.life.status = .active then
    match s.findRequestHandler q.pathHash with
    | none => none
    | some h =>
      if h.allows (s.life.link.remoteIdentity.map k.hash) then
        some ⟨h, q.payload, requestId, s.life.link.linkId, s.life.link.remoteIdentity, q.requestedAt⟩
      else none
  else none

/-- What does not parse throws, and the throw goes nowhere. -/
def handlePacked (requestId packed : Bytes) : Option Invocation :=
  match MsgPack.fromRequest packed with
  | .ok _ q => s.handleRequest k requestId q
  | _ => none

-- ---------------------------------------------------------------------------
-- Packets
-- ---------------------------------------------------------------------------

/-- The packet is not turned away at the door. -/
def hears (p : Received) : Bool :=
  !s.life.down ∧ ¬ (s.life.status = .closed ∨ s.life.link.initiator ∧ p.context = .keepalive ∧ p.data = [0xFF])

/-- The link as the packet finds it when its context is looked at. -/
def prepared (now : ℚ) (p : Received) : Serving := { s with life := s.life.prepared k.r now p }

/-- The identity a `LINKIDENTIFY` packet proves. -/
def identified (p : Received) : Option Identity :=
  let plaintext := s.life.decrypt k.r p.data
  let publicKey := plaintext.left ECPUBSIZE
  let identity := loadPublicKey publicKey
  if !s.life.link.initiator ∧ plaintext.length = IDENTIFY_SIZE ∧
      identity.validate k.c (plaintext.mid ECPUBSIZE SIGLENGTH) (s.life.link.linkId ++ publicKey) = some true
  then some identity else none

/-- Whether a `LINKIDENTIFY` packet tells whom. -/
def heardFrom (now : ℚ) (p : Received) : Option Identity :=
  if s.hears p ∧ p.isData ∧ p.context = .linkidentify then (s.prepared k now p).identified k p else none

/-- On a link that is half open the owner's callback comes first. -/
def receive (now : ℚ) (p : Received) : Serving :=
  let i := s.heardFrom k now p
  let s' := { s with life := s.life.step k.c k.r (.receive now { p with identifies := i.isSome }) }
  match i with
  | none => s'
  | some i =>
    if (s.prepared k now p).life.status = .handshake then
      { s' with identifying := (s'.life.stack.length, i, p.sendFails) :: s'.identifying }
    else s'.identify i p.sendFails

def ret (throws : Bool) : Serving :=
  let s' := { s with life := s.life.step k.c k.r (.ret throws) }
  match s.identifying with
  | (depth, i, proveFails) :: rest =>
    if s.life.stack.length = depth then { s' with identifying := rest }.identify i proveFails else s'
  | [] => s'

inductive Op where
  | link (op : Life.Op) (carried : Carried)
  | registerRequestHandler (path : Bytes) (generator : Bool) (allow : RequestPolicy) (allowedList : List Bytes)
  | deregisterRequestHandler (path : Bytes)
  deriving DecidableEq

def step : Serving → Op → Serving
  | s, .link (.receive now p) _ => s.receive k now p
  | s, .link (.ret throws) _ => s.ret k throws
  | s, .link op _ => { s with life := s.life.step k.c k.r op }
  | s, .registerRequestHandler path generator allow allowedList =>
    s.registerRequestHandler k path generator allow allowedList
  | s, .deregisterRequestHandler path => s.deregisterRequestHandler k path

/-- The response generator an operation calls. -/
def invoked : Op → Option Invocation
  | .link (.receive now p) (.request truncatedHash) =>
    if s.hears p ∧ p.isData ∧ p.context = .other then
      let packed := (s.prepared k now p).life.decrypt k.r p.data
      if packed = [] then none else (s.prepared k now p).handlePacked k truncatedHash packed
    else none
  | .link (.receive now p) (.resource data) =>
    if s.hears p ∧ p.isData ∧ p.context = .resource then
      (s.prepared k now p).handlePacked k (k.truncatedHash data) data
    else none
  | _ => none

end Serving

variable {k : Keys} {c : Crypto} {r : Reader}

-- ---------------------------------------------------------------------------
-- The specification
-- ---------------------------------------------------------------------------

/-- The packet carries the identity's public key and its signature over the link and that key. -/
def Identifies (k : Keys) (l : Life) (p : Received) (i : Identity) : Prop :=
  p.context = .linkidentify ∧ ∃ publicKey signature, l.decrypt k.r p.data = publicKey ++ signature ∧
    publicKey.length = ECPUBSIZE ∧ signature.length = SIGLENGTH ∧ i = loadPublicKey publicKey ∧
      i.validate k.c signature (l.link.linkId ++ publicKey) = some true

namespace Serving

/-- The operation brings the identity with it, and a signature of it over this link. -/
inductive Tells (k : Keys) (s : Serving) : Op → Identity → Prop
  | identified (hr : s.life.link.initiator = false) (h : Identifies k s.life p i) :
      Tells k s (.link (.receive now p) carried) i
  | proved (hr : s.life.link.initiator = true) (hd : s.life.link.destinationIdentity = some i)
      (h : verifies k.c s.life.link p = true) : Tells k s (.link (.proof now p) carried) i

/-- An operation of the run has brought the identity with it. -/
def Told (k : Keys) (s : Serving) (ops : List Op) (i : Identity) : Prop :=
  ∃ before op after, ops = before ++ op :: after ∧ Tells k (run (step k) s before) op i

end Serving

-- ---------------------------------------------------------------------------
-- Link proofs
-- ---------------------------------------------------------------------------

/-- What is signed, and who is on the other side, is as it was. -/
structure SameParties (l l' : Link) : Prop where
  remote : l'.remoteIdentity = l.remoteIdentity
  destination : l'.destinationIdentity = l.destinationIdentity
  linkId : l'.linkId = l.linkId
  peerPub : l'.peerPubBytes = l.peerPubBytes
  peerSig : l'.peerSigPubBytes = l.peerSigPubBytes

theorem SameParties.refl (l : Link) : SameParties l l := ⟨rfl, rfl, rfl, rfl, rfl⟩

theorem SameParties.trans (h : SameParties l l') (h' : SameParties l' l'') : SameParties l l'' :=
  ⟨h'.1.trans h.1, h'.2.trans h.2, h'.3.trans h.3, h'.4.trans h.4, h'.5.trans h.5⟩

theorem handshake_parties (l : Link) : (handshake c l).All (SameParties l) := by
  unfold handshake
  split
  · dsimp only
    split
    · exact Outcome.all_threw.2 ⟨rfl, rfl, rfl, rfl, rfl⟩
    · split
      · exact Outcome.all_threw.2 ⟨rfl, rfl, rfl, rfl, rfl⟩
      · exact Outcome.all_done.2 ⟨rfl, rfl, rfl, rfl, rfl⟩
  · exact Outcome.all_done.2 (.refl l)

theorem withToken_parties (l : Link) : l.withToken.All (SameParties l) := by
  unfold withToken
  split
  · exact Outcome.all_done.2 (.refl l)
  · split
    · exact Outcome.all_done.2 ⟨rfl, rfl, rfl, rfl, rfl⟩
    · exact Outcome.all_threw.2 (.refl l)

theorem sendRtt_parties (l : Link) : (sendRtt now l).All (SameParties l) := by
  have hr : SameParties l (raiseRtt (now - l.requestTime + RTT_SEND_ALLOWANCE) l) := by
    unfold raiseRtt
    split <;> exact ⟨rfl, rfl, rfl, rfl, rfl⟩
  refine Outcome.All.andThen (P := SameParties l) ((withToken_parties _).mono fun _ => hr.trans) fun l₁ h => ?_
  exact Outcome.all_done.2 (h.trans ⟨rfl, rfl, rfl, rfl, rfl⟩)

/-- A link proof leaves the remote identity alone, or it verifies and sets the destination's. -/
def Vouches (c : Crypto) (p : Packet) (l l' : Link) : Prop :=
  l'.remoteIdentity = l.remoteIdentity ∨
    l.initiator = true ∧ l'.remoteIdentity = l.destinationIdentity ∧ verifies c l p = true

theorem SameParties.vouches (h : SameParties l l') : Vouches c p l l' := .inl h.remote

theorem establish_remote (l : Link) :
    (establish now p confirmedMtu l).All fun l' =>
      l'.remoteIdentity = l.remoteIdentity ∨ l'.remoteIdentity = l.destinationIdentity := by
  unfold establish
  split
  · exact Outcome.all_threw.2 (.inl rfl)
  · refine Outcome.All.andThen ((sendRtt_parties _).mono fun l' h => .inr ?_) fun l' h => Outcome.all_done.2 h
    exact h.remote

/-- The signature check, once the keys of the frame and of the destination are in place. -/
theorem checked_vouches (l l₂ : Link) (hi : l.initiator = true) (hd : l.destinationIdentity = some identity)
    (hparts : proofParts p = some parts) (hsize : parts.data.length = PROOF_SIZE)
    (h : SameParties (loadPeer parts.peerPubBytes (destinationSigPub identity) l) l₂) :
    (match identity.validate c parts.signature
        (l₂.linkId ++ l₂.peerPubBytes ++ l₂.peerSigPubBytes ++ parts.signalling) with
      | none => Outcome.threw l₂
      | some false => .done l₂
      | some true => establish now p parts.confirmedMtu l₂).All (Vouches c p l) := by
  have hkept : Vouches c p l l₂ := .inl h.remote
  split
  · exact Outcome.all_threw.2 hkept
  · exact Outcome.all_done.2 hkept
  · next hv =>
    rw [h.linkId, h.peerPub, h.peerSig] at hv
    have hverifies : verifies c l p = true := verifies_iff.2 ⟨parts, identity, hparts, hd, hsize, hv⟩
    refine (establish_remote l₂).mono fun l' he => ?_
    rcases he with he | he
    · exact .inl (he.trans h.remote)
    · exact .inr ⟨hi, he.trans h.destination, hverifies⟩

theorem validatePending_vouches (l : Link) : (validatePending c now p l).All (Vouches c p l) := by
  have hsame : Vouches c p l l := .inl rfl
  unfold validatePending
  split
  · exact Outcome.all_threw.2 hsame
  · split
    · exact Outcome.all_threw.2 hsame
    · next parts hparts =>
      split
      · next hi =>
        split
        · exact Outcome.all_aborted
        · next identity hd =>
          refine (handshake_parties _).bind (fun _ h => .inl h.remote) fun l₁ h => ?_
          exact checked_vouches l _ hi.1 hd hparts hi.2 (h.trans ⟨rfl, rfl, rfl, rfl, rfl⟩)
      · exact Outcome.all_done.2 hsame

theorem validateRepeat_parties (l : Link) : (validateRepeat c now p l).All (SameParties l) := by
  have hl := SameParties.refl l
  unfold validateRepeat
  split
  · exact Outcome.all_threw.2 hl
  · split
    · exact Outcome.all_done.2 hl
    · split
      · exact Outcome.all_done.2 hl
      · split
        · exact Outcome.all_done.2 hl
        · dsimp only
          split
          · exact Outcome.all_threw.2 hl
          · exact Outcome.all_done.2 hl
          · refine Outcome.All.andThen (P := SameParties l) ((sendRtt_parties _).mono fun _ h => ?_) fun l₁ h => ?_
            · have he : SameParties l (emit .markAlive l) := ⟨rfl, rfl, rfl, rfl, rfl⟩
              exact he.trans h
            · exact Outcome.all_done.2 (h.trans ⟨rfl, rfl, rfl, rfl, rfl⟩)

theorem inboundLrproof_vouches (l : Link) : (inboundLrproof c now p l).All (Vouches c p l) := by
  unfold inboundLrproof
  split
  · refine Outcome.All.caught ?_ fun l' h => h
    split
    · exact validatePending_vouches l
    · split
      · exact (validateRepeat_parties l).mono fun _ h => h.vouches
      · exact Outcome.all_done.2 (.inl rfl)
  · exact Outcome.all_done.2 (.inl rfl)

-- ---------------------------------------------------------------------------
-- Everything else a link does
-- ---------------------------------------------------------------------------

namespace Life

/-- Who is on the other side, as far as the link knows. -/
def remote (l : Life) : Option Identity := l.link.remoteIdentity

@[simp] theorem remote_call (f : Frame) (l : Life) : (l.call f).remote = l.remote := rfl

@[simp] theorem remote_note (e : ClosingStep) (l : Life) : (l.note e).remote = l.remote := rfl

@[simp] theorem remote_setStatus (st : Status) (l : Life) : (l.setStatus st).remote = l.remote := rfl

@[simp] theorem remote_activate (l : Life) (now rtt : ℚ) : (l.activate now rtt).remote = l.remote := rfl

@[simp] theorem remote_withToken (l : Life) : l.withToken.remote = l.remote := by
  rcases withToken_cases l with h | h
  · rw [h]
  · rw [h]
    rfl

@[simp] theorem remote_finish (l : Life) : l.finish.remote = l.remote := by
  unfold finish
  dsimp only
  split <;> rfl

@[simp] theorem remote_cancelOutgoing (left : List Nat) (l : Life) : (cancelOutgoing left l).remote = l.remote := by
  cases left with
  | nil => exact remote_finish l
  | cons a left => rfl

@[simp] theorem remote_cancelIncoming (left : List Nat) (l : Life) : (cancelIncoming left l).remote = l.remote := by
  cases left with
  | nil => exact remote_cancelOutgoing _ (l.note _)
  | cons a left => rfl

@[simp] theorem remote_close (l : Life) (reason : TeardownReason) : (l.close reason).remote = l.remote :=
  remote_cancelIncoming l.incoming _

@[simp] theorem remote_teardown (l : Life) (now : ℚ) (sendFails : Bool) :
    (l.teardown now sendFails).remote = l.remote := by
  unfold teardown
  dsimp only
  split
  · split
    · rfl
    · split
      · exact remote_withToken l
      · exact (remote_close _ _).trans (remote_withToken l)
  · exact remote_close l _

@[simp] theorem remote_teardownPacket (l : Life) (r : Reader) (data : Bytes) :
    (l.teardownPacket r data).remote = l.remote := by
  unfold teardownPacket
  split <;> simp

@[simp] theorem remote_sendKeepalive (l : Life) (sends : Bool) (now : ℚ) :
    (l.sendKeepalive sends now).remote = l.remote := by
  unfold sendKeepalive
  split <;> rfl

@[simp] theorem remote_goStale (l : Life) (now : ℚ) : (l.goStale now).remote = l.remote := rfl

@[simp] theorem remote_linkWatchdog (l : Life) (now : ℚ) : (l.linkWatchdog now).remote = l.remote := by
  unfold linkWatchdog
  dsimp only
  repeat' split
  all_goals simp

@[simp] theorem remote_repin (l : Life) (r : Reader) (p : Received) : (l.repin r p).remote = l.remote := by
  unfold repin
  repeat' split
  · rfl
  · exact remote_withToken l
  · exact remote_withToken l
  · rfl

@[simp] theorem remote_prepared (l : Life) (r : Reader) (now : ℚ) (p : Received) :
    (l.prepared r now p).remote = l.remote := by
  unfold prepared revive
  split <;> exact remote_repin l r p

@[simp] theorem remote_rttPacket (l : Life) (r : Reader) (now : ℚ) (p : Received) :
    (l.rttPacket r now p).remote = l.remote := by
  unfold rttPacket
  repeat' split
  all_goals simp

theorem remote_dispatch (l : Life) (r : Reader) (now : ℚ) (p : Received) : (l.dispatch r now p).remote = l.remote := by
  unfold dispatch activateWithoutRtt
  repeat' split
  all_goals first | rfl | simp

@[simp] theorem remote_receive (l : Life) (r : Reader) (now : ℚ) (p : Received) :
    (l.receive r now p).remote = l.remote := by
  unfold receive
  split
  · rfl
  · exact (remote_dispatch _ r now p).trans (remote_prepared l r now p)

@[simp] theorem remote_ret (l : Life) (throws : Bool) : (l.ret throws).remote = l.remote := by
  unfold ret
  repeat' split
  · exact remote_cancelIncoming _ _
  · exact remote_cancelOutgoing _ _
  all_goals rfl

theorem initiator_withToken (l : Life) : l.withToken.link.initiator = l.link.initiator := by
  rcases withToken_cases l with h | h <;> rw [h]

theorem initiator_prepared (l : Life) (r : Reader) (now : ℚ) (p : Received) :
    (l.prepared r now p).link.initiator = l.link.initiator := by
  have hrepin : (l.repin r p).link.initiator = l.link.initiator := by
    unfold repin
    repeat' split
    · rfl
    · exact initiator_withToken l
    · exact initiator_withToken l
    · rfl
  unfold prepared revive
  split <;> exact hrepin

/-- No step but that of a link proof tells a link who is on the other side. -/
theorem remote_step (l : Life) (op : Op) (hop : ∀ now p, op ≠ .proof now p) : (l.step c r op).remote = l.remote := by
  unfold step
  split
  · rfl
  · cases op with
    | reap now sendFails =>
      simp only [act]
      split
      · exact remote_teardown _ now sendFails
      · rfl
    | proof now p => exact absurd rfl (hop now p)
    | teardown | receive | watchdog | ret | useToken => simp [act]
    | resources | getChannel | setClosedCallback => rfl

/-- A link proof that does has verified. -/
theorem remote_proof (l : Life) (now : ℚ) (p : Packet) :
    (l.step c r (.proof now p)).remote = l.remote ∨ l.link.initiator = true ∧
      (l.step c r (.proof now p)).remote = l.link.destinationIdentity ∧ verifies c l.link p = true := by
  unfold step
  split
  · exact .inl rfl
  · have h : (inboundLrproof c now p { l.link with events := [] }).All (Vouches c p { l.link with events := [] }) :=
      inboundLrproof_vouches _
    simp only [act, proof]
    split
    · next k hk =>
      rw [hk, Outcome.all_done] at h
      split <;> exact h
    · next k hk =>
      rw [hk, Outcome.all_threw] at h
      split <;> exact h
    · exact .inl rfl

end Life

-- ---------------------------------------------------------------------------
-- Who has been told of
-- ---------------------------------------------------------------------------

theorem RequestHandler.of_allows {h : RequestHandler} {remote : Option Identity}
    (ha : h.allows (remote.map k.hash) = true) :
    h.allow ≠ .allowNone ∧ (h.allow = .allowList → ∃ i, remote = some i ∧ k.hash i ∈ h.allowedList) := by
  unfold RequestHandler.allows at ha
  split at ha
  · cases ha
  · next hl =>
    refine ⟨by simp [hl], fun _ => ?_⟩
    cases remote with
    | none => cases ha
    | some i => exact ⟨i, rfl, by simpa using ha⟩
  · next hl => simp [hl]

namespace Serving

variable {s : Serving} {i : Identity} {now : ℚ} {p : Received} {op : Op} {pre : List Op} {v : Invocation}

/-- The identity is the one on the other side, or is about to be. -/
def Knows (s : Serving) (i : Identity) : Prop :=
  s.life.remote = some i ∨ ∃ e ∈ s.identifying, e.2.1 = i

theorem identified_some (h : s.identified k p = some i) :
    s.life.link.initiator = false ∧ ∃ publicKey signature, s.life.decrypt k.r p.data = publicKey ++ signature ∧
      publicKey.length = ECPUBSIZE ∧ signature.length = SIGLENGTH ∧ i = loadPublicKey publicKey ∧
        i.validate k.c signature (s.life.link.linkId ++ publicKey) = some true := by
  simp only [identified, Option.ite_none_right_eq_some, Option.some.injEq] at h
  obtain ⟨⟨hr, hlen, hv⟩, rfl⟩ := h
  refine ⟨by simpa using hr, _, _, ?_, ?_, ?_, rfl, hv⟩
  · have hrest : ((s.life.decrypt k.r p.data).drop ECPUBSIZE).length ≤ SIGLENGTH := by
      simp [hlen, IDENTIFY_SIZE, ECPUBSIZE]
    rw [Bytes.left, Bytes.mid, List.take_of_length_le hrest, List.take_append_drop]
  · simp [hlen, IDENTIFY_SIZE, ECPUBSIZE]
  · simp [hlen, IDENTIFY_SIZE, ECPUBSIZE]

/-- What is heard from a packet is in it. -/
theorem heardFrom_some (h : s.heardFrom k now p = some i) :
    s.life.link.initiator = false ∧ Identifies k s.life p i := by
  simp only [heardFrom, Option.ite_none_right_eq_some] at h
  obtain ⟨⟨-, -, hc⟩, h⟩ := h
  obtain ⟨hr, publicKey, signature, hd, hp, hs, hi, hv⟩ := identified_some h
  have hreads := Life.prepared_reads s.life k.r now p
  refine ⟨(Life.initiator_prepared _ _ _ _).symm.trans hr, hc, publicKey, signature, ?_, hp, hs, hi, ?_⟩
  · rw [Life.decrypt_eq, ← hreads.1, ← Life.decrypt_eq]
    exact hd
  · rw [← hreads.2]
    exact hv

theorem knows_identify {s : Serving} {j : Identity} {fails : Bool} (h : (s.identify j fails).Knows i) :
    s.Knows i ∨ j = i := by
  unfold identify at h
  split at h
  · exact .inl h
  · rcases h with h | h
    · exact .inr (Option.some.inj h)
    · exact .inl (.inr h)

theorem receive_knows (h : (s.receive k now p).Knows i) : s.Knows i ∨ s.heardFrom k now p = some i := by
  have hlife : ∀ q : Received, (s.life.step k.c k.r (.receive now q)).remote = s.life.remote :=
    fun q => Life.remote_step _ _ nofun
  unfold receive at h
  dsimp only at h
  split at h
  · exact .inl (h.imp_left fun h => (hlife _).symm.trans h)
  · next j hj =>
    split at h
    · rcases h with h | ⟨e, he, rfl⟩
      · exact .inl (.inl ((hlife _).symm.trans h))
      · rcases List.mem_cons.1 he with rfl | he
        · exact .inr hj
        · exact .inl (.inr ⟨e, he, rfl⟩)
    · rcases knows_identify h with h | rfl
      · exact .inl (h.imp_left fun h => (hlife _).symm.trans h)
      · exact .inr hj

theorem ret_knows {throws : Bool} (h : (s.ret k throws).Knows i) : s.Knows i := by
  have hlife : (s.life.step k.c k.r (.ret throws)).remote = s.life.remote := Life.remote_step _ _ nofun
  unfold ret at h
  dsimp only at h
  split at h
  · next depth j fails rest hs =>
    split at h
    · rcases knows_identify h with h | rfl
      · rcases h with h | ⟨e, he, rfl⟩
        · exact .inl (hlife.symm.trans h)
        · exact .inr ⟨e, hs ▸ List.mem_cons_of_mem _ he, rfl⟩
      · exact .inr ⟨_, hs ▸ List.mem_cons_self, rfl⟩
    · exact h.imp_left fun h => hlife.symm.trans h
  · exact h.imp_left fun h => hlife.symm.trans h

/-- Only an operation that tells of an identity makes it known. -/
theorem step_knows (s : Serving) (op : Op) (h : (step k s op).Knows i) : s.Knows i ∨ Tells k s op i := by
  cases op with
  | link op carried =>
    cases op with
    | receive now p =>
      rcases receive_knows h with h | h
      · exact .inl h
      · obtain ⟨hr, hp⟩ := heardFrom_some h
        exact .inr (.identified hr hp)
    | ret throws => exact .inl (ret_knows h)
    | proof now p =>
      rcases h with h | h
      · rcases Life.remote_proof (c := k.c) (r := k.r) s.life now p with he | ⟨hi, he, hv⟩
        · exact .inl (.inl (he.symm.trans h))
        · exact .inr (.proved hi (he.symm.trans h) hv)
      · exact .inl (.inr h)
    | teardown | reap | watchdog | useToken | resources | getChannel | setClosedCallback =>
      refine .inl (h.imp_left fun h => ?_)
      rw [← h]
      exact (Life.remote_step _ _ (by nofun)).symm
  | registerRequestHandler path generator allow allowedList =>
    refine .inl ?_
    simp only [step, registerRequestHandler] at h
    split at h <;> exact h
  | deregisterRequestHandler path => exact .inl h

theorem told_of_knows (hs : ¬ s.Knows i) (h : (run (step k) s pre).Knows i) : Told k s pre i :=
  traced (fun s op => step_knows s op) hs h

-- ---------------------------------------------------------------------------
-- Who is answered
-- ---------------------------------------------------------------------------

theorem handleRequest_some {requestId : Bytes} {q : MsgPack.Request} (h : s.handleRequest k requestId q = some v) :
    v.handler.allows (s.life.remote.map k.hash) = true ∧ v.remoteIdentity = s.life.remote := by
  unfold handleRequest at h
  split at h
  · split at h
    · cases h
    · next hd _ =>
      split at h
      · next ha =>
        cases h
        exact ⟨ha, rfl⟩
      · cases h
  · cases h

theorem handlePacked_some {requestId packed : Bytes} (h : s.handlePacked k requestId packed = some v) :
    v.handler.allows (s.life.remote.map k.hash) = true ∧ v.remoteIdentity = s.life.remote := by
  unfold handlePacked at h
  split at h
  · exact handleRequest_some h
  · cases h

/-- A request in a packet and one in a resource are both asked who sent them. -/
theorem invoked_allows (h : s.invoked k op = some v) :
    v.handler.allows (s.life.remote.map k.hash) = true ∧ v.remoteIdentity = s.life.remote := by
  unfold invoked at h
  split at h
  · next now p id =>
    split at h
    · dsimp only at h
      split at h
      · cases h
      · exact Life.remote_prepared s.life k.r now p ▸ handlePacked_some h
    · cases h
  · next now p data =>
    split at h
    · exact Life.remote_prepared s.life k.r now p ▸ handlePacked_some h
    · cases h
  · cases h

/-- In every run of a link, a handler with a list answers only whom the link has
been told of and the list has, and one that allows nobody answers nobody. -/
theorem request_authorised (k : Keys) (life : Life) (handlers : List (Bytes × RequestHandler))
    (hl : life.link.remoteIdentity = none) (pre : List Op) (op : Op) (v : Invocation)
    (hv : (run (step k) { life, handlers } pre).invoked k op = some v) :
    v.handler.allow ≠ .allowNone ∧
      (v.handler.allow = .allowList → ∃ i, v.remoteIdentity = some i ∧ k.hash i ∈ v.handler.allowedList ∧
        Told k { life, handlers } pre i) := by
  obtain ⟨ha, hremote⟩ := invoked_allows hv
  obtain ⟨hnone, hlist⟩ := RequestHandler.of_allows ha
  refine ⟨hnone, fun hallow => ?_⟩
  obtain ⟨i, hi, hmem⟩ := hlist hallow
  refine ⟨i, hremote.trans hi, hmem, told_of_knows ?_ (.inl hi)⟩
  rintro (h | ⟨e, he, -⟩)
  · cases hl.symm.trans h
  · cases he

-- ---------------------------------------------------------------------------
-- A handler on the side that opened the link
-- ---------------------------------------------------------------------------

namespace Sample

open Link.Sample

def path : Bytes := [0x2F, 0x61]

/-- A request for `/a` at 0.0 with no data. -/
def packed : Bytes := [0x93, 0xCB, 0, 0, 0, 0, 0, 0, 0, 0, 0xC4, 2, 0x2F, 0x61, 0xC0]

def keys : Keys where
  c := crypto
  r := ⟨fun _ data => data, fun _ => none⟩
  truncatedHash b := b.left 16

def opened : Life := { link, sigPrv := none }

def question : Received := { context := .other, data := packed, receivingInterface := 0 }

/-- The accepting side of the link, and an identity proved over it. -/
def accepted : Life :=
  { link := { link with initiator := false, status := .active, registry := .active, token := some [] }, sigPrv := none }

def introduction : Received :=
  { context := .linkidentify, data := .replicate 32 1 ++ .replicate 32 2 ++ .replicate 64 4, receivingInterface := 0 }

def trusting : Keys := { keys with c := { crypto with verify := fun key _ _ => key == identity.sigPubBytes } }

def answered (l : Link) : Invocation :=
  ⟨⟨path, .allowList, [.replicate 16 1]⟩, [], [7], l.linkId, some identity, 0⟩

def allowed : Op := .registerRequestHandler path true .allowList [.replicate 16 1]

end Sample

open Serving.Sample in
theorem request_authorised_identified :
    ∃ i, some Link.Sample.identity = some i ∧ trusting.hash i ∈ [List.replicate 16 (1 : UInt8)] ∧
      Told trusting { life := accepted } [allowed, .link (.receive 1 introduction) .plain] i :=
  (request_authorised trusting accepted [] rfl [allowed, .link (.receive 1 introduction) .plain]
    (.link (.receive 2 question) (.request [7])) (answered Link.Sample.link) (by decide +kernel)).2 rfl

open Serving.Sample in
/-- The side that opened the link answers the destination, which has sent no `LINKIDENTIFY`. -/
theorem request_unidentified :
    (run (step keys) { life := opened } [allowed, .link (.proof 1 Link.Sample.genuine) .plain]).invoked keys
        (.link (.receive 2 question) (.request [7])) = some (answered Link.Sample.link) ∧
      ¬ ∀ (k : Keys) (life : Life) (handlers : List (Bytes × RequestHandler)) (pre : List Op) (op : Op)
        (v : Invocation), life.link.remoteIdentity = none →
          (run (step k) { life, handlers } pre).invoked k op = some v → v.handler.allow = .allowList →
            ∃ before now p carried after i, pre = before ++ .link (.receive now p) carried :: after ∧
              Identifies k (run (step k) { life, handlers } before).life p i ∧ k.hash i ∈ v.handler.allowedList := by
  have hanswered : (run (step keys) { life := opened } [allowed, .link (.proof 1 Link.Sample.genuine) .plain]).invoked keys
      (.link (.receive 2 question) (.request [7])) = some (answered Link.Sample.link) := by decide +kernel
  refine ⟨hanswered, fun h => ?_⟩
  obtain ⟨before, now, p, carried, after, -, heq, -⟩ := h keys opened [] _ _ _ rfl hanswered rfl
  have hmem : Op.link (.receive now p) carried ∈ [allowed, .link (.proof 1 Link.Sample.genuine) .plain] := by
    rw [heq]
    exact List.mem_append_right _ List.mem_cons_self
  rcases List.mem_cons.1 hmem with h | hmem
  · cases h
  · cases List.mem_singleton.1 hmem

end Serving

end MicroReticulum.Link
