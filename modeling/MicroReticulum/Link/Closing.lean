import MicroReticulum.Link.Choking
import MicroReticulum.Link.Lifecycle

/-!
# How often a link is closed, and with what left of its keys

Closed is for good. `link_closed` runs just once for as long as nobody tears
down a link that is closed and no throw reaches the handler in `validate_proof`,
which closes the link and leaves the cleaning up undone. The signing key
survives every closing, and so does a token that was there.
-/

namespace MicroReticulum.Link

open Lib (Outcome)
open Lib.Runs

-- ---------------------------------------------------------------------------
-- The specification
-- ---------------------------------------------------------------------------

def ClosingStep.isStart : ClosingStep → Bool
  | .linkClosed _ => true
  | _ => false

def Frame.isCancelling : Frame → Bool
  | .cancelIncoming _ | .cancelOutgoing _ => true
  | _ => false

/-- One whole run of `link_closed`. -/
def closing (incoming outgoing : List Nat) (calledBack : Bool) : List ClosingStep :=
  .linkClosed incoming :: incoming.map .cancelled ++
    .outgoing outgoing :: outgoing.map .cancelled ++ [.finished calledBack]

namespace Life

/-- An open link has not been closed, and a closed one has been closed once:
every resource cancelled, the channel shut down and the callback called. -/
structure ClosedOnce (l : Life) : Prop where
  executions : l.log.countP ClosingStep.isStart = if l.status = .closed then 1 else 0
  complete : l.status = .closed → l.stack = [] → ∃ incoming outgoing b, l.log = closing incoming outgoing b

/-- A closed link has nothing to encrypt, decrypt or sign with. -/
def KeysGone (l : Life) : Prop := l.status = .closed → l.canSeal = false ∧ l.canSign = false

/-- A throw gets to the handler in `validate_proof`. -/
def Fails (c : Crypto) (l : Life) : Op → Prop
  | .proof _ p => l.link.takesProof p = true ∧ Chokes c l.link p
  | .ret throws => throws = true ∧ l.status ≠ .closed ∧ ∃ stack, l.stack = .establishedCallback :: stack
  | _ => False

/-- A packet closes the link: the peer's goodbye, or an RTT that is no number. -/
def Shuts (r : Reader) (l : Life) (p : Received) : Prop :=
  p.isData = true ∧
    (p.context = .linkclose ∧ l.decrypt r p.data = l.link.linkId ∨
      p.context = .lrrtt ∧ l.link.initiator = false ∧ l.status = .handshake ∧
        l.decrypt r p.data ≠ [] ∧ r.readRtt (l.decrypt r p.data) = none ∧ p.sendFails = false)

/-- `link_closed` is called. -/
def Ends (r : Reader) (l : Life) : Op → Prop
  | .teardown _ sendFails =>
    l.status = .pending ∨ l.status = .closed ∨ l.canSeal = true ∧ sendFails = false
  | .reap _ sendFails =>
    l.status = .pending ∨ l.status = .handshake ∧ l.canSeal = true ∧ sendFails = false
  | .receive _ p => l.status ≠ .closed ∧ l.Shuts r p
  | .watchdog now => l.status = .stale ∧ now ≥ l.staleDeadline
  | _ => False

/-- No throw closes the link, and it is closed only while it is open. -/
def Orderly (c : Crypto) (r : Reader) (l : Life) (op : Op) : Prop :=
  l.down = true ∨ ¬ l.Fails c op ∧ (l.Ends r op → l.status ≠ .closed)

def StaysOpen (c : Crypto) (r : Reader) (l : Life) (op : Op) : Prop :=
  l.down = true ∨ ¬ l.Fails c op ∧ ¬ l.Ends r op

/-- A link as its constructor leaves it. -/
structure Fresh (l : Life) : Prop where
  status : l.status = .pending ∨ l.status = .handshake
  prv : l.link.prv ≠ none
  sigPrv : l.sigPrv ≠ none
  stack : l.stack = []
  log : l.log = []

variable {c : Crypto} {r : Reader} {now : ℚ} {l k m : Life}

-- ---------------------------------------------------------------------------
-- Steps that have nothing to do with closing
-- ---------------------------------------------------------------------------

/-- The runs of `link_closed` under way. -/
def frames (l : Life) : List Frame := l.stack.filter Frame.isCancelling

/-- A step that neither closes the link nor goes on closing it. -/
structure Quiet (l l' : Life) : Prop where
  log : l'.log = l.log
  frames : l'.frames = l.frames
  closed : l'.status = .closed ↔ l.status = .closed
  sigPrv : l'.sigPrv = l.sigPrv
  prv : l.status ≠ .closed → l'.link.prv = l.link.prv
  derivedKey : l.status = .closed → l'.link.derivedKey = l.link.derivedKey

theorem Quiet.refl (l : Life) : Quiet l l := ⟨rfl, rfl, .rfl, rfl, fun _ => rfl, fun _ => rfl⟩

theorem Quiet.trans (h : Quiet l k) (h' : Quiet k m) : Quiet l m where
  log := h'.log.trans h.log
  frames := h'.frames.trans h.frames
  closed := h'.closed.trans h.closed
  sigPrv := h'.sigPrv.trans h.sigPrv
  prv hn := (h'.prv (mt h.closed.1 hn)).trans (h.prv hn)
  derivedKey hc := (h'.derivedKey (h.closed.2 hc)).trans (h.derivedKey hc)

/-- A change to parts of the link that say nothing about its state. -/
theorem quiet_link (link : Link) (hs : link.status = l.link.status) (hp : link.prv = l.link.prv)
    (hd : link.derivedKey = l.link.derivedKey) : Quiet l { l with link } :=
  ⟨rfl, rfl, by simp [status, hs], rfl, fun _ => hp, fun _ => hd⟩

theorem withToken_cases (l : Life) :
    l.withToken = l ∨ l.withToken = { l with link := { l.link with token := some l.link.derivedKey } } := by
  unfold withToken Link.withToken
  cases l.link.token with
  | some t => exact .inl rfl
  | none => cases tokenKeyOk l.link.derivedKey <;> simp

theorem withToken_quiet (l : Life) : Quiet l l.withToken := by
  rcases withToken_cases l with h | h
  · rw [h]
    exact .refl l
  · rw [h]
    exact quiet_link _ rfl rfl rfl

theorem call_quiet {f : Frame} (hf : f.isCancelling = false) (l : Life) : Quiet l (l.call f) :=
  ⟨rfl, by simp [call, Life.frames, hf], .rfl, rfl, fun _ => rfl, fun _ => rfl⟩

theorem activate_quiet (h : l.status ≠ .closed) (now rtt : ℚ) : Quiet l (l.activate now rtt) :=
  ⟨rfl, rfl, iff_of_false Status.noConfusion h, rfl, fun _ => rfl, fun hc => absurd hc h⟩

theorem repin_quiet (l : Life) (r : Reader) (p : Received) : Quiet l (l.repin r p) := by
  unfold repin
  split
  · exact .refl l
  · split
    · split
      · exact withToken_quiet l
      · exact (withToken_quiet l).trans (quiet_link _ rfl rfl rfl)
    · exact .refl l

theorem revive_quiet (l : Life) : Quiet l l.revive := by
  unfold revive
  split
  · next hs =>
    refine ⟨rfl, rfl, iff_of_false Status.noConfusion ?_, rfl, fun _ => rfl, fun _ => rfl⟩
    simp [hs]
  · exact .refl l

/-- What a received packet is handed to. -/
def prepared (l : Life) (r : Reader) (now : ℚ) (p : Received) : Life := ((l.repin r p).stamp now p).revive

theorem prepared_quiet (l : Life) (r : Reader) (now : ℚ) (p : Received) : Quiet l (l.prepared r now p) := by
  have hs : Quiet (l.repin r p) ((l.repin r p).stamp now p) :=
    ⟨rfl, rfl, .rfl, rfl, fun _ => rfl, fun _ => rfl⟩
  exact ((repin_quiet l r p).trans hs).trans (revive_quiet _)

/-- What the link's packets are read with. -/
def readKey (l : Life) : Option Bytes :=
  match l.link.token with
  | some key => some key
  | none => if tokenKeyOk l.link.derivedKey then some l.link.derivedKey else none

theorem decrypt_eq (l : Life) (r : Reader) (data : Bytes) :
    l.decrypt r data = (l.readKey.map (r.openSealed · data)).getD [] := by
  unfold decrypt readKey Link.withToken
  cases ht : l.link.token with
  | some key => simp [ht]
  | none => cases tokenKeyOk l.link.derivedKey <;> simp

theorem readKey_withToken (l : Life) : l.withToken.readKey = l.readKey := by
  unfold readKey withToken Link.withToken
  cases ht : l.link.token with
  | some key => simp [ht]
  | none => cases hk : tokenKeyOk l.link.derivedKey <;> simp [ht, hk]

theorem linkId_withToken (l : Life) : l.withToken.link.linkId = l.link.linkId := by
  rcases withToken_cases l with h | h <;> rw [h]

/-- Preparing for a packet changes nothing about how it is read. -/
theorem repin_reads (l : Life) (r : Reader) (p : Received) :
    (l.repin r p).readKey = l.readKey ∧ (l.repin r p).link.linkId = l.link.linkId := by
  unfold repin
  split
  · exact ⟨rfl, rfl⟩
  · split
    · split
      · exact ⟨readKey_withToken l, linkId_withToken l⟩
      · exact ⟨readKey_withToken l, linkId_withToken l⟩
    · exact ⟨rfl, rfl⟩

theorem prepared_reads (l : Life) (r : Reader) (now : ℚ) (p : Received) :
    (l.prepared r now p).readKey = l.readKey ∧ (l.prepared r now p).link.linkId = l.link.linkId := by
  have hrev : ∀ m : Life, m.revive.readKey = m.readKey ∧ m.revive.link.linkId = m.link.linkId := by
    intro m
    unfold revive
    split <;> exact ⟨rfl, rfl⟩
  have h := repin_reads l r p
  exact ⟨(hrev _).1.trans h.1, (hrev _).2.trans h.2⟩

theorem canSeal_eq (l : Life) : l.canSeal = l.readKey.isSome := by
  unfold canSeal readKey
  cases l.link.token with
  | some key => rfl
  | none => cases tokenKeyOk l.link.derivedKey <;> rfl

-- ---------------------------------------------------------------------------
-- What a step can do
-- ---------------------------------------------------------------------------

/-- A step leaves closing alone, calls `link_closed`, goes on with it after a
callback, or lets a throw through to the handler that closes the link. -/
inductive Acts (c : Crypto) (r : Reader) (l : Life) (op : Op) : Life → Prop
  | quiet (hf : ¬ l.Fails c op) (he : ¬ l.Ends r op) (h : Quiet l l') : Acts c r l op l'
  | ends (hf : ¬ l.Fails c op) (he : l.Ends r op) (k : Life) (reason : TeardownReason) (h : Quiet l k) :
      Acts c r l op (k.close reason)
  | fails (hf : l.Fails c op) (hs : l'.status = .closed) (hl : l'.log = l.log) (hk : l'.sigPrv = l.sigPrv) :
      Acts c r l op l'
  | incoming (hf : ¬ l.Fails c op) (he : ¬ l.Ends r op) (left : List Nat) (stack : List Frame)
      (h : l.stack = .cancelIncoming left :: stack) : Acts c r l op (cancelIncoming left { l with stack })
  | outgoing (hf : ¬ l.Fails c op) (he : ¬ l.Ends r op) (left : List Nat) (stack : List Frame)
      (h : l.stack = .cancelOutgoing left :: stack) : Acts c r l op (cancelOutgoing left { l with stack })

theorem Fails.open_ {op : Op} (h : l.Fails c op) : l.status ≠ .closed := by
  cases op with
  | proof now p =>
    intro hs
    have hch := h.2
    simp only [Chokes, show l.link.status = .closed from hs] at hch
  | ret throws => exact h.2.1
  | _ => exact h.elim

/-- Whether a teardown gets as far as closing the link. -/
def Departs (l : Life) (sendFails : Bool) : Prop :=
  l.status = .pending ∨ l.status = .closed ∨ l.canSeal = true ∧ sendFails = false

theorem teardown_cases (l : Life) (now : ℚ) (sendFails : Bool) :
    ¬ l.Departs sendFails ∧ Quiet l (l.teardown now sendFails) ∨
      l.Departs sendFails ∧ ∃ k reason, Quiet l k ∧ l.teardown now sendFails = k.close reason := by
  unfold teardown
  dsimp only
  split
  · next hs =>
    split
    · next hk =>
      simp only [Bool.not_eq_true'] at hk
      exact .inl ⟨by simp [Departs, hs, hk], .refl l⟩
    · next hk =>
      simp only [Bool.not_eq_true', Bool.not_eq_false] at hk
      cases sendFails with
      | true => exact .inl ⟨by simp [Departs, hs], withToken_quiet l⟩
      | false =>
        refine .inr ⟨.inr (.inr ⟨hk, rfl⟩), _, _, ?_, rfl⟩
        exact (withToken_quiet l).trans (quiet_link _ rfl rfl rfl)
  · next hs =>
    refine .inr ⟨?_, l, _, .refl l, rfl⟩
    cases hst : l.status <;> simp_all [Departs]

theorem teardown_acts (l : Life) (now : ℚ) (sendFails : Bool) :
    Acts c r l (.teardown now sendFails) (l.teardown now sendFails) := by
  have hf : ¬ l.Fails c (.teardown now sendFails) := fun h => h
  rcases teardown_cases l now sendFails with ⟨hn, hq⟩ | ⟨hd, k, reason, hq, heq⟩
  · exact .quiet hf hn hq
  · rw [heq]
    exact .ends hf hd k reason hq

theorem reap_acts (l : Life) (now : ℚ) (sendFails : Bool) :
    Acts c r l (.reap now sendFails) (l.act c r (.reap now sendFails)) := by
  have hf : ¬ l.Fails c (.reap now sendFails) := fun h => h
  have hreg : Quiet l { l with link := { l.link with registry := .none } } := quiet_link _ rfl rfl rfl
  simp only [act]
  split
  · next hs =>
    have hiff : l.Ends r (.reap now sendFails) ↔ l.Departs sendFails := by
      simp only [Ends, Departs]
      rcases hs with hs | hs <;> simp [hs]
    rcases teardown_cases { l with link := { l.link with registry := .none } } now sendFails with
      ⟨hn, hq⟩ | ⟨hd, k, reason, hq, heq⟩
    · exact .quiet hf (mt hiff.1 hn) (hreg.trans hq)
    · rw [heq]
      exact .ends hf (hiff.2 hd) k reason (hreg.trans hq)
  · next hs =>
    refine .quiet hf ?_ (.refl l)
    rintro (h | ⟨h, -⟩)
    · exact hs (.inl h)
    · exact hs (.inr h)

theorem sendKeepalive_quiet (l : Life) (sends : Bool) (now : ℚ) : Quiet l (l.sendKeepalive sends now) := by
  unfold sendKeepalive
  split
  · exact ⟨rfl, rfl, .rfl, rfl, fun _ => rfl, fun _ => rfl⟩
  · exact .refl l

theorem goStale_quiet (h : l.status ≠ .closed) (now : ℚ) : Quiet l (l.goStale now) :=
  ⟨rfl, rfl, iff_of_false Status.noConfusion h, rfl, fun _ => rfl, fun hc => absurd hc h⟩

theorem watchdog_acts (l : Life) (now : ℚ) : Acts c r l (.watchdog now) (l.linkWatchdog now) := by
  have hf : ¬ l.Fails c (.watchdog now) := fun h => h
  unfold linkWatchdog
  split
  · next hs =>
    have hn : ¬ l.Ends r (.watchdog now) := fun h => Status.noConfusion (hs.symm.trans h.1)
    have hopen : l.status ≠ .closed := by simp [hs]
    refine .quiet hf hn ?_
    dsimp only
    split
    · split
      · have h : ∀ b b', Quiet l ((l.sendKeepalive b now).sendKeepalive b' now) := fun b b' =>
          (sendKeepalive_quiet l b now).trans (sendKeepalive_quiet _ b' now)
        exact (h _ _).trans (goStale_quiet (mt (h _ _).closed.1 hopen) now)
      · exact sendKeepalive_quiet l _ now
    · exact .refl l
  · next hs =>
    split
    · next hd => exact .ends hf (show l.Ends r (.watchdog now) from ⟨hs, hd⟩) l _ (.refl l)
    · next hd => exact .quiet hf (fun h => hd h.2) (.refl l)
  · next hs =>
    exact .quiet hf (fun h => hs h.1) (.refl l)

theorem quietCall (f : Frame) (hf : f.isCancelling = false) (h : Quiet l m) : Quiet l (m.call f) :=
  h.trans (call_quiet hf m)

/-- A consumer is called on a link that a packet has just made active. -/
theorem activated_quiet (h : l.status ≠ .closed) (now rtt : ℚ) :
    Quiet l ((l.withToken.activate now rtt).call .consumer) := by
  have hw := withToken_quiet l
  exact quietCall .consumer rfl (hw.trans (activate_quiet (mt hw.closed.1 h) now rtt))

/-- What decrypts has been decrypted with a key. -/
theorem canSeal_of_decrypt {data : Bytes} (h : l.decrypt r data ≠ []) : l.canSeal = true := by
  rw [canSeal_eq]
  rw [decrypt_eq] at h
  cases hk : l.readKey with
  | none => exact absurd (by rw [hk]; rfl) h
  | some key => rfl

theorem rttPacket_cases (l : Life) (r : Reader) (now : ℚ) (p : Received) (hs : l.status = .handshake)
    (hi : l.link.initiator = false) (hd : p.isData = true) (hctx : p.context = .lrrtt) :
    ¬ l.Shuts r p ∧ Quiet l (l.rttPacket r now p) ∨
      l.Shuts r p ∧ ∃ k reason, Quiet l k ∧ l.rttPacket r now p = k.close reason := by
  have hw := withToken_quiet l
  have hopen : l.status ≠ .closed := by simp [hs]
  have hshuts : l.Shuts r p ↔ l.decrypt r p.data ≠ [] ∧ r.readRtt (l.decrypt r p.data) = none ∧
      p.sendFails = false := by
    simp [Shuts, hd, hctx, hi, hs]
  unfold rttPacket
  split
  · next he => exact .inl ⟨fun h => (hshuts.1 h).1 he, hw⟩
  · next he =>
    split
    · next hr =>
      have hstatus : l.withToken.status = l.status := by
        rcases withToken_cases l with h | h <;> rw [h]
        rfl
      have hseal : l.withToken.canSeal = true := by
        rw [canSeal_eq, readKey_withToken, ← canSeal_eq]
        exact canSeal_of_decrypt he
      have hdeparts : l.withToken.Departs p.sendFails ↔ p.sendFails = false := by
        simp [Departs, hstatus, hs, hseal]
      rcases teardown_cases l.withToken now p.sendFails with ⟨hn, hq⟩ | ⟨hy, k, reason, hq, heq⟩
      · exact .inl ⟨fun h => hn (hdeparts.2 (hshuts.1 h).2.2), hw.trans hq⟩
      · exact .inr ⟨hshuts.2 ⟨he, hr, hdeparts.1 hy⟩, k, reason, hw.trans hq, heq⟩
    · next rtt hr =>
      refine .inl ⟨fun h => ?_, activated_quiet hopen now _⟩
      simp [hr] at hshuts
      exact hshuts h

/-- A packet of any other context closes nothing. -/
theorem not_shuts {p : Received} (hc : p.context ≠ .linkclose) (hr : p.context ≠ .lrrtt) : ¬ l.Shuts r p := by
  rintro ⟨-, ⟨h, -⟩ | ⟨h, -⟩⟩
  · exact hc h
  · exact hr h

theorem dispatch_cases (l : Life) (r : Reader) (now : ℚ) (p : Received) (h : l.status ≠ .closed) :
    ¬ l.Shuts r p ∧ Quiet l (l.dispatch r now p) ∨
      l.Shuts r p ∧ ∃ k reason, Quiet l k ∧ l.dispatch r now p = k.close reason := by
  have hw := withToken_quiet l
  have hcall : Quiet l (l.withToken.call .consumer) := quietCall .consumer rfl hw
  unfold dispatch
  by_cases hd : p.isData = true
  · simp only [hd, Bool.not_true, Bool.false_eq_true, if_false]
    cases hctx : p.context with
    | linkclose =>
      dsimp only [teardownPacket]
      have hshuts : l.Shuts r p ↔ l.decrypt r p.data = l.link.linkId := by simp [Shuts, hd, hctx]
      split
      · next hne => exact .inl ⟨mt hshuts.1 hne, hw⟩
      · next he => exact .inr ⟨hshuts.2 (not_not.1 he), _, _, hw, rfl⟩
    | none =>
      refine .inl ⟨not_shuts (by simp [hctx]) (by simp [hctx]), ?_⟩
      dsimp only
      split
      · exact hw
      · split
        · exact activated_quiet h now _
        · exact hcall
    | linkidentify =>
      refine .inl ⟨not_shuts (by simp [hctx]) (by simp [hctx]), ?_⟩
      dsimp only
      split
      · split
        · exact activated_quiet h now _
        · exact hcall
      · exact hw
    | lrrtt =>
      dsimp only
      split
      · next hw =>
        exact rttPacket_cases l r now p hw.2 (by simpa using hw.1) hd hctx
      · next hn =>
        refine .inl ⟨?_, .refl l⟩
        rintro ⟨-, ⟨hc, -⟩ | ⟨-, hi, hs, -⟩⟩
        · exact Context.noConfusion (hctx.symm.trans hc)
        · exact hn ⟨by simp [hi], hs⟩
    | keepalive =>
      refine .inl ⟨not_shuts (by simp [hctx]) (by simp [hctx]), ?_⟩
      dsimp only
      split
      · exact quiet_link _ rfl rfl rfl
      · exact .refl l
    | resource =>
      exact .inl ⟨not_shuts (by simp [hctx]) (by simp [hctx]), quietCall .consumer rfl (.refl l)⟩
    | other =>
      refine .inl ⟨not_shuts (by simp [hctx]) (by simp [hctx]), ?_⟩
      dsimp only
      split
      · exact hw
      · exact hcall
  · refine .inl ⟨fun he => hd he.1, ?_⟩
    rw [if_pos (by simpa using hd)]
    exact quietCall .consumer rfl (.refl l)

theorem repin_initiator (l : Life) (r : Reader) (p : Received) :
    (l.repin r p).link.initiator = l.link.initiator ∧ (l.repin r p).status = l.status := by
  have hw : l.withToken.link.initiator = l.link.initiator ∧ l.withToken.status = l.status := by
    rcases withToken_cases l with h | h <;> rw [h] <;> exact ⟨rfl, rfl⟩
  unfold repin
  split
  · exact ⟨rfl, rfl⟩
  · split
    · split <;> exact hw
    · exact ⟨rfl, rfl⟩

/-- A packet is prepared for on the same side of the link, and a stale link has come back by then. -/
theorem prepared_status (l : Life) (r : Reader) (now : ℚ) (p : Received) :
    (l.prepared r now p).link.initiator = l.link.initiator ∧
      (l.prepared r now p).status = if l.status = .stale then .active else l.status := by
  obtain ⟨hi, hs⟩ := repin_initiator l r p
  have hs' : ((l.repin r p).stamp now p).status = l.status := hs
  unfold prepared revive
  split
  · next h => exact ⟨hi, by rw [if_pos (hs'.symm.trans h)]; rfl⟩
  · next h => exact ⟨hi, by rw [if_neg (fun h' => h (hs'.trans h'))]; exact hs'⟩

theorem prepared_shuts (l : Life) (r : Reader) (now : ℚ) (p : Received) :
    (l.prepared r now p).Shuts r p ↔ l.Shuts r p := by
  obtain ⟨hkey, hid⟩ := prepared_reads l r now p
  obtain ⟨hi, hs⟩ := prepared_status l r now p
  have hreads : (l.prepared r now p).decrypt r p.data = l.decrypt r p.data := by
    rw [decrypt_eq, decrypt_eq, hkey]
  have hh : (l.prepared r now p).status = .handshake ↔ l.status = .handshake := by
    rw [hs]
    cases l.status <;> simp
  simp only [Shuts, hreads, hid, hi, hh]

theorem receive_acts (l : Life) (now : ℚ) (p : Received) : Acts c r l (.receive now p) (l.receive r now p) := by
  have hf : ¬ l.Fails c (.receive now p) := fun h => h
  unfold receive
  split
  · next hs =>
    refine .quiet hf (fun he => ?_) (.refl l)
    rcases hs with hs | ⟨-, hctx, -⟩
    · exact he.1 hs
    · exact not_shuts (by simp [hctx]) (by simp [hctx]) he.2
  · next hs =>
    have hopen : l.status ≠ .closed := fun h => hs (.inl h)
    have hq := prepared_quiet l r now p
    have hshuts := prepared_shuts l r now p
    rcases dispatch_cases (l.prepared r now p) r now p (mt hq.closed.1 hopen) with
      ⟨hn, hd⟩ | ⟨he, k, reason, hk, heq⟩
    · exact .quiet hf (fun he => hn (hshuts.2 he.2)) (hq.trans hd)
    · rw [show ((l.repin r p).stamp now p).revive.dispatch r now p = k.close reason from heq]
      exact .ends hf ⟨hopen, hshuts.1 he⟩ k reason (hq.trans hk)

/-- A proof that is taken leaves behind the link its validation left. -/
theorem proof_done (hp : l.status ≠ .closed → l.link.prv ≠ none) (now : ℚ) (p : Packet) {k : Link}
    (hk : inboundLrproof c now p { l.link with events := [] } = .done k) :
    (l.status = .closed → k = { l.link with events := [] }) ∧
      (l.status ≠ .closed → (k.status = .closed ↔ l.Fails c (.proof now p)) ∧ k.prv = l.link.prv) := by
  refine ⟨fun hc => ?_, fun ho => ?_⟩
  · have hd : inboundLrproof c now p { l.link with events := [] } = .done { l.link with events := [] } := by
      unfold inboundLrproof
      split
      · exact validateProof_closed (.inl hc)
      · rfl
    exact (Outcome.done.inj (hd.symm.trans hk)).symm
  · exact inboundLrproof_closes (l := { l.link with events := [] }) ho (fun _ => hp ho) hk

theorem proof_acts (hp : l.status ≠ .closed → l.link.prv ≠ none) (now : ℚ) (p : Packet) :
    Acts c r l (.proof now p) (l.proof c now p) := by
  have he : ¬ l.Ends r (.proof now p) := fun h => h
  have hevents : Quiet l { l with link := { l.link with events := [] } } := quiet_link _ rfl rfl rfl
  unfold proof
  cases hk : inboundLrproof c now p { l.link with events := [] } with
  | threw k => exact absurd ⟨k, hk⟩ inboundLrproof_not_throws
  | aborted =>
    refine .quiet (fun hf => ?_) he ⟨rfl, rfl, .rfl, rfl, fun _ => rfl, fun _ => rfl⟩
    exact inboundLrproof_aborted (l := { l.link with events := [] }) hf.open_ (fun _ => hp hf.open_) hk hf
  | done k =>
    obtain ⟨hclosed, hopen⟩ := proof_done hp now p hk
    dsimp only
    by_cases hs : l.status = .closed
    · rw [hclosed hs]
      exact .quiet (fun hf => hf.open_ hs) he hevents
    · obtain ⟨hiff, hprv⟩ := hopen hs
      by_cases hf : l.Fails c (.proof now p)
      · have hkc := hiff.2 hf
        split
        · exact .fails hf hkc rfl rfl
        · exact .fails hf hkc rfl rfl
      · have hq : Quiet l { l with link := k } :=
          ⟨rfl, rfl, iff_of_false (mt hiff.1 hf) hs, rfl, fun _ => hprv, fun hc => absurd hc hs⟩
        split
        · exact .quiet hf he (quietCall _ rfl hq)
        · exact .quiet hf he hq

theorem ret_acts (l : Life) (throws : Bool) : Acts c r l (.ret throws) (l.ret throws) := by
  have he : ¬ l.Ends r (.ret throws) := fun h => h
  have hfails : ∀ f stack, l.stack = f :: stack → f ≠ .establishedCallback → ¬ l.Fails c (.ret throws) := by
    rintro f stack hst hne ⟨-, -, stack', hst'⟩
    rw [hst] at hst'
    exact hne (List.cons.inj hst').1
  have hpop : ∀ f stack, l.stack = f :: stack → f.isCancelling = false → Quiet l { l with stack } := by
    intro f stack hst hf
    exact ⟨rfl, by simp [Life.frames, hst, hf], .rfl, rfl, fun _ => rfl, fun _ => rfl⟩
  cases hst : l.stack with
  | nil =>
    rw [ret, hst]
    exact .quiet (fun ⟨_, _, _, h⟩ => by simp [hst] at h) he (.refl l)
  | cons f stack =>
    rw [ret, hst]
    cases f with
    | cancelIncoming left => exact .incoming (hfails _ _ hst nofun) he left stack hst
    | cancelOutgoing left => exact .outgoing (hfails _ _ hst nofun) he left stack hst
    | closedCallback => exact .quiet (hfails _ _ hst nofun) he (hpop _ _ hst rfl)
    | consumer => exact .quiet (hfails _ _ hst nofun) he (hpop _ _ hst rfl)
    | establishedCallback =>
      dsimp only
      split
      · next ht =>
        by_cases hs : l.status = .closed
        · refine .quiet (fun h => h.2.1 hs) he ?_
          have hq := hpop _ _ hst rfl
          exact ⟨rfl, hq.frames, iff_of_true rfl hs, rfl, fun _ => rfl, fun _ => rfl⟩
        · exact .fails ⟨ht, hs, stack, hst⟩ rfl rfl rfl
      · next ht => exact .quiet (fun h => ht h.1) he (hpop _ _ hst rfl)

theorem act_acts (hp : l.status ≠ .closed → l.link.prv ≠ none) (op : Op) : Acts c r l op (l.act c r op) := by
  have hq : Quiet l l := .refl l
  cases op with
  | teardown now sendFails => exact teardown_acts l now sendFails
  | reap now sendFails => exact reap_acts l now sendFails
  | receive now p => exact receive_acts l now p
  | proof now p => exact proof_acts hp now p
  | watchdog now => exact watchdog_acts l now
  | ret throws => exact ret_acts l throws
  | useToken => exact .quiet (fun h => h) (fun h => h) (withToken_quiet l)
  | resources incoming outgoing => exact .quiet (fun h => h) (fun h => h) ⟨rfl, rfl, .rfl, rfl, fun _ => rfl, fun _ => rfl⟩
  | getChannel => exact .quiet (fun h => h) (fun h => h) ⟨rfl, rfl, .rfl, rfl, fun _ => rfl, fun _ => rfl⟩
  | setClosedCallback set =>
    exact .quiet (fun h => h) (fun h => h) ⟨rfl, rfl, .rfl, rfl, fun _ => rfl, fun _ => rfl⟩

-- ---------------------------------------------------------------------------
-- A run of link_closed
-- ---------------------------------------------------------------------------

/-- How far `link_closed` has got, by what waits for it on the stack and by what
it has done. -/
inductive Progress : Status → List Frame → List ClosingStep → Prop
  | opened (h : s ≠ .closed) : Progress s [] []
  | incoming (done left : List Nat) :
      Progress .closed [.cancelIncoming left] (.linkClosed (done ++ left) :: done.map .cancelled)
  | outgoing (incoming done left : List Nat) :
      Progress .closed [.cancelOutgoing left]
        (.linkClosed incoming :: incoming.map .cancelled ++ .outgoing (done ++ left) :: done.map .cancelled)
  | finished (incoming outgoing : List Nat) (b : Bool) : Progress .closed [] (closing incoming outgoing b)

theorem finish_keeps (l : Life) :
    l.finish.status = l.status ∧ l.finish.sigPrv = l.sigPrv ∧ l.finish.frames = l.frames ∧
      l.finish.log = l.log ++ [.finished l.closedCallback] ∧ l.finish.link.derivedKey = [] := by
  unfold finish
  dsimp only
  split <;> exact ⟨rfl, rfl, rfl, rfl, rfl⟩

theorem cancelOutgoing_keeps (left : List Nat) (l : Life) :
    (cancelOutgoing left l).status = l.status ∧ (cancelOutgoing left l).sigPrv = l.sigPrv := by
  cases left with
  | nil => exact ⟨(finish_keeps l).1, (finish_keeps l).2.1⟩
  | cons id rest => exact ⟨rfl, rfl⟩

theorem cancelIncoming_keeps (left : List Nat) (l : Life) :
    (cancelIncoming left l).status = l.status ∧ (cancelIncoming left l).sigPrv = l.sigPrv := by
  cases left with
  | nil => exact cancelOutgoing_keeps l.outgoing (l.note (.outgoing l.outgoing))
  | cons id rest => exact ⟨rfl, rfl⟩

theorem close_keeps (l : Life) (reason : TeardownReason) :
    (l.close reason).status = .closed ∧ (l.close reason).sigPrv = l.sigPrv := cancelIncoming_keeps _ _

/-- Cancelling one more resource. -/
theorem cancel_call (f : Frame) (hf : f.isCancelling = true) (hs : l.status = .closed) (hn : l.frames = [])
    (id : Nat) :
    ((l.note (.cancelled id)).call f).status = .closed ∧ ((l.note (.cancelled id)).call f).frames = [f] ∧
      ((l.note (.cancelled id)).call f).log = l.log ++ [.cancelled id] := by
  refine ⟨hs, ?_, rfl⟩
  rw [← hn]
  exact List.filter_cons_of_pos hf

theorem cancelOutgoing_progress (ins done left : List Nat) (hs : l.status = .closed) (hf : l.frames = [])
    (hl : l.log = .linkClosed ins :: ins.map .cancelled ++ .outgoing (done ++ left) :: done.map .cancelled) :
    Progress (cancelOutgoing left l).status (cancelOutgoing left l).frames (cancelOutgoing left l).log := by
  cases left with
  | nil =>
    obtain ⟨hs', -, hf', hl', -⟩ := finish_keeps l
    rw [cancelOutgoing, hs', hf', hl', hs, hf, hl, List.append_nil]
    exact .finished ins done l.closedCallback
  | cons id rest =>
    obtain ⟨hs', hf', hl'⟩ := cancel_call (.cancelOutgoing rest) rfl hs hf id
    rw [cancelOutgoing, hs', hf', hl', hl]
    have h := Progress.outgoing ins (done ++ [id]) rest
    simpa using h

theorem cancelIncoming_progress (done left : List Nat) (hs : l.status = .closed) (hf : l.frames = [])
    (hl : l.log = .linkClosed (done ++ left) :: done.map .cancelled) :
    Progress (cancelIncoming left l).status (cancelIncoming left l).frames (cancelIncoming left l).log := by
  cases left with
  | nil =>
    have hl' : (l.note (.outgoing l.outgoing)).log =
        .linkClosed done :: done.map .cancelled ++ .outgoing ([] ++ l.outgoing) :: [].map .cancelled := by
      simp [note, hl]
    exact cancelOutgoing_progress done [] l.outgoing hs hf hl'
  | cons id rest =>
    obtain ⟨hs', hf', hl'⟩ := cancel_call (.cancelIncoming rest) rfl hs hf id
    rw [cancelIncoming, hs', hf', hl', hl]
    have h := Progress.incoming (done ++ [id]) rest
    simpa using h

/-- `link_closed` on a link that was open starts from nothing. -/
theorem close_progress (hf : l.frames = []) (hl : l.log = []) (reason : TeardownReason) :
    Progress (l.close reason).status (l.close reason).frames (l.close reason).log := by
  refine cancelIncoming_progress [] _ rfl hf ?_
  simp [note, setStatus, hl]

-- ---------------------------------------------------------------------------
-- Invariants
-- ---------------------------------------------------------------------------

structure Inv (l : Life) : Prop where
  progress : Progress l.status l.frames l.log
  sigPrv : l.sigPrv ≠ none
  prv : l.status ≠ .closed → l.link.prv ≠ none
  keys : (∃ b, .finished b ∈ l.log) → l.link.derivedKey = []

theorem Fresh.inv (h : l.Fresh) : l.Inv where
  progress := by
    have hs : l.status ≠ .closed := by rcases h.status with hs | hs <;> simp [hs]
    rw [Life.frames, h.stack, h.log]
    exact .opened hs
  sigPrv := h.sigPrv
  prv _ := h.prv
  keys hb := by simp [h.log] at hb

/-- An open link has nothing on its log. -/
theorem Progress.open_ {s : Status} {fs : List Frame} {steps : List ClosingStep} (h : Progress s fs steps)
    (hs : s ≠ .closed) : fs = [] ∧ steps = [] := by
  cases h with
  | opened _ => exact ⟨rfl, rfl⟩
  | _ => exact absurd rfl hs

theorem cancelOutgoing_derivedKey (left : List Nat) (h : (∃ b, .finished b ∈ l.log) → l.link.derivedKey = []) :
    (∃ b, .finished b ∈ (cancelOutgoing left l).log) → (cancelOutgoing left l).link.derivedKey = [] := by
  cases left with
  | nil => exact fun _ => (finish_keeps l).2.2.2.2
  | cons id rest =>
    rintro ⟨b, hb⟩
    exact h ⟨b, by simpa [cancelOutgoing, note, call] using hb⟩

theorem cancelIncoming_derivedKey (left : List Nat) (h : (∃ b, .finished b ∈ l.log) → l.link.derivedKey = []) :
    (∃ b, .finished b ∈ (cancelIncoming left l).log) → (cancelIncoming left l).link.derivedKey = [] := by
  cases left with
  | nil => exact cancelOutgoing_derivedKey _ fun ⟨b, hb⟩ => h ⟨b, by simpa [note] using hb⟩
  | cons id rest =>
    rintro ⟨b, hb⟩
    exact h ⟨b, by simpa [cancelIncoming, note, call] using hb⟩

theorem Quiet.inv (hq : Quiet l k) (hi : l.Inv) : k.Inv where
  progress := by
    rw [hq.frames, hq.log]
    by_cases hs : l.status = .closed
    · rw [hq.closed.2 hs, ← hs]
      exact hi.progress
    · obtain ⟨hf, hl⟩ := hi.progress.open_ hs
      rw [hf, hl]
      exact .opened (mt hq.closed.1 hs)
  sigPrv := hq.sigPrv ▸ hi.sigPrv
  prv ho := by
    have hs := mt hq.closed.2 ho
    rw [hq.prv hs]
    exact hi.prv hs
  keys hb := by
    rw [hq.log] at hb
    by_cases hs : l.status = .closed
    · rw [hq.derivedKey hs]
      exact hi.keys hb
    · obtain ⟨b, hb⟩ := hb
      simp [(hi.progress.open_ hs).2] at hb

theorem close_inv (hi : l.Inv) (hs : l.status ≠ .closed) (reason : TeardownReason) : (l.close reason).Inv := by
  obtain ⟨hf, hl⟩ := hi.progress.open_ hs
  obtain ⟨hc, hk⟩ := close_keeps l reason
  refine ⟨close_progress hf hl reason, hk ▸ hi.sigPrv, fun ho => absurd hc ho, ?_⟩
  exact cancelIncoming_derivedKey _ fun ⟨b, hb⟩ => by simp [note, setStatus, hl] at hb

section
variable {s : Status} {fs : List Frame} {steps : List ClosingStep}

theorem Progress.one (h : Progress s fs steps) {f : Frame} {rest : List Frame} (hf : fs = f :: rest) :
    s = .closed ∧ rest = [] := by
  cases h with
  | opened _ => cases hf
  | incoming _ _ => exact ⟨rfl, (List.cons.inj hf).2.symm⟩
  | outgoing _ _ _ => exact ⟨rfl, (List.cons.inj hf).2.symm⟩
  | finished _ _ _ => cases hf

theorem Progress.at_incoming (h : Progress s fs steps) {left : List Nat} (hf : fs = [.cancelIncoming left]) :
    ∃ done, steps = .linkClosed (done ++ left) :: done.map .cancelled := by
  cases h with
  | incoming done _ =>
    cases hf
    exact ⟨done, rfl⟩
  | _ => cases hf

theorem Progress.at_outgoing (h : Progress s fs steps) {left : List Nat} (hf : fs = [.cancelOutgoing left]) :
    ∃ ins done, steps =
      .linkClosed ins :: ins.map .cancelled ++ .outgoing (done ++ left) :: done.map .cancelled := by
  cases h with
  | outgoing ins done _ =>
    cases hf
    exact ⟨ins, done, rfl⟩
  | _ => cases hf

theorem Progress.at_end (h : Progress s fs steps) (hs : s = .closed) (hf : fs = []) :
    ∃ ins outs b, steps = closing ins outs b := by
  cases h with
  | opened ho => exact absurd hs ho
  | finished ins outs b => exact ⟨ins, outs, b, rfl⟩
  | _ => cases hf

theorem countP_cancelled (ids : List Nat) : (ids.map ClosingStep.cancelled).countP ClosingStep.isStart = 0 := by
  simp [List.countP_map, Function.comp_def, ClosingStep.isStart]

theorem Progress.countP (h : Progress s fs steps) :
    steps.countP ClosingStep.isStart = if s = .closed then 1 else 0 := by
  cases h with
  | opened hs => simp [hs]
  | incoming done left => simp [List.countP_cons, countP_cancelled, ClosingStep.isStart]
  | outgoing ins done left =>
    simp [List.countP_append, List.countP_cons, countP_cancelled, ClosingStep.isStart]
  | finished ins outs b =>
    simp [closing, List.countP_append, List.countP_cons, countP_cancelled, ClosingStep.isStart]

end

/-- What waits on the stack is the only run under way. -/
theorem Inv.resumed (hi : l.Inv) {f : Frame} {stack : List Frame} (hf : f.isCancelling = true)
    (hst : l.stack = f :: stack) :
    l.status = .closed ∧ Life.frames { l with stack } = [] ∧ l.frames = [f] := by
  have hframes : l.frames = f :: stack.filter Frame.isCancelling := by
    rw [Life.frames, hst]
    exact List.filter_cons_of_pos hf
  obtain ⟨hs, hnil⟩ := hi.progress.one hframes
  exact ⟨hs, hnil, by rw [hframes, hnil]⟩

theorem cancelIncoming_inv (hi : l.Inv) {left : List Nat} {stack : List Frame}
    (hst : l.stack = .cancelIncoming left :: stack) : (cancelIncoming left { l with stack }).Inv := by
  obtain ⟨hs, hf, hfs⟩ := hi.resumed rfl hst
  obtain ⟨done, hlog⟩ := hi.progress.at_incoming hfs
  obtain ⟨hs', hk'⟩ := cancelIncoming_keeps left { l with stack }
  exact ⟨cancelIncoming_progress done left hs hf hlog, fun hn => hi.sigPrv (hk'.symm.trans hn),
    fun ho => absurd (hs'.trans hs) ho, cancelIncoming_derivedKey left hi.keys⟩

theorem cancelOutgoing_inv (hi : l.Inv) {left : List Nat} {stack : List Frame}
    (hst : l.stack = .cancelOutgoing left :: stack) : (cancelOutgoing left { l with stack }).Inv := by
  obtain ⟨hs, hf, hfs⟩ := hi.resumed rfl hst
  obtain ⟨ins, done, hlog⟩ := hi.progress.at_outgoing hfs
  obtain ⟨hs', hk'⟩ := cancelOutgoing_keeps left { l with stack }
  exact ⟨cancelOutgoing_progress ins done left hs hf hlog, fun hn => hi.sigPrv (hk'.symm.trans hn),
    fun ho => absurd (hs'.trans hs) ho, cancelOutgoing_derivedKey left hi.keys⟩

theorem step_inv (l : Life) (op : Op) (hi : l.Inv) (ho : l.Orderly c r op) : (l.step c r op).Inv := by
  unfold step
  split
  · exact hi
  · next hdown =>
    obtain hd | ⟨hfails, hends⟩ := ho
    · exact absurd hd hdown
    · have ha := act_acts (c := c) (r := r) hi.prv op
      generalize l.act c r op = l' at ha
      cases ha with
      | quiet _ _ hq => exact hq.inv hi
      | ends _ he k reason hq => exact close_inv (hq.inv hi) (mt hq.closed.1 (hends he)) reason
      | fails hf => exact absurd hf hfails
      | incoming _ _ left stack hst => exact cancelIncoming_inv hi hst
      | outgoing _ _ left stack hst => exact cancelOutgoing_inv hi hst

/-- Closed is for good, whatever happens. -/
theorem step_closed (l : Life) (op : Op) (hs : l.status = .closed) : (l.step c r op).status = .closed := by
  unfold step
  split
  · exact hs
  · have ha := act_acts (c := c) (r := r) (l := l) (fun ho => absurd hs ho) op
    generalize l.act c r op = l' at ha
    cases ha with
    | quiet _ _ hq => exact hq.closed.2 hs
    | ends _ _ k reason _ => exact (close_keeps k reason).1
    | fails _ hs' => exact hs'
    | incoming _ _ left stack _ => exact (cancelIncoming_keeps left _).1.trans hs
    | outgoing _ _ left stack _ => exact (cancelOutgoing_keeps left _).1.trans hs

-- ---------------------------------------------------------------------------
-- What goes wrong
-- ---------------------------------------------------------------------------

theorem Inv.closedOnce (hi : l.Inv) : l.ClosedOnce where
  executions := hi.progress.countP
  complete hs hst := hi.progress.at_end hs (by simp [Life.frames, hst])

theorem cancelOutgoing_countP (left : List Nat) (l : Life) :
    (cancelOutgoing left l).log.countP ClosingStep.isStart = l.log.countP ClosingStep.isStart := by
  cases left with
  | nil => simp [cancelOutgoing, (finish_keeps l).2.2.2.1, ClosingStep.isStart]
  | cons id rest => simp [cancelOutgoing, call, note, ClosingStep.isStart]

theorem cancelIncoming_countP (left : List Nat) (l : Life) :
    (cancelIncoming left l).log.countP ClosingStep.isStart = l.log.countP ClosingStep.isStart := by
  cases left with
  | nil => simp [cancelIncoming, cancelOutgoing_countP, note, ClosingStep.isStart]
  | cons id rest => simp [cancelIncoming, call, note, ClosingStep.isStart]

theorem close_countP (l : Life) (reason : TeardownReason) :
    (l.close reason).log.countP ClosingStep.isStart = l.log.countP ClosingStep.isStart + 1 := by
  rw [close, linkClosed, cancelIncoming_countP]
  simp [note, setStatus, ClosingStep.isStart]

/-- A step out of order shows: the link is closed a second time, or closed
without having been closed once. -/
theorem step_disorderly (l : Life) (op : Op) (hi : l.Inv) (ho : ¬ l.Orderly c r op) :
    ¬ (l.step c r op).ClosedOnce := by
  have hbefore := hi.progress.countP
  simp only [Orderly, not_or, not_and, Bool.not_eq_true] at ho
  obtain ⟨hdown, ho⟩ := ho
  intro honce
  have hafter := honce.executions
  simp only [step, hdown, Bool.false_eq_true, if_false] at hafter
  have ha := act_acts (c := c) (r := r) hi.prv op
  generalize l.act c r op = l' at ha hafter
  cases ha with
  | quiet hf he _ => exact absurd (ho hf) (not_not.2 fun h => absurd h he)
  | ends hf he k reason hq =>
    have hs : l.status = .closed := by
      by_contra hs
      exact ho hf fun _ => hs
    rw [close_countP, (close_keeps k reason).1, hq.log, hbefore, if_pos hs] at hafter
    simp at hafter
  | fails hf hs hlog _ =>
    rw [hlog, hs, hbefore, if_neg hf.open_] at hafter
    simp at hafter
  | incoming hf he _ _ _ => exact absurd (ho hf) (not_not.2 fun h => absurd h he)
  | outgoing hf he _ _ _ => exact absurd (ho hf) (not_not.2 fun h => absurd h he)

/-- A link that a step closes has its signing key still. -/
theorem step_closing (l : Life) (op : Op) (hi : l.Inv) (ho : ¬ l.StaysOpen c r op) :
    ¬ (l.step c r op).KeysGone := by
  simp only [StaysOpen, not_or, not_and, not_not, Bool.not_eq_true] at ho
  obtain ⟨hdown, ho⟩ := ho
  intro hgone
  have hsign : (l.step c r op).status = .closed → (l.step c r op).sigPrv = l.sigPrv → False := by
    intro hs hk
    have hn := (hgone hs).2
    rw [canSign, hk] at hn
    exact hi.sigPrv (Option.isNone_iff_eq_none.1 (by simpa using hn))
  simp only [step, hdown, Bool.false_eq_true, if_false] at hsign
  have ha := act_acts (c := c) (r := r) hi.prv op
  generalize l.act c r op = l' at ha hsign
  cases ha with
  | quiet hf he _ => exact he (ho hf)
  | ends _ _ k reason hq => exact hsign (close_keeps k reason).1 ((close_keeps k reason).2.trans hq.sigPrv)
  | fails _ hs _ hk => exact hsign hs hk
  | incoming hf he _ _ _ => exact he (ho hf)
  | outgoing hf he _ _ _ => exact he (ho hf)

/-- An open link stays open. -/
theorem step_open (l : Life) (op : Op) (hi : l.Inv) (hs : l.status ≠ .closed) (ho : l.StaysOpen c r op) :
    (l.step c r op).status ≠ .closed := by
  unfold step
  split
  · exact hs
  · next hdown =>
    obtain hd | ⟨hfails, hends⟩ := ho
    · exact absurd hd hdown
    · have ha := act_acts (c := c) (r := r) hi.prv op
      generalize l.act c r op = l' at ha
      cases ha with
      | quiet _ _ hq => exact mt hq.closed.1 hs
      | ends _ he => exact absurd he hends
      | fails hf => exact absurd hf hfails
      | incoming _ _ left stack hst => exact absurd (hi.resumed rfl hst).1 hs
      | outgoing _ _ left stack hst => exact absurd (hi.resumed rfl hst).1 hs

/-- The link as `link_closed` leaves it: it signs, and encrypts with a token it
has made before, but makes no new one. -/
structure Sealed (l : Life) : Prop where
  signs : l.canSign = true
  seals : l.canSeal = l.link.token.isSome

theorem Inv.sealed (hi : l.Inv) (hb : ∃ b, .finished b ∈ l.log) : l.Sealed where
  signs := Option.isSome_iff_ne_none.2 hi.sigPrv
  seals := by simp [canSeal, hi.keys hb, tokenKeyOk]

namespace Sample

/-- A link that waits for its proof, and whose consumer wants to know its end. -/
def life : Life := { link := Link.Sample.link, sigPrv := some (.replicate 32 7), closedCallback := true }

def reader : Reader := ⟨fun _ data => data, fun _ => some 0⟩

theorem fresh : life.Fresh := ⟨.inl rfl, by decide, by decide, rfl, rfl⟩

/-- The proof arrives, its callback returns, and there is something to send. -/
def opened : List Op := [.proof 1 Link.Sample.genuine, .ret false, .resources [1] [2]]

def after (ops : List Op) : Life := run (step Link.Sample.crypto reader) life (opened ++ ops)

end Sample

end Life

end MicroReticulum.Link
