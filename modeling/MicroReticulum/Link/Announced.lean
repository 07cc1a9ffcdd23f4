import MicroReticulum.Lib.Runs
import MicroReticulum.Link.Listeners

/-!
# A link is announced once

An accepted link leaves the handshake once and does not come back to it, and
both the RTT packet and an identify look whether it is still there. Plain data
does not: on a link without a packet callback every packet of it that decrypts
announces the link again, and each announcement takes another slot.
-/

namespace MicroReticulum.Link

open Lib (Outcome)
open Lib.Runs

-- ---------------------------------------------------------------------------
-- The specification
-- ---------------------------------------------------------------------------

namespace Life

def Up (l : Life) : Prop := l.status = .active ∨ l.status = .stale

/-- A link as `validate_request` leaves it. -/
structure Offered (key : Bytes) (l : Life) : Prop where
  status : l.status = .handshake
  initiator : l.link.initiator = false
  registry : l.link.registry = .active
  token : l.link.token = none
  derivedKey : l.link.derivedKey = key
  down : l.down = false

end Life

/-- Plain data that decrypts on an announced link, which nobody takes packets from. -/
structure Accepted.Renews (r : Reader) (a : Accepted) (p : Received) : Prop where
  listener : a.listener ≠ .none
  up : a.life.Up
  isData : p.isData = true
  context : p.context = .none
  packetCallback : a.life.packetCallback = false
  decrypts : a.life.decrypt r p.data ≠ []

namespace Node

def Fresh (keys : Nat → Bytes) (n : Node) : Prop :=
  (∀ i, (n.links i).life.Offered (keys i) ∧ (n.links i).announcements = []) ∧ n.seats = []

/-- The slots a link has been given. -/
def seatsOf (n : Node) (i : Nat) : List Seat := n.seats.filter (·.link = i)

/-- A link is announced once at most, by a packet that decrypts under its key,
and takes one slot at most, its own or another connection's. -/
def AnnouncedOnce (r : Reader) (keys : Nat → Bytes) (n : Node) : Prop :=
  ∀ i, (n.links i).announcements.length ≤ 1 ∧ (n.seatsOf i).length ≤ 1 ∧
    ∀ x ∈ (n.links i).announcements, r.openSealed (keys i) x.data ≠ []

/-- The operation is not plain data on an announced link without a packet callback. -/
def Spares (r : Reader) (n : Node) : Op → Prop
  | .life i (.receive _ p) _ => ¬ (n.links i).Renews r p
  | _ => True

end Node

-- ---------------------------------------------------------------------------
-- Steps that do not bring a link up
-- ---------------------------------------------------------------------------

namespace Life

variable {c : Crypto} {r : Reader} {key : Bytes} {l k m : Life} {now : ℚ} {p : Received}

/-- The responder's side of a link under `key`, from its handshake on. -/
structure Responds (key : Bytes) (l : Life) : Prop where
  initiator : l.link.initiator = false
  registry : l.link.registry ≠ .pending
  status : l.status ≠ .pending
  token : l.link.token = none ∨ l.link.token = some key
  derivedKey : l.link.derivedKey = key ∨ l.link.derivedKey = []
  down : l.down = false

theorem Offered.responds (h : l.Offered key) : l.Responds key where
  initiator := h.initiator
  registry := by simp [h.registry]
  status := by simp [h.status]
  token := .inl h.token
  derivedKey := .inl h.derivedKey
  down := h.down

/-- A step after which the link is no further up than before. -/
structure Stays (key : Bytes) (l l' : Life) : Prop where
  responds : l.Responds key → l'.Responds key
  up : l'.Up → l.Up
  waiting : l'.status = .handshake → l.status = .handshake

theorem Stays.refl (l : Life) : Stays key l l := ⟨id, id, id⟩

theorem Stays.trans (h : Stays key l k) (h' : Stays key k m) : Stays key l m :=
  ⟨h'.responds ∘ h.responds, h.up ∘ h'.up, h.waiting ∘ h'.waiting⟩

/-- A change to what says nothing about the link's state and keys. -/
theorem stays_of_eq (hi : m.link.initiator = l.link.initiator) (hr : m.link.registry = l.link.registry)
    (hs : m.status = l.status) (ht : m.link.token = l.link.token)
    (hk : m.link.derivedKey = l.link.derivedKey) (hd : m.down = l.down) : Stays key l m where
  responds h := ⟨hi ▸ h.initiator, hr ▸ h.registry, hs ▸ h.status, ht ▸ h.token, hk ▸ h.derivedKey, hd ▸ h.down⟩
  up h := by rwa [Up, hs] at h
  waiting h := hs ▸ h

theorem call_stays (f : Frame) (l : Life) : Stays key l (l.call f) := stays_of_eq rfl rfl rfl rfl rfl rfl

theorem setStatus_closed_stays (l : Life) : Stays key l (l.setStatus .closed) where
  responds h := ⟨h.initiator, h.registry, Status.noConfusion, h.token, h.derivedKey, h.down⟩
  up h := by simp [Up, setStatus, status] at h
  waiting h := Status.noConfusion h

theorem token_withToken (l : Life) :
    l.withToken.link.token = l.link.token ∨
      tokenKeyOk l.link.derivedKey = true ∧ l.withToken.link.token = some l.link.derivedKey := by
  unfold withToken Link.withToken
  cases ht : l.link.token with
  | some t => exact .inl ht
  | none =>
    cases hk : tokenKeyOk l.link.derivedKey with
    | false => exact .inl ht
    | true => exact .inr ⟨rfl, rfl⟩

theorem withToken_stays (l : Life) : Stays key l l.withToken := by
  have hw := withToken_cases l
  refine ⟨fun h => ?_, fun h => ?_, fun h => ?_⟩
  · have htoken : l.withToken.link.token = none ∨ l.withToken.link.token = some key := by
      rcases token_withToken l with ht | ⟨hok, ht⟩
      · rw [ht]
        exact h.token
      · rcases h.derivedKey with hk | hk
        · exact .inr (hk ▸ ht)
        · rw [hk] at hok
          exact absurd hok (by decide)
    rcases hw with e | e
    · rw [e]
      exact h
    · rw [e] at htoken ⊢
      exact ⟨h.initiator, h.registry, h.status, htoken, h.derivedKey, h.down⟩
  · rcases hw with e | e <;> rw [e] at h <;> exact h
  · rcases hw with e | e <;> rw [e] at h <;> exact h

theorem finish_stays (l : Life) : Stays key l l.finish := by
  have h : Stays key l { l.note (.finished l.closedCallback) with
      channel := false
      link := { l.link with prv := none, sharedKey := [], derivedKey := [] }
      listed := false } :=
    ⟨fun h => ⟨h.initiator, h.registry, h.status, h.token, .inr rfl, h.down⟩, id, id⟩
  unfold finish
  dsimp only
  split
  · exact h.trans (call_stays _ _)
  · exact h

theorem cancelOutgoing_stays (left : List Nat) (l : Life) : Stays key l (cancelOutgoing left l) := by
  cases left with
  | nil => exact finish_stays l
  | cons a left => exact stays_of_eq rfl rfl rfl rfl rfl rfl

theorem cancelIncoming_stays (left : List Nat) (l : Life) : Stays key l (cancelIncoming left l) := by
  cases left with
  | nil => exact (stays_of_eq rfl rfl rfl rfl rfl rfl : Stays key l (l.note _)).trans (cancelOutgoing_stays _ _)
  | cons a left => exact stays_of_eq rfl rfl rfl rfl rfl rfl

theorem close_stays (l : Life) (reason : TeardownReason) : Stays key l (l.close reason) := by
  have hs : Stays key l (l.setStatus .closed) := setStatus_closed_stays l
  have hn : Stays key (l.setStatus .closed)
      ({ l.setStatus .closed with teardownReason := reason }.note (.linkClosed l.incoming)) :=
    stays_of_eq rfl rfl rfl rfl rfl rfl
  exact (hs.trans hn).trans (cancelIncoming_stays l.incoming _)

theorem teardown_stays (l : Life) (now : ℚ) (sendFails : Bool) : Stays key l (l.teardown now sendFails) := by
  unfold teardown
  dsimp only
  split
  · split
    · exact .refl l
    · split
      · exact withToken_stays l
      · have ho : Stays key l.withToken { l.withToken with link := hadOutbound now l.withToken.link } :=
          stays_of_eq rfl rfl rfl rfl rfl rfl
        exact ((withToken_stays l).trans ho).trans (close_stays _ _)
  · exact close_stays l _

theorem teardownPacket_stays (l : Life) (r : Reader) (data : Bytes) : Stays key l (l.teardownPacket r data) := by
  unfold teardownPacket
  split
  · exact withToken_stays l
  · exact (withToken_stays l).trans (close_stays _ _)

theorem sendKeepalive_stays (l : Life) (sends : Bool) (now : ℚ) : Stays key l (l.sendKeepalive sends now) := by
  unfold sendKeepalive
  split
  · exact stays_of_eq rfl rfl rfl rfl rfl rfl
  · exact .refl l

theorem goStale_stays (l : Life) (hs : l.Up) (now : ℚ) : Stays key l (l.goStale now) where
  responds h := ⟨h.initiator, h.registry, Status.noConfusion, h.token, h.derivedKey, h.down⟩
  up _ := hs
  waiting h := Status.noConfusion h

theorem linkWatchdog_stays (l : Life) (now : ℚ) : Stays key l (l.linkWatchdog now) := by
  unfold linkWatchdog
  split
  · next hs =>
    dsimp only
    split
    · split
      · have h : ∀ b b', Stays key l ((l.sendKeepalive b now).sendKeepalive b' now) := fun b b' =>
          (sendKeepalive_stays l b now).trans (sendKeepalive_stays _ b' now)
        have hup : ∀ b b', ((l.sendKeepalive b now).sendKeepalive b' now).Up := by
          intro b b'
          cases b <;> cases b' <;> exact .inl hs
        exact (h _ _).trans (goStale_stays _ (hup _ _) now)
      · exact sendKeepalive_stays l _ now
    · exact .refl l
  · split
    · exact close_stays l _
    · exact .refl l
  · exact .refl l

-- ---------------------------------------------------------------------------
-- Packets
-- ---------------------------------------------------------------------------

theorem repin_stays (l : Life) (r : Reader) (p : Received) : Stays key l (l.repin r p) := by
  unfold repin
  split
  · exact .refl l
  · split
    · split
      · exact withToken_stays l
      · exact (withToken_stays l).trans (stays_of_eq rfl rfl rfl rfl rfl rfl)
    · exact .refl l

theorem revive_stays (l : Life) : Stays key l l.revive := by
  unfold revive
  split
  · next hs =>
    exact ⟨fun h => ⟨h.initiator, h.registry, Status.noConfusion, h.token, h.derivedKey, h.down⟩,
      fun _ => .inr hs, fun h => Status.noConfusion h⟩
  · exact .refl l

theorem prepared_stays (l : Life) (r : Reader) (now : ℚ) (p : Received) : Stays key l (l.prepared r now p) :=
  have hs : Stays key (l.repin r p) ((l.repin r p).stamp now p) := stays_of_eq rfl rfl rfl rfl rfl rfl
  ((repin_stays l r p).trans hs).trans (revive_stays _)

/-- A packet either brings the responder's side up, or leaves it where it is. -/
theorem dispatch_cases_up (key : Bytes) (l : Life) (r : Reader) (now : ℚ) (p : Received) :
    (l.announces r p = true ∧
        ∃ rtt, l.dispatch r now p = (l.withToken.activate now rtt).call .consumer) ∨
      (l.announces r p = false ∧ Stays key l (l.dispatch r now p)) := by
  have hw : Stays key l l.withToken := withToken_stays l
  have hcall : Stays key l (l.withToken.call .consumer) := hw.trans (call_stays _ _)
  unfold dispatch announces
  cases hd : p.isData with
  | false => exact .inr ⟨rfl, call_stays _ l⟩
  | true =>
    cases hi : l.link.initiator with
    | true =>
      refine .inr ⟨by simp, ?_⟩
      simp only [Bool.not_true, Bool.false_eq_true, if_false, and_false, false_and]
      cases hctx : p.context with
      | none => dsimp only; split <;> [exact hw; exact hcall]
      | linkidentify => exact hw
      | lrrtt => exact .refl l
      | linkclose => exact teardownPacket_stays l r _
      | keepalive => exact .refl l
      | resource => exact call_stays _ l
      | other => dsimp only; split <;> [exact hw; exact hcall]
    | false =>
      simp only [Bool.not_true, Bool.not_false, Bool.false_eq_true, if_false, and_true, true_and, Bool.true_and]
      cases hctx : p.context with
      | none =>
        dsimp only
        split
        · next he => exact .inr ⟨by simp [he], hw⟩
        · next he =>
          cases hpc : l.packetCallback with
          | true => exact .inr ⟨by simp, by simpa using hcall⟩
          | false => exact .inl ⟨by simp [he], _, by simp; rfl⟩
      | linkidentify =>
        dsimp only
        split
        · next hid =>
          split
          · next hs => exact .inl ⟨by simp [hid, hs], _, rfl⟩
          · next hs => exact .inr ⟨by simp [hs], hcall⟩
        · next hid =>
          refine .inr ⟨?_, hw⟩
          by_contra hn
          simp only [Bool.not_eq_false, Bool.and_eq_true, decide_eq_true_eq] at hn
          exact hid hn.1
      | lrrtt =>
        dsimp only
        split
        · next hs =>
          unfold rttPacket
          split
          · next he => exact .inr ⟨by simp [he], hw⟩
          · next he =>
            split
            · next hr => exact .inr ⟨by simp [hr], hw.trans (teardown_stays _ _ _)⟩
            · next rtt hr => exact .inl ⟨by simp [hs, he, hr], _, rfl⟩
        · next hs => exact .inr ⟨by simp [hs], .refl l⟩
      | linkclose => exact .inr ⟨rfl, teardownPacket_stays l r _⟩
      | keepalive =>
        dsimp only
        split
        · exact .inr ⟨rfl, stays_of_eq rfl rfl rfl rfl rfl rfl⟩
        · exact .inr ⟨rfl, .refl l⟩
      | resource => exact .inr ⟨rfl, call_stays _ l⟩
      | other =>
        dsimp only
        split
        · exact .inr ⟨rfl, hw⟩
        · exact .inr ⟨rfl, hcall⟩

-- ---------------------------------------------------------------------------
-- Everything else
-- ---------------------------------------------------------------------------

theorem prove_stays (l : Life) (now : ℚ) (sent : Option Nat) : Stays key l (l.prove now sent) := by
  cases sent with
  | none => exact .refl l
  | some size => exact stays_of_eq rfl rfl rfl rfl rfl rfl

theorem requestedAgain_stays (l : Life) (now : ℚ) (sent : Option Nat) :
    Stays key l (l.requestedAgain now sent) := by
  unfold requestedAgain
  split
  · exact .refl l
  · exact prove_stays l now sent

theorem repairProof_stays (l : Life) (now : ℚ) (sent : Option Nat) : Stays key l (l.repairProof now sent) := by
  unfold repairProof
  split
  · exact prove_stays l now sent
  · exact .refl l

theorem ret_stays (l : Life) (throws : Bool) : Stays key l (l.ret throws) := by
  unfold ret
  split
  · next rs stack _ =>
    have h : Stays key l { l with stack } := stays_of_eq rfl rfl rfl rfl rfl rfl
    exact h.trans (cancelIncoming_stays rs _)
  · next rs stack _ =>
    have h : Stays key l { l with stack } := stays_of_eq rfl rfl rfl rfl rfl rfl
    exact h.trans (cancelOutgoing_stays rs _)
  · next stack _ =>
    have h : Stays key l { l with stack } := stays_of_eq rfl rfl rfl rfl rfl rfl
    split
    · exact h.trans (setStatus_closed_stays _)
    · exact h
  · exact stays_of_eq rfl rfl rfl rfl rfl rfl
  · exact .refl l

/-- No link proof gets to a link that this side has proved itself. -/
theorem Responds.proof (h : l.Responds key) (now : ℚ) (p : Packet) : Stays key l (l.proof c now p) := by
  have htakes : takesProof { l.link with events := [] } p = false := by
    simp [takesProof, h.initiator, h.registry]
  have heq : inboundLrproof c now p { l.link with events := [] } = .done { l.link with events := [] } := by
    simp [inboundLrproof, htakes]
  unfold Life.proof
  rw [heq]
  exact stays_of_eq rfl rfl rfl rfl rfl rfl

theorem Responds.step (h : l.Responds key) (op : Op) (hop : ∀ now p, op ≠ .receive now p) :
    Stays key l (l.step c r op) := by
  simp only [Life.step, h.down, Bool.false_eq_true, if_false]
  cases op with
  | teardown now sendFails => exact teardown_stays l now sendFails
  | reap now sendFails =>
    have hreg : Stays key l { l with link := { l.link with registry := .none } } :=
      ⟨fun h => ⟨h.initiator, Registry.noConfusion, h.status, h.token, h.derivedKey, h.down⟩, id, id⟩
    simp only [act]
    split
    · exact hreg.trans (teardown_stays _ now sendFails)
    · exact .refl l
  | receive now p => exact absurd rfl (hop now p)
  | proof now p => exact h.proof now p
  | watchdog now => exact linkWatchdog_stays l now
  | ret throws => exact ret_stays l throws
  | useToken => exact withToken_stays l
  | resources incoming outgoing => exact stays_of_eq rfl rfl rfl rfl rfl rfl
  | getChannel => exact stays_of_eq rfl rfl rfl rfl rfl rfl
  | setClosedCallback set => exact stays_of_eq rfl rfl rfl rfl rfl rfl

/-- Bringing the link up leaves its keys alone. -/
theorem Responds.activated (h : l.Responds key) (now rtt : ℚ) :
    ((l.withToken.activate now rtt).call .consumer).Responds key := by
  have hw := (withToken_stays l).responds h
  exact ⟨hw.initiator, hw.registry, Status.noConfusion, hw.token, hw.derivedKey, hw.down⟩

theorem Responds.readKey (h : l.Responds key) : l.readKey = none ∨ l.readKey = some key := by
  unfold Life.readKey
  rcases h.token with ht | ht
  · rw [ht]
    rcases h.derivedKey with hk | hk
    · rw [hk]
      cases tokenKeyOk key <;> simp
    · rw [hk]
      exact .inl rfl
  · rw [ht]
    exact .inr rfl

theorem prepared_packetCallback (l : Life) (r : Reader) (now : ℚ) (p : Received) :
    (l.prepared r now p).packetCallback = l.packetCallback := by
  have hrevive : ∀ m : Life, m.revive.packetCallback = m.packetCallback := by
    intro m
    unfold revive
    split <;> rfl
  have hw : l.withToken.packetCallback = l.packetCallback := by
    rcases withToken_cases l with h | h <;> rw [h]
  have hrepin : (l.repin r p).packetCallback = l.packetCallback := by
    unfold repin
    split
    · rfl
    · split
      · split <;> exact hw
      · rfl
  rw [prepared, hrevive]
  exact hrepin

end Life

-- ---------------------------------------------------------------------------
-- One link
-- ---------------------------------------------------------------------------

namespace Accepted

variable {c : Crypto} {r : Reader} {key : Bytes} {a b d : Accepted} {now : ℚ} {p : Received}

/-- The link is what it was to its owner, and no further up. -/
structure Rests (key : Bytes) (a b : Accepted) : Prop where
  announcements : b.announcements = a.announcements
  listener : b.listener = a.listener
  stays : a.life.Responds key → Life.Stays key a.life b.life

theorem Rests.refl (a : Accepted) : Rests key a a := ⟨rfl, rfl, fun _ => .refl _⟩

theorem Rests.trans (h : Rests key a b) (h' : Rests key b d) : Rests key a d where
  announcements := h'.announcements.trans h.announcements
  listener := h'.listener.trans h.listener
  stays hr := (h.stays hr).trans (h'.stays ((h.stays hr).responds hr))

theorem act_rests {f : Life → Life} (h : a.life.Responds key → Life.Stays key a.life (f a.life)) :
    Rests key a (a.act f) :=
  ⟨rfl, rfl, h⟩

/-- What runs keep of a link: it waits unannounced, and is up announced. -/
structure Inv (r : Reader) (key : Bytes) (a : Accepted) : Prop where
  responds : a.life.Responds key
  waiting : a.life.status = .handshake → a.announcements = []
  up : a.life.Up → a.listener ≠ .none → a.announcements ≠ []
  once : a.announcements.length ≤ 1
  opened : ∀ x ∈ a.announcements, r.openSealed key x.data ≠ []

theorem Inv.rests (hi : Inv r key a) (h : Rests key a b) : Inv r key b where
  responds := (h.stays hi.responds).responds hi.responds
  waiting hs := by
    rw [h.announcements]
    exact hi.waiting ((h.stays hi.responds).waiting hs)
  up hs hl := by
    rw [h.announcements]
    exact hi.up ((h.stays hi.responds).up hs) (h.listener ▸ hl)
  once := by
    rw [h.announcements]
    exact hi.once
  opened := by
    rw [h.announcements]
    exact hi.opened

/-- A packet that brings a link up has been decrypted. -/
theorem decrypts_of_brings (h : a.brings r now p = true) : a.life.decrypt r p.data ≠ [] := by
  have hreads : (a.life.prepared r now p).decrypt r p.data = a.life.decrypt r p.data := by
    rw [Life.decrypt_eq, Life.decrypt_eq, (Life.prepared_reads _ _ _ _).1]
  simp only [brings, Life.announces, hreads, Bool.and_eq_true] at h
  obtain ⟨-, -, h⟩ := h
  cases hctx : p.context with
  | none => simp_all
  | linkidentify =>
    intro he
    simp [hctx, he, IDENTIFY_SIZE, SIGLENGTH] at h
  | lrrtt => simp_all
  | linkclose => simp [hctx] at h
  | keepalive => simp [hctx] at h
  | resource => simp [hctx] at h
  | other => simp [hctx] at h

/-- A link that a packet brings up was waiting for it, or is up already and the packet is plain. -/
theorem brings_cases (h : a.brings r now p = true) (hr : a.life.Responds key) :
    a.life.status = .handshake ∨
      a.life.Up ∧ p.isData = true ∧ p.context = .none ∧ a.life.packetCallback = false := by
  obtain ⟨-, hs⟩ := Life.prepared_status a.life r now p
  have hpc := Life.prepared_packetCallback a.life r now p
  simp only [brings, Life.announces, hpc, Bool.and_eq_true, decide_eq_true_eq] at h
  obtain ⟨hopen, ⟨hd, -⟩, h⟩ := h
  have hwait : (a.life.prepared r now p).status = .handshake → a.life.status = .handshake :=
    (Life.prepared_stays a.life r now p : Life.Stays key _ _).waiting
  cases hctx : p.context with
  | none =>
    simp only [hctx, Bool.and_eq_true, Bool.not_eq_true'] at h
    cases hst : a.life.status with
    | pending => exact absurd hst hr.status
    | handshake => exact .inl rfl
    | active => exact .inr ⟨.inl hst, hd, rfl, h.2⟩
    | stale => exact .inr ⟨.inr hst, hd, rfl, h.2⟩
    | closed => exact absurd hst hopen
  | linkidentify =>
    simp only [hctx, Bool.and_eq_true, decide_eq_true_eq] at h
    exact .inl (hwait h.2)
  | lrrtt =>
    simp only [hctx, Bool.and_eq_true, decide_eq_true_eq] at h
    exact .inl (hwait h.1.1)
  | linkclose => simp [hctx] at h
  | keepalive => simp [hctx] at h
  | resource => simp [hctx] at h
  | other => simp [hctx] at h

/-- Plain data that renews a link brings it up. -/
theorem Renews.brings (h : a.Renews r p) (hr : a.life.Responds key) (now : ℚ) : a.brings r now p = true := by
  have hreads : (a.life.prepared r now p).decrypt r p.data = a.life.decrypt r p.data := by
    rw [Life.decrypt_eq, Life.decrypt_eq, (Life.prepared_reads _ _ _ _).1]
  have hpc := Life.prepared_packetCallback a.life r now p
  have hopen : a.life.status ≠ .closed := by rcases h.up with hs | hs <;> simp [hs]
  have hi := (Life.prepared_status a.life r now p).1
  simp [Accepted.brings, Life.announces, hopen, h.isData, hi, hr.initiator, h.context, hreads, h.decrypts, hpc,
    h.packetCallback]

theorem receive_up (h : a.brings r now p = true) (hr : a.life.Responds key) :
    (a.life.receive r now p).Responds key ∧ (a.life.receive r now p).status = .active := by
  simp only [brings, Bool.and_eq_true, decide_eq_true_eq] at h
  have hprep := (Life.prepared_stays a.life r now p).responds hr
  have hkeep : ¬ (a.life.status = .closed ∨
      a.life.link.initiator = true ∧ p.context = .keepalive ∧ p.data = [0xFF]) := by
    simp [h.1, hr.initiator]
  rcases Life.dispatch_cases_up key (a.life.prepared r now p) r now p with ⟨-, rtt, heq⟩ | ⟨hn, -⟩
  · have hrec : a.life.receive r now p = ((a.life.prepared r now p).withToken.activate now rtt).call .consumer := by
      rw [Life.receive, if_neg hkeep]
      exact heq
    rw [hrec]
    exact ⟨hprep.activated now rtt, rfl⟩
  · exact absurd h.2 (by simp [hn])

theorem receive_stays (h : a.brings r now p = false) :
    Life.Stays key a.life (a.life.receive r now p) := by
  unfold Life.receive
  split
  · exact .refl _
  · next hs =>
    have hopen : a.life.status ≠ .closed := fun h => hs (.inl h)
    simp only [brings, hopen, ne_eq, not_false_iff, decide_true, Bool.true_and] at h
    rcases Life.dispatch_cases_up key (a.life.prepared r now p) r now p with ⟨hy, -⟩ | ⟨-, hst⟩
    · exact absurd hy (by simp [h])
    · exact (Life.prepared_stays a.life r now p).trans hst

/-- A packet leaves an announced link as it is, or announces one that waits. -/
theorem Inv.receive (hi : Inv r key a) (hp : ¬ a.Renews r p) : Inv r key (a.receive r now p) := by
  cases hb : a.brings r now p with
  | false =>
    have hc : a.calls r now p = false := by simp [calls, hb]
    refine hi.rests ⟨?_, rfl, fun _ => receive_stays hb⟩
    simp [Accepted.receive, hc]
  | true =>
    obtain ⟨hr, hs⟩ := receive_up hb hi.responds
    have hd := decrypts_of_brings hb
    have hnew : a.calls r now p = true → a.announcements = [] := by
      intro hc
      have hl : a.listener ≠ .none := by
        simp only [calls, Bool.and_eq_true, decide_eq_true_eq] at hc
        exact hc.1
      rcases brings_cases hb hi.responds with hw | ⟨hup, hdata, hctx, hpc⟩
      · exact hi.waiting hw
      · exact absurd ⟨hl, hup, hdata, hctx, hpc, hd⟩ hp
    have hkey : r.openSealed key p.data ≠ [] := by
      rw [Life.decrypt_eq] at hd
      rcases hi.responds.readKey with hk | hk
      · rw [hk] at hd
        exact absurd rfl hd
      · rw [hk] at hd
        exact hd
    refine ⟨hr, fun h => Status.noConfusion (hs.symm.trans h), fun _ hl => ?_, ?_, ?_⟩
    · have hc : a.calls r now p = true := by
        have hl' : a.listener ≠ .none := hl
        simpa [calls, hb] using hl'
      simp [Accepted.receive, hc]
    · cases hc : a.calls r now p with
      | false => simpa [Accepted.receive, hc] using hi.once
      | true => simp [Accepted.receive, hc, hnew hc]
    · cases hc : a.calls r now p with
      | false => simpa [Accepted.receive, hc] using hi.opened
      | true => simpa [Accepted.receive, hc, hnew hc] using hkey

/-- Plain data on an announced link announces it again. -/
theorem Inv.renewed (hi : Inv r key a) (now : ℚ) (hp : a.Renews r p) :
    1 < (a.receive r now p).announcements.length := by
  have hc : a.calls r now p = true := by
    simp [calls, hp.listener, hp.brings hi.responds]
  have hpos := List.length_pos_iff.2 (hi.up hp.up hp.listener)
  simp only [Accepted.receive, act, hc, if_true, List.length_append, List.length_singleton]
  exact Nat.succ_lt_succ hpos

end Accepted

-- ---------------------------------------------------------------------------
-- The node
-- ---------------------------------------------------------------------------

namespace Node

variable {c : Crypto} {r : Reader} {keys : Nat → Bytes} {n m k : Node} {w : Reaction}

/-- Every link rests. -/
def Rests (keys : Nat → Bytes) (n m : Node) : Prop := ∀ i, Accepted.Rests (keys i) (n.links i) (m.links i)

theorem Rests.refl (n : Node) : Rests keys n n := fun _ => .refl _

theorem Rests.trans (h : Rests keys n m) (h' : Rests keys m k) : Rests keys n k := fun i => (h i).trans (h' i)

theorem act_rests (n : Node) (i : Nat) {f : Life → Life}
    (h : (n.links i).life.Responds (keys i) → Life.Stays (keys i) (n.links i).life (f (n.links i).life)) :
    Rests keys n (n.act i f) := by
  intro j
  rcases eq_or_ne j i with rfl | hj
  · simpa [act] using Accepted.act_rests h
  · simpa [act, Function.update_of_ne hj] using Accepted.Rests.refl (n.links j)

/-- All that a change of the tables changes is the tables. -/
theorem setConn_rests (n : Node) (listener : Listener) (slot : Nat) (conn : Conn) :
    Rests keys n (n.setConn listener slot conn) := by
  cases listener <;> exact .refl n

theorem evict_rests (n : Node) (listener : Listener) (pl : Place) (w : Reaction) :
    Rests keys n (n.evict listener pl w) := by
  unfold evict
  split
  · exact .refl n
  · split
    · exact setConn_rests n _ _ _
    · exact (act_rests n _ fun _ => Life.teardown_stays _ _ _).trans (setConn_rests _ _ _ _)

theorem wire_rests (n : Node) (i : Nat) (listener : Listener) : Rests keys n (n.wire i listener) :=
  act_rests n i fun _ => Life.stays_of_eq rfl rfl rfl rfl rfl rfl

theorem seat_rests (n : Node) (i : Nat) (listener : Listener) (pl : Place) (w : Reaction) :
    Rests keys n (n.seat i listener pl w) := by
  have he : Rests keys n (n.evict listener pl w) := evict_rests n listener pl w
  have hs := he.trans (setConn_rests _ listener pl.slot ⟨true, some i, .active, w.now⟩)
  exact hs.trans (wire_rests _ i listener)

/-- Whatever the callback does to the links, it brings none of them up. -/
theorem onEstablished_rests (keys : Nat → Bytes) (n : Node) (i : Nat) (listener : Listener) (w : Reaction) :
    Rests keys n (n.onEstablished i listener w) := by
  have htear : ∀ (m : Node) (b : Bool), Rests keys m (m.act i (·.teardown w.now b)) :=
    fun m b => act_rests m i fun _ => Life.teardown_stays _ _ _
  unfold onEstablished
  split
  · exact htear n _
  · split
    · exact htear n _
    · next pl _ =>
      have hseat : Rests keys n (n.seat i listener pl w) := seat_rests n i listener pl w
      dsimp only
      split
      · exact (hseat.trans (htear _ _)).trans (setConn_rests _ _ _ _)
      · split
        · exact hseat.trans (act_rests _ i fun _ => Life.stays_of_eq rfl rfl rfl rfl rfl rfl)
        · exact hseat

theorem setConn_seats (n : Node) (listener : Listener) (slot : Nat) (conn : Conn) :
    (n.setConn listener slot conn).seats = n.seats := by
  cases listener <;> rfl

theorem evict_seats (n : Node) (listener : Listener) (pl : Place) (w : Reaction) :
    (n.evict listener pl w).seats = n.seats := by
  unfold evict
  split
  · rfl
  · split <;> rw [setConn_seats]
    rfl

theorem seat_seats (n : Node) (i : Nat) (listener : Listener) (pl : Place) (w : Reaction) :
    (n.seat i listener pl w).seats = n.seats ++ [⟨i, pl⟩] := by
  have h := (setConn_seats (n.evict listener pl w) listener pl.slot ⟨true, some i, .active, w.now⟩).trans
    (evict_seats n listener pl w)
  exact congrArg (· ++ [(⟨i, pl⟩ : Seat)]) h

/-- The callback seats the link it runs for, and that once. -/
theorem onEstablished_seats (n : Node) (i : Nat) (listener : Listener) (w : Reaction) :
    (n.onEstablished i listener w).seats = n.seats ∨
      ∃ pl, (n.onEstablished i listener w).seats = n.seats ++ [⟨i, pl⟩] := by
  unfold onEstablished
  split
  · exact .inl rfl
  · split
    · exact .inl rfl
    · next pl _ =>
      refine .inr ⟨pl, ?_⟩
      dsimp only
      split
      · rw [setConn_seats]
        exact seat_seats n i listener pl w
      · split <;> exact seat_seats n i listener pl w

/-- Seats are given with announcements only. -/
structure Inv (r : Reader) (keys : Nat → Bytes) (n : Node) : Prop where
  links : ∀ i, Accepted.Inv r (keys i) (n.links i)
  seats : ∀ i, (n.seatsOf i).length ≤ (n.links i).announcements.length

theorem Fresh.inv (h : n.Fresh keys) : Inv r keys n where
  links i := by
    obtain ⟨ho, ha⟩ := h.1 i
    refine ⟨ho.responds, fun _ => ha, fun hup => ?_, by simp [ha], by simp [ha]⟩
    rcases hup with hs | hs <;> exact Status.noConfusion (ho.status.symm.trans hs)
  seats i := by simp [seatsOf, h.2]

theorem Inv.rests (hi : Inv r keys n) (h : Rests keys n m) (hs : m.seats = n.seats) : Inv r keys m where
  links i := (hi.links i).rests (h i)
  seats i := by
    rw [seatsOf, hs, (h i).announcements]
    exact hi.seats i

theorem Inv.announcedOnce (hi : Inv r keys n) : n.AnnouncedOnce r keys :=
  fun i => ⟨(hi.links i).once, (hi.seats i).trans (hi.links i).once, (hi.links i).opened⟩

/-- The owner's callback gives one more seat where there is one more announcement. -/
theorem Inv.announced (i : Nat) (listener : Listener) (w : Reaction) (hl : ∀ j, Accepted.Inv r (keys j) (n.links j))
    (hs : ∀ j, (n.seatsOf j).length + (if j = i then 1 else 0) ≤ (n.links j).announcements.length) :
    Inv r keys (n.onEstablished i listener w) := by
  have hrests : Rests keys n (n.onEstablished i listener w) := onEstablished_rests keys n i listener w
  refine ⟨fun j => (hl j).rests (hrests j), fun j => ?_⟩
  rw [(hrests j).announcements]
  rcases onEstablished_seats n i listener w with h | ⟨pl, h⟩
  · rw [seatsOf, h]
    exact (Nat.le_add_right _ _).trans (hs j)
  · refine le_trans (le_of_eq ?_) (hs j)
    rw [seatsOf, h, List.filter_append, List.length_append, seatsOf]
    rcases eq_or_ne j i with rfl | hj
    · simp
    · simp [hj, hj.symm]

theorem Inv.receive (hi : Inv r keys n) (i : Nat) (now : ℚ) (p : Received) (w : Reaction)
    (hp : ¬ (n.links i).Renews r p) : Inv r keys (n.receive r i now p w) := by
  have hlinks : ∀ j, Accepted.Inv r (keys j) (Function.update n.links i ((n.links i).receive r now p) j) := by
    intro j
    rcases eq_or_ne j i with rfl | hj
    · simpa using (hi.links j).receive hp
    · simpa [Function.update_of_ne hj] using hi.links j
  unfold Node.receive
  dsimp only
  split
  · next hc =>
    refine Inv.announced i _ w hlinks fun j => ?_
    rcases eq_or_ne j i with rfl | hj
    · simpa [Accepted.receive, hc, seatsOf] using hi.seats j
    · simpa [Function.update_of_ne hj, hj, seatsOf] using hi.seats j
  · next hc =>
    refine ⟨hlinks, fun j => ?_⟩
    rcases eq_or_ne j i with rfl | hj
    · simpa [Accepted.receive, hc, seatsOf, Accepted.act] using hi.seats j
    · simpa [Function.update_of_ne hj, seatsOf] using hi.seats j

theorem step_inv (n : Node) (op : Op) (hi : Inv r keys n) (ho : n.Spares r op) : Inv r keys (n.step c r op) := by
  cases op with
  | life i op w =>
    by_cases hop : ∃ now p, op = .receive now p
    · obtain ⟨now, p, rfl⟩ := hop
      exact hi.receive i now p w ho
    · have hne : ∀ now p, op ≠ .receive now p := fun now p h => hop ⟨now, p, h⟩
      have hstep : n.step c r (.life i op w) = n.act i (·.step c r op) := by
        cases op with
        | receive now p => exact absurd rfl (hne now p)
        | _ => rfl
      rw [hstep]
      exact hi.rests (act_rests n i fun hr => hr.step op hne) rfl
  | requestedAgain i now sent => exact hi.rests (act_rests n i fun _ => Life.requestedAgain_stays _ _ _) rfl
  | repair i now sent => exact hi.rests (act_rests n i fun _ => Life.repairProof_stays _ _ _) rfl
  | setPacketCallback i set =>
    exact hi.rests (act_rests n i fun _ => Life.stays_of_eq rfl rfl rfl rfl rfl rfl) rfl
  | setConns listener conns => cases listener <;> exact hi.rests (.refl n) rfl

theorem step_renews (n : Node) (op : Op) (hi : Inv r keys n) (ho : ¬ n.Spares r op) :
    ¬ (n.step c r op).AnnouncedOnce r keys := by
  cases op with
  | life i op w =>
    cases op with
    | receive now p =>
      have hp : (n.links i).Renews r p := not_not.1 ho
      intro hq
      have hgrown := (hi.links i).renewed now hp
      have hlen : ((n.receive r i now p w).links i).announcements = ((n.links i).receive r now p).announcements := by
        unfold Node.receive
        dsimp only
        split
        · rw [(onEstablished_rests keys _ i _ w i).announcements]
          simp
        · simp
      have hle := (hq i).1
      rw [show n.step c r (.life i (.receive now p) w) = n.receive r i now p w from rfl, hlen] at hle
      exact absurd hgrown (not_lt.2 hle)
    | _ => exact absurd trivial ho
  | _ => exact absurd trivial ho

namespace Sample

def key : Bytes := .replicate 64 1

/-- A link as it waits for its RTT packet. -/
def offered : Life where
  link :=
    { linkId := .replicate 16 2, mode := .aes256Cbc, initiator := false, expectedHops := 0,
      destinationIdentity := none, status := .handshake, registry := .active, prv := some [3],
      remoteIdentity := none, peerPubBytes := [4], peerSigPubBytes := [5], sharedKey := [6],
      derivedKey := key, token := none, mtu := 500, mdu := 431, rtt := 0, requestTime := 0, activatedAt := 0,
      lastProof := 0, lastOutbound := 0, lastData := 0, keepalive := 360, staleTime := 720,
      establishmentCost := 83, establishmentRate := 0, attachedInterface := some 0,
      establishedCallback := false, events := [] }
  sigPrv := some [7]

/-- All links are for destinations that listen for channels. -/
def node : Node := { links := fun _ => ⟨offered, .channels, []⟩ }

theorem fresh : node.Fresh fun _ => key := ⟨fun _ => ⟨⟨rfl, rfl, rfl, rfl, rfl, rfl⟩, rfl⟩, rfl⟩

def rtt (i : Nat) (now : ℚ) : Op :=
  .life i (.receive now { context := .lrrtt, data := [1], receivingInterface := 0 }) { now }

def data (i : Nat) (now : ℚ) : Op :=
  .life i (.receive now { context := .none, data := [1], receivingInterface := 0 }) { now }

def sampleStep : Node → Op → Node := step Link.Sample.crypto Life.Sample.reader

/-- One link comes up, then another, on which seven plain packets follow. -/
def busy : List Op := rtt 1 1 :: rtt 0 2 :: (List.range 7).map fun j => data 0 (3 + j)

end Sample

end Node

end MicroReticulum.Link
