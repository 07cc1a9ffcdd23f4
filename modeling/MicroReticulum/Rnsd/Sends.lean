import MicroReticulum.Rnsd.Requests

/-!
# Sends and their buffers

A buffer that a consumer hands in waits in one slot or is freed, and it is freed
once. A send waits, runs, or is settled, and it is settled once at most: with an
aux to its consumer, or with its slot.
-/

namespace MicroReticulum.Rnsd.Node

open Lib Lib.Log Lib.Log.Transition Lib.Balance
open MicroReticulum.MsgPack (Text ResourceAdvertisement)

variable {Q : Node → Risk → Prop} {q : Risk → Prop} {n m : Node} {k : Kind} {i j : Nat} {c c' : Conn}
  {r : Conn × List Event} {l : LinkRef} {now : ℚ} {serial : Nat} {log evs : List Event}

-- ---------------------------------------------------------------------------
-- What a write makes of sends
-- ---------------------------------------------------------------------------

/-- What a slot has of sends: the one that waits, and the one that runs. -/
structure Cargo where
  pend : Option Send
  hash : Bytes
  out : Bool
  no : Nat
  id : Nat

def cargo (c : Conn) : Cargo := ⟨c.pendRes, c.resHash, c.resOutbound, c.resNo, c.resOpaque⟩

def Unsent (evs : List Event) : Prop := ∀ e ∈ evs, topic e ≠ .send

theorem About.unsent {topics : List Topic} (h : About topics log) (hn : .send ∉ topics) : Unsent log :=
  fun e he ht => hn (ht ▸ h e he)

theorem unsent_nil : Unsent [] := fun _ he => absurd he List.not_mem_nil

theorem unsent_append {more : List Event} : Unsent (log ++ more) ↔ Unsent log ∧ Unsent more := by
  simp [Unsent, or_imp, forall_and]

/-- The consumer, if there is one, is told of the end of a send, or of a Resource of the peer. -/
def Tells (send : Option Nat) (id : Nat) (evs : List Event) : Prop :=
  evs = [] ∨ ∃ a, evs = [.resAux a] ∧ a.send = send ∧ a.opaqueId = id

/-- What is told is no success of a send. -/
def Fails (evs : List Event) : Prop := ∀ a, .resAux a ∈ evs → a.op ≠ .outboundDone

/-- A send that is to be started: it comes in, or has waited until now. -/
inductive Takes (serial : Nat) (g : Cargo) : Cargo → Send → List Event → Prop
  | handed {s : Send} {evs : List Event} (hs : s.no = serial) (hq : Unsent evs) : Takes serial g g s (.handed s :: evs)
  | waited {g₀ : Cargo} {s : Send} {evs : List Event} (hp : g.pend = some s) (hg : g₀ = { g with pend := none })
      (hq : Unsent evs) : Takes serial g g₀ s evs

inductive Ships (serial : Nat) (g : Cargo) : Cargo → List Event → Prop
  | quiet {evs : List Event} (hq : Unsent evs) : Ships serial g g evs
  | refused {g₀ : Cargo} {s : Send} {pre post : List Event} (ht : Takes serial g g₀ s pre) (hq : Unsent post) :
      Ships serial g g₀ (pre ++ (free s.buf ++ post))
  | threw {g₀ : Cargo} {s : Send} {pre told post : List Event} (ht : Takes serial g g₀ s pre) (hm : g₀.hash = [])
      (htold : Tells (some s.no) g₀.id told) (hf : Fails told) (hq : Unsent post) :
      Ships serial g g₀ (pre ++ (free s.buf ++ (told ++ post)))
  | began {g₀ : Cargo} {s : Send} {pre post : List Event} (h : Bytes) (ht : Takes serial g g₀ s pre) (hm : g₀.hash = [])
      (hq : Unsent post) :
      Ships serial g { g₀ with hash := h, out := true, no := s.no, id := s.opaqueId } (pre ++ (free s.buf ++ post))
  | kept {s : Send} (hs : s.no = serial) (hp : g.pend = none) : Ships serial g { g with pend := some s } [.handed s]
  | concluded {told : List Event} (hm : g.hash ≠ []) (htold : Tells (if g.out then some g.no else none) g.id told)
      (hf : g.out = false → Fails told) :
      Ships serial g { g with hash := [], out := false, id := 0 } told
  | marked {evs : List Event} (h : Bytes) (hm : g.hash = []) (hq : Unsent evs) :
      Ships serial g { g with hash := h, out := false, id := 0 } evs
  | freed {g' : Cargo} {pre : List Event} (attached : Bool) (hp : g'.pend = none) (hm : g'.hash = []) (hq : Unsent pre) :
      Ships serial g g' (pre ++ ((if g.hash ≠ [] ∧ g.out then [.lost g.no attached] else []) ++
        g.pend.elim [] fun s => .lost s.no attached :: free s.buf))
  | idle {g' : Cargo} {evs : List Event} (hp₀ : g.pend = none) (hm₀ : g.hash = []) (hp : g'.pend = none)
      (hm : g'.hash = []) (hq : Unsent evs) : Ships serial g g' evs

theorem tells_resSendAux (op : ResOp) (data : Bytes) (send : Option Nat) :
    Tells send c.resOpaque (resSendAux c op data send) := by
  unfold resSendAux
  split
  · exact .inl rfl
  · exact .inr ⟨_, rfl, rfl, rfl⟩

theorem fails_resSendAux {op : ResOp} (hop : op ≠ .outboundDone) (data : Bytes) (send : Option Nat) :
    Fails (resSendAux c op data send) := by
  intro a ha
  unfold resSendAux at ha
  split at ha
  · cases ha
  · obtain rfl := by simpa using ha
    exact hop

theorem fails_concludeResource (out : Conclusion) (ho : c.resOutbound = false) : Fails (concludeResource out c).2 := by
  simp only [concludeResource, ho, Bool.false_eq_true, if_false]
  split <;> exact fails_resSendAux (by decide) _ _

theorem tells_concludeResource (out : Conclusion) :
    Tells (if c.resOutbound then some c.resNo else none) c.resOpaque (concludeResource out c).2 := by
  unfold concludeResource
  dsimp only
  split
  · exact tells_resSendAux _ _ _
  · split <;> exact tells_resSendAux _ _ _

/-- A send that is started, with what is said after it. -/
theorem Takes.start {d : Conn} {s : Send} {pre post : List Event} {g : Cargo} (ht : Takes serial g (cargo d) s pre)
    (made : Made) (hq : Unsent post) : Ships serial g (cargo (startOutboundResource made s d).1)
      (pre ++ ((startOutboundResource made s d).2 ++ post)) := by
  have hbegan : ∀ o, Unsent (Rnsd.began d.link o true) := fun o => (about_began _ _ _).unsent (by simp)
  have hlater : ∀ {mid}, Unsent mid → Takes serial g (cargo d) s (pre ++ mid) := by
    intro mid hmid
    cases ht with
    | handed hs hpre => exact .handed hs (unsent_append.2 ⟨hpre, hmid⟩)
    | waited hp hg hpre => exact .waited hp hg (unsent_append.2 ⟨hpre, hmid⟩)
  unfold startOutboundResource
  split
  · exact .refused ht hq
  · next hm =>
    rw [not_ne_iff] at hm
    cases made with
    | threw o =>
      have hships := Ships.threw (hlater (hbegan (Made.threw o).registered)) hm
        (tells_resSendAux (c := d) .failed [] (some s.no)) (fails_resSendAux (by decide) _ _) hq
      simpa only [List.append_assoc] using hships
    | made h =>
      have hships := Ships.began h (hlater (hbegan (Made.made h).registered)) hm hq
      simp only [List.append_assoc] at hships ⊢
      exact hships

theorem sendResource_ships (made : Made) (s : Send) (hs : s.no = serial) : Ships serial (cargo c)
    (cargo ((Transition.act id (.handed s)).andThen (sendResource made s) c).1)
    ((Transition.act id (.handed s)).andThen (sendResource made s) c).2 := by
  have ht : Takes serial (cargo c) (cargo c) s [.handed s] := .handed hs unsent_nil
  rw [act_andThen]
  unfold sendResource
  dsimp only [id_eq]
  split
  · simpa using Ships.refused ht unsent_nil
  · next hfree =>
    simp only [not_or, Bool.not_eq_true, Option.isSome_eq_false_iff, Option.isNone_iff_eq_none, not_ne_iff] at hfree
    split
    · exact .kept hs hfree.1
    · simpa using ht.start made unsent_nil

/-- A Resource that waited goes out, with what is said before it and after. -/
theorem flushResource_ships {d : Conn} {pre post : List Event} (made : Made) (hd : cargo d = cargo c) (hpre : Unsent pre)
    (hpost : Unsent post) : Ships serial (cargo c) (cargo (flushResource made d).1)
      (pre ++ ((flushResource made d).2 ++ post)) := by
  unfold flushResource
  split
  · rw [hd]
    exact .quiet (unsent_append.2 ⟨hpre, hpost⟩)
  · next s hp =>
    have hflushed : Unsent (pre ++ [.flushed d.opening .resource]) := unsent_append.2 ⟨hpre, fun e he => by
      rw [List.mem_singleton.1 he]
      exact fun ht => absurd ht (by simp [topic])⟩
    have ht : Takes serial (cargo c) (cargo { d with pendRes := none }) s (pre ++ [.flushed d.opening .resource]) := by
      rw [← hd]
      exact .waited hp rfl hflushed
    have hstart := ht.start made hpost
    rwa [List.append_assoc] at hstart

theorem cargo_flushIdentify (how : Identifying) : cargo (flushIdentify now how c).1 = cargo c := by
  rw [flushIdentify_fst]
  rfl

theorem cargo_flushPacket (throws : Bool) : cargo (flushPacket throws c).1 = cargo c := by
  rw [flushPacket_fst]
  rfl

theorem cargo_linkStartRequest (a : Asking) (req : Request) : cargo (linkStartRequest now a req c).1 = cargo c := by
  rw [linkStartRequest_fst]
  rfl

theorem cargo_flushRequest (a : Asking) : cargo (flushRequest now a c).1 = cargo c := by
  rw [flushRequest_fst]
  rfl

theorem cargo_chanIdentify (how : Identifying) : cargo (chanIdentify how c).1 = cargo c := by
  cases how <;> rfl

theorem cargo_linkConsumerSend (mdu : Nat) (throws : Bool) (bytes : Bytes) :
    cargo (linkConsumerSend now mdu throws bytes c).1 = cargo c := by
  unfold linkConsumerSend
  split <;> split <;> rfl

theorem cargo_linkIdentify (how : Identifying) (key : String) : cargo (linkIdentify now how key c).1 = cargo c := by
  unfold linkIdentify
  split
  · split <;> rfl
  · cases how <;> rfl

theorem cargo_linkRequest (a : Asking) (req : Request) : cargo (linkRequest now a req c).1 = cargo c := by
  unfold linkRequest
  split
  · split <;> rfl
  · exact cargo_linkStartRequest a req

theorem cargo_timers (st : IdentifyStatus) :
    cargo ((linkIdentifyTick now st).andThen (requestTick now) c).1 = cargo c := by
  obtain ⟨_, _, _, he, -⟩ := timers_fst (c := c) now st
  rw [he]
  rfl

theorem Dialled.cargo (h : Dialled now l c r) : cargo r.1 = cargo c := by
  cases h <;> rfl

theorem ChanDialled.cargo (h : ChanDialled l c r) : cargo r.1 = cargo c := by
  cases h <;> rfl

theorem Retried.cargo (h : Retried now l c r) : cargo r.1 = cargo c := by
  cases h with
  | dialled _ h => exact h.cargo.trans rfl
  | waits | failed => rfl

theorem Awaited.cargo (h : Awaited now l c r) : cargo r.1 = cargo c := by
  cases h with
  | dialled h => exact h.cargo
  | asks | failed | waits => rfl

theorem Opens.cargo (h : Opens now l c k r) : cargo r.1 = cargo c := by
  cases h with
  | waits => rfl
  | link h => exact h.cargo.trans rfl
  | channel h => exact h.cargo.trans rfl

theorem established_ships (k : Kind) (f : Flush) :
    Ships serial (cargo c) (cargo (established k now f c).1) (established k now f c).2 := by
  have hup : cargo (activate now c).1 = cargo c := rfl
  cases k with
  | channel =>
    simp only [established, chanEstablished_apply]
    have hid := (about_chanIdentify (c := (activate now c).1) f.identify).unsent (by simp)
    have hships : Ships serial _ _ _ :=
      flushResource_ships f.made ((cargo_chanIdentify f.identify).trans hup) hid unsent_nil
    rwa [List.append_nil] at hships
  | link =>
    simp only [established, linkEstablished_apply]
    rw [cargo_flushRequest]
    have hid := (about_flushIdentify (c := (activate now c).1) now f.identify).unsent (by simp)
    have hpk := about_flushPacket (c := (flushIdentify now f.identify (activate now c).1).1) f.packetThrows
    have hpk := hpk.unsent (by simp)
    obtain ⟨d, hd⟩ : ∃ d : Conn, d =
        (flushPacket f.packetThrows (flushIdentify now f.identify (activate now c).1).1).1 := ⟨_, rfl⟩
    have hsame : cargo d = cargo c := by
      rw [hd]
      exact (cargo_flushPacket _).trans ((cargo_flushIdentify _).trans hup)
    have hrq := (about_flushRequest (c := (flushResource f.made d).1) now f.asking).unsent (by simp)
    have hships : Ships serial _ _ _ := flushResource_ships f.made hsame (unsent_append.2 ⟨hid, hpk⟩) hrq
    rwa [List.append_assoc, hd] at hships

theorem Move.ships (h : Move q now serial k i c r) : Ships serial (cargo c) (cargo r.1) r.2 := by
  have hquiet : ∀ {c' : Conn} {evs}, cargo c' = cargo c → Unsent evs → Ships serial (cargo c) (cargo c') evs := by
    intro c' evs hc hq
    rw [hc]
    exact .quiet hq
  cases h with
  | touched | letGo | proofs | unreached | overdue | dead | chanTimedOut => exact hquiet rfl unsent_nil
  | consumerSend i c mdu throws bytes =>
    exact hquiet (cargo_linkConsumerSend mdu throws bytes) ((about_linkConsumerSend now mdu throws bytes).unsent (by simp))
  | identify i c how key =>
    exact hquiet (cargo_linkIdentify how key) ((about_linkIdentify now how key).unsent (by simp))
  | request i c a req =>
    rw [act_andThen]
    have habout : About [.request] (.asked req :: (linkRequest now a req c).2) :=
      about_cons.2 ⟨by simp [topic], about_linkRequest now a req⟩
    exact hquiet (cargo_linkRequest a req) (habout.unsent (by simp))
  | sendResource k i c made s hs => exact sendResource_ships made s hs
  | established k i c f => exact established_ships k f
  | response i c data memory => exact hquiet rfl ((about_reqResponse now data memory).unsent (by simp))
  | reqFailed => exact hquiet rfl ((about_reqSendAux _ _).unsent (by simp))
  | timers i c st => exact hquiet (cargo_timers st) ((about_timers now st).unsent (by simp))
  | awaits i c r hs h => exact hquiet h.cargo ((about_awaited h).unsent (by simp))
  | timedOut i c r hs hl hd h => exact hquiet h.cargo ((about_retried h).unsent (by simp))
  | freed i c o s =>
    have hlog : (linkFreeSlot { c with link := o, state := s }).2 =
        (if c.reqMrid ≠ [] then reqSendAux { c with link := o, state := s } .failed [] else []) ++
          c.pendReq.elim [] reqFailDirect ++ disconnect c.handle ++ lose c := rfl
    rw [hlog]
    have hdone := (about_disconnect c.handle).unsent (by simp)
    refine .freed c.handle.isSome rfl rfl (unsent_append.2 ⟨unsent_append.2 ⟨?_, ?_⟩, hdone⟩)
    · split
      · exact (about_reqSendAux _ _).unsent (by simp)
      · exact unsent_nil
    · cases c.pendReq with
      | none => exact unsent_nil
      | some req => exact (about_reqFailDirect req).unsent (by simp)
  | chanAwaits i c r hs h =>
    rw [snd_chanDialled h]
    exact hquiet h.cargo unsent_nil
  | chanFreed => exact .freed c.handle.isSome rfl rfl ((about_disconnect _).unsent (by simp))

theorem Write.ships (hw : Write Q n k i c r) : Ships n.serial (cargo c) (cargo r.1) r.2 := by
  cases hw with
  | move hu h => exact h.ships
  | opened h req o hu hb hq hr =>
    have hfill : (fill k n.clock h o req n.serial c).1.pendRes = none ∧
        (fill k n.clock h o req n.serial c).1.resHash = [] := by
      cases k with
      | link => exact ⟨rfl, rfl⟩
      | channel => exact ⟨hb.pendRes, hb.resHash⟩
    refine .idle hb.pendRes hb.resHash ?_ ?_ ((about_opens hr).unsent (by simp))
    · rw [hr.cargo]
      exact hfill.1
    · rw [hr.cargo]
      exact hfill.2
  | seated w owner hu hb =>
    have hlog : (seat k n.clock w owner ⟨k, n.serial⟩ n.serial c).2 = [] := by cases k <;> rfl
    rw [hlog]
    refine .idle hb.pendRes hb.resHash ?_ ?_ unsent_nil
    · cases k with
      | link => rfl
      | channel => exact hb.pendRes
    · cases k with
      | link => rfl
      | channel => exact hb.resHash
  | marked g adv memory hu hl ha hg =>
    have hfree : c.resHash = [] := by
      unfold admits at hg
      grind
    exact .marked adv.h hfree ((about_began _ _ _).unsent (by simp))
  | concluded out hu hm => exact .concluded hm (tells_concludeResource out) (fails_concludeResource out)
  | ended hu hk hl =>
    have hf : Fades n.clock c (linkEnds k n.clock c).1 := fades_linkEnds hl
    have hsame : cargo (linkEnds k n.clock c).1 = cargo c := by
      cases k with
      | link =>
        simp only [linkEnds, linkClosed, quiet_apply]
        split <;> rfl
      | channel => rfl
    have hlog : (linkEnds k n.clock c).2 = [] := by cases k <;> rfl
    rw [hlog, hsame]
    exact .quiet unsent_nil

-- ---------------------------------------------------------------------------
-- Buffers
-- ---------------------------------------------------------------------------

def buffers (buf : Option Nat) : Multiset Nat := buf.elim 0 ({·})

def waitingBuf (g : Cargo) : Multiset Nat := g.pend.elim 0 fun s => buffers s.buf

def handedBuf : Event → Multiset Nat
  | .handed s => buffers s.buf
  | _ => 0

def freedBuf : Event → Multiset Nat
  | .freed buf => {buf}
  | _ => 0

theorem Unsent.zero {f : Event → Multiset Nat} (h : Unsent log) (hf : ∀ e, topic e ≠ .send → f e = 0) : total f log = 0 :=
  total_eq_zero fun e he => hf e (h e he)

theorem handedBuf_eq_zero (e : Event) (h : topic e ≠ .send) : handedBuf e = 0 := by
  cases e with
  | handed => exact absurd rfl h
  | _ => rfl

theorem freedBuf_eq_zero (e : Event) (h : topic e ≠ .send) : freedBuf e = 0 := by
  cases e with
  | freed => exact absurd rfl h
  | _ => rfl

@[simp] theorem total_freedBuf_free (buf : Option Nat) : total freedBuf (free buf) = buffers buf := by
  cases buf <;> rfl

@[simp] theorem total_handedBuf_free (buf : Option Nat) : total handedBuf (free buf) = 0 := by
  cases buf <;> rfl

theorem Tells.buffers {send : Option Nat} {id : Nat} (h : Tells send id log) :
    total handedBuf log = 0 ∧ total freedBuf log = 0 := by
  rcases h with rfl | ⟨a, rfl, -⟩ <;> exact ⟨rfl, rfl⟩

theorem Takes.buffers {g g₀ : Cargo} {s : Send} (h : Takes serial g g₀ s log) :
    waitingBuf g₀ + Node.buffers s.buf + total freedBuf log = waitingBuf g + total handedBuf log := by
  cases h with
  | handed hs hq => simp [hq.zero handedBuf_eq_zero, hq.zero freedBuf_eq_zero, handedBuf, freedBuf]
  | waited hp hg hq =>
    rw [hg, hq.zero handedBuf_eq_zero, hq.zero freedBuf_eq_zero]
    simp [waitingBuf, hp]

theorem Ships.buffers {g g' : Cargo} (h : Ships serial g g' log) : Balances Eq waitingBuf handedBuf freedBuf g g' log := by
  cases h with
  | quiet hq => rw [Balances, hq.zero handedBuf_eq_zero, hq.zero freedBuf_eq_zero]
  | refused ht hq =>
    have hgot := ht.buffers
    simp only [Balances, total_append, total_freedBuf_free, total_handedBuf_free, hq.zero handedBuf_eq_zero,
      hq.zero freedBuf_eq_zero, add_zero]
    rw [← hgot]
    ac_rfl
  | threw ht hm htold _ hq =>
    have hgot := ht.buffers
    simp only [Balances, total_append, total_freedBuf_free, total_handedBuf_free, hq.zero handedBuf_eq_zero,
      hq.zero freedBuf_eq_zero, htold.buffers, add_zero]
    rw [← hgot]
    ac_rfl
  | began h ht hm hq =>
    have hgot := ht.buffers
    simp only [Balances, total_append, total_freedBuf_free, total_handedBuf_free, hq.zero handedBuf_eq_zero,
      hq.zero freedBuf_eq_zero, add_zero]
    rw [← hgot, waitingBuf, waitingBuf]
    ac_rfl
  | kept hs hp => simp [Balances, waitingBuf, hp, handedBuf, freedBuf]
  | concluded hm htold => rw [Balances, htold.buffers.1, htold.buffers.2, waitingBuf, waitingBuf]
  | marked h hm hq => rw [Balances, hq.zero handedBuf_eq_zero, hq.zero freedBuf_eq_zero, waitingBuf, waitingBuf]
  | freed attached hp hm hq =>
    have hlost : ∀ (b : Prop) [Decidable b], total handedBuf (if b then [Event.lost g.no attached] else []) = 0 ∧
        total freedBuf (if b then [Event.lost g.no attached] else []) = 0 := by
      intro b _
      split <;> exact ⟨rfl, rfl⟩
    simp only [Balances, total_append, (hlost _).1, (hlost _).2, hq.zero handedBuf_eq_zero, hq.zero freedBuf_eq_zero,
      waitingBuf, hp, zero_add]
    cases g.pend with
    | none => rfl
    | some s => simp [handedBuf, freedBuf]
  | idle hp₀ hm₀ hp hm hq =>
    rw [Balances, hq.zero handedBuf_eq_zero, hq.zero freedBuf_eq_zero, waitingBuf, waitingBuf, hp, hp₀]

theorem bufferBooks : Books Eq (fun _ c => waitingBuf (cargo c)) handedBuf freedBuf where
  compares := compares_eq
  write hw := hw.ships.buffers
  asked req := by
    have hq : Unsent (.asked req :: reqFailDirect req) := by
      have habout : About [.request] (.asked req :: reqFailDirect req) :=
        about_cons.2 ⟨by simp [topic], about_reqFailDirect req⟩
      exact habout.unsent (by simp)
    rw [hq.zero handedBuf_eq_zero, hq.zero freedBuf_eq_zero]
  refused s := by simp [handedBuf, freedBuf]

-- ---------------------------------------------------------------------------
-- Sends
-- ---------------------------------------------------------------------------

/-- The sends that a slot has. -/
def loaded (g : Cargo) : Multiset Nat :=
  (g.pend.elim 0 fun s => {s.no}) + if g.hash ≠ [] ∧ g.out then {g.no} else 0

def handedNo : Event → Multiset Nat
  | .handed s => {s.no}
  | _ => 0

/-- The send that an event settles. -/
def settledNo : Event → Multiset Nat
  | .resAux a => a.send.elim 0 ({·})
  | .lost no _ => {no}
  | _ => 0

theorem handedNo_eq_zero (e : Event) (h : topic e ≠ .send) : handedNo e = 0 := by
  cases e with
  | handed => exact absurd rfl h
  | _ => rfl

theorem settledNo_eq_zero (e : Event) (h : topic e ≠ .send) : settledNo e = 0 := by
  cases e with
  | resAux | lost => exact absurd rfl h
  | _ => rfl

@[simp] theorem total_handedNo_free (buf : Option Nat) : total handedNo (free buf) = 0 := by
  cases buf <;> rfl

@[simp] theorem total_settledNo_free (buf : Option Nat) : total settledNo (free buf) = 0 := by
  cases buf <;> rfl

theorem Tells.handedNo {send : Option Nat} {id : Nat} (h : Tells send id log) : total handedNo log = 0 := by
  rcases h with rfl | ⟨a, rfl, -⟩ <;> rfl

/-- At most the send that it is about. -/
theorem Tells.settledNo {send : Option Nat} {id : Nat} (h : Tells send id log) :
    total settledNo log ≤ send.elim 0 ({·}) := by
  rcases h with rfl | ⟨a, rfl, rfl, -⟩
  · exact zero_le
  · simp [Node.settledNo]

theorem Takes.loaded {g g₀ : Cargo} {s : Send} (h : Takes serial g g₀ s log) :
    loaded g₀ + {s.no} + total settledNo log = loaded g + total handedNo log := by
  cases h with
  | handed hs hq => simp [hq.zero handedNo_eq_zero, hq.zero settledNo_eq_zero, handedNo, settledNo]
  | waited hp hg hq =>
    rw [hg, hq.zero handedNo_eq_zero, hq.zero settledNo_eq_zero]
    simp [Node.loaded, hp, add_comm]

theorem Ships.loaded {g g' : Cargo} (h : Ships serial g g' log) :
    Balances (· ≤ ·) loaded handedNo settledNo g g' log := by
  cases h with
  | quiet hq => rw [Balances, hq.zero handedNo_eq_zero, hq.zero settledNo_eq_zero]
  | refused ht hq =>
    have hgot := ht.loaded
    simp only [Balances, total_append, total_settledNo_free, total_handedNo_free, hq.zero handedNo_eq_zero,
      hq.zero settledNo_eq_zero, add_zero]
    rw [← hgot, add_right_comm]
    exact Multiset.le_add_right _ _
  | threw ht hm htold _ hq =>
    have hgot := ht.loaded
    simp only [Balances, total_append, total_settledNo_free, total_handedNo_free, hq.zero handedNo_eq_zero,
      hq.zero settledNo_eq_zero, htold.handedNo, add_zero, zero_add]
    rw [← hgot, add_right_comm, ← add_assoc]
    exact add_le_add_right htold.settledNo _
  | @began g₀ s pre post h ht hm hq =>
    have hgot := ht.loaded
    have hput : loaded { g₀ with hash := h, out := true, no := s.no, id := s.opaqueId } ≤ loaded g₀ + {s.no} := by
      by_cases hh : h = [] <;> simp [Node.loaded, hm, hh]
    simp only [Balances, total_append, total_settledNo_free, total_handedNo_free, hq.zero handedNo_eq_zero,
      hq.zero settledNo_eq_zero, add_zero]
    rw [← hgot]
    exact add_le_add_left hput _
  | kept hs hp =>
    refine le_of_eq ?_
    simp [Node.loaded, hp, handedNo, settledNo, add_comm]
  | concluded hm htold =>
    have htold' : total settledNo log ≤ if g.hash ≠ [] ∧ g.out then {g.no} else 0 := by
      refine htold.settledNo.trans (le_of_eq ?_)
      by_cases hout : g.out <;> simp [hm, hout]
    rw [Balances, htold.handedNo, add_zero]
    simp only [Node.loaded, ne_eq, not_true_eq_false, false_and, if_false, add_zero]
    exact add_le_add_right htold' _
  | marked h hm hq =>
    rw [Balances, hq.zero handedNo_eq_zero, hq.zero settledNo_eq_zero]
    simp [Node.loaded, hm]
  | freed attached hp hm hq =>
    have hlost : total settledNo (if g.hash ≠ [] ∧ g.out then [Event.lost g.no attached] else []) =
          (if g.hash ≠ [] ∧ g.out then {g.no} else 0) ∧
        total handedNo (if g.hash ≠ [] ∧ g.out then [Event.lost g.no attached] else []) = 0 := by
      split <;> exact ⟨rfl, rfl⟩
    refine le_of_eq ?_
    simp only [total_append, hlost.1, hlost.2, hq.zero handedNo_eq_zero, hq.zero settledNo_eq_zero, Node.loaded, hp, hm]
    cases g.pend with
    | none => simp
    | some s => simp [handedNo, settledNo, add_comm]
  | idle hp₀ hm₀ hp hm hq =>
    rw [Balances, hq.zero handedNo_eq_zero, hq.zero settledNo_eq_zero]
    simp [Node.loaded, hp, hp₀, hm, hm₀]

theorem sendBooks : Books (· ≤ ·) (fun _ c => loaded (cargo c)) handedNo settledNo where
  compares := compares_le
  write hw := hw.ships.loaded
  asked req := by
    have hq : Unsent (.asked req :: reqFailDirect req) := by
      have habout : About [.request] (.asked req :: reqFailDirect req) :=
        about_cons.2 ⟨by simp [topic], about_reqFailDirect req⟩
      exact habout.unsent (by simp)
    rw [hq.zero handedNo_eq_zero, hq.zero settledNo_eq_zero]
  refused s := by simp [settledNo]

/-- A write takes in one send at most, under the next number. -/
theorem Ships.handedNo {g g' : Cargo} (h : Ships serial g g' log) :
    total handedNo log = 0 ∨ total handedNo log = {serial} := by
  have htakes : ∀ {g g₀ s evs}, Takes serial g g₀ s evs →
      total Node.handedNo evs = 0 ∨ total Node.handedNo evs = {serial} := by
    intro g g₀ s evs ht
    cases ht with
    | handed hs hq => exact .inr (by simp [Node.handedNo, hs, hq.zero handedNo_eq_zero])
    | waited hp hg hq => exact .inl (hq.zero handedNo_eq_zero)
  cases h with
  | quiet hq | marked _ _ hq | idle _ _ _ _ hq => exact .inl (hq.zero handedNo_eq_zero)
  | refused ht hq | began _ ht _ hq => simpa [hq.zero handedNo_eq_zero] using htakes ht
  | threw ht hm htold _ hq => simpa [hq.zero handedNo_eq_zero, htold.handedNo] using htakes ht
  | kept hs hp => exact .inr (by simp [Node.handedNo, hs])
  | concluded hm htold => exact .inl htold.handedNo
  | freed attached hp hm hq =>
    refine .inl ?_
    have hlost : total Node.handedNo (if g.hash ≠ [] ∧ g.out then [Event.lost g.no attached] else []) = 0 := by
      split <;> rfl
    simp only [total_append, hlost, hq.zero handedNo_eq_zero]
    cases g.pend with
    | none => rfl
    | some s => simp [Node.handedNo]

-- ---------------------------------------------------------------------------
-- Opaque ids
-- ---------------------------------------------------------------------------

/-- What waits or runs was handed in, and what is done is told under its opaque id. -/
structure Stowed (log : List Event) (g : Cargo) : Prop where
  waits : ∀ s, g.pend = some s → .handed s ∈ log
  runs : g.hash ≠ [] → g.out → ∃ s, .handed s ∈ log ∧ s.no = g.no ∧ s.opaqueId = g.id
  done : ∀ a, .resAux a ∈ log → a.op = .outboundDone → ∃ s, .handed s ∈ log ∧ a.send = some s.no ∧ a.opaqueId = s.opaqueId

theorem Fails.append {more : List Event} (h : Fails log) (h' : Fails more) : Fails (log ++ more) := by
  intro a ha
  rcases List.mem_append.1 ha with ha | ha
  · exact h a ha
  · exact h' a ha

theorem Unsent.fails (h : Unsent log) : Fails log := fun _ ha => absurd rfl (h _ ha)

theorem fails_free (buf : Option Nat) : Fails (free buf) := by
  cases buf <;> simp [Fails, free]

theorem Takes.fails {g g₀ : Cargo} {s : Send} (h : Takes serial g g₀ s log) : Fails log := by
  cases h with
  | handed hs hq =>
    intro a ha
    rcases List.mem_cons.1 ha with he | ha
    · cases he
    · exact hq.fails a ha
  | waited hp hg hq => exact hq.fails

/-- Failures leave what was told of successes. -/
theorem Stowed.fails {g g' : Cargo} {more : List Event} (h : Stowed log g) (hf : Fails more)
    (hw : ∀ s, g'.pend = some s → .handed s ∈ log ++ more)
    (hr : g'.hash ≠ [] → g'.out → ∃ s, .handed s ∈ log ++ more ∧ s.no = g'.no ∧ s.opaqueId = g'.id) :
    Stowed (log ++ more) g' where
  waits := hw
  runs := hr
  done a ha hop := by
    rcases List.mem_append.1 ha with ha | ha
    · obtain ⟨s, hs, hrest⟩ := h.done a ha hop
      exact ⟨s, List.mem_append_left _ hs, hrest⟩
    · exact absurd hop (hf a ha)

theorem Stowed.waits_append {g : Cargo} {more : List Event} (h : Stowed log g) :
    ∀ s, g.pend = some s → .handed s ∈ log ++ more := fun s hs => List.mem_append_left _ (h.waits s hs)

theorem Stowed.runs_append {g : Cargo} {more : List Event} (h : Stowed log g) (hm : g.hash ≠ []) (ho : g.out) :
    ∃ s, .handed s ∈ log ++ more ∧ s.no = g.no ∧ s.opaqueId = g.id := by
  obtain ⟨s, hs, hrest⟩ := h.runs hm ho
  exact ⟨s, List.mem_append_left _ hs, hrest⟩

/-- What is to be started was handed in, and the rest is as it was. -/
theorem Takes.stowed {g g₀ : Cargo} {s : Send} {pre more : List Event} (h : Takes serial g g₀ s pre) (hs : Stowed log g) :
    .handed s ∈ log ++ (pre ++ more) ∧ (∀ s', g₀.pend = some s' → .handed s' ∈ log ++ (pre ++ more)) ∧
      (g₀.hash ≠ [] → g₀.out → ∃ s', .handed s' ∈ log ++ (pre ++ more) ∧ s'.no = g₀.no ∧ s'.opaqueId = g₀.id) := by
  cases h with
  | handed _ _ => exact ⟨by simp, hs.waits_append, hs.runs_append⟩
  | waited hp hg hq =>
    subst hg
    exact ⟨List.mem_append_left _ (hs.waits s hp), by simp, hs.runs_append⟩

theorem Ships.stowed {g g' : Cargo} {evs : List Event} (h : Ships serial g g' evs) (hs : Stowed log g) :
    Stowed (log ++ evs) g' := by
  cases h with
  | quiet hq => exact hs.fails hq.fails hs.waits_append hs.runs_append
  | refused ht hq =>
    obtain ⟨-, hw, hr⟩ := ht.stowed hs
    exact hs.fails (ht.fails.append ((fails_free _).append hq.fails)) hw hr
  | threw ht hm htold hf hq =>
    obtain ⟨-, hw, hr⟩ := ht.stowed hs
    exact hs.fails (ht.fails.append ((fails_free _).append (hf.append hq.fails))) hw hr
  | began h ht hm hq =>
    obtain ⟨hhanded, hw, -⟩ := ht.stowed hs
    exact hs.fails (ht.fails.append ((fails_free _).append hq.fails)) hw fun _ _ => ⟨_, hhanded, rfl, rfl⟩
  | @kept s hno hp =>
    refine hs.fails (fun a ha => by simp at ha) (fun s' hs' => ?_) hs.runs_append
    obtain rfl : s = s' := Option.some.inj hs'
    simp
  | concluded hm htold hf =>
    refine ⟨hs.waits_append, fun h => absurd rfl h, fun a ha hop => ?_⟩
    rcases List.mem_append.1 ha with ha | ha
    · obtain ⟨s, hs, hrest⟩ := hs.done a ha hop
      exact ⟨s, List.mem_append_left _ hs, hrest⟩
    · cases hout : g.out with
      | false => exact absurd hop (hf hout a ha)
      | true =>
        obtain ⟨s, hin, hno, hid⟩ := hs.runs hm hout
        rcases htold with rfl | ⟨a', rfl, hsend, hid'⟩
        · cases ha
        · obtain rfl := by simpa using ha
          refine ⟨s, List.mem_append_left _ hin, ?_, hid'.trans hid.symm⟩
          rw [hsend, hout, if_pos rfl, hno]
  | marked h hm hq => exact hs.fails hq.fails hs.waits_append fun _ ho => Bool.noConfusion ho
  | freed attached hp hm hq =>
    refine hs.fails (hq.fails.append ?_) (fun s hs => by rw [hp] at hs; cases hs) fun h => absurd hm h
    intro a ha
    rcases List.mem_append.1 ha with ha | ha
    · split at ha
      · simp at ha
      · cases ha
    · cases hpend : g.pend with
      | none =>
        rw [hpend] at ha
        cases ha
      | some s =>
        rw [hpend] at ha
        rcases List.mem_cons.1 ha with he | ha
        · cases he
        · exact fails_free _ a ha
  | idle hp₀ hm₀ hp hm hq =>
    exact hs.fails hq.fails (fun s hs => by rw [hp] at hs; cases hs) fun h => absurd hm h

structure AllStowed (n : Node) : Prop where
  slots : ∀ k i c, n.slot k i = some c → Stowed n.log (cargo c)
  done : ∀ a, .resAux a ∈ n.log → a.op = .outboundDone →
    ∃ s, .handed s ∈ n.log ∧ a.send = some s.no ∧ a.opaqueId = s.opaqueId

theorem AllStowed.fails (h : n.AllStowed) (hlog : m.log = n.log ++ evs) (hslot : m.slot = n.slot) (hf : Fails evs) :
    m.AllStowed where
  slots k i c hs := by
    rw [hslot] at hs
    rw [hlog]
    exact (h.slots k i c hs).fails hf (h.slots k i c hs).waits_append (h.slots k i c hs).runs_append
  done a ha hop := by
    rw [hlog] at ha ⊢
    rcases List.mem_append.1 ha with ha | ha
    · obtain ⟨s, hs, hrest⟩ := h.done a ha hop
      exact ⟨s, List.mem_append_left _ hs, hrest⟩
    · exact absurd hop (hf a ha)

theorem AllStowed.effect (h : n.AllStowed) (he : Effect Q n m) : m.AllStowed := by
  cases he with
  | @wrote k i c r hs hw hslot hlog =>
    have hwrote := hw.ships.stowed (h.slots _ _ _ hs)
    rw [← hlog] at hwrote
    refine ⟨fun k' j c' hs' => ?_, hwrote.done⟩
    rw [hslot] at hs'
    rcases slot_put_cases hs hs' with ⟨rfl, rfl, rfl⟩ | ⟨-, hold⟩
    · exact hwrote
    · have hother := h.slots _ _ _ hold
      rw [hlog] at hwrote ⊢
      exact ⟨hother.waits_append, hother.runs_append, hwrote.done⟩
  | asked req hr hm =>
    subst hm
    have habout : About [.request] (.asked req :: reqFailDirect req) :=
      about_cons.2 ⟨by simp [topic], about_reqFailDirect req⟩
    exact h.fails rfl rfl (habout.unsent (by simp)).fails
  | refused s hs hq hm =>
    subst hm
    refine h.fails rfl rfl fun a ha => ?_
    rcases List.mem_cons.1 ha with he | ha
    · cases he
    · exact fails_free _ a ha
  | still hslot hlog => exact h.fails (hlog.trans (List.append_nil _).symm) hslot fun _ ha => absurd ha List.not_mem_nil

-- ---------------------------------------------------------------------------
-- Every state
-- ---------------------------------------------------------------------------

def handedTimes (buf : Nat) (log : List Event) : Nat :=
  log.countP fun e => match e with | .handed s => s.buf = some buf | _ => false

def freedTimes (buf : Nat) (log : List Event) : Nat :=
  log.countP fun e => match e with | .freed b => b = buf | _ => false

/-- The slots in which a buffer waits. -/
def waitingTimes (buf : Nat) (n : Node) : Nat :=
  (n.table .link).countP (fun c => c.pendRes.any (·.buf = some buf)) +
    (n.table .channel).countP fun c => c.pendRes.any (·.buf = some buf)

/-- The auxes that end a send, and its loss with its slot. -/
def settlements (no : Nat) (log : List Event) : Nat :=
  log.countP fun e => match e with | .resAux a => a.send = some no | .lost no' _ => no' = no | _ => false

theorem handedTimes_eq (buf : Nat) : (total handedBuf log).count buf = handedTimes buf log := by
  apply count_total
  intro e
  cases e with
  | handed s => cases hb : s.buf <;> simp [handedBuf, buffers, hb, Multiset.count_singleton, eq_comm]
  | _ => simp [handedBuf]

theorem freedTimes_eq (buf : Nat) : (total freedBuf log).count buf = freedTimes buf log := by
  apply count_total
  intro e
  cases e with
  | freed b => simp [freedBuf, Multiset.count_singleton, eq_comm]
  | _ => simp [freedBuf]

theorem settlements_eq (no : Nat) : (total settledNo log).count no = settlements no log := by
  apply count_total
  intro e
  cases e with
  | resAux a => cases hb : a.send <;> simp [settledNo, hb, Multiset.count_singleton, eq_comm]
  | lost no' => simp [settledNo, Multiset.count_singleton, eq_comm]
  | _ => simp [settledNo]

theorem waitingTimes_eq (buf : Nat) :
    (holds (fun _ c => waitingBuf (cargo c)) n).count buf = waitingTimes buf n := by
  have hslots : ∀ slots : List Conn, (total (fun c => waitingBuf (cargo c)) slots).count buf =
      slots.countP fun c => c.pendRes.any (·.buf = some buf) := by
    intro slots
    apply count_total
    intro c
    cases hp : c.pendRes with
    | none => simp [waitingBuf, cargo, hp]
    | some s => cases hb : s.buf <;> simp [waitingBuf, cargo, hp, buffers, hb, Multiset.count_singleton, eq_comm]
  rw [holds, Multiset.count_add, hslots, hslots, waitingTimes]

structure Shipments (n : Node) : Prop where
  /-- A buffer is freed as often as it was handed in, less the slot in which it waits. -/
  buffers : ∀ buf, freedTimes buf n.log + waitingTimes buf n = handedTimes buf n.log
  /-- No send is settled twice, and none that waits or runs is settled. -/
  once : ∀ s, .handed s ∈ n.log → settlements s.no n.log ≤ 1
  unsettled : ∀ k i c no, n.slot k i = some c → no ∈ loaded (cargo c) → settlements no n.log = 0
  place : ∀ k i c k' j c' no, n.slot k i = some c → n.slot k' j = some c' → no ∈ loaded (cargo c) →
    no ∈ loaded (cargo c') → k = k' ∧ i = j
  /-- Who is told of a send has handed it in, and of a success under its opaque id. -/
  told : ∀ a no, .resAux a ∈ n.log → a.send = some no → ∃ s, .handed s ∈ n.log ∧ s.no = no
  done : ∀ a, .resAux a ∈ n.log → a.op = .outboundDone →
    ∃ s, .handed s ∈ n.log ∧ a.send = some s.no ∧ a.opaqueId = s.opaqueId

structure Shipped (n : Node) : Prop where
  inv : n.Inv
  buffers : Settled Eq (fun _ c => waitingBuf (cargo c)) handedBuf freedBuf n
  sends : Settled (· ≤ ·) (fun _ c => loaded (cargo c)) handedNo settledNo n
  counted : Counted handedNo id n
  stowed : n.AllStowed

theorem counted_sends (h : Counted handedNo id n) (he : Effect Q n m) : Counted handedNo id m := by
  cases he with
  | wrote hs hw hslot hlog hclock hserial =>
    have hlt : n.serial < m.serial := by rw [hserial]; exact Nat.lt_succ_self _
    exact h.grow hlog hlt.le (hw.ships.handedNo.imp id fun ht => ⟨n.serial, ht, rfl, hlt⟩)
  | asked req hr hm =>
    subst hm
    have habout : About [.request] (.asked req :: reqFailDirect req) :=
      about_cons.2 ⟨by simp [topic], about_reqFailDirect req⟩
    exact h.grow rfl (Nat.le_succ _) (.inl ((habout.unsent (by simp)).zero handedNo_eq_zero))
  | refused s hs hq hm =>
    subst hm
    exact h.grow rfl (Nat.le_succ _) (.inr ⟨n.serial, by simp [handedNo, hs], rfl, Nat.lt_succ_self _⟩)
  | still hslot hlog hclock hserial => exact h.grow (hlog.trans (List.append_nil _).symm) hserial.ge (.inl rfl)

theorem Shipped.step (h : n.Shipped) (op : Op) : (Rnsd.step n op).Shipped := by
  have hm := steps_step h.inv.wf op (permits_true n op)
  exact ⟨h.inv.steps hm, kept_of_effect bufferBooks.settled_effect h.buffers h.inv.wf hm,
    kept_of_effect sendBooks.settled_effect h.sends h.inv.wf hm, kept_of_effect counted_sends h.counted h.inv.wf hm,
    kept_of_effect AllStowed.effect h.stowed h.inv.wf hm⟩

theorem shipped_boot {t : ℚ} (ht : 0 < t) : (boot t).Shipped where
  inv := inv_boot ht
  buffers := Books.settled_boot compares_eq fun k => by simp [waitingBuf, cargo]
  sends := Books.settled_boot compares_le fun k => by simp [loaded, cargo]
  counted := ⟨fun t ht => by simp [boot] at ht, by simp [boot]⟩
  stowed := by
    refine ⟨fun k i c hs => ?_, fun a ha => by simp [boot] at ha⟩
    rw [slot_boot hs]
    exact ⟨fun _ hs => absurd hs (Option.some_ne_none _).symm, fun h => absurd rfl h, fun a ha => by simp [boot] at ha⟩

theorem Shipped.shipments (h : n.Shipped) : n.Shipments := by
  have honce : Once handedNo n.log := by
    have hnos := h.counted.once
    rwa [Multiset.map_id] at hnos
  have hout := honce.out h.sends
  have hheld : ∀ {k i c no}, n.slot k i = some c → no ∈ loaded (cargo c) →
      no ∈ holds (fun _ c => loaded (cargo c)) n := by
    intro k i c no hs hno
    have hmem : no ∈ total (fun c => loaded (cargo c)) (n.table k) := mem_total.2 ⟨c, List.mem_of_getElem? hs, hno⟩
    rw [holds, Multiset.mem_add]
    cases k with
    | link => exact .inl hmem
    | channel => exact .inr hmem
  constructor
  · intro buf
    have hcount := congrArg (Multiset.count buf) h.buffers
    rw [Multiset.count_add, waitingTimes_eq, freedTimes_eq, handedTimes_eq] at hcount
    rw [add_comm]
    exact hcount
  · intro s _
    rw [← settlements_eq]
    exact Multiset.nodup_iff_count_le_one.1 hout s.no
  · intro k i c no hs hno
    rw [← settlements_eq, Multiset.count_eq_zero]
    exact fun hgone => honce.gone h.sends hgone (hheld hs hno)
  · intro k i c k' j c' no hs hs' hno hno'
    have hnodup := honce.inside h.sends
    rw [holds, Multiset.nodup_add] at hnodup
    have hmem : ∀ {k i c}, n.slot k i = some c → no ∈ loaded (cargo c) →
        no ∈ total (fun c => loaded (cargo c)) (n.table k) := fun hs hno =>
      mem_total.2 ⟨_, List.mem_of_getElem? hs, hno⟩
    cases k with
    | link =>
      cases k' with
      | link => exact ⟨rfl, nodup_total hnodup.1 hs hs' hno hno'⟩
      | channel => exact absurd (hmem hs' hno') (Multiset.disjoint_left.1 hnodup.2.2 (hmem hs hno))
    | channel =>
      cases k' with
      | link => exact absurd (hmem hs hno) (Multiset.disjoint_left.1 hnodup.2.2 (hmem hs' hno'))
      | channel => exact ⟨rfl, nodup_total hnodup.2.1 hs hs' hno hno'⟩
  · intro a no ha hsend
    have hgone : no ∈ total settledNo n.log := mem_total.2 ⟨_, ha, by simp [settledNo, hsend]⟩
    have hcame := Multiset.mem_of_le h.sends (Multiset.mem_add.2 (.inr hgone))
    obtain ⟨e, he, hin⟩ := mem_total.1 hcame
    cases e with
    | handed s => exact ⟨s, he, (Multiset.mem_singleton.1 hin).symm⟩
    | _ => cases hin
  · exact h.stowed.done

/-- A Resource is handed in for a link that has no path yet, and another one for it. -/
def aShipment : List Op :=
  [.connect .link 5 { tag := ['a'], destHash := [], aspect := [], identityKey := "" } { task := some 1, env := pathless },
    .sendResource .link ['a'] (some 40) 9 1 (.threw none), .sendResource .link ['a'] (some 41) 9 2 (.threw none)]

end MicroReticulum.Rnsd.Node
