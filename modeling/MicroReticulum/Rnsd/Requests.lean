import MicroReticulum.Lib.Balance
import MicroReticulum.Rnsd.Attempts

/-!
# Requests and their answers

A request that names a port waits in a slot, runs on its link, or has been
answered, and never two of these. Its answer goes to the task and the port it
came from, under its number, and a response is one that the engine gave for the
id the request was issued under.
-/

namespace MicroReticulum.Rnsd.Node

open Lib Lib.Log Lib.Log.Transition Lib.Balance
open Relation (ReflTransGen)
open MicroReticulum.MsgPack (Text ResourceAdvertisement)

variable {Q : Node → Risk → Prop} {q : Risk → Prop} {n m : Node} {k : Kind} {i j : Nat} {c c' : Conn}
  {r : Conn × List Event} {l : LinkRef} {now : ℚ} {serial : Nat} {log : List Event}

-- ---------------------------------------------------------------------------
-- The books of both tables
-- ---------------------------------------------------------------------------

section

variable {M : Type*} [AddCommMonoid M] {held : Kind → Conn → M} {came went : Event → M}

def holds (held : Kind → Conn → M) (n : Node) : M :=
  total (held .link) (n.table .link) + total (held .channel) (n.table .channel)

variable {rel : M → M → Prop}

/-- Every write of a slot balances, and so does what is said of no slot. -/
structure Books (rel : M → M → Prop) (held : Kind → Conn → M) (came went : Event → M) : Prop where
  compares : Compares rel
  write : ∀ {Q : Node → Risk → Prop} {n : Node} {k i c r}, Write Q n k i c r → Balances rel (held k) came went c r.1 r.2
  asked : ∀ req : Request,
    rel (total went (.asked req :: reqFailDirect req)) (total came (.asked req :: reqFailDirect req))
  refused : ∀ s : Send, rel (total went (.handed s :: free s.buf)) (total came (.handed s :: free s.buf))

theorem table_eq_of_slot (h : m.slot = n.slot) : m.table k = n.table k := by
  apply List.ext_getElem?
  intro i
  exact congrFun (congrFun h k) i

theorem holds_congr (h : m.slot = n.slot) : holds held m = holds held n := by
  simp [holds, table_eq_of_slot h]

theorem holds_put (hr : Compares rel) (hs : n.slot k i = some c) (h : Balances rel (held k) came went c r.1 r.2) :
    Balances rel (holds held) came went n (n.put k i r) r.2 := by
  have hset : ∀ k', (n.put k i r).table k' = if k' = k then (n.table k).set i r.1 else n.table k' := by
    intro k'
    by_cases hk : k' = k
    · subst hk
      simp [put]
    · simp [put, hk]
  have htable := hr.set h hs
  unfold Balances holds at *
  cases k with
  | link =>
    simp only [hset, if_true, reduceCtorEq, if_false]
    rw [add_right_comm _ _ (total went _), add_right_comm _ _ (total came _)]
    exact hr.add htable _
  | channel =>
    simp only [hset, if_true, reduceCtorEq, if_false]
    convert hr.add htable (total (held .link) (n.table .link)) using 1 <;> ac_rfl

/-- What every effect keeps, small steps keep. -/
theorem kept_of_effect {P : Node → Prop} (hP : ∀ {n m : Node}, P n → Effect (fun _ _ => True) n m → P m) (h : P n)
    (hw : n.Wf) (hm : Steps (fun _ _ => True) n m) : P m := by
  have hall : m.Wf ∧ P m := by
    induction hm with
    | refl => exact ⟨hw, h⟩
    | tail _ hstep ih => exact ⟨ih.1.micro hstep, hP ih.2 (hstep.effect ih.1)⟩
  exact hall.2

theorem Books.effect (hb : Books rel held came went) (he : Effect Q n m) :
    ∃ evs, m.log = n.log ++ evs ∧ Balances rel (holds held) came went n m evs := by
  cases he with
  | @wrote k i c r hs h hslot hlog =>
    refine ⟨r.2, hlog, ?_⟩
    have hput := holds_put hb.compares hs (hb.write h)
    unfold Balances at *
    rwa [holds_congr hslot]
  | asked req _ hm =>
    subst hm
    refine ⟨_, rfl, ?_⟩
    rw [Balances, add_comm, add_comm (holds held n)]
    exact hb.compares.add (hb.asked req) _
  | refused s _ _ hm =>
    subst hm
    refine ⟨_, rfl, ?_⟩
    rw [Balances, add_comm, add_comm (holds held n)]
    exact hb.compares.add (hb.refused s) _
  | still hslot hlog =>
    refine ⟨[], by rw [hlog, List.append_nil], ?_⟩
    rw [Balances, holds_congr hslot]
    exact hb.compares.refl _

/-- What is held and what has gone out make up what came in. -/
def Settled (rel : M → M → Prop) (held : Kind → Conn → M) (came went : Event → M) (n : Node) : Prop :=
  rel (holds held n + total went n.log) (total came n.log)

theorem Books.settled_effect (hb : Books rel held came went) (h : Settled rel held came went n) (he : Effect Q n m) :
    Settled rel held came went m := by
  obtain ⟨evs, hlog, hstep⟩ := hb.effect he
  have hstep := hb.compares.add hstep (total went n.log)
  have h := hb.compares.add h (total came evs)
  rw [add_right_comm (holds held n)] at hstep
  have hall := hb.compares.trans hstep h
  rwa [add_assoc, add_comm (total went evs), ← total_append, ← total_append, ← hlog] at hall

theorem Books.settled_boot (hr : Compares rel) (hempty : ∀ k, held k {} = 0) {t : ℚ} :
    Settled rel held came went (boot t) := by
  have hzero : ∀ k, total (held k) ((boot t).table k) = 0 := by
    intro k
    apply total_eq_zero
    intro c hc
    obtain ⟨i, hi⟩ := List.mem_iff_getElem?.1 hc
    rw [slot_boot (t := t) hi, hempty]
  rw [Settled, holds, hzero, hzero, add_zero, zero_add]
  exact hr.refl 0

end

-- ---------------------------------------------------------------------------
-- Tickets
-- ---------------------------------------------------------------------------

/-- A request that is owed an answer, as its requester knows it. -/
structure Ticket where
  no : Nat
  task : Task
  port : Nat
  cid : Nat
  deriving DecidableEq

def ticket (req : Request) : Ticket := ⟨req.no, req.task, req.port, req.cid⟩

/-- A request without a port is owed nothing. -/
def tickets (req : Request) : Multiset Ticket := if req.port = 0 then 0 else {ticket req}

/-- The request that runs on the link of a slot. -/
structure Flight where
  mrid : Bytes
  port : Nat
  task : Option Task
  no : Nat
  cid : Nat
  deadline : ℚ

def flight (c : Conn) : Flight := ⟨c.reqMrid, c.reqPort, c.reqTask, c.reqNo, c.reqCid, c.reqDeadline⟩

def Flight.tickets (f : Flight) : Multiset Ticket :=
  if f.mrid = [] ∨ f.port = 0 then 0 else f.task.elim 0 fun task => {⟨f.no, task, f.port, f.cid⟩}

/-- What a slot of the link table owes. -/
def owing (c : Conn) : Multiset Ticket := c.pendReq.elim 0 tickets + (flight c).tickets

def owes (k : Kind) (c : Conn) : Multiset Ticket := if k = .link then owing c else 0

def askedFor : Event → Multiset Ticket
  | .asked req => tickets req
  | _ => 0

def answered : Event → Multiset Ticket
  | .reqAux a => {⟨a.no, a.task, a.port, a.cid⟩}
  | _ => 0

theorem flying_eq_zero (h : c.reqMrid = []) : (flight c).tickets = 0 := by
  simp [flight, Flight.tickets, h]

theorem total_answered_reqSendAux (hm : c.reqMrid ≠ []) (op : ReqOp) (data : Bytes) :
    total answered (reqSendAux c op data) = (flight c).tickets := by
  unfold reqSendAux flight Flight.tickets
  cases c.reqTask with
  | none => simp
  | some task => by_cases hp : c.reqPort = 0 <;> simp [hm, hp, answered]

@[simp] theorem total_answered_reqFailDirect (req : Request) : total answered (reqFailDirect req) = tickets req := by
  unfold reqFailDirect tickets
  split <;> simp [answered, ticket]

@[simp] theorem total_askedFor_reqSendAux (op : ReqOp) (data : Bytes) : total askedFor (reqSendAux c op data) = 0 := by
  unfold reqSendAux
  split
  · rfl
  · split <;> rfl

@[simp] theorem total_askedFor_reqFailDirect (req : Request) : total askedFor (reqFailDirect req) = 0 := by
  unfold reqFailDirect
  split <;> rfl

-- ---------------------------------------------------------------------------
-- What a write makes of requests
-- ---------------------------------------------------------------------------

def Unasked (evs : List Event) : Prop := ∀ e ∈ evs, topic e ≠ .request

theorem About.unasked {topics : List Topic} (h : About topics log) (hn : .request ∉ topics) : Unasked log :=
  fun e he ht => hn (ht ▸ h e he)

theorem Unasked.askedFor (h : Unasked log) : total askedFor log = 0 := by
  apply total_eq_zero
  intro e he
  cases e with
  | asked req => exact absurd rfl (h _ he)
  | _ => rfl

theorem Unasked.answered (h : Unasked log) : total answered log = 0 := by
  apply total_eq_zero
  intro e he
  cases e with
  | reqAux a => exact absurd rfl (h _ he)
  | _ => rfl

theorem unasked_append {more : List Event} : Unasked (log ++ more) ↔ Unasked log ∧ Unasked more := by
  simp [Unasked, or_imp, forall_and]

def SameRequest (c c' : Conn) : Prop := c'.pendReq = c.pendReq ∧ flight c' = flight c

theorem SameRequest.trans {c₁ c₂ c₃ : Conn} (h₁ : SameRequest c₁ c₂) (h₂ : SameRequest c₂ c₃) : SameRequest c₁ c₃ :=
  ⟨h₂.1.trans h₁.1, h₂.2.trans h₁.2⟩

theorem SameRequest.owing (h : SameRequest c c') : owing c' = owing c := by
  rw [Node.owing, Node.owing, h.1, h.2]

/-- A request that is to be started: it comes in, or has waited until now. -/
inductive Gets (serial : Nat) (c : Conn) : Conn → Request → List Event → Prop
  | asked (req : Request) (hr : req.no = serial) : Gets serial c c req [.asked req]
  | waited {c₀ : Conn} {req : Request} {evs : List Event} (hp : c.pendReq = some req) (hp₀ : c₀.pendReq = none)
      (hf : flight c₀ = flight c) (hq : Unasked evs) : Gets serial c c₀ req evs

inductive Handles (now : ℚ) (serial : Nat) : Kind → Conn → Conn × List Event → Prop
  | quiet {k : Kind} {c : Conn} {r : Conn × List Event} (hs : SameRequest c r.1) (hq : Unasked r.2) : Handles now serial k c r
  | refused {c c₀ : Conn} {req : Request} {evs : List Event} (hg : Gets serial c c₀ req evs) :
      Handles now serial .link c (c₀, evs ++ reqFailDirect req)
  | started {c c₀ : Conn} {r : Conn × List Event} {req : Request} {evs : List Event} (mrid : RequestId) (d : ℚ)
      (hg : Gets serial c c₀ req evs) (hm : c₀.reqMrid = []) (hd : now < d) (hp : r.1.pendReq = c₀.pendReq)
      (hf : flight r.1 = ⟨mrid.val, req.port, some req.task, req.no, req.cid, d⟩)
      (hlog : r.2 = evs ++ [.issued req.no mrid.val]) : Handles now serial .link c r
  | kept {c : Conn} (req : Request) (hr : req.no = serial) (hp : c.pendReq = none) (hm : c.reqMrid = []) :
      Handles now serial .link c ({ c with pendReq := some req }, [.asked req])
  | ended {c c' : Conn} (op : ReqOp) (data : Bytes) (hm : c.reqMrid ≠ []) (hp : c'.pendReq = c.pendReq)
      (hm' : c'.reqMrid = []) : Handles now serial .link c (c', reqSendAux c op data)
  | freed {c d : Conn} {r : Conn × List Event} {evs : List Event} (hs : SameRequest c d) (hp : r.1.pendReq = none)
      (hm : r.1.reqMrid = []) (hq : Unasked evs)
      (hlog : r.2 = (if d.reqMrid ≠ [] then reqSendAux d .failed [] else []) ++ (d.pendReq.elim [] reqFailDirect ++ evs)) :
      Handles now serial .link c r
  | idle {k : Kind} {c : Conn} {r : Conn × List Event} (hc : k = .channel ∨ c.pendReq = none ∧ c.reqMrid = [])
      (hp : r.1.pendReq = none) (hm : r.1.reqMrid = []) (hq : Unasked r.2) : Handles now serial k c r

theorem requestTimeout_pos (setting : Int) : 0 < requestTimeout setting := by
  unfold requestTimeout
  split
  · norm_num
  · next h => exact_mod_cast (by omega : (0 : Int) < setting)

theorem Gets.start {c₀ : Conn} {req : Request} {evs : List Event} (hg : Gets serial c c₀ req evs) (now : ℚ) (a : Asking) :
    Handles now serial .link c ((linkStartRequest now a req c₀).1, evs ++ (linkStartRequest now a req c₀).2) := by
  unfold linkStartRequest
  split
  · exact .refused hg
  · next hm =>
    cases a.id with
    | none => exact .refused hg
    | some mrid =>
      have hlater : now < now + requestTimeout a.timeoutS + 5 := by
        have := requestTimeout_pos a.timeoutS
        linarith
      exact .started mrid _ hg (not_ne_iff.1 hm) hlater rfl rfl rfl

theorem linkRequest_handles (a : Asking) (req : Request) (hr : req.no = serial) :
    Handles now serial .link c ((Transition.act id (.asked req)).andThen (linkRequest now a req) c) := by
  rw [act_andThen]
  unfold linkRequest
  dsimp only [id_eq]
  split
  · split
    · exact .refused (.asked req hr)
    · next hnone =>
      simp only [not_or, Bool.not_eq_true, Option.isSome_eq_false_iff, Option.isNone_iff_eq_none, not_ne_iff] at hnone
      exact .kept req hr hnone.1 hnone.2
  · exact (Gets.asked req hr).start now a

theorem sameRequest_flushIdentify (how : Identifying) : SameRequest c (flushIdentify now how c).1 := by
  rw [flushIdentify_fst]
  exact ⟨rfl, rfl⟩

theorem sameRequest_flushPacket (throws : Bool) : SameRequest c (flushPacket throws c).1 := by
  rw [flushPacket_fst]
  exact ⟨rfl, rfl⟩

theorem sameRequest_flushResource (made : Made) : SameRequest c (flushResource made c).1 := by
  rw [flushResource_fst]
  exact ⟨rfl, rfl⟩

theorem sameRequest_sendResource (made : Made) (s : Send) : SameRequest c (sendResource made s c).1 := by
  unfold sendResource
  split
  · exact ⟨rfl, rfl⟩
  · split
    · exact ⟨rfl, rfl⟩
    · rw [startOutboundResource_fst]
      exact ⟨rfl, rfl⟩

theorem sameRequest_linkConsumerSend (mdu : Nat) (throws : Bool) (bytes : Bytes) :
    SameRequest c (linkConsumerSend now mdu throws bytes c).1 := by
  unfold linkConsumerSend
  split <;> split <;> exact ⟨rfl, rfl⟩

theorem sameRequest_linkIdentify (how : Identifying) (key : String) : SameRequest c (linkIdentify now how key c).1 := by
  unfold linkIdentify
  split
  · split <;> exact ⟨rfl, rfl⟩
  · cases how <;> exact ⟨rfl, rfl⟩

theorem sameRequest_chanIdentify (how : Identifying) : SameRequest c (chanIdentify how c).1 := by
  cases how <;> exact ⟨rfl, rfl⟩

theorem Dialled.sameRequest (h : Dialled now l c r) : SameRequest c r.1 := by
  cases h <;> exact ⟨rfl, rfl⟩

theorem ChanDialled.sameRequest (h : ChanDialled l c r) : SameRequest c r.1 := by
  cases h <;> exact ⟨rfl, rfl⟩

theorem Retried.sameRequest (h : Retried now l c r) : SameRequest c r.1 := by
  cases h with
  | dialled _ h => exact SameRequest.trans ⟨rfl, rfl⟩ h.sameRequest
  | waits | failed => exact ⟨rfl, rfl⟩

theorem Awaited.sameRequest (h : Awaited now l c r) : SameRequest c r.1 := by
  cases h with
  | dialled h => exact h.sameRequest
  | asks | failed | waits => exact ⟨rfl, rfl⟩

theorem Opens.sameRequest (h : Opens now l c k r) : SameRequest c r.1 := by
  cases h with
  | waits => exact ⟨rfl, rfl⟩
  | link h => exact SameRequest.trans ⟨rfl, rfl⟩ h.sameRequest
  | channel h => exact SameRequest.trans ⟨rfl, rfl⟩ h.sameRequest

/-- What waited longest goes last. -/
theorem established_handles (k : Kind) (f : Flush) : Handles now serial k c (established k now f c) := by
  cases k with
  | channel =>
    simp only [established, chanEstablished_apply]
    refine .quiet ?_ (unasked_append.2 ⟨(about_chanIdentify _).unasked (by simp), (about_flushResource _).unasked (by simp)⟩)
    have hup : SameRequest c (activate now c).1 := ⟨rfl, rfl⟩
    exact (hup.trans (sameRequest_chanIdentify _)).trans (sameRequest_flushResource _)
  | link =>
    simp only [established, linkEstablished_apply]
    obtain ⟨c₃, hc₃⟩ : ∃ c₃ : Conn, c₃ = (flushResource f.made (flushPacket f.packetThrows
        (flushIdentify now f.identify (activate now c).1).1).1).1 := ⟨_, rfl⟩
    have hsame : SameRequest c c₃ := by
      rw [hc₃]
      have hup : SameRequest c (activate now c).1 := ⟨rfl, rfl⟩
      exact ((hup.trans (sameRequest_flushIdentify _)).trans (sameRequest_flushPacket _)).trans (sameRequest_flushResource _)
    have hq : ∀ {e₁ e₂ e₃ : List Event}, Unasked e₁ → Unasked e₂ → Unasked e₃ → Unasked (e₁ ++ (e₂ ++ e₃)) :=
      fun h₁ h₂ h₃ => unasked_append.2 ⟨h₁, unasked_append.2 ⟨h₂, h₃⟩⟩
    have hquiet := hq ((about_flushIdentify (c := (activate now c).1) now f.identify).unasked (by simp))
      ((about_flushPacket (c := (flushIdentify now f.identify (activate now c).1).1) f.packetThrows).unasked (by simp))
      ((about_flushResource (c := (flushPacket f.packetThrows (flushIdentify now f.identify (activate now c).1).1).1)
        f.made).unasked (by simp))
    rw [← hc₃, ← List.append_assoc, ← List.append_assoc, List.append_assoc _ _ (flushResource _ _).2]
    unfold flushRequest
    split
    · rw [List.append_nil]
      exact .quiet hsame hquiet
    · next req hp =>
      have hflushed : Unasked [.flushed c₃.opening .request] := fun e he => by
        rw [List.mem_singleton.1 he]
        exact fun ht => absurd ht (by simp [topic])
      have hg : Gets serial c { c₃ with pendReq := none } req _ :=
        .waited (hsame.1.symm.trans hp) rfl hsame.2 (unasked_append.2 ⟨hquiet, hflushed⟩)
      have hstart := hg.start now f.asking
      rwa [List.append_assoc] at hstart

theorem linkFreeSlot_handles (o : Option LinkRef) (s : Link.ConnState) :
    Handles now serial .link c (linkFreeSlot { c with link := o, state := s }) := by
  obtain ⟨d, hd⟩ : ∃ d : Conn, d = { c with link := o, state := s } := ⟨_, rfl⟩
  have hsame : SameRequest c d := hd ▸ ⟨rfl, rfl⟩
  rw [← hd]
  have hq : Unasked (disconnect d.handle ++ lose d) :=
    unasked_append.2 ⟨(about_disconnect _).unasked (by simp), about_lose.unasked (by simp)⟩
  exact .freed hsame rfl rfl hq (by simp [linkFreeSlot])

theorem timers_handles (st : IdentifyStatus) :
    Handles now serial .link c ((linkIdentifyTick now st).andThen (requestTick now) c) := by
  rw [andThen_apply, linkIdentifyTick_snd, List.nil_append, linkIdentifyTick_fst]
  unfold requestTick
  split
  · next h => exact .ended .failed [] h.1 rfl rfl
  · exact .quiet ⟨rfl, rfl⟩ fun e he => absurd he List.not_mem_nil

theorem Move.handles (h : Move q now serial k i c r) : Handles now serial k c r := by
  cases h with
  | touched | letGo | proofs | unreached | overdue | dead | chanTimedOut => exact .quiet ⟨rfl, rfl⟩ fun e he => absurd he List.not_mem_nil
  | consumerSend i c mdu throws bytes =>
    exact .quiet (sameRequest_linkConsumerSend mdu throws bytes) ((about_linkConsumerSend now mdu throws bytes).unasked (by simp))
  | identify i c how key =>
    exact .quiet (sameRequest_linkIdentify how key) ((about_linkIdentify now how key).unasked (by simp))
  | request i c a req hr => exact linkRequest_handles a req hr
  | sendResource k i c made s =>
    rw [act_andThen]
    have habout : About [.send, .transfer] (.handed s :: (Rnsd.sendResource made s c).2) :=
      about_cons.2 ⟨by simp [topic], (about_sendResource made s).mono (by simp)⟩
    exact .quiet (sameRequest_sendResource made s) (habout.unasked (by simp))
  | established k i c f => exact established_handles k f
  | response i c data memory hm =>
    unfold reqResponse
    split <;> exact .ended _ _ hm rfl rfl
  | reqFailed i c hm => exact .ended _ _ hm rfl rfl
  | timers i c st => exact timers_handles st
  | awaits i c r hs h => exact .quiet h.sameRequest ((about_awaited h).unasked (by simp))
  | timedOut i c r hs hl hd h => exact .quiet h.sameRequest ((about_retried h).unasked (by simp))
  | freed => exact linkFreeSlot_handles _ _
  | chanAwaits i c r hs h =>
    refine .quiet h.sameRequest ?_
    rw [snd_chanDialled h]
    exact fun e he => absurd he List.not_mem_nil
  | chanFreed => exact .idle (.inl rfl) rfl rfl (about_chanReset.unasked (by simp))

theorem Write.handles (hw : Write Q n k i c r) : Handles n.clock n.serial k c r := by
  cases hw with
  | move hu h => exact h.handles
  | opened h req o hu hb hq hr =>
    have hfill : (fill k n.clock h o req n.serial c).1.pendReq = none ∧ (fill k n.clock h o req n.serial c).1.reqMrid = [] := by
      cases k with
      | link => exact ⟨rfl, rfl⟩
      | channel => exact ⟨hb.pendReq, hb.reqMrid⟩
    refine .idle (.inr ⟨hb.pendReq, hb.reqMrid⟩) (hr.sameRequest.1.trans hfill.1) ?_ ((about_opens hr).unasked (by simp))
    exact (congrArg Flight.mrid hr.sameRequest.2).trans hfill.2
  | seated w owner hu hb =>
    have hlog : (seat k n.clock w owner ⟨k, n.serial⟩ n.serial c).2 = [] := by cases k <;> rfl
    refine .idle (.inr ⟨hb.pendReq, hb.reqMrid⟩) ?_ ?_ (by rw [hlog]; exact fun e he => absurd he List.not_mem_nil)
    · cases k <;> exact hb.pendReq
    · cases k <;> exact hb.reqMrid
  | marked g adv memory => exact .quiet ⟨rfl, rfl⟩ ((about_began _ _ _).unasked (by simp))
  | concluded out => exact .quiet ⟨rfl, rfl⟩ ((about_concludeResource out).unasked (by simp))
  | ended hu hk hl =>
    have hf : Fades n.clock c (linkEnds k n.clock c).1 := fades_linkEnds hl
    have hlog : (linkEnds k n.clock c).2 = [] := by cases k <;> rfl
    refine .quiet ?_ (by rw [hlog]; exact fun e he => absurd he List.not_mem_nil)
    rw [hf.same]
    exact ⟨rfl, rfl⟩

-- ---------------------------------------------------------------------------
-- The books
-- ---------------------------------------------------------------------------

theorem Gets.owing {c₀ : Conn} {req : Request} {evs : List Event} (hg : Gets serial c c₀ req evs) :
    owing c₀ + tickets req + total answered evs = owing c + total askedFor evs := by
  cases hg with
  | asked req => simp [askedFor, answered]
  | waited hp hp₀ hf hq =>
    rw [hq.answered, hq.askedFor, Node.owing, Node.owing, hp, hp₀, hf]
    simp [add_comm]

theorem Flight.tickets_started {f : Flight} {req : Request} {mrid : RequestId} {d : ℚ}
    (hf : f = ⟨mrid.val, req.port, some req.task, req.no, req.cid, d⟩) : f.tickets = Node.tickets req := by
  have hne : mrid.val ≠ [] := fun h0 => by simpa [h0] using mrid.property
  subst hf
  by_cases hp : req.port = 0 <;> simp [Flight.tickets, Node.tickets, ticket, hne, hp]

theorem Handles.balances (h : Handles now serial k c r) : Balances Eq (owes k) askedFor answered c r.1 r.2 := by
  cases h with
  | quiet hs hq => rw [Balances, hq.answered, hq.askedFor, owes, owes, hs.owing]
  | refused hg =>
    have hgot := hg.owing
    simp only [Balances, owes, if_true, total_append, total_answered_reqFailDirect, total_askedFor_reqFailDirect, add_zero]
    rw [← hgot]
    ac_rfl
  | @started c c₀ r req evs mrid d hg hm hd hp hf hlog =>
    have hgot := hg.owing
    have hput : owing r.1 = owing c₀ + tickets req := by
      rw [owing, owing, hp, Flight.tickets_started hf, flying_eq_zero hm, add_zero]
    have hissued : total answered [Event.issued req.no mrid.val] = 0 ∧ total askedFor [Event.issued req.no mrid.val] = 0 :=
      ⟨rfl, rfl⟩
    simp only [Balances, owes, if_true, hlog, total_append, hissued.1, hissued.2, add_zero]
    rw [hput, hgot]
  | kept req hr hp hm =>
    simp [Balances, owes, owing, hp, askedFor, answered, flight, add_comm]
  | ended op data hm hp hm' =>
    simp only [Balances, owes, if_true, total_answered_reqSendAux hm, total_askedFor_reqSendAux, add_zero]
    rw [owing, owing, hp, flying_eq_zero hm', add_zero]
  | @freed c d r evs hs hp hm hq hlog =>
    have hflies : total answered (if d.reqMrid ≠ [] then reqSendAux d .failed [] else []) = (flight d).tickets ∧
        total askedFor (if d.reqMrid ≠ [] then reqSendAux d .failed [] else []) = 0 := by
      split
      · next hm => exact ⟨total_answered_reqSendAux hm _ _, total_askedFor_reqSendAux _ _⟩
      · next hm => exact ⟨(flying_eq_zero (not_ne_iff.1 hm)).symm, rfl⟩
    have hwaits : total answered (d.pendReq.elim [] reqFailDirect) = d.pendReq.elim 0 tickets ∧
        total askedFor (d.pendReq.elim [] reqFailDirect) = 0 := by
      cases d.pendReq with
      | none => exact ⟨rfl, rfl⟩
      | some req => exact ⟨total_answered_reqFailDirect req, total_askedFor_reqFailDirect req⟩
    simp only [Balances, owes, if_true, hlog, total_append, hflies.1, hflies.2, hwaits.1, hwaits.2, hq.answered, hq.askedFor]
    rw [← hs.owing, owing, owing, hp, flying_eq_zero hm]
    simp [add_comm]
  | idle hc hp hm hq =>
    rw [Balances, hq.answered, hq.askedFor, owes, owes]
    rcases hc with rfl | ⟨hp₀, hm₀⟩
    · simp
    · rw [owing, owing, hp, hp₀, flying_eq_zero hm, flying_eq_zero hm₀]

theorem requestBooks : Books Eq owes askedFor answered where
  compares := compares_eq
  write hw := hw.handles.balances
  asked req := by simp [askedFor, answered]
  refused s := by
    have hq : Unasked (.handed s :: free s.buf) := fun e he => by
      rcases List.mem_cons.1 he with rfl | he
      · exact fun ht => absurd ht (by simp [topic])
      · exact (about_free s.buf).unasked (by simp) e he
    rw [hq.answered, hq.askedFor]

/-- A write takes in one request at most, under the next number. -/
theorem Handles.askedFor (h : Handles now serial k c r) :
    total askedFor r.2 = 0 ∨ ∃ req : Request, req.no = serial ∧ total askedFor r.2 = tickets req := by
  have hgets : ∀ {c c₀ req evs}, Gets serial c c₀ req evs → total Node.askedFor evs = 0 ∨
      ∃ req : Request, req.no = serial ∧ total Node.askedFor evs = tickets req := by
    intro c c₀ req evs hg
    cases hg with
    | asked req hr => exact .inr ⟨req, hr, by simp [Node.askedFor]⟩
    | waited hp hp₀ hf hq => exact .inl hq.askedFor
  cases h with
  | quiet hs hq => exact .inl hq.askedFor
  | refused hg =>
    rw [total_append, total_askedFor_reqFailDirect, add_zero]
    exact hgets hg
  | started mrid d hg hm hd hp hf hlog =>
    rw [hlog, total_append]
    simpa [Node.askedFor] using hgets hg
  | kept req hr => exact .inr ⟨req, hr, by simp [Node.askedFor]⟩
  | ended op data => exact .inl (total_askedFor_reqSendAux _ _)
  | @freed c d r evs hs hp hm hq hlog =>
    refine .inl ?_
    rw [hlog, total_append, total_append, hq.askedFor]
    cases d.pendReq with
    | none => split <;> simp
    | some req => split <;> simp
  | idle hc hp hm hq => exact .inl hq.askedFor

/-- What comes in is numbered as it comes. -/
structure Counted {κ : Type*} (came : Event → Multiset κ) (no : κ → Nat) (n : Node) : Prop where
  below : ∀ t ∈ total came n.log, no t < n.serial
  once : ((total came n.log).map no).Nodup

theorem Counted.grow {κ : Type*} {came : Event → Multiset κ} {no : κ → Nat} {evs : List Event} (h : Counted came no n)
    (hlog : m.log = n.log ++ evs) (hle : n.serial ≤ m.serial)
    (hnew : total came evs = 0 ∨ ∃ t, total came evs = {t} ∧ no t = n.serial ∧ n.serial < m.serial) :
    Counted came no m := by
  rcases hnew with h0 | ⟨t, ht, hno, hlt⟩
  · constructor
    · rw [hlog, total_append, h0, add_zero]
      exact fun t ht => (h.below t ht).trans_le hle
    · rw [hlog, total_append, h0, add_zero]
      exact h.once
  · constructor
    · rw [hlog, total_append, ht]
      intro u hu
      rcases Multiset.mem_add.1 hu with hu | hu
      · exact (h.below u hu).trans hlt
      · rw [Multiset.mem_singleton.1 hu, hno]
        exact hlt
    · rw [hlog, total_append, ht, Multiset.map_add, Multiset.nodup_add]
      refine ⟨h.once, by simp, ?_⟩
      rw [Multiset.disjoint_left]
      intro v hv hv'
      obtain ⟨u, hu, rfl⟩ := Multiset.mem_map.1 hv
      have he : no u = no t := by simpa using hv'
      exact absurd (h.below u hu) (by rw [he, hno]; exact lt_irrefl _)

theorem tickets_cases (req : Request) : tickets req = 0 ∨ ∃ t, tickets req = {t} ∧ t.no = req.no := by
  unfold tickets
  split
  · exact .inl rfl
  · exact .inr ⟨_, rfl, rfl⟩

theorem counted_effect (h : Counted askedFor Ticket.no n) (he : Effect Q n m) : Counted askedFor Ticket.no m := by
  have hreq : ∀ {req : Request} {evs}, req.no = n.serial → n.serial < m.serial → total askedFor evs = tickets req →
      total askedFor evs = 0 ∨ ∃ t, total askedFor evs = {t} ∧ t.no = n.serial ∧ n.serial < m.serial := by
    intro req evs hno hlt ht
    rw [ht]
    rcases tickets_cases req with h0 | ⟨t, ht, hno'⟩
    · exact .inl h0
    · exact .inr ⟨t, ht, hno'.trans hno, hlt⟩
  cases he with
  | wrote hs hw hslot hlog hclock hserial =>
    have hlt : n.serial < m.serial := by rw [hserial]; exact Nat.lt_succ_self _
    refine h.grow hlog hlt.le ?_
    rcases hw.handles.askedFor with h0 | ⟨req, hno, ht⟩
    · exact .inl h0
    · exact hreq hno hlt ht
  | asked req hr hm =>
    subst hm
    exact h.grow rfl (Nat.le_succ _) (hreq hr (Nat.lt_succ_self _) (by simp [askedFor]))
  | refused s hs hq hm =>
    subst hm
    refine h.grow rfl (Nat.le_succ _) (.inl ?_)
    rw [total_cons, ((about_free s.buf).unasked (by simp)).askedFor]
    rfl
  | still hslot hlog hclock hserial => exact h.grow (hlog.trans (List.append_nil _).symm) hserial.ge (.inl rfl)

-- ---------------------------------------------------------------------------
-- Ids
-- ---------------------------------------------------------------------------

/-- What runs on a link was issued under its id, and so was all that got a response. -/
structure Traced (log : List Event) (c : Conn) : Prop where
  runs : c.reqMrid ≠ [] → .issued c.reqNo c.reqMrid ∈ log
  responded : ∀ a, .reqAux a ∈ log → a.op = .response → .issued a.no a.mrid ∈ log

theorem mem_reqSendAux {op : ReqOp} {data : Bytes} {a : ReqAux} (h : .reqAux a ∈ reqSendAux c op data) :
    a.op = op ∧ a.no = c.reqNo ∧ a.mrid = c.reqMrid ∧ a.data = data := by
  unfold reqSendAux at h
  split at h
  · cases h
  · split at h
    · cases h
    · obtain rfl := by simpa using h
      exact ⟨rfl, rfl, rfl, rfl⟩

theorem mem_reqFailDirect {req : Request} {a : ReqAux} (h : .reqAux a ∈ reqFailDirect req) : a.op = .failed := by
  unfold reqFailDirect at h
  split at h
  · cases h
  · obtain rfl := by simpa using h
    rfl

theorem Unasked.not_reqAux (h : Unasked log) {a : ReqAux} : .reqAux a ∉ log := fun ha => h _ ha rfl

theorem Gets.not_reqAux {c₀ : Conn} {req : Request} {evs : List Event} (hg : Gets serial c c₀ req evs) {a : ReqAux} :
    .reqAux a ∉ evs := by
  cases hg with
  | asked => simp
  | waited hp hp₀ hf hq => exact hq.not_reqAux

theorem Gets.flight {c₀ : Conn} {req : Request} {evs : List Event} (hg : Gets serial c c₀ req evs) :
    flight c₀ = flight c := by
  cases hg with
  | asked => rfl
  | waited hp hp₀ hf => exact hf

/-- Only failures are told without an id. -/
theorem Traced.fails {more : List Event} (ht : Traced log c)
    (hc : c'.reqMrid ≠ [] → .issued c'.reqNo c'.reqMrid ∈ log ++ more) (hf : ∀ a, .reqAux a ∈ more → a.op = .failed) :
    Traced (log ++ more) c' where
  runs := hc
  responded a hmem hop := by
    rcases List.mem_append.1 hmem with hold | hnew
    · exact List.mem_append_left _ (ht.responded a hold hop)
    · rw [hf a hnew] at hop
      cases hop

/-- What ran still runs. -/
theorem Traced.same {more : List Event} (ht : Traced log c) (hf : flight c' = flight c) (hm : c'.reqMrid ≠ []) :
    .issued c'.reqNo c'.reqMrid ∈ log ++ more := by
  have hno : c'.reqNo = c.reqNo := congrArg Flight.no hf
  have hmrid : c'.reqMrid = c.reqMrid := congrArg Flight.mrid hf
  rw [hmrid] at hm
  rw [hno, hmrid]
  exact List.mem_append_left _ (ht.runs hm)

theorem Handles.traced (h : Handles now serial k c r) : Keeps Traced c r.1 r.2 := by
  intro log ht
  cases h with
  | quiet hs hq => exact ht.fails (ht.same hs.2) fun a ha => absurd ha hq.not_reqAux
  | refused hg =>
    refine ht.fails (ht.same hg.flight) fun a ha => ?_
    rcases List.mem_append.1 ha with ha | ha
    · exact absurd ha hg.not_reqAux
    · exact mem_reqFailDirect ha
  | @started c c₀ r req evs mrid d hg hm hd hp hf hlog =>
    refine ht.fails (fun _ => ?_) fun a ha => ?_
    · have hno : r.1.reqNo = req.no := congrArg Flight.no hf
      have hmrid : r.1.reqMrid = mrid.val := congrArg Flight.mrid hf
      rw [hno, hmrid, hlog]
      simp
    · rw [hlog] at ha
      rcases List.mem_append.1 ha with ha | ha
      · exact absurd ha hg.not_reqAux
      · simp at ha
  | kept req hr hp hm => exact ht.fails (fun hne => absurd hm hne) fun a ha => by simp at ha
  | ended op data hm hp hm' =>
    refine ⟨fun hne => absurd hm' hne, fun a hmem hop => ?_⟩
    rcases List.mem_append.1 hmem with hold | hnew
    · exact List.mem_append_left _ (ht.responded a hold hop)
    · obtain ⟨-, hno, hid, -⟩ := mem_reqSendAux hnew
      rw [hno, hid]
      exact List.mem_append_left _ (ht.runs hm)
  | @freed c d r evs hs hp hm hq hlog =>
    refine ht.fails (fun hne => absurd hm hne) fun a ha => ?_
    rw [hlog] at ha
    rcases List.mem_append.1 ha with hflies | ha
    · split at hflies
      · exact (mem_reqSendAux hflies).1
      · cases hflies
    · rcases List.mem_append.1 ha with hwaits | hrest
      · cases hp : d.pendReq with
        | none =>
          rw [hp] at hwaits
          cases hwaits
        | some req =>
          rw [hp] at hwaits
          exact mem_reqFailDirect hwaits
      · exact absurd hrest hq.not_reqAux
  | idle hc hp hm hq => exact ht.fails (fun hne => absurd hm hne) fun a ha => absurd ha hq.not_reqAux

structure AllTraced (n : Node) : Prop where
  runs : ∀ k i c, n.slot k i = some c → c.reqMrid ≠ [] → .issued c.reqNo c.reqMrid ∈ n.log
  responded : ∀ a, .reqAux a ∈ n.log → a.op = .response → .issued a.no a.mrid ∈ n.log

theorem AllTraced.slot (h : n.AllTraced) (hs : n.slot k i = some c) : Traced n.log c := ⟨h.runs k i c hs, h.responded⟩

/-- A log that grows by what is no response. -/
theorem AllTraced.fails {evs : List Event} (h : n.AllTraced) (hlog : m.log = n.log ++ evs) (hslot : m.slot = n.slot)
    (hf : ∀ a, .reqAux a ∈ evs → a.op = .failed) : m.AllTraced where
  runs k i c hs hm := by
    rw [hslot] at hs
    rw [hlog]
    exact List.mem_append_left _ (h.runs k i c hs hm)
  responded a hmem hop := by
    rw [hlog] at hmem ⊢
    rcases List.mem_append.1 hmem with hold | hnew
    · exact List.mem_append_left _ (h.responded a hold hop)
    · rw [hf a hnew] at hop
      cases hop

theorem AllTraced.effect (h : n.AllTraced) (he : Effect Q n m) : m.AllTraced := by
  cases he with
  | @wrote k i c r hs hw hslot hlog =>
    have hwrote := hw.handles.traced n.log (h.slot hs)
    rw [← hlog] at hwrote
    refine ⟨fun k' j c' hs' => ?_, hwrote.responded⟩
    rw [hslot] at hs'
    rcases slot_put_cases hs hs' with ⟨rfl, rfl, rfl⟩ | ⟨-, hold⟩
    · exact hwrote.runs
    · rw [hlog]
      exact fun hm => List.mem_append_left _ (h.runs _ _ _ hold hm)
  | asked req hr hm =>
    subst hm
    refine h.fails rfl rfl fun a hmem => ?_
    rcases List.mem_cons.1 hmem with he | hmem
    · cases he
    · exact mem_reqFailDirect hmem
  | refused s hs hq hm =>
    subst hm
    refine h.fails rfl rfl fun a hmem => ?_
    rcases List.mem_cons.1 hmem with he | hmem
    · cases he
    · exact absurd hmem ((about_free s.buf).unasked (by simp)).not_reqAux
  | still hslot hlog => exact h.fails (hlog.trans (List.append_nil _).symm) hslot fun _ h => absurd h List.not_mem_nil

-- ---------------------------------------------------------------------------
-- Answers
-- ---------------------------------------------------------------------------

/-- The answers to a request. -/
def answersTo (no : Nat) (log : List Event) : Nat :=
  log.countP fun e => match e with | .reqAux a => a.no = no | _ => false

theorem answersTo_eq (no : Nat) : answersTo no log = ((total answered log).map Ticket.no).count no := by
  induction log with
  | nil => rfl
  | cons e log ih =>
    rw [total_cons, Multiset.map_add, Multiset.count_add, ← ih]
    unfold answersTo
    rw [List.countP_cons, add_comm]
    congr 1
    cases e with
    | reqAux a => simp [answered, Multiset.count_singleton, eq_comm]
    | _ => simp [answered]

/-- What has become of a request: it is owed by one slot, which waits for its link or runs
it, or it has had its one answer. -/
inductive Fate (n : Node) (req : Request) : Prop
  | owed (i : Nat) (c : Conn) (hs : n.slot .link i = some c) (ho : ticket req ∈ owing c)
      (hone : ∀ j c', n.slot .link j = some c' → ticket req ∈ owing c' → j = i) (hnone : answersTo req.no n.log = 0)
  | answered (a : ReqAux) (ha : .reqAux a ∈ n.log) (hto : ticket req = ⟨a.no, a.task, a.port, a.cid⟩)
      (hone : answersTo req.no n.log = 1) (hnone : ∀ j c', n.slot .link j = some c' → ticket req ∉ owing c')

structure Answers (n : Node) : Prop where
  fate : ∀ req, .asked req ∈ n.log → req.port ≠ 0 → Fate n req
  asked : ∀ a, .reqAux a ∈ n.log → ∃ req, .asked req ∈ n.log ∧ ticket req = ⟨a.no, a.task, a.port, a.cid⟩
  issued : ∀ a, .reqAux a ∈ n.log → a.op = .response → .issued a.no a.mrid ∈ n.log
  /-- What the engine gives for an id goes to a request that was issued under it. -/
  given : ∀ mrid data memory, (n.onReqResponseCb mrid data memory).log = n.log ∨
    ∃ a, (n.onReqResponseCb mrid data memory).log = n.log ++ [.reqAux a] ∧ a.mrid = mrid ∧ .issued a.no mrid ∈ n.log ∧
      (a.op = .response → a.data = data)

theorem mem_owes {t : Ticket} : t ∈ holds owes n ↔ ∃ i c, n.slot .link i = some c ∧ t ∈ owing c := by
  have hchannel : total (owes .channel) (n.table .channel) = 0 := total_eq_zero fun c _ => by simp [owes]
  rw [holds, hchannel, add_zero, mem_total]
  simp only [List.mem_iff_getElem?, owes, if_true]
  constructor
  · rintro ⟨c, ⟨i, hi⟩, ht⟩
    exact ⟨i, c, hi, ht⟩
  · rintro ⟨i, c, hi, ht⟩
    exact ⟨c, ⟨i, hi⟩, ht⟩

theorem reqSendAux_singleton (op : ReqOp) (data : Bytes) : reqSendAux c op data = [] ∨
    ∃ a, reqSendAux c op data = [.reqAux a] ∧ a.op = op ∧ a.no = c.reqNo ∧ a.mrid = c.reqMrid ∧ a.data = data := by
  unfold reqSendAux
  split
  · exact .inl rfl
  · split
    · exact .inl rfl
    · exact .inr ⟨_, rfl, rfl, rfl, rfl, rfl⟩

theorem AllTraced.given (h : n.AllTraced) (mrid data : Bytes) (memory : Bool) :
    (n.onReqResponseCb mrid data memory).log = n.log ∨
      ∃ a, (n.onReqResponseCb mrid data memory).log = n.log ++ [.reqAux a] ∧ a.mrid = mrid ∧
        .issued a.no mrid ∈ n.log ∧ (a.op = .response → a.data = data) := by
  unfold onReqResponseCb
  cases hf : n.findReqMrid mrid with
  | none => exact .inl rfl
  | some i =>
    obtain ⟨c, hs, hu, rfl, hne⟩ := findReqMrid_eq_some hf
    have hissued := h.runs _ _ _ hs hne
    dsimp only
    rw [act_eq hs, log_put]
    unfold reqResponse
    dsimp only
    split
    · rcases reqSendAux_singleton (c := c) .failed [] with h0 | ⟨a, ha, hop, hno, hid, -⟩
      · exact .inl (by rw [h0, List.append_nil])
      · refine .inr ⟨a, by rw [ha], hid, hno ▸ hissued, fun h => ?_⟩
        rw [hop] at h
        cases h
    · rcases reqSendAux_singleton (c := c) .response data with h0 | ⟨a, ha, hop, hno, hid, hdata⟩
      · exact .inl (by rw [h0, List.append_nil])
      · exact .inr ⟨a, by rw [ha], hid, hno ▸ hissued, fun _ => hdata⟩

/-- The state of the requests in every state of a run. -/
structure Requested (n : Node) : Prop where
  inv : n.Inv
  balance : Settled Eq owes askedFor answered n
  counted : Counted askedFor Ticket.no n
  traced : n.AllTraced

theorem Requested.steps (h : n.Requested) (hm : Steps (fun _ _ => True) n m) : m.Requested where
  inv := h.inv.steps hm
  balance := kept_of_effect requestBooks.settled_effect h.balance h.inv.wf hm
  counted := kept_of_effect counted_effect h.counted h.inv.wf hm
  traced := kept_of_effect AllTraced.effect h.traced h.inv.wf hm

theorem Requested.step (h : n.Requested) (op : Op) : (Rnsd.step n op).Requested :=
  h.steps (steps_step h.inv.wf op (permits_true n op))

theorem requested_boot {t : ℚ} (ht : 0 < t) : (boot t).Requested where
  inv := inv_boot ht
  balance := Books.settled_boot compares_eq fun k => by simp [owes, owing, flight, Flight.tickets]
  counted := ⟨fun t ht => by simp [boot] at ht, by simp [boot]⟩
  traced := by
    refine ⟨fun k i c hs => ?_, fun a ha => by simp [boot] at ha⟩
    rw [slot_boot hs]
    exact fun h => absurd rfl h

theorem Requested.once (h : n.Requested) : Once askedFor n.log := Multiset.Nodup.of_map _ h.counted.once

/-- A request is with one slot only. -/
theorem Requested.only (h : n.Requested) {t : Ticket} (hs : n.slot .link i = some c) (hs' : n.slot .link j = some c')
    (ho : t ∈ owing c) (ho' : t ∈ owing c') : i = j := by
  have hnodup := h.once.inside (le_of_eq h.balance)
  rw [holds, Multiset.nodup_add] at hnodup
  exact nodup_total hnodup.1 hs hs' (by simpa [owes] using ho) (by simpa [owes] using ho')

theorem Requested.fate (h : n.Requested) {req : Request} (hreq : .asked req ∈ n.log) (hport : req.port ≠ 0) :
    Fate n req := by
  have hcame : ticket req ∈ total askedFor n.log := mem_total.2 ⟨_, hreq, by simp [askedFor, tickets, hport]⟩
  have hsum : (holds owes n + total answered n.log).map Ticket.no = (total askedFor n.log).map Ticket.no := by
    rw [h.balance]
  have hnos := h.counted.once
  rw [← hsum, Multiset.map_add, Multiset.nodup_add] at hnos
  rcases (settled h.balance).1 hcame with hheld | hgone
  · obtain ⟨i, c, hs, ho⟩ := mem_owes.1 hheld
    refine .owed i c hs ho (fun j c' hs' ho' => ?_) ?_
    · exact h.only hs' hs ho' ho
    · rw [answersTo_eq, Multiset.count_eq_zero]
      exact fun hmem => Multiset.disjoint_left.1 hnos.2.2 (Multiset.mem_map_of_mem Ticket.no hheld) hmem
  · obtain ⟨e, he, hto⟩ := mem_total.1 hgone
    obtain ⟨a, rfl, hticket⟩ : ∃ a, e = .reqAux a ∧ ticket req = ⟨a.no, a.task, a.port, a.cid⟩ := by
      cases e with
      | reqAux a => exact ⟨a, rfl, by simpa [answered] using hto⟩
      | _ => cases hto
    refine .answered a he hticket ?_ fun j c' hs' ho' => ?_
    · rw [answersTo_eq]
      exact Multiset.count_eq_one_of_mem hnos.2.1 (Multiset.mem_map_of_mem Ticket.no hgone)
    · exact h.once.gone (le_of_eq h.balance) hgone (mem_owes.2 ⟨j, c', hs', ho'⟩)

theorem Requested.asked (h : n.Requested) {a : ReqAux} (ha : .reqAux a ∈ n.log) :
    ∃ req, .asked req ∈ n.log ∧ ticket req = ⟨a.no, a.task, a.port, a.cid⟩ := by
  have hgone : ⟨a.no, a.task, a.port, a.cid⟩ ∈ total answered n.log := mem_total.2 ⟨_, ha, by simp [answered]⟩
  obtain ⟨e, he, hin⟩ := mem_total.1 ((settled h.balance).2 (.inr hgone))
  cases e with
  | asked req =>
    refine ⟨req, he, ?_⟩
    simp only [askedFor, tickets] at hin
    split at hin
    · cases hin
    · exact (Multiset.mem_singleton.1 hin).symm
  | _ => cases hin

theorem Requested.answers (h : n.Requested) : n.Answers where
  fate _ := h.fate
  asked _ := h.asked
  issued := h.traced.responded
  given := h.traced.given

/-- Every request is answered at most once, to who asked it, and not while it waits or runs;
responses go to the requests whose ids they were given for. -/
theorem requests_settled {t : ℚ} (ht : 0 < t) (ops : List Op) :
    Lib.Runs.Throughout step Answers (boot t) ops := by
  intro pre _
  exact (Lib.Runs.invariant (fun n op h => h.step op) (requested_boot ht) : Requested _).answers

def aFrame : RequestFrame where
  tag := ['a']
  port := 7
  cid := 3
  path := []
  data := []
  packed := false
  truncated := false

def aRequest : Request := ⟨1, 2, 7, 3, [], [], false⟩

def pathless : Env := { hasPath := false, recalls := true, derived := [], construct := none }

/-- A consumer opens a link to a destination there is no path to, and asks over it. -/
def anAsking : List Op :=
  [.connect .link 5 { tag := ['a'], destHash := [], aspect := [], identityKey := "" } { task := some 1, env := pathless },
    .request 2 aFrame ⟨none, 15⟩]

theorem requests_settled_anAsking : Lib.Runs.Throughout step Answers (boot 1) anAsking :=
  requests_settled (by norm_num) anAsking

end MicroReticulum.Rnsd.Node
