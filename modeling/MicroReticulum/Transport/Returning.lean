import MicroReticulum.Transport.Relay

/-!
# Proofs on their way back

A packet passed on leaves an entry in the reverse table, and a proof of it
goes back by that entry. Any proof that gets past the packet filter takes the
entry away, also one that arrives on another interface and goes nowhere.
-/

namespace MicroReticulum.Relay

open Wire
open Transport (passOn)
open Lib.Log Lib.Log.Transition

variable {c : Config} {r r' : Tables} {a : Arrival} {raw hash linkId : Bytes} {op : Op} {ops : List Op}
  {e : ReverseEntry} {log : List Act}

-- ---------------------------------------------------------------------------
-- Proofs of a packet
-- ---------------------------------------------------------------------------

/-- A regular proof of the packet, and for this node: only the hashlist can
stop it. -/
def proofOf (c : Config) (hash : Bytes) (a : Arrival) (raw : Bytes) : Bool :=
  accepts c [] a raw && packetType raw = PROOF && context raw ≠ LRPROOF && context raw ≠ RESOURCE_PRF &&
    destinationHash raw = hash && !answeredFromCache c a raw

/-- A proof of the packet that gets past the filter of a transport node. -/
def spends (c : Config) (hash : Bytes) (r : Tables) : Op → Bool
  | .inbound a raw => c.transportEnabled && proofOf c hash a raw && accepts c r.hashlist a raw
  | _ => false

def Act.returns (hash : Bytes) : Act → Bool
  | .returned h _ _ => h = hash
  | _ => false

/-- One of the operations does. -/
def spent (c : Config) (hash : Bytes) : List Op → Tables → Bool
  | [], _ => false
  | op :: ops, r => spends c hash r op || spent c hash ops (step c op r).1

/-- The entry does not time out by this step, and the packet does not come by
again. -/
def Op.Within (c : Config) (hash : Bytes) (e : ReverseEntry) : Op → Prop
  | .inbound _ raw => truncatedHash c.sha256 raw ≠ hash
  | .cullReverse now h => h = hash → e.stale now = false
  | _ => True

/-- A packet in transport that is no link request, passed on for the first time. -/
structure Forwards (c : Config) (r : Tables) (a : Arrival) (raw : Bytes) (route : Route) : Prop where
  accepted : accepts c r.hashlist a raw = true
  handled : handles c a raw = true ∧ answeredFromCache c a raw = false
  routed : nextHopRoute c a raw = some route
  other : packetType raw ≠ LINKREQUEST
  fresh : r.reverseTable (truncatedHash c.sha256 raw) = none
  not_own : destinationHash raw ≠ truncatedHash c.sha256 raw

/-- The first proof of the packet that arrives on the interface. -/
structure FirstOn (c : Config) (hash : Bytes) (interface : Nat) (pre : List Op) (a : Arrival) (raw : Bytes) :
    Prop where
  proof : proofOf c hash a raw = true
  on : a.interface = interface
  first : ∀ a' raw', .inbound a' raw' ∈ pre → proofOf c hash a' raw' = true → a'.interface ≠ interface

/-- At most one proof goes back, and the first on the interface the packet went
out on does. -/
structure ReturnedOnce (c : Config) (r : Tables) (hash : Bytes) (e : ReverseEntry) (ops : List Op) : Prop where
  once : (trace (step c) ops r).2.countP (·.returns hash) ≤ 1
  first : ∀ pre a raw post, ops = pre ++ .inbound a raw :: post → FirstOn c hash e.outboundInterface pre a raw →
    .returned hash e.receivingInterface (passOn (hops raw) raw) ∈
      (step c (.inbound a raw) (trace (step c) pre r).1).2

/-- The first proof on the interface the packet went out on gets past the
filter, and no other got past it before. -/
def Unspent (c : Config) (r : Tables) (hash : Bytes) (e : ReverseEntry) (ops : List Op) : Prop :=
  ∀ pre a raw post, ops = pre ++ .inbound a raw :: post → FirstOn c hash e.outboundInterface pre a raw →
    spends c hash (trace (step c) pre r).1 (.inbound a raw) = true ∧ spent c hash pre r = false

-- ---------------------------------------------------------------------------
-- What leaves the entry alone
-- ---------------------------------------------------------------------------

/-- The entry is as it was, and no proof of the packet went back. -/
def Untouched (hash : Bytes) (r r' : Tables) (log : List Act) : Prop :=
  r'.reverseTable hash = r.reverseTable hash ∧ ∀ act ∈ log, act.returns hash = false

theorem untouched_composes : Composes (Untouched hash) where
  refl _ := ⟨rfl, by simp⟩
  comp h₁ h₂ := ⟨h₂.1.trans h₁.1, fun act hact => (List.mem_append.1 hact).elim (h₁.2 act) (h₂.2 act)⟩

theorem untouched_of_eq (h : r'.reverseTable = r.reverseTable) (hlog : ∀ act ∈ log, act.returns hash = false) :
    Untouched hash r r' log :=
  ⟨congrFun h hash, hlog⟩

theorem untouched_silent (h : r'.reverseTable = r.reverseTable) : Untouched hash r r' [] :=
  untouched_of_eq h (List.forall_mem_nil _)

theorem untouched_sent (interface : Nat) (raw : Bytes) : Meets (Untouched hash) (act id (.sent interface raw)) :=
  fun _ => untouched_of_eq rfl (by simp [Act.returns])

theorem untouched_keepForRepair {now wait : ℚ} {kind : HandshakeRepairKind} {interface : Nat} :
    Meets (Untouched hash) (keepForRepair now kind linkId raw interface wait) :=
  keepForRepair_meets untouched_composes fun _ _ _ _ _ _ _ => untouched_of_eq rfl (by simp [Act.returns])

theorem untouched_eachSlot {f : Tables → Slot → HandshakeRepair × List Act} (hf : Local f)
    (h : ∀ r i, ∀ act ∈ (f r i).2, act.returns hash = false) : Meets (Untouched hash) (eachSlot f) := by
  intro r
  rw [eachSlot_eq hf]
  refine untouched_of_eq rfl fun act hact => ?_
  obtain ⟨i, -, hact⟩ := List.mem_flatMap.1 hact
  exact h r i act hact

theorem untouched_repairAnswered (kind : HandshakeRepairKind) :
    Meets (Untouched hash) (repairAnswered kind linkId) := by
  refine untouched_eachSlot (clearAnswered_local _ _) fun r i act hact => ?_
  unfold clearAnswered at hact
  split at hact <;> simp_all [Act.returns]

theorem untouched_checkRepairs (now : ℚ) : Meets (Untouched hash) (checkRepairs now) := by
  refine untouched_eachSlot (checkRepair_local now) fun r i act hact => ?_
  simp only [checkRepair] at hact
  split at hact
  · simp at hact
  · split at hact <;> simp_all [Act.returns]

theorem untouched_enterLink (entry : LinkEntry) : Meets (Untouched hash) (enterLink linkId entry) := by
  intro r
  unfold enterLink
  split
  · exact untouched_composes.refl r
  · exact untouched_of_eq rfl (by simp [Act.returns])

theorem untouched_recordReverse {other : Bytes} (entry : ReverseEntry) (hne : other ≠ hash) :
    Meets (Untouched hash) (recordReverse other entry) := by
  intro r
  unfold recordReverse
  split
  · exact untouched_composes.refl r
  · exact ⟨Function.update_of_ne hne.symm _ _, by simp [Act.returns]⟩

theorem untouched_forward (hne : truncatedHash c.sha256 raw ≠ hash) : Meets (Untouched hash) (forward c a raw) := by
  refine forward_meets untouched_composes (fun route newRaw _ => ?_) fun route newRaw _ => ?_
  · exact forwardLinkrequest_meets untouched_composes untouched_sent (untouched_enterLink _)
      fun _ _ _ => untouched_keepForRepair
  · exact untouched_composes.andThen (untouched_recordReverse _ hne) (untouched_sent _ _)

theorem rememberHash_reverseTable (h : Bytes) (r : Tables) : (rememberHash h r).reverseTable = r.reverseTable := by
  obtain ⟨hashlist, heq⟩ := rememberHash_eq h r
  rw [heq]

theorem untouched_linkTransport : Meets (Untouched hash) (linkTransport c a raw) := by
  refine linkTransport_meets untouched_composes fun r e interface _ _ => ?_
  refine untouched_composes.andThen (untouched_composes.andThen (fun _ => ?_) fun r => ?_) ?_ r
  · exact untouched_of_eq rfl (by simp [Act.returns])
  · exact untouched_silent (rememberHash_reverseTable _ _)
  · split
    · exact untouched_repairAnswered _
    · exact untouched_composes.skip

theorem untouched_linkProof : Meets (Untouched hash) (linkProof c a raw) := by
  refine linkProof_meets untouched_composes (fun r e _ _ => ?_) fun r e raw' _ => ?_
  · exact untouched_composes.andThen (untouched_composes.andThen (fun _ => untouched_silent rfl)
      fun _ => untouched_of_eq rfl (by simp [Act.returns])) (untouched_repairAnswered _) r
  · unfold keepProof
    split
    · exact untouched_composes.refl r
    · exact untouched_composes.andThen (fun _ => untouched_silent rfl) untouched_keepForRepair r

-- ---------------------------------------------------------------------------
-- One step
-- ---------------------------------------------------------------------------

theorem accepts_nil {hashlist : List Bytes} (h : accepts c hashlist a raw = true) : accepts c [] a raw = true := by
  simp only [accepts, Bool.and_eq_true] at h ⊢
  refine ⟨h.1, ?_⟩
  have hp := h.2
  unfold packetFilter at hp ⊢
  simp only [List.not_mem_nil, not_false_eq_true, if_true]
  split_ifs at hp ⊢ <;> simp_all

/-- Everything before the proofs. -/
def before (c : Config) (a : Arrival) (raw : Bytes) : Step :=
  (quiet (remember c raw)).andThen
    (if handles c a raw then (forward c a raw).andThen (linkTransport c a raw) else skip)

theorem untouched_remember : Meets (Untouched hash) (quiet (remember c raw)) := by
  refine fun r => untouched_silent ?_
  rw [quiet_apply, remember]
  split
  · rfl
  · exact rememberHash_reverseTable _ r

theorem untouched_before (hne : truncatedHash c.sha256 raw ≠ hash) : Meets (Untouched hash) (before c a raw) := by
  refine untouched_composes.andThen untouched_remember ?_
  split
  · exact untouched_composes.andThen (untouched_forward hne) untouched_linkTransport
  · exact untouched_composes.skip

theorem inbound_eq (hacc : accepts c r.hashlist a raw = true) (hcache : answeredFromCache c a raw = false) :
    inbound c a raw r = (before c a raw).andThen (proofs c a raw) r := by
  simp [inbound, hacc, hcache, before, handle, andThen_apply]

theorem regularProof_none (h : r.reverseTable (destinationHash raw) = none) : regularProof a raw r = (r, []) := by
  simp [regularProof, h]

theorem regularProof_some (h : r.reverseTable (destinationHash raw) = some e) :
    regularProof a raw r =
      ({ r with reverseTable := Function.update r.reverseTable (destinationHash raw) none },
        if a.interface = e.outboundInterface then
          [.returned (destinationHash raw) e.receivingInterface (passOn (hops raw) raw)]
        else []) := by
  simp only [regularProof, h]
  split <;> rfl

theorem untouched_proofs
    (h : c.transportEnabled = true → packetType raw = PROOF → context raw ≠ LRPROOF → context raw ≠ RESOURCE_PRF →
      destinationHash raw ≠ hash) : Meets (Untouched hash) (proofs c a raw) := by
  unfold proofs
  split
  · next hp =>
    split
    · exact untouched_linkProof
    · next hl =>
      split
      · exact untouched_composes.skip
      · next hr =>
        intro r
        have hne := h hp.2 hp.1 hl hr
        cases hs : r.reverseTable (destinationHash raw) with
        | none =>
          rw [regularProof_none hs]
          exact untouched_composes.refl r
        | some e =>
          rw [regularProof_some hs]
          refine ⟨Function.update_of_ne hne.symm _ _, ?_⟩
          dsimp only
          split <;> simp [Act.returns, hne]
  · exact untouched_composes.skip

theorem spends_inbound {a : Arrival} :
    spends c hash r (.inbound a raw) = true ↔
      (c.transportEnabled = true ∧ packetType raw = PROOF ∧ context raw ≠ LRPROOF ∧ context raw ≠ RESOURCE_PRF) ∧
        destinationHash raw = hash ∧ accepts c r.hashlist a raw = true ∧ answeredFromCache c a raw = false := by
  simp only [spends, proofOf, Bool.and_eq_true, decide_eq_true_eq, Bool.not_eq_true']
  constructor
  · rintro ⟨⟨ht, ⟨⟨⟨⟨⟨-, hp⟩, hl⟩, hr⟩, hd⟩, hcache⟩⟩, hacc⟩
    exact ⟨⟨ht, hp, hl, hr⟩, hd, hacc, hcache⟩
  · rintro ⟨⟨ht, hp, hl, hr⟩, hd, hacc, hcache⟩
    exact ⟨⟨ht, ⟨⟨⟨⟨⟨accepts_nil hacc, hp⟩, hl⟩, hr⟩, hd⟩, hcache⟩⟩, hacc⟩

/-- The table holds this entry for the packet, or none. -/
def Holds (hash : Bytes) (e : ReverseEntry) (r : Tables) : Prop :=
  ∀ e', r.reverseTable hash = some e' → e' = e

/-- Nothing but a proof that gets past the filter touches the entry. -/
theorem untouched_step (hw : op.Within c hash e) (he : Holds hash e r)
    (h : spends c hash r op = false ∨ r.reverseTable hash = none) :
    Untouched hash r (step c op r).1 (step c op r).2 := by
  cases op with
  | inbound a raw =>
    rw [step]
    cases hacc : accepts c r.hashlist a raw with
    | false =>
      rw [inbound, hacc]
      exact untouched_composes.refl r
    | true =>
      cases hcache : answeredFromCache c a raw with
      | true =>
        simp only [inbound, hacc, hcache, if_true]
        exact untouched_composes.andThen untouched_remember untouched_composes.skip r
      | false =>
        rw [inbound_eq hacc hcache]
        have hbefore : Untouched hash r (before c a raw r).1 (before c a raw r).2 := untouched_before hw r
        refine untouched_composes.andThen_at hbefore ?_
        by_cases hs : spends c hash r (.inbound a raw) = true
        · obtain ⟨⟨ht, hp, hl, hr⟩, rfl, -, -⟩ := spends_inbound.1 hs
          have hnone := h.resolve_left (by simp [hs])
          have hproofs : proofs c a raw = regularProof a raw := by simp [proofs, hp, ht, hl, hr]
          rw [hproofs, regularProof_none (hbefore.1.trans hnone)]
          exact untouched_composes.refl _
        · refine untouched_proofs (fun ht hp hl hr hd => hs ?_) _
          exact spends_inbound.2 ⟨⟨ht, hp, hl, hr⟩, hd, hacc, hcache⟩
  | outbound h => exact untouched_silent (rememberHash_reverseTable _ _)
  | checkRepairs now => exact untouched_checkRepairs now r
  | cullHashlist => exact untouched_silent rfl
  | cullReverse now h =>
    refine ⟨?_, List.forall_mem_nil _⟩
    rw [step, quiet_apply, cullReverse]
    split
    · next hstale =>
      refine Function.update_of_ne ?_ _ _
      rintro rfl
      obtain ⟨e', he', hstale⟩ := (Option.any_eq_true _ _).1 hstale
      rw [he e' he', hw rfl] at hstale
      cases hstale
    · rfl
  | cullLink now linkId =>
    rw [step, cullLink]
    split
    · exact untouched_of_eq rfl (by simp [Act.returns])
    · exact untouched_composes.refl r

/-- A proof that gets past the filter takes the entry, and goes back if it came
the right way. -/
theorem spends_step {a : Arrival} (hw : Op.Within c hash e (.inbound a raw)) (he : r.reverseTable hash = some e)
    (h : spends c hash r (.inbound a raw) = true) :
    (step c (.inbound a raw) r).1.reverseTable hash = none ∧ ∃ log, (∀ act ∈ log, act.returns hash = false) ∧
      (step c (.inbound a raw) r).2 = log ++
        if a.interface = e.outboundInterface then [.returned hash e.receivingInterface (passOn (hops raw) raw)]
        else [] := by
  obtain ⟨⟨ht, hp, hl, hr⟩, rfl, hacc, hcache⟩ := spends_inbound.1 h
  have hbefore : Untouched _ r (before c a raw r).1 (before c a raw r).2 := untouched_before hw r
  have hproofs : proofs c a raw = regularProof a raw := by simp [proofs, hp, ht, hl, hr]
  rw [step, inbound_eq hacc hcache, andThen_apply, hproofs, regularProof_some (hbefore.1.trans he)]
  exact ⟨Function.update_self _ _ _, _, hbefore.2, rfl⟩

-- ---------------------------------------------------------------------------
-- Runs
-- ---------------------------------------------------------------------------

/-- What goes back is paid for with the entry. -/
def Paid (hash : Bytes) (r r' : Tables) (log : List Act) : Prop :=
  log.countP (·.returns hash) + (r'.reverseTable hash).isSome.toNat ≤ (r.reverseTable hash).isSome.toNat

theorem paid_composes : Composes (Paid hash) where
  refl r := by simp [Paid]
  comp h₁ h₂ := by
    simp only [Paid, List.countP_append] at h₁ h₂ ⊢
    omega

theorem Untouched.paid (h : Untouched hash r r' log) : Paid hash r r' log := by
  have hzero : log.countP (·.returns hash) = 0 := List.countP_eq_zero.2 fun act hact => by simp [h.2 act hact]
  rw [Paid, hzero, h.1, Nat.zero_add]

theorem step_entry (hw : op.Within c hash e) (he : Holds hash e r) :
    (step c op r).1.reverseTable hash = (if spends c hash r op then none else r.reverseTable hash) ∧
      Paid hash r (step c op r).1 (step c op r).2 := by
  cases h : spends c hash r op with
  | false =>
    have hun := untouched_step hw he (.inl h)
    exact ⟨hun.1, hun.paid⟩
  | true =>
    cases hr : r.reverseTable hash with
    | none =>
      have hun := untouched_step hw he (.inr hr)
      exact ⟨hun.1.trans hr, hun.paid⟩
    | some e' =>
      obtain rfl := he e' hr
      cases op with
      | inbound a raw =>
        obtain ⟨hnone, log, hlog, heq⟩ := spends_step hw hr h
        have hzero : log.countP (·.returns hash) = 0 := List.countP_eq_zero.2 fun act hact => by simp [hlog act hact]
        refine ⟨hnone, ?_⟩
        rw [Paid, hnone, hr, heq, List.countP_append, hzero]
        split <;> simp [Act.returns]
      | _ => cases h

/-- The entry is there until a proof gets past the filter. -/
theorem trace_entry (hw : ∀ op ∈ ops, op.Within c hash e) (he : Holds hash e r) :
    (trace (step c) ops r).1.reverseTable hash = (if spent c hash ops r then none else r.reverseTable hash) ∧
      Paid hash r (trace (step c) ops r).1 (trace (step c) ops r).2 := by
  induction ops generalizing r with
  | nil => exact ⟨rfl, paid_composes.refl r⟩
  | cons op ops ih =>
    obtain ⟨hstep, hpaid⟩ := step_entry (hw op (by simp)) he
    have he' : Holds hash e (step c op r).1 := by
      intro e' h
      rw [hstep] at h
      split at h
      · cases h
      · exact he e' h
    obtain ⟨hrest, hpaid'⟩ := ih (fun o ho => hw o (List.mem_cons_of_mem _ ho)) he'
    refine ⟨?_, paid_composes.comp hpaid hpaid'⟩
    rw [trace_cons, hrest, hstep, spent]
    cases spends c hash r op <;> cases spent c hash ops (step c op r).1 <;> rfl

theorem holds_of_forwards {route : Route} (hf : Forwards c r a raw route) :
    (inbound c a raw r).1.reverseTable (truncatedHash c.sha256 raw) =
      some ⟨a.interface, route.interface, a.now⟩ := by
  rw [inbound_eq hf.accepted hf.handled.2, andThen_apply]
  rw [(untouched_proofs (fun _ _ _ _ => hf.not_own) _).1, before, if_pos hf.handled.1, andThen_apply, andThen_apply,
    (untouched_linkTransport _).1]
  have hnone : (remember c raw r).reverseTable (truncatedHash c.sha256 raw) = none :=
    (untouched_remember r).1.trans hf.fresh
  rw [quiet_apply, forward, hf.routed]
  simp only [hf.other, if_false, forwardOther, andThen_apply, act_apply, recordReverse, hnone]
  exact Function.update_self _ _ _

/-- On the interface the packet went out on, a proof goes back if it gets past
the filter and none did before. -/
theorem returned_iff {pre : List Op} {a : Arrival} (hw : ∀ op ∈ pre, op.Within c hash e)
    (hwa : Op.Within c hash e (.inbound a raw)) (hr : r.reverseTable hash = some e)
    (ha : a.interface = e.outboundInterface) :
    .returned hash e.receivingInterface (passOn (hops raw) raw) ∈ (step c (.inbound a raw) (trace (step c) pre r).1).2 ↔
      spends c hash (trace (step c) pre r).1 (.inbound a raw) = true ∧ spent c hash pre r = false := by
  have he : Holds hash e r := fun e' h => (Option.some.inj (hr.symm.trans h)).symm
  have hentry := (trace_entry hw he).1
  have he' : Holds hash e (trace (step c) pre r).1 := by
    intro e' h
    rw [hentry] at h
    split at h
    · cases h
    · exact he e' h
  generalize (trace (step c) pre r).1 = r₁ at hentry he' ⊢
  constructor
  · intro hmem
    by_contra hn
    have hun : Untouched hash r₁ (step c (.inbound a raw) r₁).1 (step c (.inbound a raw) r₁).2 := by
      refine untouched_step hwa he' ?_
      cases hs : spends c hash r₁ (.inbound a raw) with
      | false => exact .inl rfl
      | true =>
        refine .inr ?_
        rw [hentry, if_pos]
        simpa [hs] using hn
    simpa [Act.returns] using hun.2 _ hmem
  · rintro ⟨hs, hspent⟩
    rw [hspent, hr] at hentry
    obtain ⟨-, log, -, heq⟩ := spends_step hwa hentry hs
    simp [heq, ha]

/-- One proof at most goes back to where the packet came from, and the first
one that arrives where it went is that one, exactly if the filter lets that one
through and none before it. -/
theorem returnedOnce_iff (c : Config) (r : Tables) (a : Arrival) (raw : Bytes) (route : Route) (ops : List Op)
    (hf : Forwards c r a raw route)
    (hw : ∀ op ∈ ops, op.Within c (truncatedHash c.sha256 raw) ⟨a.interface, route.interface, a.now⟩) :
    ReturnedOnce c (inbound c a raw r).1 (truncatedHash c.sha256 raw) ⟨a.interface, route.interface, a.now⟩ ops ↔
      Unspent c (inbound c a raw r).1 (truncatedHash c.sha256 raw) ⟨a.interface, route.interface, a.now⟩ ops := by
  have hr := holds_of_forwards hf
  generalize (inbound c a raw r).1 = r₁ at hr ⊢
  generalize truncatedHash c.sha256 raw = hash at hr hw ⊢
  generalize (⟨a.interface, route.interface, a.now⟩ : ReverseEntry) = e at hr hw ⊢
  have hiff : ∀ pre a raw post, ops = pre ++ .inbound a raw :: post → FirstOn c hash e.outboundInterface pre a raw →
      (.returned hash e.receivingInterface (passOn (hops raw) raw) ∈
          (step c (.inbound a raw) (trace (step c) pre r₁).1).2 ↔
        spends c hash (trace (step c) pre r₁).1 (.inbound a raw) = true ∧ spent c hash pre r₁ = false) := by
    rintro pre a raw post rfl hfirst
    exact returned_iff (fun op hop => hw op (List.mem_append_left _ hop)) (hw _ (by simp)) hr hfirst.on
  constructor
  · intro h pre a raw post hsplit hfirst
    exact (hiff pre a raw post hsplit hfirst).1 (h.first pre a raw post hsplit hfirst)
  · intro h
    constructor
    · have he : Holds hash e r₁ := fun e' h => (Option.some.inj (hr.symm.trans h)).symm
      have hpaid := (trace_entry hw he).2
      rw [Paid, hr] at hpaid
      exact (Nat.le_add_right _ _).trans hpaid
    · intro pre a raw post hsplit hfirst
      exact (hiff pre a raw post hsplit hfirst).2 (h pre a raw post hsplit hfirst)

-- ---------------------------------------------------------------------------
-- Two runs
-- ---------------------------------------------------------------------------

/-- A packet in transport through the node, from interface 1 to interface 2. -/
def passing : Bytes := 0x50 :: 0 :: (.replicate 16 9 ++ .replicate 16 1 ++ [0, 7])

def atOne : Arrival := { now := 0, interface := 1, peeked := some (oneHop 2 8) }

def proofOfPassing : Bytes := 0x03 :: 0 :: 0 :: (.replicate 15 1 ++ [0, 5])

def proofOn (interface : Nat) : Op := .inbound { now := 1, interface } proofOfPassing

theorem passing_forwards : Forwards (smallNode 0) {} atOne passing (oneHop 2 8) :=
  ⟨by decide, ⟨by decide, by decide⟩, rfl, by decide, rfl, by decide⟩

theorem passing_within (i j : Nat) :
    ∀ op ∈ [proofOn i, proofOn j], op.Within (smallNode 0) (truncatedHash id passing) ⟨1, 2, 0⟩ := by
  simp only [List.mem_cons, List.not_mem_nil, or_false, forall_eq_or_imp, forall_eq, proofOn, Op.Within]
  exact ⟨by decide, by decide⟩

/-- Two copies of the proof, both on the right interface: the first goes back. -/
theorem returnedOnce_iff_twice :
    ReturnedOnce (smallNode 0) (inbound (smallNode 0) atOne passing {}).1 (truncatedHash id passing) ⟨1, 2, 0⟩
      [proofOn 2, proofOn 2] := by
  refine (returnedOnce_iff (smallNode 0) {} atOne passing (oneHop 2 8) _ passing_forwards (passing_within 2 2)).2 ?_
  intro pre a raw post hsplit hfirst
  match pre with
  | [] =>
    obtain ⟨⟨rfl, rfl⟩, -⟩ : (_ ∧ _) ∧ _ := by simpa [proofOn] using hsplit
    exact ⟨by decide, rfl⟩
  | op :: pre =>
    obtain rfl : op = proofOn 2 := by simp_all
    exact absurd rfl (hfirst.first { now := 1, interface := 2 } proofOfPassing (by simp [proofOn]) (by decide))

/-- A copy on another interface takes the entry, and the proof is lost. -/
theorem proof_spent_elsewhere :
    ¬ ∀ c r a raw route ops, Forwards c r a raw route →
      (∀ op ∈ ops, op.Within c (truncatedHash c.sha256 raw) ⟨a.interface, route.interface, a.now⟩) →
      ReturnedOnce c (inbound c a raw r).1 (truncatedHash c.sha256 raw) ⟨a.interface, route.interface, a.now⟩ ops := by
  intro h
  have hr := h (smallNode 0) {} atOne passing (oneHop 2 8) [proofOn 3, proofOn 2] passing_forwards (passing_within 3 2)
  have hfirst : FirstOn (smallNode 0) (truncatedHash id passing) 2 [proofOn 3] { now := 1, interface := 2 } proofOfPassing := by
    refine ⟨by decide, rfl, ?_⟩
    simp [proofOn]
  have hback := hr.first [proofOn 3] _ _ [] rfl hfirst
  revert hback
  decide

end MicroReticulum.Relay
