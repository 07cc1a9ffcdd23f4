import MicroReticulum.Transport.Relay

/-!
# Handshake repair

A kept link request or link proof is resent once at most, while its answer has
not come by and its link is in the table, and its slot comes free again.
-/

namespace MicroReticulum.Relay

open Wire
open Transport (passOn)
open Lib.Log Lib.Log.Transition

variable {c : Config} {r r' : Tables} {a : Arrival} {raw linkId : Bytes} {op : Op} {ops : List Op} {e : LinkEntry}
  {log : List Act} {act : Act} {i : Slot} {h : HandshakeRepair} {exempt : HandshakeRepair → Bool}
  {kind : HandshakeRepairKind}

-- ---------------------------------------------------------------------------
-- What a log of repairs says
-- ---------------------------------------------------------------------------

/-- A link request is answered by its proof passing back, a link proof by
anything but a proof passing over the link. -/
def Act.answers (h : HandshakeRepair) : Act → Bool
  | .proved linkId _ _ => h.kind = .linkrequest ∧ h.linkId = linkId
  | .carried linkId _ raw => packetType raw ≠ PROOF ∧ h.kind = .linkproof ∧ h.linkId = linkId
  | _ => false

/-- The slot whose contents change. -/
def Act.slot : Act → Option Slot
  | .kept i _ | .freed i | .resent i _ => some i
  | _ => none

/-- Neither answered, nor resent, nor out of its slot. -/
def Waiting (i : Slot) (h : HandshakeRepair) (act : Act) : Prop := act.answers h = false ∧ act.slot ≠ some i

def KeepsNoProof (linkId : Bytes) (act : Act) : Prop :=
  act ≠ .gone linkId ∧ ∀ i h, act = .kept i h → h.kind = .linkproof → h.linkId ≠ linkId

/-- What is resent was kept in that slot and has waited there since, and its
link is in the table. A proof that is kept is the first since the link's entry
was made. -/
structure Allowed (log : List Act) (act : Act) : Prop where
  resent : ∀ i h, act = .resent i h → Since (· = .kept i h) (Waiting i h) log ∧
    Since (· = .entered h.linkId) (· ≠ .gone h.linkId) log
  kept : ∀ i h, act = .kept i h → h.kind = .linkproof → Since (· = .entered h.linkId) (KeepsNoProof h.linkId) log

/-- No timer pass comes at or after the time. -/
def NoPassFrom (due : ℚ) (ops : List Op) : Prop := ∀ now, .checkRepairs now ∈ ops → now < due

/-- The first pass from the deadline on resends or frees; a pass its wait later frees. -/
structure Repairs (c : Config) (ops : List Op) : Prop where
  allowed : Always Allowed (trace (step c) ops {}).2
  freed : ∀ start pre first mid second post i h,
    ops = start ++ (pre ++ .checkRepairs first :: (mid ++ .checkRepairs second :: post)) →
      (trace (step c) start {}).1.repairs i = h → h.kind ≠ .none → NoPassFrom h.due pre → h.due ≤ first →
        first + h.wait ≤ second →
          .freed i ∈ (trace (step c) (pre ++ .checkRepairs first :: (mid ++ .checkRepairs second :: post))
            (trace (step c) start {}).1).2

-- ---------------------------------------------------------------------------
-- The invariant
-- ---------------------------------------------------------------------------

/-- What the slots and the link table hold is what the log says of them, but
for slots whose contents are exempt: those have just been answered. -/
structure Orderly (exempt : HandshakeRepair → Bool) (log : List Act) (r : Tables) : Prop where
  slots : ∀ i, exempt (r.repairs i) = false → (r.repairs i).kind ≠ .none → (r.repairs i).resent = false →
    Since (· = .kept i (r.repairs i)) (Waiting i (r.repairs i)) log
  entries : ∀ l e, r.linkTable l = some e → Since (· = .entered l) (· ≠ .gone l) log
  proofs : ∀ l e, r.linkTable l = some e → e.proofKept = false → Since (· = .entered l) (KeepsNoProof l) log
  allowed : Always Allowed log

/-- One more entry in the log. -/
theorem Orderly.concat (ho : Orderly exempt log r) {exempt' : HandshakeRepair → Bool} (ha : Allowed log act)
    (hslots : ∀ i, exempt' (r'.repairs i) = false → (r'.repairs i).kind ≠ .none → (r'.repairs i).resent = false →
      act = .kept i (r'.repairs i) ∨
        r'.repairs i = r.repairs i ∧ exempt (r.repairs i) = false ∧ Waiting i (r.repairs i) act)
    (hentries : ∀ l e, r'.linkTable l = some e → act = .entered l ∨
      act ≠ .gone l ∧ (∃ e₀, r.linkTable l = some e₀ ∧ (e.proofKept = false → e₀.proofKept = false)) ∧
        (e.proofKept = false → KeepsNoProof l act)) :
    Orderly exempt' (log ++ [act]) r' := by
  constructor
  · intro i hex hk hres
    obtain rfl | ⟨heq, hex₀, hw⟩ := hslots i hex hk hres
    · exact since_last rfl
    · rw [heq] at hk hres ⊢
      exact (ho.slots i hex₀ hk hres).concat hw
  · intro l e he
    obtain rfl | ⟨hne, ⟨e₀, he₀, -⟩, -⟩ := hentries l e he
    · exact since_last rfl
    · exact (ho.entries l e₀ he₀).concat hne
  · intro l e he hp
    obtain rfl | ⟨-, ⟨e₀, he₀, hp₀⟩, hkp⟩ := hentries l e he
    · exact since_last rfl
    · exact (ho.proofs l e₀ he₀ (hp₀ hp)).concat (hkp hp)
  · exact always_concat.2 ⟨ho.allowed, ha⟩

/-- A change nothing is said about: entries may have been updated. -/
theorem Orderly.silent (ho : Orderly exempt log r) (hr : r'.repairs = r.repairs)
    (hentries : ∀ l e, r'.linkTable l = some e →
      ∃ e₀, r.linkTable l = some e₀ ∧ (e.proofKept = false → e₀.proofKept = false)) : Orderly exempt log r' := by
  constructor
  · intro i
    rw [hr]
    exact ho.slots i
  · intro l e he
    obtain ⟨e₀, he₀, -⟩ := hentries l e he
    exact ho.entries l e₀ he₀
  · intro l e he hp
    obtain ⟨e₀, he₀, hp₀⟩ := hentries l e he
    exact ho.proofs l e₀ he₀ (hp₀ hp)
  · exact ho.allowed

theorem allowed_of_slot (h : act.slot = none) : Allowed log act := by
  constructor <;> rintro i h' rfl <;> cases h

theorem keepsNoProof_of_slot (h : act.slot = none) (hne : act ≠ .gone linkId) : KeepsNoProof linkId act := by
  refine ⟨hne, ?_⟩
  rintro i h' rfl
  cases h

/-- An act that is about no slot and no entry. -/
theorem Orderly.said (ho : Orderly exempt log r) (hslot : act.slot = none) (hgone : ∀ l, act ≠ .gone l) :
    Orderly (fun h => exempt h || act.answers h) (log ++ [act]) r := by
  refine ho.concat (allowed_of_slot hslot) (fun i hex _ _ => .inr ⟨rfl, ?_⟩) fun l e he => .inr ?_
  · obtain ⟨hex, hans⟩ := Bool.or_eq_false_iff.1 hex
    exact ⟨hex, hans, by simp [hslot]⟩
  · exact ⟨hgone l, ⟨e, he, id⟩, fun _ => keepsNoProof_of_slot hslot (hgone l)⟩

-- ---------------------------------------------------------------------------
-- One act
-- ---------------------------------------------------------------------------

/-- The invariant, between steps. -/
def Kept : Tables → Tables → List Act → Prop := Keeps (Orderly fun _ => false)

theorem kept_composes : Composes Kept := keeps_composes _

theorem kept_silent (hr : r'.repairs = r.repairs) (hl : r'.linkTable = r.linkTable) : Kept r r' [] := by
  intro log ho
  rw [List.append_nil]
  exact ho.silent hr fun l e he => ⟨e, hl ▸ he, id⟩

/-- An act about one slot, which is left empty, resent or just filled. -/
theorem Orderly.atSlot (ho : Orderly exempt log r) (ha : Allowed log act) (hi : act.slot = some i)
    (hnew : h.kind ≠ .none → h.resent = false → act = .kept i h)
    (hproof : ∀ l e, r.linkTable l = some e → e.proofKept = false → KeepsNoProof l act) :
    Orderly exempt (log ++ [act]) (setRepair i h r) := by
  have hans : ∀ h', act.answers h' = false := by
    intro h'
    cases act <;> first | rfl | cases hi
  refine ho.concat ha (fun j hex hk hres => ?_) fun l e he => .inr ⟨?_, ⟨e, he, id⟩, hproof l e he⟩
  · by_cases hj : j = i
    · subst hj
      rw [setRepair_self] at hk hres ⊢
      exact .inl (hnew hk hres)
    · rw [setRepair_of_ne hj] at hex ⊢
      exact .inr ⟨rfl, hex, hans _, by simpa [hi] using Ne.symm hj⟩
  · rintro rfl
    cases hi

theorem Orderly.free (ho : Orderly exempt log r) : Orderly exempt (log ++ [.freed i]) (setRepair i {} r) :=
  ho.atSlot ⟨by rintro j h ⟨⟩, by rintro j h ⟨⟩⟩ rfl (fun hk => absurd rfl hk)
    fun _ _ _ _ => ⟨by simp, by rintro j h ⟨⟩⟩

theorem orderly_clear (kind : HandshakeRepairKind) (linkId : Bytes) (i : Slot) :
    Meets (Keeps (Orderly exempt)) (Relay.atSlot (clearAnswered kind linkId) i) := by
  intro r log ho
  rw [Relay.atSlot, clearAnswered]
  split
  · exact ho.free
  · simpa using ho

/-- Once the answered slots are cleared, none is exempt any more. -/
theorem Orderly.cleared (kind : HandshakeRepairKind) (linkId : Bytes)
    (ho : Orderly (fun h => h.kind = kind ∧ h.linkId = linkId) log r) :
    Orderly (fun _ => false) (log ++ (repairAnswered kind linkId r).2) (repairAnswered kind linkId r).1 := by
  have hclear : Orderly _ (log ++ (repairAnswered kind linkId r).2) (repairAnswered kind linkId r).1 :=
    eachSlot_meets (keeps_composes _) (orderly_clear kind linkId) r log ho
  refine ⟨fun i _ hk hres => ?_, hclear.entries, hclear.proofs, hclear.allowed⟩
  refine hclear.slots i ?_ hk hres
  rw [repairAnswered_eq] at hk ⊢
  rw [decide_eq_false_iff_not]
  intro hm
  dsimp only at hm hk
  unfold clearAnswered at hm hk
  split at hm
  · next hc => exact hk (by rw [if_pos hc])
  · next hc => exact hc hm

theorem kept_checkRepair (now : ℚ) (i : Slot) : Meets Kept (Relay.atSlot (checkRepair now) i) := by
  intro r log ho
  rw [Relay.atSlot, checkRepair]
  dsimp only
  split
  · simpa using ho
  · next hdue =>
    split
    · exact ho.free
    · next hgo =>
      obtain ⟨hk, -⟩ := not_or.1 hdue
      obtain ⟨hres, hsome⟩ := not_or.1 hgo
      rw [Bool.not_eq_true] at hres
      obtain ⟨e, he⟩ : ∃ e, r.linkTable (r.repairs i).linkId = some e := by
        simpa [Option.isNone_iff_eq_none, Option.ne_none_iff_exists'] using hsome
      refine ho.atSlot ⟨?_, by rintro j h ⟨⟩⟩ rfl (fun _ hres' => by cases hres')
        fun _ _ _ _ => ⟨by simp, by rintro j h ⟨⟩⟩
      rintro j h ⟨⟩
      exact ⟨ho.slots i rfl hk hres, ho.entries _ e he⟩

theorem kept_enterLink (linkId : Bytes) (entry : LinkEntry) : Meets Kept (enterLink linkId entry) := by
  intro r
  unfold enterLink
  split
  · exact kept_composes.refl r
  · next hnone =>
    intro log ho
    refine ho.concat (allowed_of_slot rfl) (fun i hex _ _ => .inr ⟨rfl, rfl, rfl, by simp [Act.slot]⟩) ?_
    intro l e he
    rw [act_apply] at he
    by_cases hl : l = linkId
    · exact .inl (by rw [hl])
    · rw [setLink_of_ne hl] at he
      exact .inr ⟨by simp, ⟨e, he, id⟩, fun _ => keepsNoProof_of_slot rfl (by simp)⟩

theorem kept_cullLink (now : ℚ) (linkId : Bytes) : Meets Kept (cullLink now linkId) := by
  intro r
  unfold cullLink
  split
  · intro log ho
    refine ho.concat (allowed_of_slot rfl) (fun i hex _ _ => .inr ⟨rfl, rfl, rfl, by simp [Act.slot]⟩) ?_
    intro l e he
    rw [act_apply] at he
    by_cases hl : l = linkId
    · subst hl
      simp at he
    · rw [setLink_of_ne hl] at he
      have hne : (.gone linkId : Act) ≠ .gone l := by simpa using Ne.symm hl
      exact .inr ⟨hne, ⟨e, he, id⟩, fun _ => keepsNoProof_of_slot rfl hne⟩
  · exact kept_composes.refl r

-- ---------------------------------------------------------------------------
-- One step
-- ---------------------------------------------------------------------------

theorem kept_said (hslot : act.slot = none) (hgone : ∀ l, act ≠ .gone l) (hans : ∀ h, act.answers h = false) :
    Meets Kept (Transition.act id act) := by
  intro r log ho
  simpa [hans] using ho.said hslot hgone

/-- An entry of the table put back with another time, or validated. -/
theorem Orderly.relink (ho : Orderly exempt log r) {e' : LinkEntry} (he : r.linkTable linkId = some e)
    (hp : e'.proofKept = false → e.proofKept = false) : Orderly exempt log (setLink linkId (some e') r) := by
  refine ho.silent rfl fun l e₁ he₁ => ?_
  by_cases hl : l = linkId
  · subst hl
    obtain rfl : e' = e₁ := by simpa using he₁
    exact ⟨e, he, hp⟩
  · exact ⟨e₁, (setLink_of_ne hl _ _).symm.trans he₁, id⟩

theorem Orderly.rememberHash (ho : Orderly exempt log r) (hash : Bytes) :
    Orderly exempt log (rememberHash hash r) := by
  obtain ⟨hashlist, heq⟩ := rememberHash_eq hash r
  rw [heq]
  exact ho.silent rfl fun l e he => ⟨e, he, id⟩

theorem kept_carry (interface : Nat) (he : r.linkTable (destinationHash raw) = some e) :
    Kept r (carry c a e interface raw r).1 (carry c a e interface raw r).2 := by
  intro log ho
  have hsaid : Orderly _ (log ++ [.carried (destinationHash raw) interface raw]) r := ho.said rfl (by simp)
  have htouch : Orderly _ _ (setLink (destinationHash raw) (some { e with timestamp := a.now }) r) :=
    hsaid.relink he id
  have hlink := htouch.rememberHash (packetHash c.sha256 raw)
  rw [carry, andThen_apply, andThen_apply, act_apply, quiet_apply, Function.comp_apply, id_eq]
  dsimp only
  split
  · next hp =>
    simp only [Bool.false_or, Act.answers, hp, ne_eq, not_false_eq_true, true_and] at hlink
    simpa using hlink.cleared .linkproof (destinationHash raw)
  · next hp => simpa [Act.answers, hp] using hlink

theorem kept_passBack (newRaw : Bytes) (he : r.linkTable linkId = some e) :
    Kept r (passBack e linkId newRaw r).1 (passBack e linkId newRaw r).2 := by
  intro log ho
  have hlink : Orderly _ log (setLink linkId (some { e with validated := true }) r) := ho.relink he id
  have hsaid : Orderly _ (log ++ [.proved linkId e.receivingInterface newRaw]) _ := hlink.said rfl (by simp)
  simp only [Bool.false_or, Act.answers] at hsaid
  rw [passBack, andThen_apply, andThen_apply, quiet_apply, act_apply, id_eq]
  simpa using hsaid.cleared .linkrequest linkId

theorem kept_keepProof (newRaw : Bytes) (he : r.linkTable linkId = some { e with validated := true }) :
    Kept r (keepProof c a e linkId newRaw r).1 (keepProof c a e linkId newRaw r).2 := by
  unfold keepProof
  split
  · exact kept_composes.refl r
  · next hp =>
    rw [Bool.not_eq_true] at hp
    intro log ho
    have hfirst := ho.proofs linkId _ he hp
    have hlink : Orderly _ log (setLink linkId (some { e with validated := true, proofKept := true }) r) :=
      ho.relink he (by simp)
    have hmark : (setLink linkId (some { e with validated := true, proofKept := true }) r).linkTable linkId =
        some { e with validated := true, proofKept := true } := setLink_self _ _ _
    rw [andThen_apply, quiet_apply, List.nil_append]
    unfold keepForRepair
    split
    · simpa using hlink
    · refine hlink.atSlot ⟨by rintro j h ⟨⟩, ?_⟩ rfl (fun _ _ => rfl) fun l e' he' hp' => ⟨by simp, ?_⟩
      · rintro j h ⟨⟩ -
        exact hfirst
      · rintro j h ⟨⟩ - rfl
        obtain rfl := Option.some.inj (hmark.symm.trans he')
        cases hp'

theorem kept_forward : Meets Kept (forward c a raw) := by
  have hsent : ∀ interface raw, Meets Kept (Transition.act id (.sent interface raw)) :=
    fun _ _ => kept_said rfl (by simp) fun _ => rfl
  refine forward_meets kept_composes (fun route newRaw _ => ?_) fun route newRaw _ => ?_
  · refine forwardLinkrequest_meets kept_composes hsent (kept_enterLink _ _) fun raw' interface wait => ?_
    refine keepForRepair_meets kept_composes fun r i h _ hk hl hres log ho => ?_
    refine ho.atSlot ⟨by rintro j h' ⟨⟩, ?_⟩ rfl (fun _ _ => rfl) fun _ _ _ _ => ⟨by simp, ?_⟩
    · rintro j h' ⟨⟩ hproof
      cases hk.symm.trans hproof
    · rintro j h' ⟨⟩ hproof
      cases hk.symm.trans hproof
  · refine kept_composes.andThen (fun r => ?_) (hsent _ _)
    unfold recordReverse
    split
    · exact kept_composes.refl r
    · exact kept_silent rfl rfl

theorem kept_reverse (r : Tables) (table : Bytes → Option ReverseEntry) :
    Kept r { r with reverseTable := table } [] := kept_silent rfl rfl

theorem kept_regularProof : Meets Kept (regularProof a raw) := by
  intro r
  unfold regularProof
  dsimp only
  split
  · exact kept_composes.refl r
  · split
    · next e _ _ =>
      have hsaid : Meets Kept (Transition.act id (.returned (destinationHash raw) e.receivingInterface
        (passOn (hops raw) raw))) := kept_said rfl (by simp) fun _ => rfl
      exact kept_composes.comp (kept_reverse r _) (hsaid _)
    · exact kept_reverse r _

theorem kept_step (op : Op) : Meets Kept (step c op) := by
  cases op with
  | inbound a raw =>
    refine inbound_meets kept_composes (fun _ _ => kept_silent rfl rfl) kept_forward ?_ ?_
    · exact linkTransport_meets kept_composes fun r e interface he _ => kept_carry interface he
    · refine proofs_meets kept_composes ?_ kept_regularProof
      exact linkProof_meets kept_composes (fun r e he _ => kept_passBack _ he) fun r e raw' he => kept_keepProof _ he
  | outbound hash => exact fun r log ho => by simpa [step] using ho.rememberHash hash
  | checkRepairs now => exact eachSlot_meets kept_composes (kept_checkRepair now)
  | cullHashlist => exact fun _ => kept_silent rfl rfl
  | cullReverse now hash =>
    intro r
    rw [step, quiet_apply, cullReverse]
    split
    · exact kept_reverse r _
    · exact kept_composes.refl r
  | cullLink now linkId => exact kept_cullLink now linkId

theorem orderly_start : Orderly (fun _ => false) [] {} :=
  ⟨fun _ _ hk => absurd rfl hk, nofun, nofun, always_nil⟩

-- ---------------------------------------------------------------------------
-- The timer
-- ---------------------------------------------------------------------------

/-- The slot stays as it is, or is freed. -/
def Lasts (i : Slot) (h : HandshakeRepair) (r r' : Tables) (log : List Act) : Prop :=
  r.repairs i = h → .freed i ∈ log ∨ r'.repairs i = h

theorem lasts_composes : Composes (Lasts i h) where
  refl _ hr := .inr hr
  comp h₁ h₂ hr := by
    obtain hf | hr := h₁ hr
    · exact .inl (List.mem_append_left _ hf)
    · exact (h₂ hr).imp_left (List.mem_append_right _)

theorem lasts_of_repairs (hr : r'.repairs = r.repairs) : Lasts i h r r' log := fun h => .inr (hr ▸ h)

theorem lasts_keepForRepair (hk : h.kind ≠ .none) {now wait : ℚ} {interface : Nat} :
    Meets (Lasts i h) (keepForRepair now kind linkId raw interface wait) := by
  refine keepForRepair_meets lasts_composes fun r j h' hfree _ _ _ hr => .inr ?_
  rw [setRepair_of_ne, hr]
  rintro rfl
  exact hk (hr ▸ hfree)

theorem lasts_repairAnswered (kind : HandshakeRepairKind) : Meets (Lasts i h) (repairAnswered kind linkId) := by
  intro r hr
  rw [repairAnswered_eq]
  by_cases hm : (r.repairs i).kind = kind ∧ (r.repairs i).linkId = linkId
  · refine .inl (List.mem_flatMap.2 ⟨i, List.mem_finRange i, ?_⟩)
    simp [clearAnswered, hm]
  · right
    simpa [clearAnswered, hm] using hr

/-- What a timer pass does to a slot. -/
theorem checkRepairs_spec (now : ℚ) (r : Tables) (i : Slot) :
    (checkRepairs now r).1.repairs i = (checkRepair now r i).1 ∧
      ∀ act ∈ (checkRepair now r i).2, act ∈ (checkRepairs now r).2 := by
  rw [checkRepairs, eachSlot_eq (checkRepair_local now)]
  exact ⟨rfl, fun act hact => List.mem_flatMap.2 ⟨i, List.mem_finRange i, hact⟩⟩

theorem lasts_checkRepairs {now : ℚ} (hnow : now < h.due ∨ h.resent = true) :
    Meets (Lasts i h) (checkRepairs now) := by
  rintro r rfl
  obtain ⟨heq, hmem⟩ := checkRepairs_spec now r i
  by_cases hd : now < (r.repairs i).due
  · exact .inr (by simp [heq, checkRepair, hd])
  · by_cases hk : (r.repairs i).kind = .none
    · exact .inr (by simp [heq, checkRepair, hk])
    · exact .inl (hmem _ (by simp [checkRepair, hd, hk, hnow.resolve_left hd]))

theorem lasts_forward (hk : h.kind ≠ .none) : Meets (Lasts i h) (forward c a raw) := by
  refine forward_meets lasts_composes (fun route newRaw _ => ?_) fun route newRaw _ => ?_
  · refine forwardLinkrequest_meets lasts_composes (fun _ _ _ => lasts_of_repairs rfl) (fun r => ?_)
      fun _ _ _ => lasts_keepForRepair hk
    unfold enterLink
    split <;> exact lasts_of_repairs rfl
  · refine lasts_composes.andThen (fun r => ?_) fun _ => lasts_of_repairs rfl
    unfold recordReverse
    split <;> exact lasts_of_repairs rfl

theorem lasts_linkTransport : Meets (Lasts i h) (linkTransport c a raw) := by
  refine linkTransport_meets lasts_composes fun r e interface _ _ => ?_
  refine lasts_composes.andThen (lasts_composes.andThen (fun _ => lasts_of_repairs rfl) fun r => ?_) ?_ r
  · obtain ⟨hashlist, heq⟩ := rememberHash_eq (packetHash c.sha256 raw)
      (setLink (destinationHash raw) (some { e with timestamp := a.now }) r)
    rw [quiet_apply, Function.comp_apply, heq]
    exact lasts_of_repairs rfl
  · split
    · exact lasts_repairAnswered _
    · exact lasts_composes.skip

theorem lasts_linkProof (hk : h.kind ≠ .none) : Meets (Lasts i h) (linkProof c a raw) := by
  refine linkProof_meets lasts_composes (fun r e _ _ => ?_) fun r e raw' _ => ?_
  · exact lasts_composes.andThen (lasts_composes.andThen (fun _ => lasts_of_repairs rfl)
      fun _ => lasts_of_repairs rfl) (lasts_repairAnswered _) r
  · unfold keepProof
    split
    · exact lasts_composes.refl r
    · exact lasts_composes.andThen (fun _ => lasts_of_repairs rfl) (lasts_keepForRepair hk) r

theorem lasts_regularProof : Meets (Lasts i h) (regularProof a raw) := by
  intro r
  unfold regularProof
  dsimp only
  split
  · exact lasts_composes.refl r
  · split <;> exact lasts_of_repairs rfl

theorem lasts_step (hk : h.kind ≠ .none) (hop : ∀ now, op = .checkRepairs now → now < h.due ∨ h.resent = true) :
    Meets (Lasts i h) (step c op) := by
  cases op with
  | inbound a raw =>
    refine inbound_meets lasts_composes (fun _ _ => lasts_of_repairs rfl) (lasts_forward hk) lasts_linkTransport ?_
    exact proofs_meets lasts_composes (lasts_linkProof hk) lasts_regularProof
  | outbound hash =>
    intro r
    obtain ⟨hashlist, heq⟩ := rememberHash_eq hash r
    rw [step, quiet_apply, heq]
    exact lasts_of_repairs rfl
  | checkRepairs now => exact lasts_checkRepairs (hop now rfl)
  | cullHashlist => exact fun _ => lasts_of_repairs rfl
  | cullReverse now hash =>
    intro r
    rw [step, quiet_apply, cullReverse]
    split <;> exact lasts_of_repairs rfl
  | cullLink now linkId =>
    intro r
    rw [step, cullLink]
    split <;> exact lasts_of_repairs rfl

/-- A pass at or after the deadline frees the slot or resends, once. -/
theorem checkRepairs_due {now : ℚ} (hr : r.repairs i = h) (hk : h.kind ≠ .none) (hdue : h.due ≤ now) :
    .freed i ∈ (checkRepairs now r).2 ∨ h.resent = false ∧
      (checkRepairs now r).1.repairs i = { h with resent := true, raw := [], due := now + h.wait } := by
  obtain ⟨heq, hmem⟩ := checkRepairs_spec now r i
  subst hr
  have hd : ¬ ((r.repairs i).kind = .none ∨ now < (r.repairs i).due) := not_or.2 ⟨hk, not_lt.2 hdue⟩
  by_cases hgo : (r.repairs i).resent = true ∨ (r.linkTable (r.repairs i).linkId).isNone = true
  · have hcheck : checkRepair now r i = ({}, [.freed i]) := by
      rw [checkRepair, if_neg hd, if_pos hgo]
    exact .inl (hmem _ (by simp [hcheck]))
  · refine .inr ⟨by simpa using (not_or.1 hgo).1, ?_⟩
    rw [heq, checkRepair, if_neg hd, if_neg hgo]

theorem freed_in_time {pre mid post : List Op} {first second : ℚ} (hr : r.repairs i = h) (hk : h.kind ≠ .none)
    (hpre : NoPassFrom h.due pre) (hfirst : h.due ≤ first) (hsecond : first + h.wait ≤ second) :
    .freed i ∈ (trace (step c) (pre ++ .checkRepairs first :: (mid ++ .checkRepairs second :: post)) r).2 := by
  have hlasts : Meets (Lasts i h) (trace (step c) pre) := by
    refine lasts_composes.trace fun op hop => lasts_step hk ?_
    rintro now rfl
    exact .inl (hpre now hop)
  rw [trace_append, List.mem_append]
  obtain hf | hr := hlasts r hr
  · exact .inl hf
  right
  rw [trace_cons, List.mem_append]
  obtain hf | ⟨-, hr⟩ := checkRepairs_due hr hk hfirst
  · exact .inl hf
  right
  have hlasts : Meets (Lasts i { h with resent := true, raw := [], due := first + h.wait }) (trace (step c) mid) :=
    lasts_composes.trace fun op _ => lasts_step hk fun _ _ => .inr rfl
  rw [trace_append, List.mem_append]
  obtain hf | hr := hlasts _ hr
  · exact .inl hf
  right
  rw [trace_cons, List.mem_append]
  exact .inl ((checkRepairs_due hr hk hsecond).resolve_right fun ⟨hres, _⟩ => by cases hres)

/-- Over every run, what is kept for repair is resent once at most, unanswered
and with its link in the table; an entry has one proof kept; and no slot stays
taken. -/
theorem repairs_hold (c : Config) (ops : List Op) : Repairs c ops := by
  constructor
  · exact (kept_composes.trace (fun op _ => kept_step op) {} [] orderly_start).allowed
  · rintro start pre first mid second post i h rfl hr hk hpre hfirst hsecond
    exact freed_in_time hr hk hpre hfirst hsecond

-- ---------------------------------------------------------------------------
-- An entry made anew
-- ---------------------------------------------------------------------------

/-- What is resent has had its link in the table ever since it was kept. -/
def NeverGone (log : List Act) : Act → Prop
  | .resent i h => Since (· = .kept i h) (· ≠ .gone h.linkId) log
  | _ => True

instance : ∀ (log : List Act) (act : Act), Decidable (NeverGone log act)
  | log, .resent i h => inferInstanceAs (Decidable (Since (· = .kept i h) (· ≠ .gone h.linkId) log))
  | _, .sent .. | _, .carried .. | _, .returned .. | _, .entered _ | _, .gone _ | _, .proved .. | _, .kept .. |
    _, .freed _ => .isTrue trivial

/-- A link request, with or without signalling bytes: the link is the same. -/
def request (signalling : Bytes) : Bytes :=
  0x52 :: 0 :: (.replicate 16 9 ++ .replicate 16 1 ++ 0 :: .replicate 64 7 ++ signalling)

def requested (now : ℚ) (signalling : Bytes) : Op :=
  .inbound { now, interface := 1, peeked := some (oneHop 2 8) } (request signalling)

/-- The entry times out before the request kept with it comes due, and another
copy of the request makes it anew. -/
theorem resent_after_gone :
    ¬ ∀ c ops, Always NeverGone (trace (step c) ops {}).2 := by
  intro h
  have hrun := h (smallNode 4000000) [requested 0 [], .cullLink 7 (linkIdFromLrPacket id (request [])),
    requested 8 [0x20, 0x01, 0xF4], .checkRepairs 13]
  revert hrun
  decide +kernel

end MicroReticulum.Relay
