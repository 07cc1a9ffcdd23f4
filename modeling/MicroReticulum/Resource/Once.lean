import MicroReticulum.Resource.Standing

/-!
# One transfer for a resource

`accept` makes an object of every advertisement: `has_incoming_resource` is
there, and nothing asks it. A sender that advertises again has its resource
received twice over. Short of that, an object is assembled and concluded once,
as long as it leaves the set with that, or has nothing left to wait for.
-/

namespace MicroReticulum.Resource

open Lib (Outcome)
open Lib.Runs
open MsgPack (ResourceAdvertisement)

/-- A packet with the context `RESOURCE_ICL`. -/
def Intake.cancel (env : Env) (plaintext : Bytes) (s : Intake) : Intake :=
  match s.addressed plaintext with
  | none => s
  | some k =>
    match s.objects[k]? with
    | none => s
    | some d =>
      match d.cancel env with
      | .done d => (s.set k d).erase k
      | .threw d => s.set k d
      | .aborted => { s with down := true }

/-- The resource that takes a part, and how it is then; none where something throws. -/
def Intake.taker (c : Codec) (env : Nat → Env) (data : Bytes) : List Nat → Intake → Option (Nat × Incoming)
  | [], _ => none
  | k :: ks, s =>
    match s.objects[k]? with
    | none => none
    | some d =>
      match d.receivePart c (env k) data with
      | (.done d, false) => taker c env data ks (s.set k d)
      | (.done d, true) => some (k, d)
      | (.threw _, _) | (.aborted, _) => none

/-- The incoming resources of a link, and the requests and responses they carried. -/
structure Transfers where
  intake : Intake := {}
  /-- What `request_resource_concluded` and `response_resource_concluded` have passed on. -/
  handled : List Nat := []

namespace Transfers

inductive Op where
  | intake (op : Intake.Op)
  | cancel (env : Env) (plaintext : Bytes)

/-- A concluded request or response is passed on if it is complete. -/
def passOn (t : Transfers) : Option (Nat × Incoming) → List Nat
  | some (k, d) =>
    if d.status = .complete ∧ (d.flags.isRequest ∨ d.flags.isResponse) then t.handled ++ [k] else t.handled
  | none => t.handled

def step (c : Codec) (t : Transfers) (op : Op) : Transfers :=
  if t.intake.down then t
  else match op with
    | .intake (.part env handlerThrows data) => {
        intake := t.intake.step c (.part env handlerThrows data)
        handled := t.passOn (t.intake.taker c env data t.intake.incoming) }
    | .intake op => { t with intake := t.intake.step c op }
    | .cancel env plaintext => { t with intake := t.intake.cancel env plaintext }

-- ---------------------------------------------------------------------------
-- The specification
-- ---------------------------------------------------------------------------

/-- The resource has the hash. -/
def named (s : Intake) (h : Bytes) (k : Nat) : Bool := s.objects[k]?.any (·.hash = h)

/-- How often the objects with a hash have logged an event. -/
def logged (s : Intake) (h : Bytes) (e : Event) : Nat :=
  ((s.objects.filter (·.hash = h)).map (·.log.count e)).sum

/-- One transfer for a hash. -/
structure Single (t : Transfers) (h : Bytes) : Prop where
  live : t.intake.incoming.countP (named t.intake h) ≤ 1
  assembled : logged t.intake h .assembled ≤ 1
  concluded : logged t.intake h .concluded ≤ 1
  handled : t.handled.countP (named t.intake h) ≤ 1

-- ---------------------------------------------------------------------------
-- The condition
-- ---------------------------------------------------------------------------

/-- Nothing throws where the resource ends with the part, or the part is not empty and as
many are in as are counted. -/
def Clean (env : Env) (handlerThrows : Bool) (data : Bytes) (d : Incoming) : Prop :=
  (¬ d.Tells env ∧ ¬ (handlerThrows ∧ (d.flags.isRequest ∨ d.flags.isResponse))) ∨
    data ≠ [] ∧ d.received = d.parts.countP (· ≠ [])

/-- No hash is advertised a second time, and no resource stays in the set that has ended
and still waits for parts, or is cancelled after its end. -/
def Ok (_ : Codec) (t : Transfers) : Op → Prop
  | .intake (.accept _ adv _ _ _ _) => adv.h.length < HASH_SIZE ∨ adv.r.length < RANDOM_HASH_SIZE ∨
      ∀ d ∈ t.intake.objects, d.hash ≠ adv.h.left HASH_SIZE
  | .intake (.part env handlerThrows data) => ∀ k ∈ t.intake.incoming, ∀ d ∈ t.intake.objects[k]?,
      Clean (env k) handlerThrows data d
  | .intake (.hashmapUpdate ..) => True
  | .intake (.watchdog env k) => ∀ d ∈ t.intake.objects[k]?, d.GivesUp env → ¬ d.Tells env
  | .cancel env plaintext => ∀ k ∈ t.intake.addressed plaintext, ∀ d ∈ t.intake.objects[k]?,
      d.concludedCallback → d.status = .transferring ∧ ¬ d.Tells env

instance (env : Env) (d : Incoming) : Decidable (d.Tells env) := inferInstanceAs (Decidable (_ ∧ _))

instance (env : Env) (d : Incoming) : Decidable (d.GivesUp env) := inferInstanceAs (Decidable (_ ∧ _))

instance (env : Env) (handlerThrows : Bool) (data : Bytes) (d : Incoming) :
    Decidable (Clean env handlerThrows data d) := inferInstanceAs (Decidable (_ ∨ _))

instance (c : Codec) (t : Transfers) : ∀ op, Decidable (Ok c t op)
  | .intake (.accept ..) => inferInstanceAs (Decidable (_ ∨ _ ∨ _))
  | .intake (.part ..) =>
    inferInstanceAs (Decidable (∀ k ∈ t.intake.incoming, ∀ d ∈ t.intake.objects[k]?, Clean _ _ _ d))
  | .intake (.hashmapUpdate ..) => .isTrue trivial
  | .intake (.watchdog _ k) => inferInstanceAs (Decidable (∀ d ∈ t.intake.objects[k]?, _ → _))
  | .cancel .. => inferInstanceAs (Decidable (∀ k ∈ t.intake.addressed _, ∀ d ∈ t.intake.objects[k]?, _ → _))

-- ---------------------------------------------------------------------------
-- The invariant
-- ---------------------------------------------------------------------------

variable {c : Codec} {t : Transfers} {s s' : Intake} {op : Op} {k j : Nat} {d d' : Incoming} {passed : List Nat}

/-- A registered resource is under way, or has ended and has all its parts. -/
structure Inv (t : Transfers) : Prop where
  distinct : (t.intake.objects.map (·.hash)).Nodup
  listed : t.intake.incoming.Nodup
  registered : ∀ k ∈ t.intake.incoming, k < t.intake.objects.length
  once : ∀ (k : Nat) (d : Incoming), t.intake.objects[k]? = some d →
    d.parts.length = d.totalParts ∧ d.assemblies ≤ 1 ∧ d.conclusions ≤ 1
  standing : ∀ k ∈ t.intake.incoming, ∀ d : Incoming, t.intake.objects[k]? = some d →
    d.Under ∧ k ∉ t.handled ∨ d.Ended ∧ d.Full
  handled : t.handled.Nodup
  made : ∀ k ∈ t.handled, k < t.intake.objects.length

theorem start_inv : Inv {} where
  distinct := List.nodup_nil
  listed := List.nodup_nil
  registered _ h := nomatch h
  once _ _ h := by simp at h
  standing _ h := nomatch h
  handled := List.nodup_nil
  made _ h := nomatch h

theorem countP_le_one {α : Type*} {l : List α} {p : α → Bool} (hl : l.Nodup)
    (hp : ∀ a ∈ l, ∀ b ∈ l, p a → p b → a = b) : l.countP p ≤ 1 := by
  rw [List.countP_eq_length_filter]
  have hnodup : (l.filter p).Nodup := hl.filter _
  match hf : l.filter p with
  | [] => exact Nat.zero_le _
  | [a] => exact le_rfl
  | a :: b :: more =>
    rw [hf] at hnodup
    have ha : a ∈ l.filter p := hf ▸ List.mem_cons_self
    have hb : b ∈ l.filter p := hf ▸ List.mem_cons_of_mem _ List.mem_cons_self
    have hab := hp a (List.mem_of_mem_filter ha) b (List.mem_of_mem_filter hb) (List.of_mem_filter ha)
      (List.of_mem_filter hb)
    exact absurd (hab ▸ List.mem_cons_self) (List.nodup_cons.1 hnodup).1

theorem Inv.named_inj (h : Inv t) {hash : Bytes} (hk : named t.intake hash k) (hj : named t.intake hash j) :
    k = j := by
  simp only [named, Option.any_eq_true, decide_eq_true_eq] at hk hj
  obtain ⟨d, hd, rfl⟩ := hk
  obtain ⟨e, he, heq⟩ := hj
  obtain ⟨hklt, rfl⟩ := List.getElem?_eq_some_iff.1 hd
  obtain ⟨hjlt, rfl⟩ := List.getElem?_eq_some_iff.1 he
  have hk' : k < (t.intake.objects.map (·.hash)).length := by rwa [List.length_map]
  have hj' : j < (t.intake.objects.map (·.hash)).length := by rwa [List.length_map]
  have hsame : (t.intake.objects.map (·.hash))[k] = (t.intake.objects.map (·.hash))[j] := by
    rw [List.getElem_map, List.getElem_map, heq]
  exact h.distinct.getElem_inj_iff.1 hsame

/-- The objects with a hash are one object at most. -/
theorem Inv.logged_le (h : Inv t) {hash : Bytes} {e : Event} (he : ∀ d ∈ t.intake.objects, d.log.count e ≤ 1) :
    logged t.intake hash e ≤ 1 := by
  have hmap := h.distinct
  unfold logged
  generalize t.intake.objects = objects at hmap he
  induction objects with
  | nil => exact Nat.zero_le _
  | cons d more ih =>
    obtain ⟨hd, hmore⟩ := List.nodup_cons.1 hmap
    by_cases heq : d.hash = hash
    · have hnil : more.filter (·.hash = hash) = [] := by
        refine List.filter_eq_nil_iff.2 fun d' hd' heq' => hd ?_
        exact List.mem_map.2 ⟨d', hd', (of_decide_eq_true heq').trans heq.symm⟩
      rw [List.filter_cons_of_pos (by simpa using heq), hnil]
      simpa using he d List.mem_cons_self
    · rw [List.filter_cons_of_neg (by simpa using heq)]
      exact ih hmore fun d' hd' => he d' (List.mem_cons_of_mem _ hd')

theorem Inv.single (h : Inv t) (hash : Bytes) : Single t hash where
  live := countP_le_one h.listed fun _ _ _ _ => h.named_inj
  assembled := h.logged_le fun d hd => by
    obtain ⟨k, hk⟩ := List.mem_iff_getElem?.1 hd
    exact (h.once k d hk).2.1
  concluded := h.logged_le fun d hd => by
    obtain ⟨k, hk⟩ := List.mem_iff_getElem?.1 hd
    exact (h.once k d hk).2.2
  handled := countP_le_one h.handled fun _ _ _ _ => h.named_inj

-- ---------------------------------------------------------------------------
-- One step
-- ---------------------------------------------------------------------------

/-- What a call may leave of one object, and of the books on it. -/
structure Turn (t : Transfers) (k : Nat) (d d' : Incoming) (passed : List Nat) (stays : Prop) : Prop where
  hash : d'.hash = d.hash
  length : d'.parts.length = d'.totalParts
  once : d'.assemblies ≤ 1 ∧ d'.conclusions ≤ 1
  handled : passed = t.handled ∨ passed = t.handled ++ [k] ∧ k ∉ t.handled
  standing : stays → d'.Under ∧ k ∉ passed ∨ d'.Ended ∧ d'.Full

theorem Inv.turn (h : Inv t) (hd : t.intake.objects[k]? = some d)
    (hput : Intake.Puts k d' t.intake s') (hturn : Turn t k d d' passed (k ∈ s'.incoming)) :
    Inv { intake := s', handled := passed } := by
  have hlt : k < t.intake.objects.length := (List.getElem?_eq_some_iff.1 hd).1
  have hlen : s'.objects.length = t.intake.objects.length := by rw [hput.objects, List.length_set]
  have hsub : ∀ j ∈ s'.incoming, j ∈ t.intake.incoming := by
    intro j hj
    rcases hput.incoming with he | ⟨he, -⟩
    · exact he ▸ hj
    · exact List.mem_of_mem_erase (he ▸ hj)
  have hhandled : ∀ j, k ≠ j → (j ∈ passed ↔ j ∈ t.handled) := by
    intro j hj
    rcases hturn.handled with he | ⟨he, -⟩
    · rw [he]
    · rw [he, List.mem_append, List.mem_singleton, or_iff_left (Ne.symm hj)]
  constructor
  · have hhashes : s'.objects.map (·.hash) = t.intake.objects.map (·.hash) := by
      rw [hput.objects, List.map_set, hturn.hash]
      apply List.ext_getElem?
      intro j
      by_cases hkj : k = j
      · subst hkj
        rw [List.getElem?_set_self (by rwa [List.length_map]), List.getElem?_map, hd]
        rfl
      · rw [List.getElem?_set_ne hkj]
    rw [hhashes]
    exact h.distinct
  · rcases hput.incoming with he | ⟨he, -⟩
    · exact he ▸ h.listed
    · exact he ▸ h.listed.erase k
  · intro j hj
    rw [hlen]
    exact h.registered j (hsub j hj)
  · intro j e he
    by_cases hkj : k = j
    · subst hkj
      cases (hput.self hd).symm.trans he
      exact ⟨hturn.length, hturn.once⟩
    · exact h.once j e ((hput.other hkj).symm.trans he)
  · intro j hj e he
    by_cases hkj : k = j
    · subst hkj
      cases (hput.self hd).symm.trans he
      exact hturn.standing hj
    · have hold := h.standing j (hsub j hj) e ((hput.other hkj).symm.trans he)
      rwa [← hhandled j hkj] at hold
  · rcases hturn.handled with he | ⟨he, hnew⟩
    · exact he ▸ h.handled
    · rw [he]
      exact List.nodup_append'.2 ⟨h.handled, List.nodup_singleton k, by simpa using hnew⟩
  · intro j hj
    rw [hlen]
    by_cases hkj : k = j
    · exact hkj ▸ hlt
    · exact h.made j ((hhandled j hkj).1 hj)

/-- What ended leaves the set. -/
theorem Inv.erased (h : Inv t) : k ∉ ((t.intake.set k d').erase k).incoming := by
  exact h.listed.not_mem_erase

/-- A call that leaves the standing and the parts is a turn. -/
theorem Inv.still (h : Inv t) (hk : k ∈ t.intake.incoming) (hd : t.intake.objects[k]? = some d)
    (hadv : d'.toAdvertised = d.toAdvertised) (hparts : d'.parts = d.parts) (hs : d'.standing = d.standing)
    (stays : Prop) : Turn t k d d' t.handled stays := by
  have hfull : d'.Full ↔ d.Full := by
    unfold Incoming.Full
    rw [hadv, hparts]
  have hsame := hs
  simp only [Incoming.standing, Prod.mk.injEq] at hsame
  refine ⟨congrArg _ hadv, ?_, ?_, .inl rfl, fun _ => ?_⟩
  · rw [hparts, hadv]
    exact (h.once k d hd).1
  · rw [hsame.2.1, hsame.2.2.1]
    exact (h.once k d hd).2
  · exact (h.standing k hk d hd).imp (fun hu => ⟨hu.1.of_standing hs, hu.2⟩) fun he =>
      ⟨he.1.of_standing hs, hfull.2 he.2⟩

theorem Inv.accept (h : Inv t) {env : Env} {adv : ResourceAdvertisement} {requestId : Bytes}
    {concludedCallback progressCallback : Bool} {place : Nat}
    (hok : Ok c t (.intake (.accept env adv requestId concludedCallback progressCallback place))) :
    Inv { t with intake := t.intake.accept env adv requestId concludedCallback progressCallback place } := by
  unfold Intake.accept
  split
  · next d hd =>
    unfold Incoming.accept at hd
    split at hd
    · cases hd
    · next hlong =>
      rw [not_or] at hlong
      have hnew := (hok.resolve_left hlong.1).resolve_left hlong.2
      obtain ⟨d', hd', hspeaks⟩ : ((Incoming.ofAdvertisement env adv requestId concludedCallback
        progressCallback).requestWindow env).Leaves (Incoming.Speaks (Incoming.Asks _) _) :=
        Incoming.requestWindow_speaks
      obtain ⟨d'', hd'', hs⟩ : ((Incoming.ofAdvertisement env adv requestId concludedCallback
        progressCallback).requestWindow env).Leaves _ := Incoming.requestWindow_standing
      cases hd'.symm.trans hd
      cases hd''.symm.trans hd
      have hunder : d.Under := Incoming.Under.of_standing ⟨rfl, rfl, rfl⟩ hs
      have hfresh : t.intake.objects.length ∉ t.intake.incoming := fun hmem => lt_irrefl _ (h.registered _ hmem)
      have hmem : ∀ k, k ∈ t.intake.incoming.take place ++ t.intake.objects.length :: t.intake.incoming.drop place ↔
          k = t.intake.objects.length ∨ k ∈ t.intake.incoming := by
        intro k
        rw [List.mem_append, List.mem_cons, or_left_comm, ← List.mem_append, List.take_append_drop]
      constructor
      · rw [List.map_append, List.nodup_append']
        refine ⟨h.distinct, List.nodup_singleton _, ?_⟩
        simp only [List.map_cons, List.map_nil, List.disjoint_singleton, List.mem_map, not_exists, not_and]
        intro e he heq
        exact hnew e he (heq.trans (congrArg Advertised.hash hspeaks.advertised))
      · refine List.nodup_middle.2 ?_
        rw [List.take_append_drop]
        exact List.nodup_cons.2 ⟨hfresh, h.listed⟩
      · intro k hk
        rw [List.length_append, List.length_singleton]
        rcases (hmem k).1 hk with rfl | hk
        · exact Nat.lt_succ_self _
        · exact (h.registered k hk).trans (Nat.lt_succ_self _)
      · intro k e he
        rcases Intake.append_new he with he | ⟨-, rfl⟩
        · exact h.once k e he
        · refine ⟨?_, hunder.assemblies.trans_le zero_le_one, hunder.conclusions.trans_le zero_le_one⟩
          rw [hspeaks.parts, hspeaks.advertised]
          exact List.length_replicate
      · intro k hk e he
        rcases Intake.append_new he with he | ⟨rfl, rfl⟩
        · refine h.standing k (((hmem k).1 hk).resolve_left fun heq => ?_) e he
          rw [heq, List.getElem?_eq_none le_rfl] at he
          cases he
        · exact .inl ⟨hunder, fun hin => lt_irrefl _ (h.made _ hin)⟩
      · exact h.handled
      · intro k hk
        rw [List.length_append]
        exact (h.made k hk).trans_le (Nat.le_add_right _ _)
  · exact h

/-- A transfer that has ended is a turn if it leaves the set, or has all its parts. -/
theorem Inv.ends (h : Inv t) (hd : t.intake.objects[k]? = some d) (hadv : d'.toAdvertised = d.toAdvertised)
    (hlen : d'.parts.length = d.parts.length) (he : d'.Ended)
    (hpassed : passed = t.handled ∨ passed = t.handled ++ [k] ∧ k ∉ t.handled) {stays : Prop}
    (hfull : stays → d'.Full) : Turn t k d d' passed stays where
  hash := congrArg _ hadv
  length := by
    rw [hlen, hadv]
    exact (h.once k d hd).1
  once := ⟨he.assemblies, he.conclusions⟩
  handled := hpassed
  standing hstays := .inr ⟨he, hfull hstays⟩

theorem Inv.downed (h : Inv t) : Inv { t with intake := { t.intake with down := true } } :=
  ⟨h.1, h.2, h.3, h.4, h.5, h.6, h.7⟩

theorem addressed_mem {plaintext : Bytes} (h : s.addressed plaintext = some k) : k ∈ s.incoming := by
  unfold Intake.addressed at h
  split at h
  · exact List.mem_of_find?_eq_some h
  · cases h

theorem Inv.hashmapUpdate (h : Inv t) {env : Env} {plaintext : Bytes} :
    Inv { t with intake := t.intake.hashmapUpdate env plaintext } := by
  unfold Intake.hashmapUpdate
  split
  · exact h
  · next k hk =>
    split
    · exact h
    · next d hd =>
      split
      · next d' hd' =>
        have hs : d'.standing = d.standing := Incoming.hashmapUpdatePacket_standing d' hd'
        have hupdated := Incoming.hashmapUpdatePacket_updated d' hd'
        exact h.turn hd Intake.set_puts (h.still (addressed_mem hk) hd hupdated.1 hupdated.2 hs _)
      · exact h.downed

theorem Inv.watchdog (h : Inv t) {env : Env} (hok : Ok c t (.intake (.watchdog env k))) :
    Inv { t with intake := t.intake.watchdog env k } := by
  unfold Intake.watchdog
  split
  · next hk =>
    split
    · exact h
    · next d hd =>
      rcases h.standing k hk d hd with ⟨hunder, hnew⟩ | ⟨hended, hfull⟩
      · obtain ⟨d', hd', hlands⟩ : (d.watchdog env).Leaves _ := Incoming.watchdog_lands hunder
        obtain ⟨d'', hd'', hspeaks⟩ : (d.watchdog env).Leaves (Incoming.Speaks (Incoming.Receives d) d) :=
          Incoming.watchdog_speaks
        cases hd'.symm.trans hd''
        have hlen : d'.parts.length = d.parts.length := by rw [hspeaks.parts]
        have hturn : ∀ s', Intake.Puts k d' t.intake s' → (d'.Ended → k ∉ s'.incoming) →
            Inv { t with intake := s' } := by
          intro s' hput hgone
          rcases hlands with hu | ⟨he, -⟩
          · refine h.turn hd hput ⟨congrArg _ hspeaks.advertised, ?_, ?_, .inl rfl, fun _ => .inl ⟨hu, hnew⟩⟩
            · rw [hlen, hspeaks.advertised]
              exact (h.once k d hd).1
            · exact ⟨hu.assemblies.trans_le zero_le_one, hu.conclusions.trans_le zero_le_one⟩
          · exact h.turn hd hput (h.ends hd hspeaks.advertised hlen he (.inl rfl) fun hin => absurd hin (hgone he))
        generalize ho : d.watchdog env = o at hd' hlands
        cases o with
        | done e =>
          cases hd'
          dsimp only
          split
          · next hc => exact hturn _ (Intake.erase_puts hc) fun _ => h.erased
          · next hc => exact hturn _ Intake.set_puts fun he => absurd he.status hc
        | threw e =>
          cases hd'
          refine hturn _ Intake.set_puts fun he => ?_
          rcases hlands with hu | ⟨-, hgives, htells⟩
          · have hst := he.status
            rw [hu.status] at hst
            cases hst
          · exact absurd (htells rfl) (hok d hd hgives)
        | aborted => cases hd'
      · have hst : d.status ≠ .transferring := fun ht => by
          have hc := hended.status
          rw [ht] at hc
          cases hc
        rw [Incoming.watchdog_over hst]
        dsimp only
        rw [if_pos hended.status]
        exact h.turn hd (Intake.erase_puts hended.status)
          (h.ends hd rfl rfl hended (.inl rfl) fun hin => absurd hin h.erased)
  · exact h

theorem Inv.cancel (h : Inv t) {env : Env} {plaintext : Bytes} (hok : Ok c t (.cancel env plaintext)) :
    Inv { t with intake := t.intake.cancel env plaintext } := by
  unfold Intake.cancel
  split
  · exact h
  · next k hk =>
    split
    · exact h
    · next d hd =>
      rcases h.standing k (addressed_mem hk) d hd with ⟨hunder, -⟩ | ⟨hended, -⟩
      · obtain ⟨e, he, hended⟩ : (d.cancel env).Leaves Incoming.Ended := Incoming.cancel_ended hunder
        obtain ⟨e', he', hspeaks⟩ : (d.cancel env).Leaves (Incoming.Speaks (fun _ => True) d) :=
          Incoming.cancel_speaks trivial
        obtain ⟨d', hd'⟩ : ∃ d', d.cancel env = .done d' :=
          Incoming.cancel_done fun htells => (hok k hk d hd htells.1).2 htells
        rw [hd'] at he he' ⊢
        cases he
        cases he'
        exact h.turn hd (Intake.erase_puts hended.status) (h.ends hd hspeaks.advertised (by rw [hspeaks.parts]) hended
          (.inl rfl) fun hin => absurd hin h.erased)
      · have hcb : d.concludedCallback = false := by
          by_contra hcb
          have hst := hended.status
          rw [(hok k hk d hd (by simpa using hcb)).1] at hst
          cases hst
        obtain ⟨d', hd', hended', hadv, hparts⟩ : ∃ d', d.cancel env = .done d' ∧ d'.Ended ∧
          d'.toAdvertised = d.toAdvertised ∧ d'.parts = d.parts := Incoming.cancel_untold hended hcb
        rw [hd']
        exact h.turn hd (Intake.erase_puts hended'.status) (h.ends hd hadv (by rw [hparts]) hended' (.inl rfl)
          fun hin => absurd hin h.erased)

theorem Clean.heard {env' : Env} {handlerThrows : Bool} {data : Bytes} (h : Clean env handlerThrows data d) :
    Clean env handlerThrows data (d.heard env' data) := by
  obtain ⟨_, _, _, _, _, _, he⟩ := Incoming.heard_fields env' d data
  rw [he]
  exact h

/-- A part that fills the last slot of a clean resource leaves nothing to wait for. -/
theorem full_of_clean {env : Env} {data : Bytes} {i : Nat} (h : Inv t) (hd : t.intake.objects[k]? = some d)
    (hunder : d.Under) (hslot : d.findSlot (c.mapHash d.randomHash data) = some i)
    (hd' : (d.receivePart c env data).1.state? = some d') (hone : d'.assemblies = 1) (hne : data ≠ [])
    (hbooks : d.received = d.parts.countP (· ≠ [])) : d'.Full := by
  obtain ⟨d'', hd'', hf⟩ : (d.receivePart c env data).1.Leaves (Incoming.Fills env i data d) :=
    Incoming.receivePart_fills hslot
  cases hd'.symm.trans hd''
  have hstarts : d.EndsTransfer env := hf.starts.1 (by rw [hunder.assemblies, hone]; exact Nat.one_pos)
  exact hf.full hslot (h.once k d hd).1 hbooks hne hstarts.2.2

theorem mem_passOn {k : Nat} {d : Incoming} (hnew : k ∉ t.handled) :
    t.passOn (some (k, d)) = t.handled ∨ t.passOn (some (k, d)) = t.handled ++ [k] ∧ k ∉ t.handled := by
  unfold passOn
  dsimp only
  split
  · exact .inr ⟨rfl, hnew⟩
  · exact .inl rfl

/-- One resource takes the part. -/
theorem Inv.taken {env : Env} {handlerThrows : Bool} {data : Bytes} {i : Nat} (h : Inv t)
    (hd : t.intake.objects[k]? = some d) (hunder : d.Under) (hnew : k ∉ t.handled) (hslot : d.findSlot (c.mapHash d.randomHash data) = some i)
    (hclean : Clean env handlerThrows data d) :
    (∀ d', (d.receivePart c env data).1 = .done d' →
      Inv { intake := t.intake.settle handlerThrows k d', handled := t.passOn (some (k, d')) }) ∧
    ∀ d', (d.receivePart c env data).1 = .threw d' → Inv { t with intake := t.intake.set k d' } := by
  obtain ⟨d', hd', hlands⟩ : Incoming.Lands env d (d.receivePart c env data).1 :=
    Incoming.receivePart_lands hunder hslot
  obtain ⟨d'', hd'', htakes⟩ := Incoming.receivePart_takes c env d data
  cases hd'.symm.trans hd''
  have hlen : d'.parts.length = d.parts.length := by
    rcases htakes.parts with he | ⟨j, -, -, -, he⟩
    · rw [he]
    · rw [he, List.length_set]
  have hgoes : ∀ (hu : d'.Under) (stays : Prop), Turn t k d d' t.handled stays := fun hu stays => by
    refine ⟨congrArg _ htakes.advertised, ?_, ?_, .inl rfl, fun _ => .inl ⟨hu, hnew⟩⟩
    · rw [hlen, htakes.advertised]
      exact (h.once k d hd).1
    · exact ⟨hu.assemblies.trans_le zero_le_one, hu.conclusions.trans_le zero_le_one⟩
  constructor
  · intro e he
    rw [he] at hd'
    cases hd'
    unfold Intake.settle
    rcases hlands with hu | ⟨⟨hended, hone⟩, -⟩
    · have hpass : t.passOn (some (k, d')) = t.handled := by
        unfold passOn
        dsimp only
        rw [if_neg fun hc => by rw [hu.status] at hc; exact absurd hc.1 (by decide)]
      rw [if_neg fun hc => by rw [hu.status] at hc; exact absurd hc.1 (by decide), hpass]
      exact h.turn hd Intake.set_puts (hgoes hu _)
    · have hturn : ∀ {stays : Prop}, (stays → d'.Full) → Turn t k d d' (t.passOn (some (k, d'))) stays := fun hfull =>
        h.ends hd htakes.advertised hlen hended (mem_passOn hnew) hfull
      split
      · exact h.turn hd (Intake.erase_puts hended.status) (hturn fun hin => absurd hin h.erased)
      · next hstays =>
        refine h.turn hd Intake.set_puts (hturn fun _ => ?_)
        rw [htakes.advertised] at hstays
        rcases hclean with hquiet | ⟨hne, hbooks⟩
        · exact absurd ⟨hended.status, hquiet.2⟩ hstays
        · exact full_of_clean h hd hunder hslot (congrArg Outcome.state? he) hone hne hbooks
  · intro e he
    rw [he] at hd' hlands
    cases hd'
    rcases hlands with hu | ⟨⟨hended, hone⟩, hthrew⟩
    · exact h.turn hd Intake.set_puts (hgoes hu _)
    · refine h.turn hd Intake.set_puts (h.ends hd htakes.advertised hlen hended (.inl rfl) fun _ => ?_)
      rcases hthrew rfl with hfull | htells
      · exact hfull
      · rcases hclean with hquiet | ⟨hne, hbooks⟩
        · exact absurd htells hquiet.1
        · exact full_of_clean h hd hunder hslot (congrArg Outcome.state? he) hone hne hbooks

/-- A part goes past those that do not wait for it, to one that does. -/
theorem Inv.offer {env : Nat → Env} {handlerThrows : Bool} {data : Bytes} (h : Inv t) (ks : List Nat)
    (hks : ∀ k ∈ ks, k ∈ t.intake.incoming)
    (hclean : ∀ k ∈ ks, ∀ d ∈ t.intake.objects[k]?, Clean (env k) handlerThrows data d) :
    Inv { intake := Intake.offer c env handlerThrows data ks t.intake
          handled := t.passOn (t.intake.taker c env data ks) } := by
  induction ks generalizing t with
  | nil => exact h
  | cons k ks ih =>
    have hk := hks k List.mem_cons_self
    unfold Intake.offer Intake.taker
    cases hd : t.intake.objects[k]? with
    | none => exact h
    | some d =>
      dsimp only
      have hflag : (d.receivePart c (env k) data).2 = (d.findSlot (c.mapHash d.randomHash data)).isSome :=
        Incoming.receivePart_flag
      cases hslot : d.findSlot (c.mapHash d.randomHash data) with
      | none =>
        have hmissed : (d.receivePart c (env k) data).1 = .done (d.heard (env k) data) :=
          Incoming.receivePart_missed hslot
        rw [hslot] at hflag
        rw [show d.receivePart c (env k) data = (.done (d.heard (env k) data), false) from Prod.ext hmissed hflag]
        have hheard : Incoming.Speaks (fun _ => True) d (d.heard (env k) data) := Incoming.heard_speaks
        have hnext : Inv { t with intake := t.intake.set k (d.heard (env k) data) } :=
          h.turn hd Intake.set_puts (h.still hk hd hheard.advertised hheard.parts Incoming.heard_standing _)
        refine ih hnext (fun j hj => hks j (List.mem_cons_of_mem _ hj)) fun j hj e he => ?_
        have he' := (Intake.set_objects hd (d.heard (env k) data)).symm.trans he
        split at he'
        · next hkj =>
          cases he'
          subst hkj
          exact (hclean k List.mem_cons_self d hd).heard
        · exact hclean j (List.mem_cons_of_mem _ hj) e he'
      | some i =>
        rcases h.standing k hk d hd with ⟨hunder, hnew⟩ | ⟨-, hfull⟩
        · obtain ⟨hdone, hthrew⟩ := h.taken hd hunder hnew hslot (hclean k List.mem_cons_self d hd)
          rw [hslot] at hflag
          generalize d.receivePart c (env k) data = o at hdone hthrew hflag ⊢
          obtain ⟨o, taken⟩ := o
          cases hflag
          cases o with
          | done e => exact hdone e rfl
          | threw e => exact hthrew e rfl
          | aborted => exact h.downed
        · exact absurd hfull (Incoming.not_full hslot)

theorem Inv.step (h : Inv t) {op : Op} (hok : Ok c t op) : Inv (t.step c op) := by
  unfold Transfers.step
  split
  · exact h
  · next hup =>
    cases op with
    | cancel env plaintext => exact h.cancel hok
    | intake op =>
      have hact : ∀ op, t.intake.step c op = t.intake.act c op := fun op => if_neg hup
      cases op with
      | part env handlerThrows data =>
        dsimp only
        rw [hact]
        exact h.offer t.intake.incoming (fun _ hk => hk) hok
      | accept =>
        dsimp only
        rw [hact]
        exact h.accept hok
      | hashmapUpdate =>
        dsimp only
        rw [hact]
        exact h.hashmapUpdate
      | watchdog =>
        dsimp only
        rw [hact]
        exact h.watchdog hok

-- ---------------------------------------------------------------------------
-- Every run
-- ---------------------------------------------------------------------------

/-- A resource whose hash is advertised once is one object, which is assembled, concluded and
passed on once. -/
theorem single_transfer (c : Codec) (ops : List Op) (hok : Guarded (step c) (Ok c) {} ops) :
    Throughout (step c) (fun t => ∀ hash, Single t hash) {} ops :=
  (hok.throughout (fun _ _ h hok => h.step hok) start_inv).mono fun _ h => h.single

/-- A request of one part. -/
def onePart : ResourceAdvertisement :=
  { n := 1, t := 5, d := 1, h := List.replicate 32 0, r := List.replicate 4 0, m := [0, 0, 0, 0], f := 9 }

def advertised (t : ℚ) : Op := .intake (.accept (Transfer.clear t) onePart [] false false 0)

def arrives (t : ℚ) : Op := .intake (.part (fun _ => Transfer.clear t) false [0, 0, 0, 0, 1])

theorem single_transfer_request :
    Throughout (step Transfer.byNothing) (fun t => ∀ hash, Single t hash) {} [advertised 1, arrives 2] :=
  single_transfer Transfer.byNothing [advertised 1, arrives 2] (by decide +kernel)

/-- The request is advertised again before its part comes, and the part sent again. -/
def retried : List Op := [advertised 1, advertised 2, arrives 3, arrives 4]

/-- Two objects are live, both are assembled, and the request is handled twice. -/
theorem request_handled_twice :
    ¬ Throughout (step Transfer.byNothing) (fun t => ∀ hash, Single t hash) {} retried := by
  intro h
  have hsingle := h.last (List.replicate 32 0)
  have htwice : (run (step Transfer.byNothing) {} retried).handled.countP
      (named (run (step Transfer.byNothing) {} retried).intake (List.replicate 32 0)) = 2 := by decide +kernel
  have hle := hsingle.handled
  rw [htwice] at hle
  exact absurd hle (by decide)

end Transfers

end MicroReticulum.Resource
