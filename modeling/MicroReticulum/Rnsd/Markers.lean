import MicroReticulum.Rnsd.Attribution

/-!
# The marker of a transfer in flight

A slot's hash says that a Resource is in flight on its link. The gate of an
advertisement sets it before the engine has looked at the advertisement, and only
the callback of a Resource clears it: where the engine accepts what the gate let
through and calls back for every Resource, the hash tells the truth.
-/

namespace MicroReticulum.Rnsd.Node

open Lib Lib.Log Lib.Log.Transition Lib.Runs
open Relation (ReflTransGen)
open MicroReticulum.MsgPack (Text ResourceAdvertisement)

variable {Q : Node → Risk → Prop} {q : Risk → Prop} {n m : Node} {k : Kind} {i : Nat} {c c' : Conn}
  {r : Conn × List Event} {l : LinkRef} {op : Op} {h : Bytes}

-- ---------------------------------------------------------------------------
-- What is asked of an operation
-- ---------------------------------------------------------------------------

/-- The Resources that an operation takes from the engine without their callback. -/
def Skips : Op → Transfer → Prop
  | .connect _ _ _ o, t => o.reclaimed.skips t ∨ o.evicted.skips t
  | .incoming _ w, t => w.evicted.skips t ∨ w.goodbye.skips t
  | .detach _ _ td, t => td.skips t
  | .closed _ skips, t => skips t
  | .dropped u, t => t = u
  | .tick _ turns, t => ∃ i, (turns i).goodbye.skips t
  | _, _ => False

/-- No slot waits for a callback that is skipped. An advertisement that passes the gate has a hash
and a random hash of the right lengths, there is memory for it, and no slot has its hash; nor has
a slot the hash of a Resource of our own. -/
def Honest (n : Node) (op : Op) : Prop :=
  (∀ t, Skips op t → Unused markerKey n t.hash) ∧
    match op with
    | .advertised l adv g memory =>
      n.Gated l adv g →
        adv.h.length = 32 ∧ Resource.RANDOM_HASH_SIZE ≤ adv.r.length ∧ memory ∧ Unused markerKey n adv.h
    | .sendResource k tag _ _ _ made =>
      ∀ i c, n.findTag k tag = some i → n.slot k i = some c → c.link ≠ none →
        ∀ h, made.registered = some h → Unused markerKey n h
    | .established _ f => ∀ h, f.made.registered = some h → Unused markerKey n h
    | _ => True

/-- The same of its small steps. -/
def Marks (op : Op) (n : Node) : Risk → Prop
  | .marks _ _ _ adv memory => accept memory adv = some adv.h ∧ Unused markerKey n adv.h ∧ ∀ t, ¬ Skips op t
  | .sends c _ made | .flushes c made =>
    (c.link ≠ none → ∀ h, made.registered = some h → Unused markerKey n h) ∧ ∀ t, ¬ Skips op t
  | .skips t => Skips op t
  | _ => True

theorem accept_whole {memory : Bool} {adv : ResourceAdvertisement} (hh : adv.h.length = 32)
    (hr : Resource.RANDOM_HASH_SIZE ≤ adv.r.length) (hm : memory = true) : accept memory adv = some adv.h := by
  unfold accept
  rw [if_neg, List.take_of_length_le hh.le]
  simp only [hm, Bool.not_true, Bool.false_eq_true, or_false, not_or, not_lt]
  exact ⟨hh.ge, hr⟩

theorem Honest.permits (h : Honest n op) : Permits (Marks op) n op := by
  obtain ⟨-, hop⟩ := h
  cases op with
  | connect k a req o => exact ⟨by intros; trivial, by intros; trivial, by intros; trivial, fun _ _ ht => ht⟩
  | incoming k w => exact ⟨by intros; trivial, by intros; trivial, fun _ _ ht => ht⟩
  | detach k ref td => exact ⟨by intros; trivial, fun _ _ ht => ht⟩
  | closed l skips => exact fun _ _ ht => ht
  | dropped t => exact rfl
  | tick k turns => exact ⟨by intros; trivial, fun _ i _ ht => ⟨i, ht⟩⟩
  | sendResource k tag buf len opaqueId made =>
    exact ⟨fun _ => trivial, fun i c hf hs => ⟨fun hl a ha => hop i c hf hs hl a ha, fun _ => id⟩⟩
  | request sender f a => exact fun _ _ => trivial
  | established l f => exact ⟨fun _ _ _ _ => ⟨fun _ a ha => hop a ha, fun _ => id⟩, fun _ _ => trivial⟩
  | advertised l adv g memory =>
    intro ha hq k i c hg hs
    obtain ⟨hh, hr, hm, hun⟩ := hop ⟨ha, hq, by simp [hg]⟩
    exact ⟨accept_whole hh hr hm, hun, fun _ => id⟩
  | wait | consumerSend | identify | proofs | concluded | concludedAgain | response | reqFailed | touched => trivial

-- ---------------------------------------------------------------------------
-- Markers stay apart
-- ---------------------------------------------------------------------------

/-- A Resource begins with a hash that no slot has, in an operation that skips none. -/
theorem Write.began_unused (hw : Write (Marks op) n k i c r) {t : Transfer} (ht : .began t ∈ r.2) :
    Unused markerKey n t.hash ∧ ∀ u, ¬ Skips op u := by
  rcases (hw.began ht).2 with ⟨hne, made, hm, ⟨s, hq⟩ | hq⟩ | ⟨adv, memory, hq, ha⟩
  · exact ⟨hq.1 hne _ hm, hq.2⟩
  · exact ⟨hq.1 hne _ hm, hq.2⟩
  · rw [Option.some.inj (ha.symm.trans hq.1)]
    exact hq.2

theorem Write.marker (hw : Write (Marks op) n k i c r) (hu : r.1.used) (hv : markerKey k r.1 = some h) :
    c.used ∧ markerKey k c = some h ∨ Unused markerKey n h :=
  (hw.rekeys hu).marker (fun _ hb _ => (hw.began_unused hb).1) (fun _ _ hq _ => hq.2.1) hv

/-- The hash of a Resource that is skipped comes to no slot. -/
theorem Write.unskipped (hw : Write (Marks op) n k i c r) {t : Transfer} (ht : Skips op t)
    (hun : c.used → markerKey k c ≠ some t.hash) (hu : r.1.used) : markerKey k r.1 ≠ some t.hash := by
  intro hv
  obtain ⟨hh, hne⟩ := markerKey_eq_some.1 hv
  cases hw.rekeys hu with
  | kept hu' hk =>
    rcases hk.marker with ⟨he, -⟩ | he | ⟨t', hb, -⟩
    · exact hun hu' (markerKey_eq_some.2 ⟨he ▸ hh, hne⟩)
    · exact hne (hh ▸ he)
    · exact (hw.began_unused hb).2 t ht
  | marked adv memory hu' hl hq => exact hq.2.2 t ht
  | filled tag a hu' ht' ha hm => exact hne (hh ▸ hm)

theorem Unused.skipped {t : Transfer} (ht : Skips op t) (hun : Unused markerKey n t.hash) (he : Effect (Marks op) n m) :
    Unused markerKey m t.hash := by
  intro k i c' hs hu
  rcases he.slot hs with hold | ⟨c, r, hs₀, hw, rfl⟩
  · exact hun k i c' hold hu
  · exact hw.unskipped ht (hun k i c hs₀) hu

-- ---------------------------------------------------------------------------
-- Markers tell the truth
-- ---------------------------------------------------------------------------

/-- A slot's marker stands for a Resource that is registered on its link. -/
def Truth (n : Node) : Prop :=
  ∀ k i c, n.slot k i = some c → c.used → c.resHash ≠ [] → ∃ t ∈ n.resources, c.link = some t.link ∧ t.hash = c.resHash

/-- The marker of a written slot is the one it had, or that of a Resource that begins. -/
def Vouched (c : Conn) (r : Conn × List Event) : Prop :=
  r.1.used → r.1.resHash ≠ [] →
    c.used ∧ r.1.resHash = c.resHash ∧ r.1.link = c.link ∨
      ∃ t, .began t ∈ r.2 ∧ r.1.link = some t.link ∧ t.hash = r.1.resHash

theorem Truth.put (ht : n.Truth) (hs : n.slot k i = some c) (hv : Vouched c r) : (n.put k i r).Truth := by
  intro k' j c' hs' hu hne
  rw [resources_put]
  rcases slot_put_cases hs hs' with ⟨rfl, rfl, rfl⟩ | ⟨-, hold⟩
  · rcases hv hu hne with ⟨hu', hh, hl⟩ | ⟨t, hb, hl, hh⟩
    · obtain ⟨t, hmem, hl', hh'⟩ := ht _ _ c hs hu' (hh ▸ hne)
      exact ⟨t, List.mem_append_left _ hmem, hl.trans hl', hh'.trans hh.symm⟩
    · exact ⟨t, List.mem_append_right _ (mem_registers.2 hb), hl, hh⟩
  · obtain ⟨t, hmem, hspec⟩ := ht k' j c' hold hu hne
    exact ⟨t, List.mem_append_left _ hmem, hspec⟩

theorem Truth.of_slots (ht : n.Truth) (hs : m.slot = n.slot) (hr : n.resources ⊆ m.resources) : m.Truth := by
  intro k i c hs' hu hne
  rw [hs] at hs'
  obtain ⟨t, hmem, hspec⟩ := ht k i c hs' hu hne
  exact ⟨t, hr hmem, hspec⟩

/-- A Resource may go that no slot waits for. -/
theorem Truth.unregister (ht : n.Truth) {t : Transfer} (hun : Unused markerKey n t.hash) : (n.unregister t).Truth := by
  intro k i c hs hu hne
  obtain ⟨t', hmem, hl, hh⟩ := ht k i c hs hu hne
  refine ⟨t', List.mem_erase_of_ne ?_ |>.2 hmem, hl, hh⟩
  rintro rfl
  exact hun k i c hs hu (markerKey_eq_some.2 ⟨hh.symm, hh ▸ hne⟩)

theorem Truth.conclude (ht : n.Truth) (hap : Apart markerKey n) {t : Transfer} (hm : Marked n t.hash k i c) (out : Conclusion) :
    ((n.unregister t).put k i (concludeResource out c)).Truth := by
  intro k' j c' hs' hu hne
  rcases slot_put_cases (n := n.unregister t) hm.slot hs' with ⟨rfl, rfl, rfl⟩ | ⟨hother, hold⟩
  · exact absurd rfl hne
  · obtain ⟨t', hmem, hl, hh⟩ := ht k' j c' hold hu hne
    refine ⟨t', ?_, hl, hh⟩
    rw [resources_put, registers_concludeResource, List.append_nil]
    refine List.mem_erase_of_ne ?_ |>.2 hmem
    rintro rfl
    obtain ⟨hu', hh', hne'⟩ := hm.spec
    obtain ⟨rfl, rfl⟩ := hap _ _ _ _ _ _ _ hold hm.slot hu hu' (markerKey_eq_some.2 ⟨hh.symm, hne'⟩)
      (markerKey_eq_some.2 ⟨hh', hne'⟩)
    exact hother ⟨rfl, rfl⟩

theorem Move.vouched {now : ℚ} {serial : Nat} (hm : Move q now serial k i c r) (hsane : Sane k c) (hu : c.used) :
    Vouched c r := by
  intro hu' hne
  have hl := hm.keeps_link hsane hu' hne
  rcases (hm.keys hu').marker with ⟨he, -⟩ | he | ⟨t, hb, hh, hl', -⟩
  · exact .inl ⟨hu, he, hl⟩
  · exact absurd he hne
  · exact .inr ⟨t, hb, hl.trans hl', hh⟩

theorem Truth.micro (ht : n.Truth) (hi : n.Inv) (hap : Apart markerKey n) (hskip : ∀ t, Skips op t → Unused markerKey n t.hash)
    (hm : Micro (Marks op) n m) : m.Truth := by
  cases hm with
  | closes l hc =>
    cases hc with
    | concluded out hmem hl hmk => exact ht.conclude hap hmk out
    | @unknown t hmem hl hnl hnc =>
      refine ht.unregister fun k i c hs hu hv => ?_
      obtain ⟨hh, hne⟩ := markerKey_eq_some.1 hv
      cases k with
      | link => exact findRes_eq_none hnl hne hs hu hh
      | channel => exact findRes_eq_none hnc hne hs hu hh
    | @skipped t hmem hl hs => exact ht.unregister (hskip t hs)
    | inactive => exact ht
    | @ended i c hr ha hs hu hl =>
      refine ht.put hs fun _ hne => ?_
      -- nothing is registered on the link any more, so the slot had no marker
      have hh : (linkEnds l.kind n.clock c).1.resHash = c.resHash := by
        cases l.kind with
        | link =>
          simp only [linkEnds, linkClosed, quiet_apply]
          split <;> rfl
        | channel => rfl
      obtain ⟨t, hmem, hl', -⟩ := ht _ _ c hs hu (hh ▸ hne)
      exact absurd (Option.some.inj (hl'.symm.trans hl)) (hr t hmem)
  | move hs hu h => exact ht.put hs (h.vouched (hi.sane _ _ _ hs) hu)
  | @opened k i c r h req w hs hu hq hr =>
    refine ht.put hs fun _ hne => ?_
    obtain ⟨⟨hm, -⟩, -⟩ := fill_filled (hi.wf.blank _ _ _ hs hu) k n.clock h w req n.serial
    exact absurd (hr.same.marker.trans hm) hne
  | @seated k i c w owner hs hu =>
    have hput : (n.put k i (seat k n.clock w owner ⟨k, n.serial⟩ n.serial c)).Truth := by
      refine ht.put hs fun _ hne => ?_
      cases k with
      | link => exact absurd rfl hne
      | channel => exact absurd (hi.wf.blank _ _ _ hs hu).resHash hne
    exact hput
  | marked g adv memory hs hu hl ha hg hq =>
    refine ht.put hs fun _ hne => .inr ⟨⟨_, adv.h, false⟩, ?_, hl, rfl⟩
    simp [markResource, Rnsd.began, hl, hq.1]
  | again out hb hmk => exact ht.put hmk.slot fun _ hne => absurd rfl hne
  | active | asked | refused | waited => exact ht.of_slots rfl (List.Subset.refl _)

-- ---------------------------------------------------------------------------
-- The allowance
-- ---------------------------------------------------------------------------

/-- The slots that count against the allowance have Resources of their own. -/
theorem Truth.inflight_le (ht : n.Truth) (hap : Apart markerKey n) : n.inflight ≤ n.resources.length := by
  obtain ⟨p, hp⟩ : ∃ p : Conn → Bool, p = fun c => c.used && c.resHash ≠ [] := ⟨_, rfl⟩
  have hspec : ∀ {c}, p c → c.used ∧ c.resHash ≠ [] := by
    intro c h
    simpa [hp] using h
  have hdistinct : Slots.Distinct p (·.resHash) (n.table .link) := by
    intro i j c c' hs hs' hu hu' hh
    obtain ⟨hu, hne⟩ := hspec hu
    exact (hap .link i c .link j c' c.resHash hs hs' hu (hspec hu').1 (markerKey_eq_some.2 ⟨rfl, hne⟩)
      (markerKey_eq_some.2 ⟨hh.symm, hne⟩)).2
  have hsub : ((n.table .link).filter p).map (·.resHash) ⊆ n.resources.map (·.hash) := by
    intro h hmem
    obtain ⟨c, hc, rfl⟩ := List.mem_map.1 hmem
    obtain ⟨hc, hpc⟩ := List.mem_filter.1 hc
    obtain ⟨i, hi⟩ := List.mem_iff_getElem?.1 hc
    obtain ⟨t, hmem, -, hh⟩ := ht .link i c hi (hspec hpc).1 (hspec hpc).2
    exact List.mem_map.2 ⟨t, hmem, hh⟩
  have hle := (List.subperm_of_subset (Slots.distinct_iff_nodup.1 hdistinct) hsub).length_le
  rw [List.length_map, List.length_map, ← List.countP_eq_length_filter, hp] at hle
  exact hle

-- ---------------------------------------------------------------------------
-- Runs
-- ---------------------------------------------------------------------------

structure Truthful (n : Node) : Prop where
  marker : n.Truth
  allowance : n.inflight ≤ n.resources.length

/-- An advertisement starts a transfer or leaves everything as it was. -/
def Starts (n : Node) : Op → Prop
  | .advertised l adv g memory =>
    n.receiveAdv l adv g memory = n ∨ ⟨l, adv.h, false⟩ ∈ (n.receiveAdv l adv g memory).resources
  | _ => True

theorem Honest.starts (h : Honest n op) : Starts n op := by
  cases op with
  | advertised l adv g memory =>
    have hstart : n.receiveAdv l adv g memory = n ∨
        ⟨l, adv.h, false⟩ ∈ (n.receiveAdv l adv g memory).resources := by
      unfold receiveAdv
      by_cases hin : l ∉ n.actives ∨ adv.q ≠ [] ∧ (adv.u ∨ adv.p)
      · exact .inl (if_pos hin)
      · rw [if_neg hin]
        obtain ⟨ha, hq⟩ := not_or.1 hin
        cases hg : n.onResAdvertised l adv g with
        | none => exact .inl rfl
        | some at' =>
          obtain ⟨k, i⟩ := at'
          obtain ⟨hh, hr, hm, -⟩ := h.2 ⟨not_not.1 ha, hq, by simp [hg]⟩
          dsimp only
          cases hs : n.slot k i with
          | none => exact .inl (by simp [act, hs])
          | some c =>
            refine .inr ?_
            rw [act_eq hs, resources_put]
            simp [markResource, Rnsd.began, onResAdvertised_link hg hs, accept_whole hh hr hm, Event.registers?]
    exact hstart
  | _ => trivial

/-- What a run keeps. -/
structure Marking (n : Node) : Prop where
  inv : n.Inv
  apart : Apart markerKey n
  truth : n.Truth

theorem Marking.steps (h : n.Marking) (hskip : ∀ t, Skips op t → Unused markerKey n t.hash)
    (hm : Steps (Marks op) n m) : m.Marking := by
  have hall : m.Marking ∧ ∀ t, Skips op t → Unused markerKey m t.hash := by
    induction hm with
    | refl => exact ⟨h, hskip⟩
    | tail _ hstep ih =>
      obtain ⟨h, hskip⟩ := ih
      have he := hstep.effect h.inv.wf
      exact ⟨⟨h.inv.micro hstep, h.apart.effect he fun _ hw hu v hv => hw.marker hu hv,
        h.truth.micro h.inv h.apart hskip hstep⟩, fun t ht => (hskip t ht).skipped ht he⟩
  exact hall.1

theorem Marking.step (h : n.Marking) (hop : Honest n op) : (Rnsd.step n op).Marking :=
  h.steps hop.1 (steps_step h.inv.wf op hop.permits)

theorem marking_boot {t : ℚ} (ht : 0 < t) : (boot t).Marking where
  inv := inv_boot ht
  apart := keyed_boot.markers
  truth k i c hs hu := by simp [slot_boot hs] at hu

/-- The gate lets through what the engine will not accept: a random hash one byte short. -/
def cutShort : List Op :=
  [.incoming .link (caller [1] 0 0),
    .advertised ⟨.link, 0⟩ { anAdvertisement with r := .replicate 3 1 } openGate true]

end MicroReticulum.Rnsd.Node
