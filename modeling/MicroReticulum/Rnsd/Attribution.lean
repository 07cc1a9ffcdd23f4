import MicroReticulum.Rnsd.Keys

/-!
# Whose slot it is

Consumers, links and transfers are looked up by the first slot that has their
key. The lookups are right where no two slots share a key, and a Resource that
concludes acts on its own link where the hash it has is not in use elsewhere.
Which tags, handles, hashes and request ids come in decides whether that holds.
-/

namespace MicroReticulum.Rnsd.Node

open Lib Lib.Log Lib.Log.Transition Lib.Runs
open Relation (ReflTransGen)
open MicroReticulum.MsgPack (Text ResourceAdvertisement)

variable {Q : Node → Risk → Prop} {q : Risk → Prop} {n m : Node} {k k' : Kind} {i j : Nat} {c c' : Conn}
  {r : Conn × List Event} {l : LinkRef} {now : ℚ} {serial : Nat}

-- ---------------------------------------------------------------------------
-- Slots keep their keys apart
-- ---------------------------------------------------------------------------

/-- No slot has the hash in flight, and no Resource on another link has had it. -/
def Unclaimed (n : Node) (o : Option LinkRef) (h : Bytes) : Prop :=
  h ≠ [] → Unused markerKey n h ∧ ∀ t, .began t ∈ n.log → t.hash = h → o = some t.link

/-- What comes in is not in use. -/
def Fresh (n : Node) : Risk → Prop
  | .opens k tag h => Unused tagKey n (k, tag) ∧ Unused handleKey n (k, h)
  | .seats k tag a => Unused tagKey n (k, tag) ∧ ∀ h, a = some h → Unused handleKey n (k, h)
  | .marks _ _ c adv _ => Unclaimed n c.link adv.h ∧ Unclaimed n c.link (adv.h.take 32)
  | .sends c _ made | .flushes c made => c.link ≠ none → ∀ h, made.registered = some h → Unclaimed n c.link h
  | .asks mrid => Unused requestKey n mrid
  | _ => True

/-- Keys are apart, and a transfer's hash is that of its own link's Resources alone. -/
structure Keyed (n : Node) : Prop where
  tags : Apart tagKey n
  handles : Apart handleKey n
  markers : Apart markerKey n
  requests : Apart requestKey n
  own : ∀ t, .began t ∈ n.log → ∀ k i c, n.slot k i = some c → c.used → c.resHash = t.hash → t.hash ≠ [] →
    c.resOn = some t.link
  on : ∀ k i c, n.slot k i = some c → c.used → c.resHash ≠ [] → c.link = c.resOn ∨ c.link = none

theorem Started.unclaimed (hs : Started (Fresh n) c h) : Unclaimed n c.link h := by
  obtain ⟨hne, made, hm, ⟨s, hq⟩ | hq⟩ := hs
  · exact hq hne h hm
  · exact hq hne h hm

theorem accept_eq_some {memory : Bool} {adv : ResourceAdvertisement} {h : Bytes} (ha : accept memory adv = some h) :
    h = adv.h.take 32 := by
  unfold accept at ha
  split at ha
  · cases ha
  · exact (Option.some.inj ha).symm

theorem Rekeys.tag (hw : Rekeys (Fresh n) k i c r) {v : Kind × Text} (hv : tagKey k r.1 = some v) :
    c.used ∧ tagKey k c = some v ∨ Unused tagKey n v := by
  cases hw with
  | kept hu h => exact .inl ⟨hu, by rw [← hv, tagKey, tagKey, h.tag]⟩
  | marked adv memory hu hl hq he =>
    subst he
    exact .inl ⟨hu, hv⟩
  | filled tag a hu ht ha hm hr hq =>
    cases hv
    rw [ht]
    rcases hq with ⟨h, -, hq⟩ | hq
    · exact .inr hq.1
    · exact .inr hq.1

theorem Rekeys.handle (hw : Rekeys (Fresh n) k i c r) {v : Kind × Handle} (hv : handleKey k r.1 = some v) :
    c.used ∧ handleKey k c = some v ∨ Unused handleKey n v := by
  cases hw with
  | kept hu h =>
    rcases h.handle with he | he
    · exact .inl ⟨hu, by rw [← hv, handleKey, handleKey, he]⟩
    · rw [handleKey, he] at hv
      cases hv
  | marked adv memory hu hl hq he =>
    subst he
    exact .inl ⟨hu, hv⟩
  | filled tag a hu ht ha hm hr hq =>
    rw [handleKey, ha, Option.map_eq_some_iff] at hv
    obtain ⟨h, rfl, rfl⟩ := hv
    rcases hq with ⟨h', he, hq⟩ | hq
    · cases he
      exact .inr hq.2
    · exact .inr (hq.2 h rfl)

theorem Rekeys.request (hw : Rekeys (Fresh n) k i c r) {v : Bytes} (hv : requestKey k r.1 = some v) :
    c.used ∧ requestKey k c = some v ∨ Unused requestKey n v := by
  obtain ⟨rfl, rfl, hne⟩ := requestKey_eq_some.1 hv
  cases hw with
  | kept hu h =>
    rcases h.request with he | he | hq
    · exact .inl ⟨hu, requestKey_eq_some.2 ⟨rfl, he.symm, hne⟩⟩
    · exact absurd he hne
    · exact .inr hq
  | marked adv memory hu hl hq he =>
    subst he
    exact .inl ⟨hu, requestKey_eq_some.2 ⟨rfl, rfl, hne⟩⟩
  | filled tag a hu ht ha hm hr => exact absurd hr hne

/-- The transfer of a slot that is written is the slot's own. -/
theorem Rekeys.own (hw : Rekeys (Fresh n) k i c r) (hbegan : ∀ t, .began t ∈ r.2 → Unclaimed n c.link t.hash)
    (h : n.Keyed) (hs : n.slot k i = some c) {t : Transfer} (ht : .began t ∈ n.log) (hh : r.1.resHash = t.hash)
    (hne : t.hash ≠ []) : r.1.resOn = some t.link := by
  cases hw with
  | kept hu hk =>
    rcases hk.marker with ⟨he, ho⟩ | he | ⟨t', hb, he, hl, ho⟩
    · rw [ho]
      exact h.own t ht k i c hs hu (he ▸ hh) hne
    · exact absurd (hh ▸ he) hne
    · rw [ho, ← hl]
      exact (hbegan t' hb (by rw [he, hh]; exact hne)).2 t ht (by rw [he, hh])
  | marked adv memory hu hl hq he =>
    subst he
    rw [← hh] at hne
    exact (hq.1 hne).2 t ht hh.symm
  | filled tag a hu ht' ha hm => exact absurd (hh ▸ hm) hne

theorem Write.on (hw : Write Q n k i c r) (hsane : Sane k c) (hon : c.used → c.resHash ≠ [] → c.link = c.resOn ∨ c.link = none)
    (hu : r.1.used) (hne : r.1.resHash ≠ []) : r.1.link = r.1.resOn ∨ r.1.link = none := by
  cases hw with
  | move hu' h =>
    rw [h.keeps_link hsane hu hne]
    rcases (h.keys hu).marker with ⟨he, ho⟩ | he | ⟨t, -, -, hl, ho⟩
    · rw [ho]
      exact hon hu' (he ▸ hne)
    · exact absurd he hne
    · exact .inl (hl.trans ho.symm)
  | opened h req w hu' hb hq hr =>
    obtain ⟨⟨hm, -⟩, -⟩ := fill_filled hb k n.clock h w req n.serial
    exact absurd (hr.same.marker.trans hm) hne
  | seated w owner hu' hb hq =>
    cases k with
    | link => exact absurd rfl hne
    | channel => exact absurd hb.resHash hne
  | marked => exact .inl rfl
  | concluded => exact absurd rfl hne
  | ended => exact .inr linkEnds_unlinks

/-- No slot has the hash of a Resource that begins, and no other link has had it. -/
theorem Write.began_unclaimed (hw : Write Fresh n k i c r) {t : Transfer} (ht : .began t ∈ r.2) :
    Unclaimed n c.link t.hash := by
  rcases (hw.began ht).2 with hst | ⟨adv, memory, hq, ha⟩
  · exact hst.unclaimed
  · rw [accept_eq_some ha]
    exact hq.2

theorem Keyed.micro (h : n.Keyed) (hi : n.Inv) (hm : Micro Fresh n m) : m.Keyed := by
  have he := hm.effect hi.wf
  refine ⟨h.tags.effect he fun _ hw hu v hv => (hw.rekeys hu).tag hv,
    h.handles.effect he fun _ hw hu v hv => (hw.rekeys hu).handle hv,
    h.markers.effect he fun _ hw hu v hv => (hw.rekeys hu).marker (fun _ hb hne => (hw.began_unclaimed hb hne).1)
      (fun _ _ hq hne => (hq.1 hne).1) hv,
    h.requests.effect he fun _ hw hu v hv => (hw.rekeys hu).request hv, ?_, ?_⟩
  · intro t ht k i c' hs hu hh hne
    cases he with
    | @wrote k₀ i₀ c r hs₀ hw hslot hlog =>
      rw [hslot] at hs
      rw [hlog, List.mem_append] at ht
      rcases ht with ht | ht
      · rcases slot_put_cases hs₀ hs with ⟨rfl, rfl, rfl⟩ | ⟨-, hold⟩
        · exact (hw.rekeys hu).own (fun _ hb => hw.began_unclaimed hb) h hs₀ ht hh hne
        · exact h.own t ht k i c' hold hu hh hne
      · -- the Resource has begun with this write: no other slot had its hash
        have hl := (hw.began ht).1
        have hun := hw.began_unclaimed ht
        rcases slot_put_cases hs₀ hs with ⟨rfl, rfl, rfl⟩ | ⟨-, hold⟩
        · have hkey : ∀ {c'}, c'.resHash = t.hash → markerKey k c' = some t.hash := fun he =>
            markerKey_eq_some.2 ⟨he, hne⟩
          cases hw.rekeys hu with
          | kept hu' hk =>
            rcases hk.marker with ⟨he, -⟩ | he | ⟨t', -, -, hl', ho⟩
            · exact absurd (hkey (he ▸ hh)) ((hun hne).1 k i c hs₀ hu')
            · exact absurd (hh ▸ he) hne
            · rw [ho, ← hl', hl]
          | marked adv memory hu' hl' hq' he' =>
            rw [he']
            exact hl
          | filled tag a hu' ht' ha hm' => exact absurd (hh ▸ hm') hne
        · exact absurd (markerKey_eq_some.2 ⟨hh, hne⟩) ((hun hne).1 k i c' hold hu)
    | asked req hr hm =>
      subst hm
      refine h.own t ?_ k i c' hs hu hh hne
      rcases List.mem_append.1 ht with ht | ht
      · exact ht
      · rcases List.mem_cons.1 ht with ht | ht
        · cases ht
        · exact absurd ht ((about_reqFailDirect req).not_mem (by simp [topic]))
    | refused s hs' hq hm =>
      subst hm
      refine h.own t ?_ k i c' hs hu hh hne
      rcases List.mem_append.1 ht with ht | ht
      · exact ht
      · rcases List.mem_cons.1 ht with ht | ht
        · cases ht
        · exact absurd ht ((about_free s.buf).not_mem (by simp [topic]))
    | still hslot hlog =>
      rw [hslot] at hs
      rw [hlog] at ht
      exact h.own t ht k i c' hs hu hh hne
  · intro k i c' hs hu hne
    rcases he.slot hs with hold | ⟨c, r, hs₀, hw, rfl⟩
    · exact h.on k i c' hold hu hne
    · exact hw.on (hi.sane k i c hs₀) (h.on k i c hs₀) hu hne

-- ---------------------------------------------------------------------------
-- What is left when a slot is looked for
-- ---------------------------------------------------------------------------

/-- The used slots of `m` are slots of `n`, some of them faded. -/
def Thins (n m : Node) : Prop :=
  ∀ k i c', m.slot k i = some c' → c'.used → ∃ c, n.slot k i = some c ∧ Fades n.clock c c'

theorem Thins.refl (n : Node) : Thins n n := fun _ _ c' hs _ => ⟨c', hs, .refl _ _⟩

theorem Thins.trans {n₁ n₂ n₃ : Node} (h₁ : Thins n₁ n₂) (h₂ : Thins n₂ n₃) (hc : n₂.clock = n₁.clock) : Thins n₁ n₃ := by
  intro k i c₃ hs hu
  obtain ⟨c₂, hs₂, hf₂⟩ := h₂ k i c₃ hs hu
  obtain ⟨c₁, hs₁, hf₁⟩ := h₁ k i c₂ hs₂ (by rw [← hf₂.used]; exact hu)
  exact ⟨c₁, hs₁, hf₁.trans (hc ▸ hf₂)⟩

theorem FadesTo.thins (h : FadesTo n m) : Thins n m := by
  intro k i c' hs _
  have hi := h k i
  rw [hs] at hi
  generalize n.slot k i = o at hi
  cases hi with
  | some hf => exact ⟨_, rfl, hf⟩

theorem thins_act {t : Transition Conn Event} (ht : ∀ c, (t c).1.used = false) : Thins n (n.act k i t) := by
  intro k' j c' hs hu
  unfold act at hs
  split at hs
  · exact ⟨c', hs, .refl _ _⟩
  · next c hs₀ =>
    rcases slot_put_cases hs₀ hs with ⟨-, -, rfl⟩ | ⟨-, hold⟩
    · rw [ht c] at hu
      cases hu
    · exact ⟨c', hold, .refl _ _⟩

theorem thins_teardown {o : Option LinkRef} {td : Teardown} : Thins n (n.teardown o td) := teardown_fades.thins

theorem thins_chanFreeSlot {td : Teardown} : Thins n (n.chanFreeSlot i td) := by
  unfold chanFreeSlot
  split
  · exact .refl n
  · exact thins_teardown.trans (thins_act fun _ => rfl) teardown_clock

theorem thins_freeSlot {td : Teardown} : Thins n (n.freeSlot k i td) := by
  cases k with
  | link => exact thins_act fun _ => rfl
  | channel => exact thins_chanFreeSlot

theorem thins_evict {td : Teardown} : Thins n (n.evict k i td) := by
  cases k with
  | link =>
    unfold evict
    dsimp only
    split
    · exact .refl n
    · exact thins_teardown.trans (thins_act fun _ => rfl) teardown_clock
  | channel => exact thins_chanFreeSlot

theorem alloc_thins {td : Teardown} (h : n.alloc k td = some (i, m)) : Thins n m := by
  unfold alloc at h
  split at h
  · cases h
    exact .refl n
  · obtain ⟨j, -, he⟩ := Option.map_eq_some_iff.1 h
    cases he
    exact thins_evict

theorem reclaim_thins {tag : Text} {td : Teardown} (h : n.reclaim k tag td = some m) : Thins n m := by
  unfold reclaim at h
  split at h
  · cases h
    exact .refl n
  · split at h
    · cases h
    · cases h
      exact thins_freeSlot

/-- An allocation that evicts gives the slot it evicts. -/
theorem Doomed.alloc {td : Teardown} (hd : Doomed n k j) (h : n.alloc k td = some (i, m)) : i = j := by
  unfold Node.alloc at h
  rw [hd.1] at h
  simp only [hd.2, Option.map_some, Option.some.injEq, Prod.mk.injEq] at h
  exact h.1.symm

theorem Thins.handle (h : Thins n m) {v : Kind × Handle} (hun : Unused handleKey n v) : Unused handleKey m v := by
  intro k i c' hs hu hv
  obtain ⟨c, hs₀, hf⟩ := h k i c' hs hu
  refine hun k i c hs₀ (by rw [← hf.used]; exact hu) ?_
  rw [← hv, handleKey, handleKey, hf.same]

theorem Thins.tag (h : Thins n m) {v : Kind × Text} (hun : Unused tagKey n v) : Unused tagKey m v := by
  intro k i c' hs hu hv
  obtain ⟨c, hs₀, hf⟩ := h k i c' hs hu
  refine hun k i c hs₀ (by rw [← hf.used]; exact hu) ?_
  rw [← hv, tagKey, tagKey, hf.same]

/-- Once the tag's own slot is reclaimed, no slot has it. -/
theorem reclaim_tag {tag : Text} {td : Teardown} (hw : n.Wf) (ht : Apart tagKey n) (h : n.reclaim k tag td = some m) :
    Unused tagKey m (k, tag) := by
  have hthin := reclaim_thins h
  unfold reclaim at h
  cases hf : n.findTag k tag with
  | none =>
    rw [hf] at h
    cases h
    intro k' i c hs hu hv
    cases hv
    exact Slots.find_eq_none.1 hf c (List.mem_of_getElem? hs) hu rfl
  | some i =>
    rw [hf] at h
    dsimp only at h
    split at h
    · cases h
    · cases h
      obtain ⟨c, hs, hu, htag⟩ := findTag_eq_some hf
      have hfreed : Freed n (n.freeSlot k i td) k i :=
        (freeSlot_steps (Q := fun _ _ => True) hw hs hu (fun _ _ _ => trivial) fun _ _ _ => trivial).2
      obtain ⟨⟨c₁, hs₁, hu₁⟩, -⟩ := hfreed
      intro k' j c' hs' hu' hv
      cases hv
      obtain ⟨c₀, hs₀, hfade⟩ := hthin k j c' hs' hu'
      have hu₀ : c₀.used := by rw [← hfade.used]; exact hu'
      have htag₀ : c'.tag = c₀.tag := by rw [hfade.same]
      obtain ⟨-, rfl⟩ := ht k i c k j c₀ (k, c'.tag) hs hs₀ hu hu₀ (by rw [tagKey, htag]) (by rw [tagKey, htag₀])
      cases hs₁.symm.trans hs'
      rw [hu₁] at hu'
      cases hu'

-- ---------------------------------------------------------------------------
-- Runs
-- ---------------------------------------------------------------------------

/-- The advertisement comes to the gate of a slot, and passes. -/
def Gated (n : Node) (l : LinkRef) (adv : ResourceAdvertisement) (g : Gate) : Prop :=
  l ∈ n.actives ∧ ¬ (adv.q ≠ [] ∧ (adv.u ∨ adv.p)) ∧ n.onResAdvertised l adv g ≠ none

/-- What comes in with an operation is not in use: ITS gives out no handle that a slot still
has, the engine draws request ids and its own Resources' hashes afresh, no slot has the tag that
a link opened by a peer will get, and no peer advertises a hash of another link. -/
def Novel (n : Node) : Op → Prop
  | .connect k h _ _ => Unused handleKey n (k, h)
  | .incoming k w =>
    (∀ i c, n.slot k i = some c → c.used → ¬ Doomed n k i → c.tag ≠ inboundTag k w.linkId) ∧
      ∀ h, w.taken = some h → Unused handleKey n (k, h)
  | .sendResource k tag _ _ _ made =>
    ∀ i c, n.findTag k tag = some i → n.slot k i = some c → c.link ≠ none →
      ∀ h, made.registered = some h → Unclaimed n c.link h
  | .request _ _ a => ∀ id : RequestId, a.id = some id → Unused requestKey n id.val
  | .established l f =>
    (∀ h, f.made.registered = some h → Unclaimed n (some l) h) ∧
      ∀ id : RequestId, f.asking.id = some id → Unused requestKey n id.val
  | .advertised l adv g _ => n.Gated l adv g → Unclaimed n (some l) adv.h ∧ Unclaimed n (some l) (adv.h.take 32)
  | _ => True

theorem onResAdvertised_link {adv : ResourceAdvertisement} {g : Gate} (h : n.onResAdvertised l adv g = some (k, i))
    (hs : n.slot k i = some c) : c.link = some l := by
  unfold onResAdvertised at h
  split at h
  · next j hf =>
    obtain ⟨c', hs', -, hl⟩ := findLink_eq_some hf
    split at h
    · cases h
      cases hs.symm.trans hs'
      exact hl
    · cases h
  · split at h
    · next j hf =>
      obtain ⟨c', hs', -, hl⟩ := findLink_eq_some hf
      split at h
      · cases h
        cases hs.symm.trans hs'
        exact hl
      · cases h
    · cases h

theorem Novel.permits {op : Op} (h : Novel n op) (hw : n.Wf) (hk : n.Keyed) : Permits Fresh n op := by
  cases op with
  | connect k a req o =>
    refine ⟨fun _ _ _ _ _ => trivial, fun _ _ _ _ _ => trivial, fun m m' i hm ha => ?_, fun _ _ _ => trivial⟩
    have hthin := alloc_thins ha
    exact ⟨hthin.tag (reclaim_tag hw hk.tags hm), hthin.handle ((reclaim_thins hm).handle h)⟩
  | incoming k w =>
    refine ⟨fun _ _ _ _ _ => trivial, fun m i ha => ⟨?_, fun a hta => (alloc_thins ha).handle (h.2 a hta)⟩,
      fun _ _ _ => trivial⟩
    intro k' j c' hs hu hv
    rw [tagKey, Option.some.injEq, Prod.mk.injEq] at hv
    obtain ⟨rfl, htag'⟩ := hv
    obtain ⟨c, hs₀, hf⟩ := alloc_thins ha k' j c' hs hu
    have hu₀ : c.used := by rw [← hf.used]; exact hu
    have htag : c.tag = inboundTag k' w.linkId := by
      rw [← htag', hf.same]
    refine h.1 j c hs₀ hu₀ (fun hd => ?_) htag
    obtain rfl := hd.alloc ha
    obtain ⟨-, ⟨c₁, hs₁, hu₁⟩, -⟩ := alloc_steps (Q := fun _ _ => True) hw ha (fun _ _ _ _ => trivial) fun _ _ _ => trivial
    cases hs₁.symm.trans hs
    rw [hu₁] at hu
    cases hu
  | sendResource k tag buf len opaqueId made => exact ⟨fun _ => trivial, fun i c hf hs hne a ha => h i c hf hs hne a ha⟩
  | request sender f a => exact h
  | established l f =>
    refine ⟨fun i c hf hs _ a ha => ?_, h.2⟩
    obtain ⟨c', hs', -, hl⟩ := findLink_eq_some hf
    cases hs.symm.trans hs'
    rw [hl]
    exact h.1 a ha
  | advertised l adv g memory =>
    intro ha hq k i c hg hs
    have hl := onResAdvertised_link hg hs
    show Unclaimed n c.link adv.h ∧ Unclaimed n c.link (adv.h.take 32)
    rw [hl]
    exact h ⟨ha, hq, by simp [hg]⟩
  | wait | consumerSend | identify | proofs | concluded | concludedAgain | response | reqFailed | touched => trivial
  | detach | tick => exact ⟨by intros; trivial, by intros; trivial⟩
  | closed => exact fun _ _ _ => trivial
  | dropped => trivial

theorem Keyed.steps (h : n.Keyed) (hi : n.Inv) (hm : Steps Fresh n m) : m.Keyed := by
  have hall : m.Keyed ∧ m.Inv := by
    induction hm with
    | refl => exact ⟨h, hi⟩
    | tail _ hstep ih => exact ⟨ih.1.micro ih.2 hstep, ih.2.micro hstep⟩
  exact hall.1

theorem Keyed.step (h : n.Keyed) (hi : n.Inv) {op : Op} (hn : Novel n op) : (Rnsd.step n op).Keyed :=
  h.steps hi (steps_step hi.wf op (hn.permits hi.wf h))

theorem keyed_boot {t : ℚ} : (boot t).Keyed := by
  have hfree : ∀ {k i c}, (boot t).slot k i = some c → ¬ c.used := fun hs => by simp [slot_boot hs]
  refine ⟨?_, ?_, ?_, ?_, ?_, ?_⟩
  case refine_5 =>
    intro t' ht
    cases ht
  case refine_6 =>
    intro k i c hs hu
    exact absurd hu (hfree hs)
  all_goals
    intro k i c k' j c' v hs _ hu
    exact absurd hu (hfree hs)

/-- Registered Resources have begun. -/
def Begun (n : Node) : Prop := ∀ t ∈ n.resources, .began t ∈ n.log

theorem mem_registers {evs : List Event} {t : Transfer} : t ∈ evs.filterMap Event.registers? ↔ .began t ∈ evs := by
  rw [List.mem_filterMap]
  constructor
  · rintro ⟨e, he, ht⟩
    cases e with
    | began t' =>
      cases ht
      exact he
    | _ => cases ht
  · exact fun h => ⟨_, h, rfl⟩

theorem Begun.put (h : n.Begun) : (n.put k i r).Begun := by
  intro t ht
  rw [resources_put, List.mem_append, mem_registers] at ht
  rw [log_put, List.mem_append]
  exact ht.imp_left (h t)

theorem Begun.mono (h : n.Begun) (hr : m.resources ⊆ n.resources) (hl : n.log ⊆ m.log) : m.Begun :=
  fun t ht => hl (h t (hr ht))

theorem Begun.micro (h : n.Begun) (hm : Micro Q n m) : m.Begun := by
  cases hm with
  | closes l hc =>
    cases hc with
    | @concluded t => exact (h.mono (m := n.unregister t) List.erase_subset (List.Subset.refl _)).put
    | unknown | skipped => exact h.mono List.erase_subset (List.Subset.refl _)
    | inactive => exact h
    | ended => exact h.put
  | move | opened | marked | again => exact h.put
  | @seated k i c w owner hs =>
    have hput : (n.put k i (seat k n.clock w owner ⟨k, n.serial⟩ n.serial c)).Begun := h.put
    exact hput
  | active | waited => exact h
  | asked | refused => exact h.mono (List.Subset.refl _) (List.subset_append_left _ _)

-- ---------------------------------------------------------------------------
-- Whose slot it is
-- ---------------------------------------------------------------------------

def linkKey (k : Kind) (c : Conn) : Option (Kind × LinkRef) := c.link.map (k, ·)

structure Attributed (n : Node) : Prop where
  tags : Apart tagKey n
  links : Apart linkKey n
  transfers : Apart markerKey n
  requests : Apart requestKey n
  /-- Each event finds the slot it belongs to. -/
  tag : ∀ k i c, n.slot k i = some c → c.used → n.findTag k c.tag = some i
  handle : ∀ k i c h, n.slot k i = some c → c.used → c.handle = some h → n.findHandle k h = some i
  link : ∀ k i c l, n.slot k i = some c → c.link = some l → n.findLink k l = some i
  transfer : ∀ k i c, n.slot k i = some c → c.used → c.resHash ≠ [] → Marked n c.resHash k i c
  request : ∀ i c, n.slot .link i = some c → c.used → c.reqMrid ≠ [] → n.findReqMrid c.reqMrid = some i
  /-- A Resource, registered or not any more, ends no transfer of another link. -/
  foreign : ∀ t, t ∈ n.resources ∨ .began t ∈ n.log → ∀ k i c, Marked n t.hash k i c →
    c.resOn = some t.link ∧ (c.link = some t.link ∨ c.link = none)

theorem Wf.links (hw : n.Wf) : Apart linkKey n := by
  intro k i c k' j c' v hs hs' _ _ hv hv'
  rw [linkKey, Option.map_eq_some_iff] at hv hv'
  obtain ⟨l, hl, rfl⟩ := hv
  obtain ⟨l', hl', he⟩ := hv'
  cases he
  exact ⟨rfl, hw.apart _ _ _ _ _ _ hs hs' hl hl'⟩

theorem Apart.findTag (h : Apart tagKey n) (hs : n.slot k i = some c) (hu : c.used) : n.findTag k c.tag = some i := by
  cases hf : n.findTag k c.tag with
  | none => exact absurd rfl (Slots.find_eq_none.1 hf c (List.mem_of_getElem? hs) hu)
  | some j =>
    obtain ⟨c', hs', hu', ht⟩ := findTag_eq_some hf
    obtain ⟨-, rfl⟩ := h k i c k j c' (k, c.tag) hs hs' hu hu' rfl (by rw [tagKey, ht])
    rfl

theorem Apart.findHandle (h : Apart handleKey n) (hs : n.slot k i = some c) (hu : c.used) {a : Handle}
    (ha : c.handle = some a) : n.findHandle k a = some i := by
  cases hf : n.findHandle k a with
  | none => exact absurd ha (Slots.find_eq_none.1 hf c (List.mem_of_getElem? hs) (by simp [hu, ha]))
  | some j =>
    obtain ⟨c', hs', hu', ha'⟩ := findHandle_eq_some hf
    obtain ⟨-, rfl⟩ := h k i c k j c' (k, a) hs hs' hu hu' (by simp [handleKey, ha]) (by simp [handleKey, ha'])
    rfl

theorem Wf.findLink (hw : n.Wf) (hs : n.slot k i = some c) (hl : c.link = some l) : n.findLink k l = some i := by
  cases hf : n.findLink k l with
  | none => exact absurd hl (findLink_eq_none.1 hf i c hs (hw.used hs (by simp [hl])))
  | some j =>
    obtain ⟨c', hs', -, hl'⟩ := findLink_eq_some hf
    rw [hw.apart _ _ _ _ _ _ hs hs' hl hl']

theorem Apart.findRes (h : Apart markerKey n) (hs : n.slot k i = some c) (hu : c.used) (hne : c.resHash ≠ []) :
    n.findRes k c.resHash = some i ∧ ∀ k', k' ≠ k → n.findRes k' c.resHash = none := by
  have hv : markerKey k c = some c.resHash := markerKey_eq_some.2 ⟨rfl, hne⟩
  have hone : ∀ k' j, n.findRes k' c.resHash = some j → k = k' ∧ i = j := by
    intro k' j hf
    obtain ⟨c', hs', hu', hh, -⟩ := findRes_eq_some hf
    exact h k i c k' j c' c.resHash hs hs' hu hu' hv (markerKey_eq_some.2 ⟨hh, hne⟩)
  constructor
  · cases hf : n.findRes k c.resHash with
    | none => exact absurd rfl (findRes_eq_none hf hne hs hu)
    | some j => rw [(hone k j hf).2]
  · intro k' hk
    cases hf : n.findRes k' c.resHash with
    | none => rfl
    | some j => exact absurd (hone k' j hf).1.symm hk

theorem Apart.marked (h : Apart markerKey n) (hs : n.slot k i = some c) (hu : c.used) (hne : c.resHash ≠ []) :
    Marked n c.resHash k i c := by
  obtain ⟨hf, hother⟩ := h.findRes hs hu hne
  cases k with
  | link => exact .link hf hs
  | channel => exact .channel (hother .link nofun) hf hs

theorem Apart.findReqMrid (h : Apart requestKey n) (hs : n.slot .link i = some c) (hu : c.used) (hne : c.reqMrid ≠ []) :
    n.findReqMrid c.reqMrid = some i := by
  cases hf : n.findReqMrid c.reqMrid with
  | none =>
    unfold Node.findReqMrid at hf
    rw [if_neg hne] at hf
    exact absurd rfl (Slots.find_eq_none.1 hf c (List.mem_of_getElem? hs) (by simp [hu, hne]))
  | some j =>
    obtain ⟨c', hs', hu', hm, -⟩ := findReqMrid_eq_some hf
    obtain ⟨-, rfl⟩ := h .link i c .link j c' c.reqMrid hs hs' hu hu' (requestKey_eq_some.2 ⟨rfl, rfl, hne⟩)
      (requestKey_eq_some.2 ⟨rfl, hm, hne⟩)
    rfl

theorem Keyed.attributed (h : n.Keyed) (hw : n.Wf) (hb : n.Begun) : n.Attributed where
  tags := h.tags
  links := hw.links
  transfers := h.markers
  requests := h.requests
  tag _ _ _ hs hu := h.tags.findTag hs hu
  handle _ _ _ _ hs hu ha := h.handles.findHandle hs hu ha
  link _ _ _ _ hs hl := hw.findLink hs hl
  transfer _ _ _ hs hu hne := h.markers.marked hs hu hne
  request _ _ hs hu hne := h.requests.findReqMrid hs hu hne
  foreign := by
    intro t ht k i c hm
    obtain ⟨hu, hh, hne⟩ := hm.spec
    have hon := h.own t (ht.elim (hb t) id) k i c hm.slot hu hh hne
    refine ⟨hon, ?_⟩
    rw [← hon]
    exact h.on k i c hm.slot hu (hh ▸ hne)

theorem Begun.steps (h : n.Begun) (hm : Steps Q n m) : m.Begun := by
  induction hm with
  | refl => exact h
  | tail _ hstep ih => exact ih.micro hstep

theorem Begun.step (h : n.Begun) (hi : n.Inv) (op : Op) : (Rnsd.step n op).Begun :=
  h.steps (steps_step hi.wf op (permits_true n op))

/-- A peer's link, by the first bytes of its id and the handle it is taken on. -/
def caller (start : Bytes) (last : UInt8) (a : Handle) : Incoming where
  linkId := start ++ .replicate (15 - start.length) 0 ++ [last]
  localHash := .replicate 16 7
  owner := some ⟨1, ['l', 'x', 'm', 'f']⟩
  taken := some a

/-- Two peers' links whose ids start alike. -/
def alike : List Op := [.incoming .link (caller [1, 2, 3, 4] 5 0), .incoming .link (caller [1, 2, 3, 4] 6 1)]

def anAdvertisement : ResourceAdvertisement := { h := .replicate 32 9, r := .replicate 4 1 }

def openGate : Gate := ⟨fun _ => false, 8, 1000⟩

/-- Two peers that advertise the same hash. -/
def sameHash : List Op :=
  [.incoming .link (caller [1] 5 0), .incoming .link (caller [2] 6 1),
    .advertised ⟨.link, 0⟩ anAdvertisement openGate true, .advertised ⟨.link, 1⟩ anAdvertisement openGate true]

end MicroReticulum.Rnsd.Node
