import MicroReticulum.Rnsd.Phases

/-!
# The keys of a slot

A slot is looked up by its tag, its handle, the hash of its transfer or the id of
its request. What a write makes of these keys: the tag stays, the others stay, go,
or are those of a Resource or a request that starts with the write.
-/

namespace MicroReticulum.Rnsd.Node

open Lib Lib.Log Lib.Log.Transition
open Relation (ReflTransGen)
open MicroReticulum.MsgPack (Text ResourceAdvertisement)

variable {Q : Node → Risk → Prop} {q : Risk → Prop} {n m : Node} {k k' : Kind} {i j : Nat} {c c' : Conn}
  {r : Conn × List Event} {l : LinkRef} {now : ℚ} {serial : Nat} {κ : Type*} {key : Kind → Conn → Option κ} {v : κ}

-- ---------------------------------------------------------------------------
-- Keys
-- ---------------------------------------------------------------------------

/-- No two used slots have the same key. -/
def Apart (key : Kind → Conn → Option κ) (n : Node) : Prop :=
  ∀ k i c k' j c' v, n.slot k i = some c → n.slot k' j = some c' → c.used → c'.used →
    key k c = some v → key k' c' = some v → k = k' ∧ i = j

/-- No used slot has the key. -/
def Unused (key : Kind → Conn → Option κ) (n : Node) (v : κ) : Prop :=
  ∀ k i c, n.slot k i = some c → c.used → key k c ≠ some v

theorem Apart.effect (h : Apart key n) (he : Effect Q n m)
    (hkey : ∀ {k i c r}, n.slot k i = some c → Write Q n k i c r → r.1.used →
      ∀ v, key k r.1 = some v → c.used ∧ key k c = some v ∨ Unused key n v) : Apart key m := by
  cases he with
  | @wrote k₀ i₀ c₀ r hs hw hslot =>
    -- the slot that is written against one that is not
    have hwrite : ∀ {k j c' v}, n.slot k j = some c' → c'.used → ¬ (k = k₀ ∧ j = i₀) → r.1.used →
        key k₀ r.1 = some v → key k c' ≠ some v := by
      intro k j c' v hs' hu' hne hu hv hv'
      rcases hkey hs hw hu v hv with ⟨hu₀, hv₀⟩ | hun
      · exact hne (h k j c' k₀ i₀ c₀ v hs' hs hu' hu₀ hv' hv₀)
      · exact hun k j c' hs' hu' hv'
    intro k i c k' j c' v hs₁ hs₂ hu hu' hv hv'
    rw [hslot] at hs₁ hs₂
    rcases slot_put_cases hs hs₁ with ⟨rfl, rfl, rfl⟩ | ⟨hne, hold⟩ <;>
      rcases slot_put_cases hs hs₂ with ⟨rfl, rfl, rfl⟩ | ⟨hne', hold'⟩
    · exact ⟨rfl, rfl⟩
    · exact absurd hv' (hwrite hold' hu' hne' hu hv)
    · exact absurd hv (hwrite hold hu hne hu' hv')
    · exact h k i c k' j c' v hold hold' hu hu' hv hv'
  | asked r hr hm | refused s hs hq hm =>
    subst hm
    exact h
  | still hslot =>
    unfold Apart
    rw [hslot]
    exact h

def tagKey (k : Kind) (c : Conn) : Option (Kind × Text) := some (k, c.tag)

def handleKey (k : Kind) (c : Conn) : Option (Kind × Handle) := c.handle.map (k, ·)

def markerKey (_ : Kind) (c : Conn) : Option Bytes := if c.resHash = [] then none else some c.resHash

def requestKey (k : Kind) (c : Conn) : Option Bytes := if k = .link ∧ c.reqMrid ≠ [] then some c.reqMrid else none

theorem markerKey_eq_some {h : Bytes} : markerKey k c = some h ↔ c.resHash = h ∧ h ≠ [] := by
  unfold markerKey
  split
  · next he => simp [he, eq_comm]
  · next he =>
    simp only [Option.some.injEq]
    constructor
    · rintro rfl
      exact ⟨rfl, he⟩
    · exact And.left

theorem requestKey_eq_some {h : Bytes} : requestKey k c = some h ↔ k = .link ∧ c.reqMrid = h ∧ h ≠ [] := by
  unfold requestKey
  split
  · next he =>
    simp only [Option.some.injEq]
    constructor
    · rintro rfl
      exact ⟨he.1, rfl, he.2⟩
    · exact fun h => h.2.1
  · next he =>
    constructor
    · intro h
      cases h
    · rintro ⟨hk, rfl, hne⟩
      exact absurd ⟨hk, hne⟩ he

/-- Where the keys of a used slot come from. -/
structure Keys (q : Risk → Prop) (c : Conn) (r : Conn × List Event) : Prop where
  tag : r.1.tag = c.tag
  handle : r.1.handle = c.handle ∨ r.1.handle = none
  marker : r.1.resHash = c.resHash ∧ r.1.resOn = c.resOn ∨ r.1.resHash = [] ∨
    ∃ t, .began t ∈ r.2 ∧ t.hash = r.1.resHash ∧ c.link = some t.link ∧ r.1.resOn = some t.link
  request : r.1.reqMrid = c.reqMrid ∨ r.1.reqMrid = [] ∨ q (.asks r.1.reqMrid)

theorem keys_same (ht : r.1.tag = c.tag) (hh : r.1.handle = c.handle) (hm : r.1.resHash = c.resHash)
    (ho : r.1.resOn = c.resOn) (hr : r.1.reqMrid = c.reqMrid) : Keys q c r := ⟨ht, .inl hh, .inl ⟨hm, ho⟩, .inl hr⟩

theorem startOutboundResource_marker {h₀ : Bytes} {on : Option LinkRef} (hh : c.resHash = h₀) (ho : c.resOn = on)
    (hl : c.link = some l) (made : Made) (s : Send) :
    let r := startOutboundResource made s c
    r.1.resHash = h₀ ∧ r.1.resOn = on ∨ r.1.resHash = [] ∨ .began ⟨l, r.1.resHash, true⟩ ∈ r.2 ∧ r.1.resOn = some l := by
  unfold startOutboundResource
  split
  · exact .inl ⟨hh, ho⟩
  · split
    · exact .inl ⟨hh, ho⟩
    · next h =>
      by_cases he : h = []
      · exact .inr (.inl he)
      · exact .inr (.inr ⟨by simp [began, hl, Made.registered, he], hl⟩)

theorem linkStartRequest_mrid (now : ℚ) (a : Asking) (req : Request) :
    (linkStartRequest now a req c).1.reqMrid = c.reqMrid ∨
      ∃ id : RequestId, a.id = some id ∧ (linkStartRequest now a req c).1.reqMrid = id.val := by
  unfold linkStartRequest
  split
  · exact .inl rfl
  · split
    · exact .inl rfl
    · next id hid => exact .inr ⟨id, hid, rfl⟩

theorem linkStartRequest_keeps (now : ℚ) (a : Asking) (req : Request) :
    let c' := (linkStartRequest now a req c).1
    c'.tag = c.tag ∧ c'.handle = c.handle ∧ c'.resHash = c.resHash ∧ c'.resOn = c.resOn := by
  dsimp only
  rw [linkStartRequest_fst]
  exact ⟨rfl, rfl, rfl, rfl⟩

theorem flushRequest_keeps (now : ℚ) (a : Asking) :
    let c' := (flushRequest now a c).1
    c'.tag = c.tag ∧ c'.handle = c.handle ∧ c'.resHash = c.resHash ∧ c'.resOn = c.resOn := by
  dsimp only
  rw [flushRequest_fst]
  exact ⟨rfl, rfl, rfl, rfl⟩

theorem startOutboundResource_keeps (made : Made) (s : Send) :
    let c' := (startOutboundResource made s c).1
    c'.tag = c.tag ∧ c'.handle = c.handle ∧ c'.reqMrid = c.reqMrid := by
  dsimp only
  rw [startOutboundResource_fst]
  exact ⟨rfl, rfl, rfl⟩

theorem established_keys (k : Kind) (now : ℚ) (f : Flush) (hl : c.link = some l)
    (ha : ∀ id : RequestId, f.asking.id = some id → q (.asks id.val)) : Keys q c (established k now f c) := by
  -- the Resource that waited, wherever in the flush it goes out
  have hres : ∀ {c₁ : Conn}, c₁.resHash = c.resHash → c₁.resOn = c.resOn → c₁.link = c.link →
      let r := flushResource f.made c₁
      r.1.resHash = c.resHash ∧ r.1.resOn = c.resOn ∨ r.1.resHash = [] ∨
        .began ⟨l, r.1.resHash, true⟩ ∈ r.2 ∧ r.1.resOn = some l := by
    intro c₁ hh ho hl'
    unfold flushResource
    split
    · exact .inl ⟨hh, ho⟩
    · next s _ =>
      have h := startOutboundResource_marker (c := { c₁ with pendRes := none }) hh ho (hl'.trans hl) f.made s
      exact h.imp id (.imp id (.imp_left (List.mem_cons_of_mem _)))
  cases k with
  | channel =>
    simp only [established, chanEstablished_apply]
    obtain ⟨c₁, hc₁⟩ : ∃ c₁, c₁ = (chanIdentify f.identify (activate now c).1).1 := ⟨_, rfl⟩
    have hsame : c₁ = { c with state := .active, estabDeadline := 0, lastActivity := now } := by
      rw [hc₁]
      cases f.identify <;> rfl
    rw [← hc₁]
    have hm := hres (show c₁.resHash = c.resHash by rw [hsame]) (show c₁.resOn = c.resOn by rw [hsame])
      (show c₁.link = c.link by rw [hsame])
    refine ⟨?_, .inl ?_, hm.imp id (.imp id fun h => ⟨_, List.mem_append_right _ h.1, rfl, hl, h.2⟩), .inl ?_⟩ <;>
      rw [flushResource_fst, hsame]
  | link =>
    simp only [established, linkEstablished_apply]
    obtain ⟨c₁, hc₁⟩ : ∃ c₁, c₁ = (flushPacket f.packetThrows (flushIdentify now f.identify (activate now c).1).1).1 :=
      ⟨_, rfl⟩
    have hsame : c₁ = { c with
        state := .active, estabDeadline := 0, lastActivity := now, pendIdentify := none, pendPacket := none
        ident := c₁.ident } := by
      rw [hc₁, flushPacket_fst, flushIdentify_fst]
      rfl
    rw [← hc₁]
    have hm := hres (show c₁.resHash = c.resHash by rw [hsame]) (show c₁.resOn = c.resOn by rw [hsame])
      (show c₁.link = c.link by rw [hsame])
    have hframe : (flushResource f.made c₁).1.tag = c.tag ∧ (flushResource f.made c₁).1.handle = c.handle ∧
        (flushResource f.made c₁).1.reqMrid = c.reqMrid := by
      rw [flushResource_fst, hsame]
      exact ⟨rfl, rfl, rfl⟩
    obtain ⟨htag, hhandle, hhash, hon⟩ := flushRequest_keeps (c := (flushResource f.made c₁).1) now f.asking
    refine ⟨htag.trans hframe.1, .inl (hhandle.trans hframe.2.1), ?_, ?_⟩
    · dsimp only
      rw [hhash, hon]
      refine hm.imp id (.imp id fun hb => ⟨⟨l, (flushResource f.made c₁).1.resHash, true⟩, ?_, rfl, hl, hb.2⟩)
      simp only [List.mem_append]
      exact .inr (.inr (.inl hb.1))
    · unfold flushRequest
      split
      · exact .inl hframe.2.2
      · next req _ =>
        obtain ⟨c₂, hc₂⟩ : ∃ c₂, c₂ = (flushResource f.made c₁).1 := ⟨_, rfl⟩
        rw [← hc₂] at hframe ⊢
        rcases linkStartRequest_mrid (c := { c₂ with pendReq := none }) now f.asking req with he | ⟨id, hid, he⟩
        · exact .inl (he.trans hframe.2.2)
        · refine .inr (.inr ?_)
          dsimp only
          rw [he]
          exact ha id hid

/-- Dialling leaves the keys alone. -/
structure SameKeys (c c' : Conn) : Prop where
  tag : c'.tag = c.tag
  handle : c'.handle = c.handle
  marker : c'.resHash = c.resHash
  on : c'.resOn = c.resOn
  request : c'.reqMrid = c.reqMrid

theorem SameKeys.keys (h : SameKeys c r.1) : Keys q c r := keys_same h.tag h.handle h.marker h.on h.request

theorem Dialled.same (h : Dialled now l c r) : SameKeys c r.1 := by
  cases h <;> exact ⟨rfl, rfl, rfl, rfl, rfl⟩

theorem ChanDialled.same (h : ChanDialled l c r) : SameKeys c r.1 := by
  cases h <;> exact ⟨rfl, rfl, rfl, rfl, rfl⟩

theorem Opens.same (h : Opens now l c k r) : SameKeys c r.1 := by
  cases h with
  | waits => exact ⟨rfl, rfl, rfl, rfl, rfl⟩
  | link h => exact ⟨h.same.tag, h.same.handle, h.same.marker, h.same.on, h.same.request⟩
  | channel h => exact ⟨h.same.tag, h.same.handle, h.same.marker, h.same.on, h.same.request⟩

theorem Move.keys (h : Move q now serial k i c r) (hu : r.1.used) : Keys q c r := by
  cases h with
  | touched | proofs | overdue | dead | chanTimedOut | unreached => exact keys_same rfl rfl rfl rfl rfl
  | letGo => exact ⟨rfl, .inr rfl, .inl ⟨rfl, rfl⟩, .inl rfl⟩
  | consumerSend i c mdu throws bytes =>
    unfold linkConsumerSend
    split
    · split <;> exact keys_same rfl rfl rfl rfl rfl
    · split <;> exact keys_same rfl rfl rfl rfl rfl
  | identify i c how key =>
    unfold linkIdentify
    split
    · split <;> exact keys_same rfl rfl rfl rfl rfl
    · cases how <;> exact keys_same rfl rfl rfl rfl rfl
  | request i c a req hr hq =>
    rw [act_andThen, id]
    unfold linkRequest
    split
    · split <;> exact keys_same rfl rfl rfl rfl rfl
    · obtain ⟨htag, hhandle, hhash, hon⟩ := linkStartRequest_keeps (c := c) now a req
      refine ⟨htag, .inl hhandle, .inl ⟨hhash, hon⟩, ?_⟩
      rcases linkStartRequest_mrid (c := c) now a req with he | ⟨id, hid, he⟩
      · exact .inl he
      · rw [he]
        exact .inr (.inr (hq id hid))
  | sendResource k i c m s hs hq =>
    rw [act_andThen, id]
    unfold Rnsd.sendResource
    split
    · exact keys_same rfl rfl rfl rfl rfl
    · split
      · exact keys_same rfl rfl rfl rfl rfl
      · next hidle =>
        obtain ⟨l, hl⟩ := Option.ne_none_iff_exists'.1 fun hn => hidle (.inl hn)
        obtain ⟨htag, hhandle, hrequest⟩ := startOutboundResource_keeps (c := c) m s
        refine ⟨htag, .inl hhandle, ?_, .inl hrequest⟩
        exact (startOutboundResource_marker rfl rfl hl m s).imp id
          (.imp id fun ⟨hb, ho⟩ => ⟨_, List.mem_cons_of_mem _ hb, rfl, hl, ho⟩)
  | established k i c f hl hq ha =>
    obtain ⟨l, hl⟩ := Option.ne_none_iff_exists'.1 hl
    exact established_keys k now f hl ha
  | response | reqFailed => exact ⟨rfl, .inl rfl, .inl ⟨rfl, rfl⟩, .inr (.inl rfl)⟩
  | timers i c st =>
    obtain ⟨_, _, mrid, he, hm⟩ := timers_fst (c := c) now st
    refine ⟨by rw [he], .inl (by rw [he]), .inl ⟨by rw [he], by rw [he]⟩, ?_⟩
    rw [he]
    rcases hm with rfl | rfl
    · exact .inl rfl
    · exact .inr (.inl rfl)
  | awaits i c r hs h =>
    cases h with
    | dialled h => exact h.same.keys
    | asks | failed | waits => exact keys_same rfl rfl rfl rfl rfl
  | timedOut i c r hs hl hd h =>
    cases h with
    | dialled _ h => exact keys_same h.same.tag h.same.handle h.same.marker h.same.on h.same.request
    | waits | failed => exact keys_same rfl rfl rfl rfl rfl
  | freed | chanFreed => cases hu
  | chanAwaits i c r hs h => exact h.same.keys

/-- What a write makes of the keys of a slot. -/
inductive Rekeys (q : Risk → Prop) (k : Kind) (i : Nat) (c : Conn) (r : Conn × List Event) : Prop
  | kept (hu : c.used) (h : Keys q c r)
  | marked (adv : ResourceAdvertisement) (memory : Bool) (hu : c.used) (hl : c.link ≠ none)
      (hq : q (.marks k i c adv memory)) (he : r = markResource memory adv c)
  | filled (tag : Text) (a : Option Handle) (hu : c.used = false) (ht : r.1.tag = tag) (ha : r.1.handle = a)
      (hm : r.1.resHash = []) (hr : r.1.reqMrid = []) (hq : (∃ h, a = some h ∧ q (.opens k tag h)) ∨ q (.seats k tag a))

theorem Write.rekeys (hw : Write Q n k i c r) (hu : r.1.used) : Rekeys (Q n) k i c r := by
  cases hw with
  | move hu' h => exact .kept hu' (h.keys hu)
  | opened h req w hu' hb hq hr =>
    have hs := hr.same
    obtain ⟨⟨hm, hrq⟩, -⟩ := fill_filled hb k n.clock h w req n.serial
    have hf : (fill k n.clock h w req n.serial c).1.tag = req.tag ∧ (fill k n.clock h w req n.serial c).1.handle = some h := by
      cases k <;> exact ⟨rfl, rfl⟩
    exact .filled req.tag (some h) hu' (hs.tag.trans hf.1) (hs.handle.trans hf.2) (hs.marker.trans hm)
      (hs.request.trans hrq) (.inl ⟨h, rfl, hq⟩)
  | seated w owner hu' hb hq =>
    cases k with
    | link => exact .filled _ w.taken hu' rfl rfl rfl hb.reqMrid (.inr hq)
    | channel => exact .filled _ w.taken hu' rfl rfl hb.resHash hb.reqMrid (.inr hq)
  | marked g adv memory hu' hl ha hg hq => exact .marked adv memory hu' (by simp [hl]) hq rfl
  | concluded out hu' hm => exact .kept hu' ⟨rfl, .inl rfl, .inr (.inl rfl), .inl rfl⟩
  | ended hu' hk hl ha =>
    refine .kept hu' ?_
    cases k with
    | link =>
      simp only [linkEnds, linkClosed, quiet_apply]
      split <;> exact keys_same rfl rfl rfl rfl rfl
    | channel => exact keys_same rfl rfl rfl rfl rfl

/-- A marker is the slot's own from before, or was unused. -/
theorem Rekeys.marker (hw : Rekeys q k i c r) (hbegan : ∀ t, .began t ∈ r.2 → t.hash ≠ [] → Unused markerKey n t.hash)
    (hmarks : ∀ adv memory, q (.marks k i c adv memory) → adv.h ≠ [] → Unused markerKey n adv.h) {v : Bytes}
    (hv : markerKey k r.1 = some v) : c.used ∧ markerKey k c = some v ∨ Unused markerKey n v := by
  obtain ⟨rfl, hne⟩ := markerKey_eq_some.1 hv
  cases hw with
  | kept hu h =>
    rcases h.marker with ⟨he, -⟩ | he | ⟨t, hb, he, -⟩
    · exact .inl ⟨hu, markerKey_eq_some.2 ⟨he.symm, hne⟩⟩
    · exact absurd he hne
    · rw [← he] at hne ⊢
      exact .inr (hbegan t hb hne)
  | marked adv memory hu hl hq he =>
    subst he
    exact .inr (hmarks adv memory hq hne)
  | filled tag a hu ht ha hm => exact absurd hm hne

-- ---------------------------------------------------------------------------
-- Resources that begin
-- ---------------------------------------------------------------------------

/-- A Resource with the hash was made on the slot's link. -/
def Started (q : Risk → Prop) (c : Conn) (h : Bytes) : Prop :=
  c.link ≠ none ∧ ∃ made : Made, made.registered = some h ∧ ((∃ s, q (.sends c s made)) ∨ q (.flushes c made))

theorem mem_began {o : Option LinkRef} {hash : Option Bytes} {outbound : Bool} {t : Transfer}
    (h : .began t ∈ began o hash outbound) : o = some t.link ∧ hash = some t.hash := by
  unfold began at h
  split at h
  · cases List.mem_singleton.1 h
    exact ⟨rfl, rfl⟩
  · cases h

theorem startOutboundResource_began {made : Made} {s : Send} {t : Transfer}
    (h : .began t ∈ (startOutboundResource made s c).2) : c.link = some t.link ∧ made.registered = some t.hash := by
  unfold startOutboundResource at h
  split at h
  · exact absurd h ((about_free _).not_mem (by simp [topic]))
  · split at h
    · simp only [List.mem_append] at h
      rcases h with (h | h) | h
      · exact mem_began h
      · exact absurd h ((about_free _).not_mem (by simp [topic]))
      · exact absurd h ((about_resSendAux _ _ _).not_mem (by simp [topic]))
    · rcases List.mem_append.1 h with h | h
      · exact mem_began h
      · exact absurd h ((about_free _).not_mem (by simp [topic]))

theorem flushResource_began {made : Made} {t : Transfer} (h : .began t ∈ (flushResource made c).2) :
    c.link = some t.link ∧ made.registered = some t.hash := by
  unfold flushResource at h
  split at h
  · cases h
  · next s _ =>
    rcases List.mem_cons.1 h with h | h
    · cases h
    · exact startOutboundResource_began (c := { c with pendRes := none }) h

theorem established_began {f : Flush} {t : Transfer} (h : .began t ∈ (established k now f c).2) :
    c.link = some t.link ∧ f.made.registered = some t.hash := by
  cases k with
  | channel =>
    simp only [established, chanEstablished_apply, List.mem_append] at h
    rcases h with h | h
    · exact absurd h ((about_chanIdentify _).not_mem (by simp [topic]))
    · have hb := flushResource_began h
      rwa [show (chanIdentify f.identify (activate now c).1).1.link = c.link by cases f.identify <;> rfl] at hb
  | link =>
    simp only [established, linkEstablished_apply, List.mem_append] at h
    rcases h with h | h | h | h
    · exact absurd h ((about_flushIdentify _ _).not_mem (by simp [topic]))
    · exact absurd h ((about_flushPacket _).not_mem (by simp [topic]))
    · have hb := flushResource_began h
      rw [flushPacket_fst, flushIdentify_fst] at hb
      exact hb
    · exact absurd h ((about_flushRequest _ _).not_mem (by simp [topic]))

/-- A Resource begins on a link that is up, or as it comes up. -/
theorem Move.begins {t : Transfer} (h : Move q now serial k i c r) (ht : .began t ∈ r.2) :
    (∃ (m : Made) (s : Send), q (.sends c s m) ∧ c.state = .active ∧ r.1.state = .active ∧
        .began t ∈ (startOutboundResource m s c).2) ∨
      ∃ f : Flush, q (.flushes c f.made) ∧ r = Node.established k now f c := by
  cases h with
  | touched | letGo | proofs | unreached | overdue | dead | chanTimedOut => cases ht
  | consumerSend => exact absurd ht ((about_linkConsumerSend _ _ _ _).not_mem (by simp [topic]))
  | identify => exact absurd ht ((about_linkIdentify _ _ _).not_mem (by simp [topic]))
  | request =>
    rcases List.mem_cons.1 ht with ht | ht
    · cases ht
    · exact absurd ht ((about_linkRequest _ _ _).not_mem (by simp [topic]))
  | sendResource k i c m s hs hq =>
    rcases List.mem_cons.1 ht with ht | ht
    · cases ht
    · have hst : ((Transition.act id (.handed s)).andThen (Rnsd.sendResource m s) c).1.state = c.state :=
        (spends_sendResource m s).keeps.2.2.1
      change .began t ∈ (Rnsd.sendResource m s c).2 at ht
      unfold Rnsd.sendResource at ht
      split at ht
      · exact absurd ht ((about_free _).not_mem (by simp [topic]))
      · split at ht
        · cases ht
        · next hup =>
          have ha : c.state = .active := not_not.1 fun hs => hup (.inr hs)
          exact .inl ⟨m, s, hq, ha, hst.trans ha, ht⟩
  | established k i c f hl hq => exact .inr ⟨f, hq, rfl⟩
  | response => exact absurd ht ((about_reqResponse _ _ _).not_mem (by simp [topic]))
  | reqFailed => exact absurd ht ((about_reqSendAux _ _).not_mem (by simp [topic]))
  | timers => exact absurd ht ((about_timers _ _).not_mem (by simp [topic]))
  | awaits i c r hs h => exact absurd ht ((about_awaited h).not_mem (by simp [topic]))
  | timedOut i c r hs hl hd h => exact absurd ht ((about_retried h).not_mem (by simp [topic]))
  | freed => exact absurd ht (about_linkFreeSlot.not_mem (by simp [topic]))
  | chanAwaits i c r hs h =>
    rw [snd_chanDialled h] at ht
    cases ht
  | chanFreed => exact absurd ht (about_chanReset.not_mem (by simp [topic]))

theorem Move.began {t : Transfer} (h : Move q now serial k i c r) (ht : .began t ∈ r.2) :
    c.link = some t.link ∧ Started q c t.hash := by
  rcases h.begins ht with ⟨m, s, hq, -, -, ht'⟩ | ⟨f, hq, rfl⟩
  · obtain ⟨hl, hm⟩ := startOutboundResource_began ht'
    exact ⟨hl, by simp [hl], m, hm, .inl ⟨s, hq⟩⟩
  · obtain ⟨hl, hm⟩ := established_began ht
    exact ⟨hl, by simp [hl], f.made, hm, .inr hq⟩

/-- A Resource that begins is one that was made for the slot, or advertised to it. -/
theorem Write.began {t : Transfer} (hw : Write Q n k i c r) (ht : .began t ∈ r.2) : c.link = some t.link ∧
    (Started (Q n) c t.hash ∨ ∃ adv memory, Q n (.marks k i c adv memory) ∧ accept memory adv = some t.hash) := by
  cases hw with
  | move hu h =>
    obtain ⟨hl, hs⟩ := h.began ht
    exact ⟨hl, .inl hs⟩
  | opened h req w hu hb hq hr => exact absurd ht ((about_opens hr).not_mem (by simp [topic]))
  | seated => cases k <;> cases ht
  | marked g adv memory hu hl ha hg hq =>
    obtain ⟨hl', hm⟩ := mem_began ht
    exact ⟨hl', .inr ⟨adv, memory, hq, hm⟩⟩
  | concluded out => exact absurd ht ((about_concludeResource out).not_mem (by simp [topic]))
  | ended =>
    cases k with
    | link =>
      simp only [linkEnds, linkClosed, quiet_apply] at ht
      cases ht
    | channel => cases ht

/-- A slot with a transfer keeps its link as long as the link is not closed. -/
theorem Move.keeps_link (h : Move q now serial k i c r) (hsane : Sane k c) (hu : r.1.used) (hne : r.1.resHash ≠ []) :
    r.1.link = c.link := by
  -- a slot that dials has no transfer
  have hdial : Trying c → r.1.resHash = c.resHash → r.1.link = c.link := fun hs he =>
    absurd (he.trans (hsane.trying hs).1) hne
  cases h with
  | touched | letGo | proofs | response | reqFailed | dead | chanTimedOut => rfl
  | consumerSend => exact (spends_linkConsumerSend ..).keeps.2.1
  | identify => exact (spends_linkIdentify ..).keeps.2.1
  | request => exact (spends_linkRequest ..).keeps.2.1
  | sendResource => exact (spends_sendResource ..).keeps.2.1
  | established k i c f => exact (established_keeps (c := c) k now f).2.1
  | timers => exact (spends_timers ..).keeps.2.1
  | unreached k i c hr => exact absurd hr hne
  | overdue i c hs => exact hdial (.inr hs) rfl
  | awaits i c r hs h =>
    cases h with
    | dialled h => exact hdial (.inl hs) h.same.marker
    | asks | failed | waits => rfl
  | timedOut i c r hs hl hd h =>
    cases h with
    | dialled _ h => exact hdial (.inr hs) h.same.marker
    | waits | failed => rfl
  | freed | chanFreed => cases hu
  | chanAwaits i c r hs h => exact hdial (.inl hs) h.same.marker

end MicroReticulum.Rnsd.Node
