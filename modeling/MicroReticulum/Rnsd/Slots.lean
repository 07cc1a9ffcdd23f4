import MicroReticulum.Rnsd.Node

/-!
# Slots and lookups

What a slot holds after a write, what each lookup finds, and what closing a
link can do to the slots of either table.
-/

namespace MicroReticulum.Rnsd.Node

open Lib Lib.Log Lib.Log.Transition
open MicroReticulum.MsgPack (Text)

variable {n m : Node} {k k' : Kind} {i j : Nat} {c c' : Conn} {r : Conn × List Event} {t : Transition Conn Event}
  {l : LinkRef} {h : Bytes} {evs : List Event}

-- ---------------------------------------------------------------------------
-- Writes
-- ---------------------------------------------------------------------------

theorem slot_put (hs : n.slot k i = some c) :
    (n.put k i r).slot k' j = if k' = k ∧ j = i then some r.1 else n.slot k' j := by
  have hi : i < (n.table k).length := (List.getElem?_eq_some_iff.1 hs).1
  unfold slot put
  by_cases hk : k' = k
  · subst hk
    by_cases hj : j = i
    · subst hj
      simp [hi]
    · simp [hj, List.getElem?_set_ne (Ne.symm hj)]
  · simp [hk]

theorem slot_put_self (hs : n.slot k i = some c) : (n.put k i r).slot k i = some r.1 := by
  simp [slot_put hs]

theorem act_eq (hs : n.slot k i = some c) : n.act k i t = n.put k i (t c) := by
  simp [act, hs]

@[simp] theorem clock_put : (n.put k i r).clock = n.clock := rfl
@[simp] theorem serial_put : (n.put k i r).serial = n.serial + 1 := rfl
@[simp] theorem actives_put : (n.put k i r).actives = n.actives := rfl
@[simp] theorem log_put : (n.put k i r).log = n.log ++ r.2 := rfl
@[simp] theorem resources_put : (n.put k i r).resources = n.resources ++ r.2.filterMap Event.registers? := rfl

@[simp] theorem slot_say : (n.say evs).slot = n.slot := rfl
@[simp] theorem slot_unregister {t : Transfer} : (n.unregister t).slot = n.slot := rfl

theorem length_put : ((n.put k i r).table k').length = (n.table k').length := by
  unfold put
  by_cases hk : k' = k
  · subst hk
    simp
  · simp [Function.update_of_ne hk]

/-- A slot after a write is the one written or one of before. -/
theorem slot_put_cases (hs : n.slot k i = some c) (h : (n.put k i r).slot k' j = some c') :
    k' = k ∧ j = i ∧ c' = r.1 ∨ ¬ (k' = k ∧ j = i) ∧ n.slot k' j = some c' := by
  rw [slot_put hs] at h
  split at h
  · next he => exact .inl ⟨he.1, he.2, (Option.some.inj h).symm⟩
  · next he => exact .inr ⟨he, h⟩

-- ---------------------------------------------------------------------------
-- Lookups
-- ---------------------------------------------------------------------------

theorem findTag_eq_some {tag : Text} (h : n.findTag k tag = some i) :
    ∃ c, n.slot k i = some c ∧ c.used ∧ c.tag = tag := Slots.find_eq_some h

theorem findHandle_eq_some {a : Handle} (h : n.findHandle k a = some i) :
    ∃ c, n.slot k i = some c ∧ c.used ∧ c.handle = some a := by
  obtain ⟨c, hc, hu, hk⟩ := Slots.find_eq_some h
  simp only [Bool.and_eq_true] at hu
  exact ⟨c, hc, hu.1, hk⟩

theorem findLink_eq_some (h : n.findLink k l = some i) :
    ∃ c, n.slot k i = some c ∧ c.used ∧ c.link = some l := by
  obtain ⟨c, hc, hu, hk⟩ := Slots.find_eq_some h
  simp only [Bool.and_eq_true] at hu
  exact ⟨c, hc, hu.1, hk⟩

theorem findLink_eq_none : n.findLink k l = none ↔ ∀ i c, n.slot k i = some c → c.used → c.link ≠ some l := by
  unfold findLink
  rw [Slots.find_eq_none]
  constructor
  · intro h i c hc hu hl
    exact h c (List.mem_of_getElem? hc) (by simp [hu, hl]) hl
  · intro h c hc hu hl
    obtain ⟨i, hi⟩ := List.mem_iff_getElem?.1 hc
    simp only [Bool.and_eq_true] at hu
    exact h i c hi hu.1 hl

theorem findRes_eq_some (hf : n.findRes k h = some i) :
    ∃ c, n.slot k i = some c ∧ c.used ∧ c.resHash = h ∧ h ≠ [] := by
  unfold findRes at hf
  split at hf
  · cases hf
  · next hne =>
    obtain ⟨c, hc, hu, hk⟩ := Slots.find_eq_some hf
    simp only [Bool.and_eq_true] at hu
    exact ⟨c, hc, hu.1, hk, hne⟩

theorem findRes_eq_none (hf : n.findRes k h = none) (hne : h ≠ []) (hs : n.slot k i = some c) (hu : c.used) :
    c.resHash ≠ h := by
  intro hh
  rw [findRes, if_neg hne] at hf
  exact Slots.find_eq_none.1 hf c (List.mem_of_getElem? hs) (by simp [hu, hh, hne]) hh

theorem findReqMrid_eq_some {mrid : Bytes} (hf : n.findReqMrid mrid = some i) :
    ∃ c, n.slot .link i = some c ∧ c.used ∧ c.reqMrid = mrid ∧ mrid ≠ [] := by
  unfold findReqMrid at hf
  split at hf
  · cases hf
  · next hne =>
    obtain ⟨c, hc, hu, hk⟩ := Slots.find_eq_some hf
    simp only [Bool.and_eq_true] at hu
    exact ⟨c, hc, hu.1, hk, hne⟩

-- ---------------------------------------------------------------------------
-- Closing a link
-- ---------------------------------------------------------------------------

/-- The slot whose marker a conclusion with this hash clears. -/
inductive Marked (n : Node) (h : Bytes) : Kind → Nat → Conn → Prop
  | link {i : Nat} {c : Conn} (hf : n.findRes .link h = some i) (hs : n.slot .link i = some c) : Marked n h .link i c
  | channel {i : Nat} {c : Conn} (hn : n.findRes .link h = none) (hf : n.findRes .channel h = some i)
      (hs : n.slot .channel i = some c) : Marked n h .channel i c

theorem Marked.slot (hm : Marked n h k i c) : n.slot k i = some c := by
  cases hm with
  | link _ hs => exact hs
  | channel _ _ hs => exact hs

theorem Marked.spec (hm : Marked n h k i c) : c.used ∧ c.resHash = h ∧ h ≠ [] := by
  cases hm with
  | link hf hs | channel _ hf hs =>
    obtain ⟨c', hs', hspec⟩ := findRes_eq_some hf
    cases hs.symm.trans hs'
    exact hspec

/-- A conclusion clears the marker of one slot, or finds none. -/
theorem onResConcluded_cases (out : Conclusion) :
    (∃ k i c, Marked n h k i c ∧ n.onResConcluded h out = n.put k i (concludeResource out c)) ∨
      (n.findRes .link h = none ∧ n.findRes .channel h = none ∧ n.onResConcluded h out = n) := by
  unfold onResConcluded
  cases hl : n.findRes .link h with
  | some i =>
    obtain ⟨c, hs, -⟩ := findRes_eq_some hl
    exact .inl ⟨.link, i, c, .link hl hs, act_eq hs⟩
  | none =>
    cases hc : n.findRes .channel h with
    | some i =>
      obtain ⟨c, hs, -⟩ := findRes_eq_some hc
      exact .inl ⟨.channel, i, c, .channel hl hc hs, act_eq hs⟩
    | none => exact .inr ⟨rfl, rfl, rfl⟩

/-- The small steps of `link_closed` on `l`; `skips` is asked of a Resource that goes without
its callback. -/
inductive Closes (skips : Node → Transfer → Prop) (l : LinkRef) : Node → Node → Prop
  | concluded {n : Node} {t : Transfer} {k : Kind} {i : Nat} {c : Conn} (out : Conclusion) (ht : t ∈ n.resources)
      (hl : t.link = l) (hm : Marked n t.hash k i c) :
      Closes skips l n ((n.unregister t).put k i (concludeResource out c))
  | unknown {n : Node} {t : Transfer} (ht : t ∈ n.resources) (hl : t.link = l) (hnl : n.findRes .link t.hash = none)
      (hnc : n.findRes .channel t.hash = none) : Closes skips l n (n.unregister t)
  | skipped {n : Node} {t : Transfer} (ht : t ∈ n.resources) (hl : t.link = l) (hs : skips n t) :
      Closes skips l n (n.unregister t)
  | inactive {n : Node} (hr : ∀ t ∈ n.resources, t.link ≠ l) :
      Closes skips l n { n with actives := n.actives.filter (· ≠ l) }
  | ended {n : Node} {i : Nat} {c : Conn} (hr : ∀ t ∈ n.resources, t.link ≠ l) (ha : l ∉ n.actives)
      (hs : n.slot l.kind i = some c) (hu : c.used) (hl : c.link = some l) :
      Closes skips l n (n.put l.kind i (linkEnds l.kind n.clock c))

open Relation (ReflTransGen)

variable {skips : Node → Transfer → Prop}

theorem conclude_closes {t : Transfer} (ht : t ∈ n.resources) (hl : t.link = l) (out : Conclusion) :
    Closes skips l n (n.conclude t out) := by
  unfold conclude
  rcases onResConcluded_cases (n := n.unregister t) (h := t.hash) out with ⟨k, i, c, hm, he⟩ | ⟨hnl, hnc, he⟩
  · rw [he]
    have hm' : Marked n t.hash k i c := by
      cases hm with
      | link hf hs => exact .link hf hs
      | channel hn hf hs => exact .channel hn hf hs
    exact .concluded out ht hl hm'
  · rw [he]
    exact .unknown ht hl hnl hnc

theorem cancel_closes {skip : Transfer → Bool} {t : Transfer} (ht : t ∈ n.resources) (hl : t.link = l)
    (hskip : skip t → skips n t) : Closes skips l n (cancel skip n t) := by
  unfold cancel
  split
  · next hs => exact .skipped ht hl (hskip hs)
  · exact conclude_closes ht hl .failed

@[simp] theorem resources_act (hs : ∀ c, n.slot k i = some c → (t c).2.filterMap Event.registers? = []) :
    (n.act k i t).resources = n.resources := by
  unfold act
  split
  · rfl
  · next c hc => simp [hs c hc]

theorem registers_resSendAux {op : ResOp} {data : Bytes} {send : Option Nat} :
    (resSendAux c op data send).filterMap Event.registers? = [] := by
  unfold resSendAux
  split <;> rfl

theorem registers_concludeResource {out : Conclusion} :
    (concludeResource out c).2.filterMap Event.registers? = [] := by
  unfold concludeResource
  split
  · exact registers_resSendAux
  · split <;> exact registers_resSendAux

theorem resources_onResConcluded {out : Conclusion} : (n.onResConcluded h out).resources = n.resources := by
  rcases onResConcluded_cases (n := n) (h := h) out with ⟨k, i, c, -, he⟩ | ⟨-, -, he⟩
  · simp [he, registers_concludeResource]
  · rw [he]

theorem resources_cancel {skip : Transfer → Bool} {t : Transfer} :
    (cancel skip n t).resources = n.resources.erase t := by
  unfold cancel conclude
  split
  · rfl
  · rw [resources_onResConcluded]
    rfl

theorem cancels_closes {skip : Transfer → Bool} (hskip : ∀ m t, skip t → skips m t) (ts : List Transfer)
    (hl : ∀ t ∈ ts, t.link = l) (hc : ∀ t, ts.count t ≤ n.resources.count t) :
    ReflTransGen (Closes skips l) n (ts.foldl (cancel skip) n) ∧
      ∀ t, (ts.foldl (cancel skip) n).resources.count t + ts.count t = n.resources.count t := by
  induction ts generalizing n with
  | nil => exact ⟨.refl, fun t => by simp⟩
  | cons t ts ih =>
    have ht : t ∈ n.resources := by
      have := hc t
      rw [List.count_cons_self] at this
      exact List.count_pos_iff.1 (by omega)
    have hcount : ∀ u, ts.count u ≤ (cancel skip n t).resources.count u := by
      intro u
      have := hc u
      rw [resources_cancel, List.count_erase]
      rw [List.count_cons] at this
      omega
    obtain ⟨hsteps, hleft⟩ := ih (fun u hu => hl u (by simp [hu])) hcount
    refine ⟨.head (cancel_closes ht (hl t (by simp)) (hskip n t)) hsteps, fun u => ?_⟩
    have h1 := hleft u
    rw [resources_cancel, List.count_erase] at h1
    have h2 := hc u
    rw [List.count_cons] at h2
    rw [List.foldl_cons, List.count_cons]
    omega

theorem count_registered (l : LinkRef) (t : Transfer) :
    (n.registered l).count t = if t.link = l then n.resources.count t else 0 := by
  unfold registered
  rw [List.count_append]
  by_cases hl : t.link = l
  · cases ho : t.outbound <;> simp [hl, ho, List.count_filter, List.count_eq_zero]
  · simp [hl, List.count_eq_zero]

theorem onClosed_cases (l : LinkRef) : n.findLink l.kind l = none ∧ n.onClosed l = n ∨
    ∃ i c, n.slot l.kind i = some c ∧ c.used ∧ c.link = some l ∧ n.onClosed l = n.put l.kind i (linkEnds l.kind n.clock c) := by
  unfold onClosed
  cases hf : n.findLink l.kind l with
  | none => exact .inl ⟨rfl, rfl⟩
  | some i =>
    obtain ⟨c, hs, hu, hl⟩ := findLink_eq_some hf
    exact .inr ⟨i, c, hs, hu, hl, act_eq hs⟩

/-- The callback of the closed link comes last, when the engine has let go of all else. -/
theorem closeLink_eq {skip : Transfer → Bool} (hskip : ∀ m t, skip t → skips m t) (l : LinkRef) :
    ∃ m, ReflTransGen (Closes skips l) n m ∧ (∀ t ∈ m.resources, t.link ≠ l) ∧ l ∉ m.actives ∧
      n.closeLink l skip = m.onClosed l := by
  obtain ⟨hsteps, hleft⟩ := cancels_closes (n := n) hskip (n.registered l)
    (fun t ht => by
      have hpos := List.count_pos_iff.2 ht
      rw [count_registered] at hpos
      by_contra hne
      rw [if_neg hne] at hpos
      exact absurd hpos (Nat.lt_irrefl 0))
    (fun t => by rw [count_registered]; split <;> simp)
  have hgone : ∀ t ∈ ((n.registered l).foldl (cancel skip) n).resources, t.link ≠ l := by
    intro t ht hl
    have h1 := hleft t
    rw [count_registered, if_pos hl] at h1
    have := List.count_pos_iff.2 ht
    omega
  exact ⟨_, hsteps.tail (.inactive hgone), hgone, by simp, rfl⟩

theorem closeLink_closes {skip : Transfer → Bool} (hskip : ∀ m t, skip t → skips m t) (l : LinkRef) :
    ReflTransGen (Closes skips l) n (n.closeLink l skip) := by
  obtain ⟨m, hsteps, hgone, hact, he⟩ := closeLink_eq (n := n) hskip l
  rw [he]
  refine hsteps.trans ?_
  rcases onClosed_cases (n := m) l with ⟨-, he⟩ | ⟨i, c, hs, hu, hl, he⟩
  · rw [he]
  · rw [he]
    exact .single (.ended hgone hact hs hu hl)

theorem teardown_closes {td : Teardown} {o : Option LinkRef} (hskip : ∀ m t, td.skips t → skips m t) :
    n.teardown o td = n ∨ ∃ l, o = some l ∧ ReflTransGen (Closes skips l) n (n.teardown o td) := by
  unfold teardown
  split
  · exact .inl rfl
  · next l =>
    split
    · exact .inl rfl
    · exact .inr ⟨l, rfl, closeLink_closes hskip l⟩

-- ---------------------------------------------------------------------------
-- What is left of a slot
-- ---------------------------------------------------------------------------

/-- What closing links may do to a slot: it loses its link and its marker, or keeps them.
Without its link it waits for a tick, or is dead from now on. -/
structure Fades (now : ℚ) (c c' : Conn) : Prop where
  same : c' = { c with
    state := c'.state, link := c'.link, deadAt := c'.deadAt, estabDeadline := c'.estabDeadline
    resHash := c'.resHash, resOutbound := c'.resOutbound, resOpaque := c'.resOpaque }
  link : c'.link = c.link ∧ c'.state = c.state ∧ c'.deadAt = c.deadAt ∧ c'.estabDeadline = c.estabDeadline ∨
    c.link ≠ none ∧ c'.link = none ∧ (c'.state = .establishing ∨ c'.deadAt = now)
  marker : c'.resHash = c.resHash ∧ c'.resOutbound = c.resOutbound ∧ c'.resOpaque = c.resOpaque ∨ c'.resHash = []

variable {now : ℚ}

theorem Fades.refl (now : ℚ) (c : Conn) : Fades now c c := ⟨rfl, .inl ⟨rfl, rfl, rfl, rfl⟩, .inl ⟨rfl, rfl, rfl⟩⟩

theorem Fades.trans {c₁ c₂ c₃ : Conn} (h₁ : Fades now c₁ c₂) (h₂ : Fades now c₂ c₃) : Fades now c₁ c₃ where
  same := by
    rw [h₂.same, h₁.same]
  link := by
    rcases h₂.link with ⟨hl, hs, hd, he⟩ | ⟨hne, hl, hs⟩
    · rcases h₁.link with ⟨hl', hs', hd', he'⟩ | ⟨hne, hl', hs'⟩
      · exact .inl ⟨hl.trans hl', hs.trans hs', hd.trans hd', he.trans he'⟩
      · refine .inr ⟨hne, hl.trans hl', ?_⟩
        rwa [hs, hd]
    · refine .inr ⟨fun hn => hne ?_, hl, hs⟩
      rcases h₁.link with ⟨hl', -⟩ | ⟨hne', -⟩
      · exact hl'.trans hn
      · exact absurd hn hne'
  marker := by
    rcases h₂.marker with ⟨hh, ho, hq⟩ | hn
    · rcases h₁.marker with ⟨hh', ho', hq'⟩ | hn'
      · exact .inl ⟨hh.trans hh', ho.trans ho', hq.trans hq'⟩
      · exact .inr (hh.trans hn')
    · exact .inr hn

theorem fades_concludeResource (out : Conclusion) : Fades now c (concludeResource out c).1 :=
  ⟨rfl, .inl ⟨rfl, rfl, rfl, rfl⟩, .inr rfl⟩

theorem fades_linkEnds (hl : c.link = some l) : Fades now c (linkEnds k now c).1 := by
  have hne : c.link ≠ none := by simp [hl]
  cases k with
  | link =>
    simp only [linkEnds, linkClosed, quiet_apply]
    split
    · next he => exact ⟨rfl, .inr ⟨hne, rfl, .inl he⟩, .inl ⟨rfl, rfl, rfl⟩⟩
    · exact ⟨rfl, .inr ⟨hne, rfl, .inr rfl⟩, .inl ⟨rfl, rfl, rfl⟩⟩
  | channel => exact ⟨rfl, .inr ⟨hne, rfl, .inr rfl⟩, .inl ⟨rfl, rfl, rfl⟩⟩

/-- The slots of `m` are those of `n`, some of them faded. -/
def FadesTo (n m : Node) : Prop := ∀ k i, Option.Rel (Fades n.clock) (n.slot k i) (m.slot k i)

theorem FadesTo.refl (n : Node) : FadesTo n n := by
  intro k i
  cases n.slot k i with
  | none => exact .none
  | some c => exact .some (.refl _ _)

theorem Fades.rel_trans {o₁ o₂ o₃ : Option Conn} (h₁ : Option.Rel (Fades now) o₁ o₂) (h₂ : Option.Rel (Fades now) o₂ o₃) :
    Option.Rel (Fades now) o₁ o₃ := by
  cases h₁ with
  | none => exact h₂
  | some hf =>
    cases h₂ with
    | some hf' => exact .some (hf.trans hf')

theorem FadesTo.trans {n₁ n₂ n₃ : Node} (h₁ : FadesTo n₁ n₂) (h₂ : FadesTo n₂ n₃) (hc : n₂.clock = n₁.clock) :
    FadesTo n₁ n₃ := by
  intro k i
  have h := h₂ k i
  rw [hc] at h
  exact Fades.rel_trans (h₁ k i) h

theorem FadesTo.put (hs : n.slot k i = some c) (hr : Fades n.clock c r.1) : FadesTo n (n.put k i r) := by
  intro k' j
  rw [slot_put hs]
  split
  · next he =>
    obtain ⟨rfl, rfl⟩ := he
    rw [hs]
    exact .some hr
  · exact FadesTo.refl n k' j

theorem FadesTo.slot (h : FadesTo n m) (hs : n.slot k i = some c) :
    ∃ c', m.slot k i = some c' ∧ Fades n.clock c c' := by
  have h' := h k i
  rw [hs] at h'
  generalize m.slot k i = o at h'
  cases h' with
  | some hf => exact ⟨_, rfl, hf⟩

theorem Closes.fades (h : Closes skips l n m) : FadesTo n m := by
  cases h with
  | concluded out ht hl hm => exact FadesTo.put (n := n.unregister _) hm.slot (fades_concludeResource out)
  | unknown | skipped | inactive => exact .refl n
  | ended hr ha hs hu hl => exact FadesTo.put hs (fades_linkEnds hl)

theorem Closes.clock (h : Closes skips l n m) : m.clock = n.clock := by
  cases h <;> rfl

theorem closes_clock (h : ReflTransGen (Closes skips l) n m) : m.clock = n.clock := by
  induction h with
  | refl => rfl
  | tail _ hstep ih => rw [hstep.clock, ih]

theorem closes_fades (h : ReflTransGen (Closes skips l) n m) : FadesTo n m := by
  induction h with
  | refl => exact .refl n
  | tail hsteps hstep ih => exact ih.trans hstep.fades (closes_clock hsteps)

end MicroReticulum.Rnsd.Node
