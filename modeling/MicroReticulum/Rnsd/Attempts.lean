import MicroReticulum.Rnsd.Accounts

/-!
# What becomes of a link that a consumer opens

A slot that is on its way comes up or fails, one that is dead stays so until it
goes, and a link that a slot has lost while it was establishing it is nobody's
from then on.
-/

namespace MicroReticulum.Rnsd.Node

open Lib Lib.Log Lib.Log.Transition Lib.Runs Lib.Progress
open Relation (ReflTransGen)
open MicroReticulum.MsgPack (Text ResourceAdvertisement)

variable {Q : Node → Risk → Prop} {n m : Node} {k : Kind} {i o : Nat} {c c' : Conn} {r : Conn × List Event}
  {l : LinkRef} {now : ℚ} {serial : Nat}

-- ---------------------------------------------------------------------------
-- How an attempt ends
-- ---------------------------------------------------------------------------

/-- No link comes up. -/
def Calm (_ : Node) : Risk → Prop
  | .flushes .. => False
  | _ => True

theorem permits_calm {op : Op} (h : ∀ l f, op ≠ .established l f) : Permits Calm n op := by
  cases op with
  | established l f => exact absurd rfl (h l f)
  | _ => simp [Permits, Calm]

/-- On its way, or given up. -/
def Undecided (c : Conn) : Prop := Trying c ∨ c.state = .failed

theorem Dialled.undecided (h : Dialled now l c r) : Undecided r.1 := by
  cases h with
  | failed => exact .inr rfl
  | started => exact .inl (.inr rfl)

theorem Spends.undecided (h : Spends c c') (hs : Undecided c) : Undecided c' := by
  rwa [Undecided, Trying, h.keeps.2.2.1]

theorem Move.undecided (h : Move (Calm n) now serial .link i c r) (hs : Undecided c) (hu' : r.1.used) :
    Undecided r.1 := by
  cases h with
  | touched | letGo | proofs | response | reqFailed | overdue | dead => exact hs
  | consumerSend => exact (spends_linkConsumerSend ..).undecided hs
  | identify => exact (spends_linkIdentify ..).undecided hs
  | request => exact (spends_linkRequest ..).undecided hs
  | sendResource => exact (spends_sendResource ..).undecided hs
  | established k i c f hl hq => exact hq.elim
  | unreached => exact .inr rfl
  | timers => exact (spends_timers ..).undecided hs
  | awaits i c r hst h =>
    cases h with
    | dialled h => exact h.undecided
    | asks | waits => exact hs
    | failed => exact .inr rfl
  | timedOut i c r hst hl hd h =>
    cases h with
    | dialled ha h => exact h.undecided
    | waits => exact .inl (.inl rfl)
    | failed => exact .inr rfl
  | freed => cases hu'

theorem Write.undecided (hw : Write Calm n .link i c r) (hsane : Sane .link c) (hu : c.used) (hs : Undecided c)
    (hu' : r.1.used) : Undecided r.1 := by
  cases hw with
  | move _ h => exact h.undecided hs hu'
  | opened _ _ _ hn | seated _ _ hn =>
    rw [hu] at hn
    cases hn
  | marked | concluded => exact hs
  | ended _ _ hl =>
    simp only [linkEnds, linkClosed, quiet_apply]
    split
    · exact hs
    · next he =>
      -- only an establishment has a link to lose
      rcases hs with (ha | he') | hf
      · rw [(hsane.awaiting ha).1] at hl
        cases hl
      · exact absurd he' he
      · rw [hsane.dead (.inr hf) rfl] at hl
        cases hl

/-- Without a link that comes up, a slot on its way is on its way or given up. -/
theorem Ledger.undecided (h : n.Ledger) (hm : Steps Calm n m) (hs : n.slot .link i = some c) (hu : c.used)
    (hund : Undecided c) (hs' : m.slot .link i = some c') (hu' : c'.used) (ho : c'.opening = c.opening) : Undecided c' := by
  have hall : m.Ledger ∧ n.serial ≤ m.serial ∧
      ∀ c', m.slot .link i = some c' → c'.used → c'.opening = c.opening → Undecided c' := by
    clear hs' hu' ho
    induction hm with
    | refl =>
      refine ⟨h, le_rfl, fun c' hs' _ _ => ?_⟩
      cases hs.symm.trans hs'
      exact hund
    | tail _ hstep ih =>
      obtain ⟨hl, hle, ih⟩ := ih
      have he := hstep.effect hl.inv.wf
      refine ⟨hl.micro hstep, hle.trans he.serial_le, fun c' hs' hu' ho => ?_⟩
      rcases he.slot hs' with hold | ⟨c₀, r, hs₀, hw, rfl⟩
      · exact ih c' hold hu' ho
      · rcases hw.opening hu' with ⟨hu₀, ho'⟩ | ⟨-, ho'⟩
        · exact hw.undecided (hl.inv.sane _ _ _ hs₀) hu₀ (ih c₀ hs₀ hu₀ (ho'.symm.trans ho)) hu'
        · exact absurd (ho.symm.trans ho') ((h.numbered.opening _ _ _ hs hu).trans_le hle).ne
  exact hall.2.2 c' hs' hu' ho

/-- A slot on its way stays so, comes up, or fails. -/
theorem Ledger.decides (h : n.Ledger) (op : Op) (hs : n.slot .link i = some c) (hu : c.used) (ht : Trying c)
    (hs' : (Rnsd.step n op).slot .link i = some c') (hu' : c'.used) (ho : c'.opening = c.opening) :
    Trying c' ∨ c'.state = .active ∨ c'.state = .failed := by
  by_cases hop : ∃ l f, op = .established l f
  · obtain ⟨l, f, rfl⟩ := hop
    have hcases : c' = c ∨ c'.state = .active := by
      simp only [Rnsd.step] at hs'
      split at hs'
      · unfold onEstablished at hs'
        split at hs'
        · exact .inl (Option.some.inj (hs'.symm.trans hs))
        · next j hf =>
          obtain ⟨c₀, hs₀, -⟩ := findLink_eq_some hf
          rw [act_eq hs₀] at hs'
          rcases slot_put_cases hs₀ hs' with ⟨hk, rfl, rfl⟩ | ⟨-, hold⟩
          · exact .inr (established_keeps (c := c₀) l.kind n.clock f).2.2.1
          · exact .inl (Option.some.inj (hold.symm.trans hs))
      · exact .inl (Option.some.inj (hs'.symm.trans hs))
    rcases hcases with rfl | ha
    · exact .inl ht
    · exact .inr (.inl ha)
  · have hp : Permits Calm n op := permits_calm fun l f he => hop ⟨l, f, he⟩
    rcases h.undecided (steps_step h.inv.wf op hp) hs hu (.inl ht) hs' hu' ho with ht | hf
    · exact .inl ht
    · exact .inr (.inr hf)

-- ---------------------------------------------------------------------------
-- Attempts that are abandoned
-- ---------------------------------------------------------------------------

/-- A small step writes one slot, and registers no more than it logs. -/
theorem Micro.registers (hw : n.Wf) (h : Micro Q n m) :
    (∃ k i c r, n.slot k i = some c ∧ Write Q n k i c r ∧ m.slot = (n.put k i r).slot ∧ m.serial = n.serial + 1 ∧
        ∀ t ∈ m.resources, t ∈ n.resources ∨ .began t ∈ r.2) ∨
      m.slot = n.slot ∧ n.serial ≤ m.serial ∧ m.resources ⊆ n.resources := by
  have hput : ∀ {r : Conn × List Event} {rs : List Transfer}, rs ⊆ n.resources →
      ∀ t ∈ rs ++ r.2.filterMap Event.registers?, t ∈ n.resources ∨ Event.began t ∈ r.2 := by
    intro r rs hsub t ht
    rcases List.mem_append.1 ht with ht | ht
    · exact .inl (hsub ht)
    · exact .inr (mem_registers.1 ht)
  cases h with
  | closes l h =>
    cases h with
    | concluded out ht hl hm =>
      exact .inl ⟨_, _, _, _, hm.slot, .concluded out hm.spec.1 (hm.spec.2.1 ▸ hm.spec.2.2), rfl, rfl,
        hput List.erase_subset⟩
    | unknown | skipped => exact .inr ⟨rfl, le_rfl, List.erase_subset⟩
    | inactive => exact .inr ⟨rfl, le_rfl, List.Subset.refl _⟩
    | ended hr ha hs hu hl => exact .inl ⟨_, _, _, _, hs, .ended hu rfl hl ha, rfl, rfl, hput (List.Subset.refl _)⟩
  | move hs hu h => exact .inl ⟨_, _, _, _, hs, .move hu h, rfl, rfl, hput (List.Subset.refl _)⟩
  | opened h req o hs hu hq hr =>
    exact .inl ⟨_, _, _, _, hs, .opened h req o hu (hw.blank _ _ _ hs hu) hq hr, rfl, rfl, hput (List.Subset.refl _)⟩
  | seated w owner hs hu hq =>
    exact .inl ⟨_, _, _, _, hs, .seated w owner hu (hw.blank _ _ _ hs hu) hq, rfl, rfl, hput (List.Subset.refl _)⟩
  | marked g adv memory hs hu hl ha hg hq =>
    exact .inl ⟨_, _, _, _, hs, .marked g adv memory hu hl ha hg hq, rfl, rfl, hput (List.Subset.refl _)⟩
  | again out hb hm =>
    exact .inl ⟨_, _, _, _, hm.slot, .concluded out hm.spec.1 (hm.spec.2.1 ▸ hm.spec.2.2), rfl, rfl,
      hput (List.Subset.refl _)⟩
  | active => exact .inr ⟨rfl, le_rfl, List.Subset.refl _⟩
  | asked | refused => exact .inr ⟨rfl, Nat.le_succ _, List.Subset.refl _⟩
  | waited => exact .inr ⟨rfl, le_rfl, List.Subset.refl _⟩

theorem Write.establishes (hw : Write Q n k i c r) : Establishes n.serial k c r.1 := by
  cases hw with
  | move _ h => exact h.establishes
  | opened h req w hu hb hq hr => exact hr.establishes
  | @seated w owner =>
    obtain ⟨-, -, hst⟩ := seat_keeps (c := c) k n.clock w owner ⟨k, n.serial⟩ n.serial
    exact establishes_other (by rw [hst]; decide)
  | marked | concluded => exact establishes_same rfl rfl
  | ended => exact establishes_unlinked linkEnds_unlinks

/-- No Resource begins on a link that is not up. -/
theorem Write.began_up {t : Transfer} (hw : Write Q n k i c r) (hup : n.Up) (hs : n.slot k i = some c)
    (ht : .began t ∈ r.2) : r.1.state ≠ .establishing := by
  cases hw with
  | move _ h =>
    rcases h.begins ht with ⟨-, -, -, -, ha, -⟩ | ⟨f, -, rfl⟩
    · rw [ha]
      decide
    · rw [(established_keeps (c := c) k n.clock f).2.2.1]
      decide
  | opened h req w hu hb hq hr => exact absurd ht ((about_opens hr).not_mem (by simp [topic]))
  | seated => cases k <;> cases ht
  | marked g adv memory hu hl ha => exact hup.up k i c _ hs hl ha
  | concluded out => exact absurd ht ((about_concludeResource out).not_mem (by simp [topic]))
  | ended =>
    cases k with
    | link =>
      simp only [linkEnds, linkClosed, quiet_apply] at ht
      cases ht
    | channel => cases ht

/-- What is registered is on a link that has been made, and that no slot is still establishing. -/
structure Unstarted (n : Node) : Prop where
  known : ∀ t ∈ n.resources, t.link.id < n.serial
  up : ∀ t ∈ n.resources, ∀ k i c, n.slot k i = some c → c.link = some t.link → c.state ≠ .establishing

theorem Unstarted.micro (h : n.Unstarted) (hi : n.Inv) (hm : Micro Q n m) : m.Unstarted := by
  rcases hm.registers hi.wf with ⟨k₀, i₀, c₀, r, hs₀, hw, hslot, hser, hres⟩ | ⟨hslot, hser, hres⟩
  · refine ⟨fun t ht => ?_, fun t ht k i c hs hl => ?_⟩
    · rw [hser]
      rcases hres t ht with hold | hb
      · exact Nat.lt_succ_of_lt (h.known t hold)
      · exact Nat.lt_succ_of_lt (hi.wf.fresh _ _ _ _ hs₀ (hw.began hb).1)
    · rw [hslot] at hs
      rcases hres t ht with hold | hb
      · rcases slot_put_cases hs₀ hs with ⟨rfl, rfl, rfl⟩ | ⟨-, hs⟩
        · intro he
          rcases hw.establishes he t.link hl with ⟨hst, hl₀⟩ | heq
          · exact h.up t hold _ _ c₀ hs₀ hl₀ hst
          · have hlt := h.known t hold
            rw [heq] at hlt
            exact absurd hlt (lt_irrefl _)
        · exact h.up t hold k i c hs hl
      · have hl₀ := (hw.began hb).1
        rcases slot_put_cases hs₀ hs with ⟨rfl, rfl, rfl⟩ | ⟨hne, hold⟩
        · exact hw.began_up hi.up hs₀ hb
        · obtain rfl : k = k₀ := (hi.wf.kind _ _ _ _ hold hl).symm.trans (hi.wf.kind _ _ _ _ hs₀ hl₀)
          exact absurd ⟨rfl, hi.wf.apart _ _ _ _ _ _ hold hs₀ hl hl₀⟩ hne
  · refine ⟨fun t ht => (h.known t (hres ht)).trans_le hser, fun t ht k i c hs hl => ?_⟩
    rw [hslot] at hs
    exact h.up t (hres ht) k i c hs hl

/-- Only the one slot has the link, if any does; it establishes it, and no Resource is on it. -/
structure Sole (l : LinkRef) (i : Nat) (n : Node) : Prop where
  known : l.id < n.serial
  idle : ∀ t ∈ n.resources, t.link ≠ l
  only : ∀ k j c, n.slot k j = some c → c.link = some l → k = .link ∧ j = i ∧ c.state = .establishing

/-- No slot has the link, and no Resource is on it. -/
structure Gone (l : LinkRef) (n : Node) : Prop where
  known : l.id < n.serial
  idle : ∀ t ∈ n.resources, t.link ≠ l
  unheld : ∀ k j c, n.slot k j = some c → c.link ≠ some l

theorem Move.sole (h : Move (Calm n) now serial .link i c r) (hs : c.state = .establishing) (hl : c.link = some l)
    (hl' : r.1.link = some l) : r.1.state = .establishing := by
  cases h with
  | touched | letGo | proofs | response | reqFailed => exact hs
  | consumerSend => exact (spends_linkConsumerSend ..).keeps.2.2.1.trans hs
  | identify => exact (spends_linkIdentify ..).keeps.2.2.1.trans hs
  | request => exact (spends_linkRequest ..).keeps.2.2.1.trans hs
  | sendResource => exact (spends_sendResource ..).keeps.2.2.1.trans hs
  | established k i c f hl hq => exact hq.elim
  | unreached | overdue | freed => cases hl'
  | timers => exact (spends_timers ..).keeps.2.2.1.trans hs
  | awaits i c r hst =>
    rw [hs] at hst
    cases hst
  | timedOut i c r hst hnone =>
    rw [hl] at hnone
    cases hnone
  | dead k i c d hst =>
    rcases hst with hst | hst <;> rw [hs] at hst <;> cases hst

theorem Write.sole (hw : Write Calm n .link i c r) (hs : c.state = .establishing) (hl : c.link = some l)
    (hl' : r.1.link = some l) : r.1.state = .establishing := by
  cases hw with
  | move _ h => exact h.sole hs hl hl'
  | opened _ _ _ _ hb | seated _ _ _ hb =>
    rw [hb.link] at hl
    cases hl
  | marked | concluded => exact hs
  | ended =>
    rw [linkEnds_unlinks] at hl'
    cases hl'

theorem Write.began_calm {t : Transfer} (hw : Write Calm n k i c r) (hup : n.Up) (hs : n.slot k i = some c)
    (ht : .began t ∈ r.2) : c.state ≠ .establishing := by
  cases hw with
  | move _ h =>
    rcases h.begins ht with ⟨-, -, -, ha, -⟩ | ⟨f, hq, -⟩
    · rw [ha]
      decide
    · exact hq.elim
  | opened h req w hu hb hq hr => exact absurd ht ((about_opens hr).not_mem (by simp [topic]))
  | seated => cases k <;> cases ht
  | marked g adv memory hu hl ha => exact hup.up k i c _ hs hl ha
  | concluded out => exact absurd ht ((about_concludeResource out).not_mem (by simp [topic]))
  | ended =>
    cases k with
    | link =>
      simp only [linkEnds, linkClosed, quiet_apply] at ht
      cases ht
    | channel => cases ht

theorem Write.relinks (hw : Write Q n k i c r) : Relinks n.serial k c r.1 := by
  cases hw with
  | move _ h => exact h.relinks.1
  | opened h req w hu hb hq hr =>
    obtain ⟨-, hl⟩ := fill_keeps (c := c) k n.clock h w req n.serial
    have hr' := (hr.relinks (hl.trans hb.link)).1
    rwa [Relinks, hl] at hr'
  | @seated w owner =>
    obtain ⟨-, hl, -⟩ := seat_keeps (c := c) k n.clock w owner ⟨k, n.serial⟩ n.serial
    exact .inr (.inr hl)
  | marked | concluded => exact .inl rfl
  | ended => exact .inr (.inl linkEnds_unlinks)

/-- A link that has been made does not come to a slot that has not got it. -/
theorem Write.link_back (hw : Write Q n k i c r) (hid : l.id < n.serial) (hl : r.1.link = some l) : c.link = some l := by
  rcases hw.relinks with he | he | he
  · exact he ▸ hl
  · rw [he] at hl
    cases hl
  · rw [he] at hl
    cases hl
    exact absurd hid (lt_irrefl _)

theorem Sole.micro (h : Sole l i n) (hi : n.Inv) (hm : Micro Calm n m) : Sole l i m := by
  rcases hm.registers hi.wf with ⟨k₀, i₀, c₀, r, hs₀, hw, hslot, hser, hres⟩ | ⟨hslot, hser, hres⟩
  · refine ⟨?_, fun t ht hl => ?_, fun k j c hs hl => ?_⟩
    · rw [hser]
      exact Nat.lt_succ_of_lt h.known
    · rcases hres t ht with hold | hb
      · exact h.idle t hold hl
      · obtain ⟨-, -, hst⟩ := h.only _ _ _ hs₀ (hl ▸ (hw.began hb).1)
        exact hw.began_calm hi.up hs₀ hb hst
    · rw [hslot] at hs
      rcases slot_put_cases hs₀ hs with ⟨rfl, rfl, rfl⟩ | ⟨-, hold⟩
      · obtain ⟨rfl, rfl, hst⟩ := h.only _ _ _ hs₀ (hw.link_back h.known hl)
        exact ⟨rfl, rfl, hw.sole hst (hw.link_back h.known hl) hl⟩
      · exact h.only k j c hold hl
  · refine ⟨h.known.trans_le hser, fun t ht => h.idle t (hres ht), ?_⟩
    rw [hslot]
    exact h.only

theorem Gone.micro (h : Gone l n) (hi : n.Inv) (hm : Micro Q n m) : Gone l m := by
  rcases hm.registers hi.wf with ⟨k₀, i₀, c₀, r, hs₀, hw, hslot, hser, hres⟩ | ⟨hslot, hser, hres⟩
  · refine ⟨?_, fun t ht hl => ?_, fun k j c hs hl => ?_⟩
    · rw [hser]
      exact Nat.lt_succ_of_lt h.known
    · rcases hres t ht with hold | hb
      · exact h.idle t hold hl
      · exact h.unheld _ _ _ hs₀ (hl ▸ (hw.began hb).1)
    · rw [hslot] at hs
      rcases slot_put_cases hs₀ hs with ⟨rfl, rfl, rfl⟩ | ⟨-, hold⟩
      · exact h.unheld _ _ _ hs₀ (hw.link_back h.known hl)
      · exact h.unheld k j c hold hl
  · refine ⟨h.known.trans_le hser, fun t ht => h.idle t (hres ht), ?_⟩
    rw [hslot]
    exact h.unheld

theorem Gone.run (h : Gone l n) (hi : n.Inv) (ops : List Op) : Gone l (run Rnsd.step n ops) := by
  have hstep : ∀ {n : Node}, n.Inv → Gone l n → ∀ op, Gone l (Rnsd.step n op) := by
    intro n hi h op
    have hall : ∀ {m}, Steps (fun _ _ => True) n m → m.Inv ∧ Gone l m := by
      intro m hm
      induction hm with
      | refl => exact ⟨hi, h⟩
      | tail _ hmicro ih => exact ⟨ih.1.micro hmicro, ih.2.micro ih.1 hmicro⟩
    exact (hall (steps_step hi.wf op (permits_true n op))).2
  induction ops generalizing n with
  | nil => exact h
  | cons op ops ih => exact ih (hstep hi h op) (hi.step op)

/-- The attempt on the link that a slot had is over: the link is nobody's. -/
theorem Unstarted.gone (h : n.Unstarted) (hi : n.Inv) (hs : n.slot .link i = some c) (hst : c.state = .establishing)
    (hl : c.link = some l) (op : Op) (hlost : ((Rnsd.step n op).slot .link i).bind (·.link) ≠ some l) :
    Gone l (Rnsd.step n op) := by
  have hsole : Sole l i n := by
    refine ⟨hi.wf.fresh _ _ _ _ hs hl, fun t ht he => h.up t ht _ _ c hs (he ▸ hl) hst, fun k j c' hs' hl' => ?_⟩
    obtain rfl : k = .link := (hi.wf.kind _ _ _ _ hs' hl').symm.trans (hi.wf.kind _ _ _ _ hs hl)
    obtain rfl := hi.wf.apart _ _ _ _ _ _ hs' hs hl' hl
    cases hs.symm.trans hs'
    exact ⟨rfl, rfl, hst⟩
  by_cases hop : ∃ l' f, op = .established l' f
  · -- a link that comes up stays with its slot
    obtain ⟨l', f, rfl⟩ := hop
    refine absurd ?_ hlost
    simp only [Rnsd.step]
    split
    · unfold onEstablished
      split
      · change (n.slot .link i).bind _ = _
        rw [hs]
        exact hl
      · next j hf =>
        obtain ⟨c₀, hs₀, -⟩ := findLink_eq_some hf
        rw [act_eq hs₀]
        change ((n.put l'.kind j (established l'.kind n.clock f c₀)).slot .link i).bind _ = _
        rw [slot_put hs₀]
        split
        · next heq =>
          obtain ⟨hk, rfl⟩ := heq
          rw [← hk] at hs₀
          cases hs.symm.trans hs₀
          exact (established_keeps (c := c) l'.kind n.clock f).2.1.trans hl
        · rw [hs]
          exact hl
    · rw [hs]
      exact hl
  · have hp : Permits Calm n op := permits_calm fun l' f he => hop ⟨l', f, he⟩
    have hafter : ∀ {m}, Steps Calm n m → m.Inv ∧ Sole l i m := by
      intro m hm
      induction hm with
      | refl => exact ⟨hi, hsole⟩
      | tail _ hmicro ih => exact ⟨ih.1.micro hmicro, ih.2.micro ih.1 hmicro⟩
    obtain ⟨-, hsole'⟩ := hafter (steps_step hi.wf op hp)
    refine ⟨hsole'.known, hsole'.idle, fun k j c' hs' hl' => hlost ?_⟩
    obtain ⟨rfl, rfl, -⟩ := hsole'.only k j c' hs' hl'
    rw [hs']
    exact hl'

/-- What the engine calls back with for a link. -/
inductive Callback (l : LinkRef) : Op → Prop
  | established (f : Flush) : Callback l (.established l f)
  | closed (skips : Transfer → Bool) : Callback l (.closed l skips)
  | advertised (adv : ResourceAdvertisement) (g : Gate) (memory : Bool) : Callback l (.advertised l adv g memory)
  | touched : Callback l (.touched l)

theorem Gone.callback (h : Gone l n) {op : Op} (hop : Callback l op) : (Rnsd.step n op).slot = n.slot := by
  have hfind : ∀ k, n.findLink k l = none := fun k => findLink_eq_none.2 fun i c hs _ => h.unheld k i c hs
  cases hop with
  | established f =>
    simp only [Rnsd.step, onEstablished, hfind]
    split <;> rfl
  | closed skips =>
    have hnone : n.registered l = [] := by
      simp only [registered, List.append_eq_nil_iff, List.filter_eq_nil_iff]
      exact ⟨fun t ht => by simp [h.idle t ht], fun t ht => by simp [h.idle t ht]⟩
    have hfind' : ({ n with actives := n.actives.filter (· ≠ l) } : Node).findLink l.kind l = none := hfind l.kind
    simp only [Rnsd.step, closeLink, hnone, List.foldl_nil, onClosed, hfind']
    rfl
  | advertised adv g memory =>
    simp only [Rnsd.step, receiveAdv, onResAdvertised, hfind]
    split <;> rfl
  | touched => simp only [Rnsd.step, onTouched, hfind]

-- ---------------------------------------------------------------------------
-- What becomes of an open
-- ---------------------------------------------------------------------------

/-- What is true from now on of the opening `o` that slot `i` of the link table has. -/
structure LinkOpen (n : Node) (i o : Nat) : Prop where
  attempts : ∀ more, attempted o (run step n more).log ≤ RNSD_LINK_ATTEMPTS
  items : ∀ more, (issued o (run step n more).log).Sublist flushOrder
  /-- It tries for a bounded number of ticks at or past its deadlines, and then is up or has failed. -/
  tries : ∀ more, Throughout step (Stays i o Trying) n more →
    overdue step LinkTick Node.clock (dueAt i) n more ≤ 4 * RNSD_LINK_ATTEMPTS
  decided : Stays i o Trying n → ∀ ops, Ticking step LinkTick Node.clock n ops →
    ∃ j, Stays i o (fun c => c.state = .active ∨ c.state = .failed) (states step n ops j) ∨
      ¬ Stays i o (fun _ => True) (states step n ops j)
  absorbed : Stays i o Dead n → ∀ more, Stays i o (fun _ => True) (run step n more) → Stays i o Dead (run step n more)
  lingers : ∀ more, Throughout step (Stays i o Dead) n more →
    overdue step LinkTick Node.clock (dueAt i) n more ≤ 1
  reclaimed : Stays i o Dead n → ∀ ops, Ticking step LinkTick Node.clock n ops →
    ∃ j, ¬ Stays i o (fun _ => True) (states step n ops j)
  /-- Once the slot has lost the link it was establishing, nothing the engine says of it changes a slot. -/
  abandoned : ∀ op l, Stays i o (fun c => c.state = .establishing ∧ c.link = some l) n →
    ((step n op).slot .link i).bind (·.link) ≠ some l → ∀ more cb, Callback l cb →
      (step (run step (step n op) more) cb).slot = (run step (step n op) more).slot

theorem Stays.mono {P P' : Conn → Prop} (h : Stays i o P n) (hp : ∀ c, P c → P' c) : Stays i o P' n := by
  obtain ⟨c, hs, hu, ho, hc⟩ := h
  exact ⟨c, hs, hu, ho, hp c hc⟩

theorem Ledger.throughout (h : n.Ledger) (ops : List Op) : Throughout Rnsd.step (fun n => n.Inv ∧ n.Numbered) n ops :=
  fun pre _ => ⟨(h.run pre).inv, (h.run pre).numbered⟩

theorem Ledger.states (h : n.Ledger) (ops : ℕ → Op) (j : ℕ) : (Lib.Progress.states Rnsd.step n ops j).Ledger :=
  states_invariant (fun _ op h => h.step op) h j

theorem Ledger.dead_stays (h : n.Ledger) (hd : Stays i o Dead n) (more : List Op)
    (hin : Stays i o (fun _ => True) (Lib.Runs.run Rnsd.step n more)) : Stays i o Dead (Lib.Runs.run Rnsd.step n more) := by
  obtain ⟨c, hs, hu, rfl, hdead⟩ := hd
  obtain ⟨c', hs', hu', ho, -⟩ := hin
  have hlater : ∀ more, Later n (Lib.Runs.run Rnsd.step n more) := by
    intro more
    induction more using List.reverseRecOn with
    | nil => exact .refl n
    | append_singleton more op ih =>
      rw [run_concat]
      exact ih.trans ((h.run more).inv.later (steps_step (h.run more).inv.wf op (permits_true _ op)))
  obtain ⟨c₀, hs₀, -, -, hk⟩ := (hlater more).2 i c' hs' hu' (ho ▸ h.numbered.opening _ _ _ hs hu)
  cases hs.symm.trans hs₀
  refine ⟨c', hs', hu', ho, ?_⟩
  exact ((h.run more).inv.sane _ _ _ hs').dead_iff hu' |>.2 (hk.le.trans (rank_dead hdead))

/-- The first state in which it does not try any more. -/
theorem Ledger.decided (h : n.Ledger) (ht : Stays i o Trying n) (ops : ℕ → Op)
    (hend : ∃ j, ¬ Stays i o Trying (Lib.Progress.states Rnsd.step n ops j)) :
    ∃ j, Stays i o (fun c => c.state = .active ∨ c.state = .failed) (Lib.Progress.states Rnsd.step n ops j) ∨
      ¬ Stays i o (fun _ => True) (Lib.Progress.states Rnsd.step n ops j) := by
  classical
  obtain ⟨j, hj, hmin⟩ : ∃ j, ¬ Stays i o Trying (Lib.Progress.states Rnsd.step n ops j) ∧
      ∀ j' < j, Stays i o Trying (Lib.Progress.states Rnsd.step n ops j') :=
    ⟨Nat.find hend, Nat.find_spec hend, fun j' hlt => not_not.1 (Nat.find_min hend hlt)⟩
  refine ⟨j, or_iff_not_imp_right.2 fun hin => ?_⟩
  rw [not_not] at hin
  cases j with
  | zero => exact absurd ht hj
  | succ j =>
    obtain ⟨c, hs, hu, rfl, htry⟩ := hmin j (Nat.lt_succ_self j)
    obtain ⟨c', hs', hu', ho, -⟩ := hin
    rcases (h.states ops j).decides (ops j) hs hu htry hs' hu' ho with ht' | hdone
    · exact absurd ⟨c', hs', hu', ho, ht'⟩ hj
    · exact ⟨c', hs', hu', ho, hdone⟩

theorem Ledger.linkOpen (h : n.Ledger) (hun : n.Unstarted) (hs : n.slot .link i = some c) (hu : c.used) :
    LinkOpen n i c.opening where
  attempts more := ((h.accounted hs hu).run h more).bounded.attempts
  items more := ((h.accounted hs hu).run h more).bounded.items
  tries more hin := by
    have hle := (leaves_phase i c.opening fun _ => Trying.state_ne).overdue_le (h.throughout more) hin
    obtain ⟨c', hs', hu', -, ht⟩ := hin [] List.nil_prefix
    have hrank : rankAt i n ≤ 12 := by
      rw [rankAt, show n.slot .link i = some c' from hs']
      exact rank_le_of_trying ht fun he => ((h.inv.sane _ _ _ hs').establishing he rfl).1
    exact (Nat.le_add_left _ _).trans (hle.trans hrank)
  decided ht ops hticks := by
    refine h.decided ht ops ?_
    obtain ⟨j, -, hj⟩ := (leaves_phase i c.opening fun _ => Trying.state_ne).ends
      (fun j => ⟨(h.states ops j).inv, (h.states ops j).numbered⟩) hticks 0
    exact ⟨j, hj⟩
  absorbed hd more hin := h.dead_stays hd more hin
  lingers more hin := by
    have hle := (leaves_phase i c.opening fun _ => Dead.state_ne).overdue_le (h.throughout more) hin
    obtain ⟨c', hs', hu', -, hd⟩ := hin [] List.nil_prefix
    have hrank : rankAt i n ≤ 1 := by
      rw [rankAt, show n.slot .link i = some c' from hs']
      exact rank_dead hd
    exact (Nat.le_add_left _ _).trans (hle.trans hrank)
  reclaimed hd ops hticks := by
    obtain ⟨j, -, hj⟩ := (leaves_phase i c.opening fun _ => Dead.state_ne).ends
      (fun j => ⟨(h.states ops j).inv, (h.states ops j).numbered⟩) hticks 0
    refine ⟨j, fun hin => hj ?_⟩
    rw [states_eq_run] at hin ⊢
    exact h.dead_stays hd _ hin
  abandoned op l hst hlost more cb hcb := by
    obtain ⟨c', hs', -, -, hest, hl⟩ := hst
    exact ((hun.gone h.inv hs' hest hl op hlost).run (h.inv.step op) more).callback hcb

theorem Unstarted.run (h : n.Unstarted) (hi : n.Inv) (ops : List Op) : (Lib.Runs.run Rnsd.step n ops).Unstarted := by
  have hstep : ∀ {n : Node}, n.Inv → n.Unstarted → ∀ op, (Rnsd.step n op).Unstarted := by
    intro n hi h op
    have hall : ∀ {m}, Steps (fun _ _ => True) n m → m.Inv ∧ m.Unstarted := by
      intro m hm
      induction hm with
      | refl => exact ⟨hi, h⟩
      | tail _ hmicro ih => exact ⟨ih.1.micro hmicro, ih.2.micro ih.1 hmicro⟩
    exact (hall (steps_step hi.wf op (permits_true n op))).2
  induction ops generalizing n with
  | nil => exact h
  | cons op ops ih => exact ih (hstep hi h op) (hi.step op)

theorem unstarted_boot {t : ℚ} : (boot t).Unstarted := ⟨nofun, nofun⟩

/-- Whatever happens, a link that a consumer opens takes its course. -/
theorem link_open {t : ℚ} (ht : 0 < t) (ops : List Op) (hs : (run step (boot t) ops).slot .link i = some c)
    (hu : c.used) : LinkOpen (run step (boot t) ops) i c.opening :=
  ((ledger_boot ht).run ops).linkOpen (unstarted_boot.run (inv_boot ht) ops) hs hu

/-- A consumer that opens a link to a destination there is no path to. -/
def anOpen : List Op :=
  [.connect .link 5 { tag := ['a'], destHash := .replicate 16 7, aspect := ['l', 'x', 'm', 'f'], identityKey := "" }
    { task := some 1
      env :=
        { hasPath := false, recalls := true, derived := .replicate 16 7, construct := some ESTABLISHMENT_TIMEOUT_PER_HOP } }]

theorem link_open_anOpen : LinkOpen (run step (boot 1) anOpen) 0 0 := by
  have hslot : ((run step (boot 1) anOpen).slot .link 0).map (fun c => (c.used, c.opening)) = some (true, 0) := by decide
  obtain ⟨c, hs, he⟩ := Option.map_eq_some_iff.1 hslot
  rw [Prod.mk.injEq] at he
  obtain ⟨hu, ho⟩ := he
  have hopen := link_open (by norm_num) anOpen hs hu
  rwa [ho] at hopen

end MicroReticulum.Rnsd.Node
