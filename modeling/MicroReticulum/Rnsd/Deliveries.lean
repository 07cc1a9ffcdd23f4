import MicroReticulum.Lib.Balance
import MicroReticulum.Rnsd.Opportunistic

/-!
# What becomes of opportunistic sends

Every send that is handed in waits for its path, or for its proof, in one slot,
or it has been closed, once, and never two of these. What its consumer is told
of it goes to the connection that handed it in.
-/

namespace MicroReticulum.Rnsd.Opportunistic

open Lib Lib.Log Lib.Log.Transition Lib.Balance Lib.Machine
open Hosted (RNSD_MAX_OUR_DESTS)
open ProofCounters (PacketReceipt ReceiptStatus proofWindow)

variable {s s' : State} {log new : List Event} {i j j' no : Nat} {o : Option Pending} {p : Pending} {a : Awaited}
  {c : OurDest} {conn : Conn} {sendId : UInt16} {hops : UInt8} {r : Receipt} {bytes : Bytes} {e : Event}

-- ---------------------------------------------------------------------------
-- The tables
-- ---------------------------------------------------------------------------

theorem getElem?_modified {α : Type*} (l : List α) (f : α → α) (k : Nat) :
    (l.modify k f)[i]? = if k = i then l[i]?.map f else l[i]? := by
  rw [List.getElem?_modify]
  split <;> simp

namespace State

theorem dest_eq_some : s.dest j = some c ↔ s.ourDests[j]? = some (some c) := by
  simp [dest, Option.join_eq_some_iff]

theorem slot_eq_some : s.slot j = some a ↔ s.awaited[j]? = some (some a) := by
  simp [slot, Option.join_eq_some_iff]

theorem parked_eq_some : s.parked j i = some p ↔ ∃ c, s.dest j = some c ∧ c.pending[i]? = some (some p) := by
  simp [parked, Option.bind_eq_some_iff, Option.join_eq_some_iff]

theorem dest_congr (h : s'.ourDests = s.ourDests) : s'.dest j = s.dest j := by rw [dest, dest, h]

theorem slot_congr (h : s'.awaited = s.awaited) : s'.slot j = s.slot j := by rw [slot, slot, h]

theorem dest_park : (s.park j i o).dest j' =
    if j' = j then (s.dest j).map fun c => { c with pending := c.pending.set i o } else s.dest j' := by
  rw [dest, park, getElem?_modified]
  by_cases hj : j' = j
  · subst hj
    cases h : s.ourDests[j']? with
    | none => simp [dest, h]
    | some d => cases d <;> simp [dest, h]
  · simp [dest, hj, Ne.symm hj]

@[simp] theorem slot_park : (s.park j i o).slot j' = s.slot j' := rfl

theorem slot_free : (s.ourDestReceiptFree j).slot j' = if j' = j then none else s.slot j' := by
  unfold ourDestReceiptFree
  cases h : s.slot j with
  | none =>
    by_cases hj : j' = j
    · rw [if_pos hj, hj, h]
    · rw [if_neg hj]
  | some a =>
    rw [slot, List.getElem?_set]
    by_cases hj : j' = j
    · subst hj
      by_cases hlt : j' < s.awaited.length <;> simp [hlt]
    · rw [if_neg (Ne.symm hj), if_neg hj, slot]

theorem ourDests_free : (s.ourDestReceiptFree j).ourDests = s.ourDests := by
  unfold ourDestReceiptFree
  cases s.slot j <;> rfl

theorem clock_free : (s.ourDestReceiptFree j).clock = s.clock := by
  unfold ourDestReceiptFree
  cases s.slot j <;> rfl

theorem receipts_free (h : s.slot j = some a) :
    (s.ourDestReceiptFree j).receipts = s.receipts.modify a.receipt fun r => { r with hooked := false } := by
  simp [ourDestReceiptFree, h]

theorem slot_adopt (hj : s.awaited[j]? = some none) {receipt : Nat} {window : Int} :
    (s.adopt j no conn sendId hops receipt window).slot j' =
      if j' = j then some ⟨no, conn, sendId, hops, s.clock, s.clock + window, receipt⟩ else s.slot j' := by
  rw [slot, adopt, List.getElem?_set]
  by_cases hj' : j' = j
  · subst hj'
    have hlt := (List.getElem?_eq_some_iff.1 hj).1
    simp [hlt]
  · rw [if_neg (Ne.symm hj'), if_neg hj', slot]

end State

-- ---------------------------------------------------------------------------
-- The books
-- ---------------------------------------------------------------------------

/-- How far a send is counted: from its handing in, from its airing, from its `SENT`. -/
inductive Stage where
  | handed | aired | told
  deriving DecidableEq

def tickets (o : Option Nat) : Multiset Nat := o.elim 0 ({·})

def Event.handedNo? : Event → Option Nat
  | .handed no .. => some no
  | _ => none

def Event.airedNo? : Event → Option Nat
  | .aired no .. => some no
  | _ => none

def Event.sentNo? : Event → Option Nat
  | .told no _ (.result _ .sent _ _) => no
  | _ => none

/-- The end of a send that is out. -/
def Event.ends? : Event → Option Nat
  | .told no _ (.result _ .delivered _ _) | .told no _ (.result _ .proofTimeout _ _) => no
  | .forgotten no => some no
  | _ => none

/-- The end of one that never went out. -/
def Event.fails? : Event → Option Nat
  | .told no _ (.result _ .cancelled _ _) | .told no _ (.result _ .evicted _ _) | .told no _ (.result _ .failed _ _)
  | .told no _ (.result _ .tooLarge _ _) | .told no _ (.bare _ .queueFull) => no
  | .dropped no | .lost no => some no
  | _ => none

def came : Stage → Event → Multiset Nat
  | .handed, e => tickets e.handedNo?
  | .aired, e => tickets e.airedNo?
  | .told, e => tickets e.sentNo?

def went : Stage → Event → Multiset Nat
  | .handed, e => tickets e.ends? + tickets e.fails?
  | _, e => tickets e.ends?

def inPending : Stage → Option Pending → Multiset Nat
  | .handed, o => tickets (o.map (·.no))
  | _, _ => 0

def inDest (st : Stage) : Option OurDest → Multiset Nat
  | none => 0
  | some c => total (inPending st) c.pending

def inSlot (o : Option Awaited) : Multiset Nat := tickets (o.map (·.no))

def held (st : Stage) (s : State) : Multiset Nat := total (inDest st) s.ourDests + total inSlot s.awaited

/-- A send that is in hand, and in no slot. -/
def inHand : Stage → Nat → Multiset Nat
  | .handed, no => {no}
  | _, _ => 0

def Booked (s s' : State) (new : List Event) : Prop := ∀ st, Balances Eq (held st) (came st) (went st) s s' new

/-- The books balance if the send was in a slot before. -/
def Spent (no : Nat) (s s' : State) (new : List Event) : Prop :=
  ∀ st, held st s' + total (went st) new = held st s + inHand st no + total (came st) new

theorem booked_composes : Composes Booked where
  refl s _ := compares_eq.still s
  comp h₁ h₂ st := compares_eq.chain (h₁ st) (h₂ st)

@[simp] theorem tickets_none : tickets none = 0 := rfl

@[simp] theorem tickets_some : tickets (some no) = {no} := rfl

theorem held_congr (hd : s'.ourDests = s.ourDests) (ha : s'.awaited = s.awaited) (st : Stage) :
    held st s' = held st s := by
  rw [held, held, hd, ha]

theorem booked_still (hd : s'.ourDests = s.ourDests) (ha : s'.awaited = s.awaited) : Booked s s' [] := by
  intro st
  rw [Balances, held_congr hd ha]
  simp

theorem inDest_set (hi : c.pending[i]? = some o) (st : Stage) (o' : Option Pending) :
    inDest st (some { c with pending := c.pending.set i o' }) + inPending st o =
      inDest st (some c) + inPending st o' := by
  simp only [inDest]
  rw [total_set hi, total_of_getElem? hi]
  abel

theorem park_eq (hd : s.dest j = some c) : s.park j i o =
    { s with ourDests := s.ourDests.set j (some { c with pending := c.pending.set i o }) } := by
  obtain ⟨hlt, hj⟩ := List.getElem?_eq_some_iff.1 (State.dest_eq_some.1 hd)
  rw [State.park, List.modify_eq_set_getElem?, List.getElem?_eq_getElem hlt, hj]
  rfl

theorem held_park (hd : s.dest j = some c) (hi : c.pending[i]? = some o) (st : Stage) (o' : Option Pending) :
    held st (s.park j i o') + inPending st o = held st s + inPending st o' := by
  have hset := inDest_set hi st o'
  have hj := State.dest_eq_some.1 hd
  rw [park_eq hd]
  simp only [held]
  rw [total_set hj, total_of_getElem? hj, add_right_comm _ _ (inPending st o), add_right_comm _ _ (inPending st o), hset]
  abel

theorem held_free (h : s.slot j = some a) (st : Stage) : held st (s.ourDestReceiptFree j) + {a.no} = held st s := by
  have hj := State.slot_eq_some.1 h
  simp only [held, State.ourDestReceiptFree, h]
  rw [total_set hj, total_of_getElem? hj]
  simp only [inSlot, Option.map_none, Option.map_some, tickets_none, tickets_some]
  abel

theorem held_adopt (hj : s.awaited[j]? = some none) {receipt : Nat} {window : Int} (st : Stage) :
    held st (s.adopt j no conn sendId hops receipt window) = held st s + {no} := by
  simp only [held, State.adopt]
  rw [total_set hj, total_of_getElem? hj]
  simp only [inSlot, Option.map_none, Option.map_some, tickets_none, tickets_some]
  abel

-- ---------------------------------------------------------------------------
-- The invariant
-- ---------------------------------------------------------------------------

/-- What a frame says about a send is so. -/
def Grounds (log : List Event) (clock : ℚ) (no : Nat) : Frame → Prop
  | .result _ .delivered _ _ => ∃ payload hash d, .aired no payload hash d ∈ log ∧ .proved hash ∈ log
  | .result _ .proofTimeout _ _ =>
    .ousted no ∈ log ∨ ∃ payload hash d, .aired no payload hash d ∈ log ∧ (.culled hash ∈ log ∨ d ≤ clock)
  | .result _ .failed _ _ =>
    ∃ conn sendId bytes t, .handed no conn sendId bytes t ∈ log ∧ t + RNSD_OUR_DEST_PATH_GIVEUP_S ≤ clock
  | .result _ .tooLarge _ _ =>
    ∃ conn sendId bytes t, .handed no conn sendId bytes t ∈ log ∧ ENCRYPTED_MDU < (payload bytes).length
  | _ => True

def Justified (log : List Event) (clock : ℚ) : Event → Prop
  | .told (some no) h f =>
    (∃ conn bytes t, .handed no conn f.sendId bytes t ∈ log ∧ conn.handle = h) ∧ Grounds log clock no f
  | .aired no payload' _ _ => ∃ conn sendId bytes t, .handed no conn sendId bytes t ∈ log ∧
      payload' = payload bytes ∧ payload'.length ≤ ENCRYPTED_MDU
  | _ => True

/-- What is known of a receipt that is waited for. -/
structure Owned (log : List Event) (clock : ℚ) (a : Awaited) (r : Receipt) : Prop where
  hooked : r.hooked
  handed : ∃ bytes t, .handed a.no a.conn a.sendId bytes t ∈ log
  aired : ∃ payload, .aired a.no payload r.hash a.deadline ∈ log
  proved : r.packet.status = .delivered → .proved r.hash ∈ log
  window : .culled r.hash ∈ log ∨ r.packet.sentAt + r.packet.timeout = a.deadline
  late : r.packet.status ≠ .sent → r.packet.status ≠ .delivered → .culled r.hash ∈ log ∨ a.deadline ≤ clock

structure Shaped (s : State) : Prop where
  dests : s.ourDests.length = RNSD_MAX_OUR_DESTS
  rooms : ∀ {j : Nat} {c : OurDest}, s.dest j = some c → c.pending.length = RNSD_OUR_DEST_MAX_PENDING
  slots : s.awaited.length = RNSD_MAX_PENDING_RECEIPTS

structure Sound (log : List Event) (s : State) : Prop where
  shaped : Shaped s
  kept : ∀ {j i : Nat} {c : OurDest} {p : Pending}, s.dest j = some c → c.pending[i]? = some (some p) →
    .handed p.no ⟨j, c.handle⟩ p.sendId p.bytes p.firstSeenAt ∈ log
  tied : ∀ {j : Nat} {a : Awaited}, s.slot j = some a → ∃ c, s.dest a.conn.idx = some c ∧ c.handle = a.conn.handle
  owned : ∀ {j : Nat} {a : Awaited}, s.slot j = some a → ∃ r, s.receipts[a.receipt]? = some r ∧ Owned log s.clock a r
  apart : ∀ {j j' : Nat} {a a' : Awaited}, s.slot j = some a → s.slot j' = some a' → a.receipt = a'.receipt → j = j'
  hooks : ∀ {i : Nat} {r : Receipt}, s.receipts[i]? = some r → r.hooked → ∃ j a, s.slot j = some a ∧ a.receipt = i
  said : ∀ e ∈ log, Justified log s.clock e
  counted : total (came .handed) log = Multiset.range s.serial

theorem Grounds.mono {more : List Event} {t t' : ℚ} {f : Frame} (hl : log ⊆ more) (ht : t ≤ t')
    (h : Grounds log t no f) : Grounds more t' no f := by
  unfold Grounds at h ⊢
  split at h
  · obtain ⟨payload, hash, d, ha, hp⟩ := h
    exact ⟨payload, hash, d, hl ha, hl hp⟩
  · rcases h with ho | ⟨payload, hash, d, ha, hc | hd⟩
    · exact .inl (hl ho)
    · exact .inr ⟨payload, hash, d, hl ha, .inl (hl hc)⟩
    · exact .inr ⟨payload, hash, d, hl ha, .inr (hd.trans ht)⟩
  · obtain ⟨conn, sendId, bytes, t₀, hh, hd⟩ := h
    exact ⟨conn, sendId, bytes, t₀, hl hh, hd.trans ht⟩
  · obtain ⟨conn, sendId, bytes, t₀, hh, hd⟩ := h
    exact ⟨conn, sendId, bytes, t₀, hl hh, hd⟩
  · trivial

theorem Justified.mono {more : List Event} {t t' : ℚ} (hl : log ⊆ more) (ht : t ≤ t') (h : Justified log t e) :
    Justified more t' e := by
  unfold Justified at h ⊢
  split at h
  · obtain ⟨⟨conn, bytes, t₀, hh, hc⟩, hg⟩ := h
    exact ⟨⟨conn, bytes, t₀, hl hh, hc⟩, hg.mono hl ht⟩
  · obtain ⟨conn, sendId, bytes, t₀, hh, hp⟩ := h
    exact ⟨conn, sendId, bytes, t₀, hl hh, hp⟩
  · trivial

theorem Owned.mono {more : List Event} {t t' : ℚ} (hl : log ⊆ more) (ht : t ≤ t') (h : Owned log t a r) :
    Owned more t' a r where
  hooked := h.hooked
  handed := by
    obtain ⟨bytes, t₀, hh⟩ := h.handed
    exact ⟨bytes, t₀, hl hh⟩
  aired := by
    obtain ⟨payload, ha⟩ := h.aired
    exact ⟨payload, hl ha⟩
  proved hd := hl (h.proved hd)
  window := h.window.imp (@hl _) id
  late hs hd := (h.late hs hd).imp (@hl _) fun hle => hle.trans ht

theorem Shaped.park (h : Shaped s) : Shaped (s.park j i o) where
  dests := by simp [State.park, h.dests]
  rooms {j' c'} hd := by
    rw [State.dest_park] at hd
    split at hd
    · obtain ⟨c, hc, rfl⟩ := Option.map_eq_some_iff.1 hd
      simp [h.rooms hc]
    · exact h.rooms hd
  slots := h.slots

theorem Shaped.free (h : Shaped s) : Shaped (s.ourDestReceiptFree j) where
  dests := by rw [State.ourDests_free, h.dests]
  rooms hd := h.rooms (State.dest_congr State.ourDests_free ▸ hd)
  slots := by
    unfold State.ourDestReceiptFree
    split <;> simp [h.slots]

theorem Shaped.adopt (h : Shaped s) {window : Int} : Shaped (s.adopt j no conn sendId hops i window) where
  dests := h.dests
  rooms := h.rooms
  slots := by simp [State.adopt, h.slots]

namespace Sound

/-- More is said. -/
theorem say (h : Sound log s) (hj : ∀ e ∈ new, Justified (log ++ new) s.clock e) (hn : total (came .handed) new = 0) :
    Sound (log ++ new) s where
  shaped := h.shaped
  kept hd hp := List.mem_append_left _ (h.kept hd hp)
  tied := h.tied
  owned ha := by
    obtain ⟨r, hr, ho⟩ := h.owned ha
    exact ⟨r, hr, ho.mono (List.subset_append_left ..) le_rfl⟩
  apart := h.apart
  hooks := h.hooks
  said e he := by
    rcases List.mem_append.1 he with he | he
    · exact (h.said e he).mono (List.subset_append_left ..) le_rfl
    · exact hj e he
  counted := by rw [total_append, hn, add_zero, h.counted]

theorem park (h : Sound log s) (hd : s.dest j = some c)
    (hp : ∀ p, o = some p → .handed p.no ⟨j, c.handle⟩ p.sendId p.bytes p.firstSeenAt ∈ log) :
    Sound log (s.park j i o) where
  shaped := h.shaped.park
  kept {j' i' c' p'} hd' hp' := by
    rw [State.dest_park] at hd'
    split at hd'
    · next hj =>
      subst hj
      rw [hd] at hd'
      obtain rfl : { c with pending := c.pending.set i o } = c' := by simpa using hd'
      rcases Slots.getElem?_set_cases hp' with ⟨-, ho⟩ | ⟨-, hold⟩
      · exact hp p' ho.symm
      · exact h.kept (c := c) hd hold
    · exact h.kept hd' hp'
  tied ha := by
    obtain ⟨c', hc, hh⟩ := h.tied ha
    rw [State.dest_park]
    split
    · next hj =>
      rw [hj] at hc
      obtain rfl : c = c' := by simpa [hd] using hc
      exact ⟨{ c with pending := c.pending.set i o }, by rw [hd]; rfl, hh⟩
    · exact ⟨c', hc, hh⟩
  owned := h.owned
  apart := h.apart
  hooks := h.hooks
  said := h.said
  counted := h.counted

theorem free (h : Sound log s) : Sound log (s.ourDestReceiptFree j) := by
  cases ha : s.slot j with
  | none =>
    rw [State.ourDestReceiptFree, ha]
    exact h
  | some a =>
    have hslot : ∀ {j' a'}, (s.ourDestReceiptFree j).slot j' = some a' → j' ≠ j ∧ s.slot j' = some a' := by
      intro j' a' hs
      rw [State.slot_free] at hs
      split at hs
      · cases hs
      · next hj => exact ⟨hj, hs⟩
    have hdest : ∀ j', (s.ourDestReceiptFree j).dest j' = s.dest j' := fun j' => State.dest_congr State.ourDests_free
    refine ⟨h.shaped.free, fun hd hp => ?_, fun hs => ?_, fun hs => ?_, fun hs hs' he => ?_, fun hr hh => ?_, fun e he => ?_, ?_⟩
    · exact h.kept (hdest _ ▸ hd) hp
    · rw [hdest]
      exact h.tied (hslot hs).2
    · obtain ⟨hne, hs⟩ := hslot hs
      obtain ⟨r, hr, ho⟩ := h.owned hs
      refine ⟨r, ?_, by rwa [State.clock_free]⟩
      rw [State.receipts_free ha, getElem?_modified, if_neg fun heq => hne (h.apart hs ha heq.symm), hr]
    · exact h.apart (hslot hs).2 (hslot hs').2 he
    · next i r =>
      rw [State.receipts_free ha, getElem?_modified] at hr
      by_cases hi : a.receipt = i
      · rw [if_pos hi] at hr
        obtain ⟨r₀, -, rfl⟩ := Option.map_eq_some_iff.1 hr
        cases hh
      · rw [if_neg hi] at hr
        obtain ⟨j', a', hs, hi'⟩ := h.hooks hr hh
        refine ⟨j', a', ?_, hi'⟩
        rw [State.slot_free, if_neg, hs]
        intro hj
        rw [hj, ha] at hs
        exact hi (by rw [← hi', Option.some.inj hs])
    · rw [State.clock_free]
      exact h.said e he
    · rw [State.ourDestReceiptFree, ha]
      exact h.counted

/-- Receipts change, but not whose they are. -/
theorem rereceipt (h : Sound log s) {rs : List Receipt} {out : List Nat}
    (hrs : ∀ (k : Nat) (r' : Receipt), rs[k]? = some r' → r'.hooked → ∃ r, s.receipts[k]? = some r ∧ r.hooked)
    (ho : ∀ (a : Awaited) (r : Receipt), s.receipts[a.receipt]? = some r → Owned log s.clock a r →
      ∃ r', rs[a.receipt]? = some r' ∧ Owned log s.clock a r') :
    Sound log { s with receipts := rs, outstanding := out } where
  shaped := ⟨h.shaped.dests, h.shaped.rooms, h.shaped.slots⟩
  kept := h.kept
  tied := h.tied
  owned ha := by
    obtain ⟨r, hr, hown⟩ := h.owned ha
    exact ho _ r hr hown
  apart := h.apart
  hooks hr hh := by
    obtain ⟨r, hr, hh⟩ := hrs _ _ hr hh
    exact h.hooks hr hh
  said := h.said
  counted := h.counted

theorem extend (h : Sound log s) (hn : r.hooked = false) {out : List Nat} :
    Sound log { s with receipts := s.receipts ++ [r], outstanding := out } := by
  apply h.rereceipt
  · intro k r' hr' hh
    rw [List.getElem?_append] at hr'
    split at hr'
    · exact ⟨r', hr', hh⟩
    · obtain rfl : r = r' := by
        have hm := List.mem_of_getElem? hr'
        exact (List.mem_singleton.1 hm).symm
      rw [hn] at hh
      cases hh
  · intro a r' hr' ho
    exact ⟨r', by rw [List.getElem?_append_left (List.getElem?_eq_some_iff.1 hr').1, hr'], ho⟩

theorem adopt (h : Sound log s) (hj : s.awaited[j]? = some none) (hr : s.receipts[i]? = some r)
    (hn : r.hooked = false) (hs : r.packet.status = .sent) (ht : r.packet.sentAt = s.clock) {window : Int}
    (hd : s.dest conn.idx = some c) (hc : c.handle = conn.handle)
    (hh : ∃ bytes t, .handed no conn sendId bytes t ∈ log)
    (ha : ∃ payload, .aired no payload r.hash (s.clock + window) ∈ log) :
    Sound log (s.adopt j no conn sendId hops i window) := by
  have hget : ∀ k, (s.adopt j no conn sendId hops i window).receipts[k]? =
      if i = k then s.receipts[k]?.map fun r => { r with packet := { r.packet with timeout := window }, hooked := true }
      else s.receipts[k]? := fun k => getElem?_modified _ _ _
  have hother : ∀ {j' a'}, s.slot j' = some a' → a'.receipt ≠ i := by
    rintro j' a' hs rfl
    obtain ⟨r', hr', ho⟩ := h.owned hs
    rw [hr] at hr'
    cases hr'
    rw [ho.hooked] at hn
    cases hn
  refine ⟨h.shaped.adopt, h.kept, fun hs' => ?_, fun hs' => ?_, fun hs₁ hs₂ he => ?_, fun hr' hh' => ?_, h.said, h.counted⟩
  · rw [State.slot_adopt hj] at hs'
    split at hs'
    · cases hs'
      exact ⟨c, hd, hc⟩
    · exact h.tied hs'
  · rw [State.slot_adopt hj] at hs'
    split at hs'
    · cases hs'
      refine ⟨{ r with packet := { r.packet with timeout := window }, hooked := true }, ?_, ?_⟩
      · rw [hget, if_pos rfl, hr]
        rfl
      · exact ⟨rfl, hh, ha, fun hd => by simp [hs] at hd, .inr (by simp [ht]), fun hns => absurd hs hns⟩
    · obtain ⟨r', hr', ho⟩ := h.owned hs'
      exact ⟨r', by rw [hget, if_neg (hother hs').symm, hr'], ho⟩
  · rw [State.slot_adopt hj] at hs₁ hs₂
    split at hs₁ <;> split at hs₂
    · next h₁ h₂ => rw [h₁, h₂]
    · cases hs₁
      exact absurd he.symm (hother hs₂)
    · cases hs₂
      exact absurd he (hother hs₁)
    · exact h.apart hs₁ hs₂ he
  · next k r' =>
    rw [hget] at hr'
    split at hr'
    · next hk => exact ⟨j, _, by rw [State.slot_adopt hj, if_pos rfl], hk⟩
    · obtain ⟨j', a', hs', hi⟩ := h.hooks hr' hh'
      refine ⟨j', a', ?_, hi⟩
      rw [State.slot_adopt hj, if_neg, hs']
      rintro rfl
      rw [State.slot_eq_some, hj] at hs'
      cases hs'

theorem later (h : Sound log s) {t : ℚ} (ht : s.clock ≤ t) : Sound log { s with clock := t } where
  shaped := ⟨h.shaped.dests, h.shaped.rooms, h.shaped.slots⟩
  kept := h.kept
  tied := h.tied
  owned ha := by
    obtain ⟨r, hr, ho⟩ := h.owned ha
    exact ⟨r, hr, ho.mono (List.Subset.refl _) ht⟩
  apart := h.apart
  hooks := h.hooks
  said e he := (h.said e he).mono (List.Subset.refl _) ht
  counted := h.counted

theorem hand (h : Sound log s) :
    Sound (log ++ [.handed s.serial conn sendId bytes s.clock]) { s with serial := s.serial + 1 } where
  shaped := ⟨h.shaped.dests, h.shaped.rooms, h.shaped.slots⟩
  kept hd hp := List.mem_append_left _ (h.kept hd hp)
  tied := h.tied
  owned ha := by
    obtain ⟨r, hr, ho⟩ := h.owned ha
    exact ⟨r, hr, ho.mono (List.subset_append_left ..) le_rfl⟩
  apart := h.apart
  hooks := h.hooks
  said e he := by
    rcases List.mem_append.1 he with he | he
    · exact (h.said e he).mono (List.subset_append_left ..) le_rfl
    · rw [List.mem_singleton.1 he]
      trivial
  counted := by
    rw [total_append, h.counted, Multiset.range_succ]
    simp [came, Event.handedNo?, ← Multiset.singleton_add, add_comm]

/-- A connection closes that no slot is tied to. -/
theorem closes (h : Sound log s) (hn : ∀ {j' : Nat} {a : Awaited}, s.slot j' = some a → a.conn.idx ≠ j) :
    Sound log { s with ourDests := s.ourDests.set j none } := by
  have hdest : ∀ {j' : Nat} {c : OurDest}, ({ s with ourDests := s.ourDests.set j none } : State).dest j' = some c ↔
      j' ≠ j ∧ s.dest j' = some c := by
    intro j' c
    rw [State.dest_eq_some, State.dest_eq_some, List.getElem?_set]
    by_cases hj : j = j'
    · subst hj
      by_cases hlt : j < s.ourDests.length <;> simp [hlt]
    · simp [hj, Ne.symm hj]
  refine ⟨⟨by simp [h.shaped.dests], fun hd => h.shaped.rooms (hdest.1 hd).2, h.shaped.slots⟩,
    fun hd hp => h.kept (hdest.1 hd).2 hp, fun ha => ?_, h.owned, h.apart, h.hooks, h.said, h.counted⟩
  obtain ⟨c, hc, hh⟩ := h.tied ha
  exact ⟨c, hdest.2 ⟨hn ha, hc⟩, hh⟩

theorem opens (h : Sound log s) (hj : s.ourDests[j]? = some none) {hdl : Handle} :
    Sound log { s with ourDests := s.ourDests.set j (some { handle := hdl }) } := by
  have hlt := (List.getElem?_eq_some_iff.1 hj).1
  have hdest : ∀ j', ({ s with ourDests := s.ourDests.set j (some { handle := hdl }) } : State).dest j' =
      if j' = j then some { handle := hdl } else s.dest j' := by
    intro j'
    rw [State.dest, List.getElem?_set]
    by_cases hj' : j = j'
    · subst hj'
      simp [hlt]
    · simp [hj', Ne.symm hj', State.dest]
  refine ⟨⟨by simp [h.shaped.dests], fun hd => ?_, h.shaped.slots⟩, fun hd hp => ?_, fun ha => ?_, h.owned, h.apart,
    h.hooks, h.said, h.counted⟩
  · rw [hdest] at hd
    split at hd
    · cases hd
      rfl
    · exact h.shaped.rooms hd
  · rw [hdest] at hd
    split at hd
    · cases hd
      simp [List.getElem?_replicate] at hp
    · exact h.kept hd hp
  · obtain ⟨c, hc, hh⟩ := h.tied ha
    refine ⟨c, ?_, hh⟩
    rw [hdest, if_neg, hc]
    intro heq
    rw [heq, State.dest_eq_some, hj] at hc
    cases hc

end Sound

-- ---------------------------------------------------------------------------
-- Receipts
-- ---------------------------------------------------------------------------

/-- The books balance once a send has been put in a slot of receipts. -/
def Took (no : Nat) (s s' : State) (new : List Event) : Prop :=
  ∀ st, held st s' + total (went st) new = held st s + {no} + total (came st) new

/-- A send whose connection is there. -/
structure Ready (log : List Event) (s : State) (no : Nat) (conn : Conn) (sendId : UInt16) (bytes : Bytes) : Prop where
  handed : ∃ t, .handed no conn sendId bytes t ∈ log
  tied : ∃ c, s.dest conn.idx = some c ∧ c.handle = conn.handle

theorem Sound.tell (h : Sound log s) {f : Frame} {hdl : Handle}
    (hh : ∃ conn bytes t, .handed no conn f.sendId bytes t ∈ log ∧ conn.handle = hdl) (hg : Grounds log s.clock no f) :
    Sound (log ++ [.told (some no) hdl f]) s := by
  apply h.say
  · intro e he
    rw [List.mem_singleton.1 he]
    obtain ⟨conn, bytes, t, hh, hc⟩ := hh
    exact ⟨⟨conn, bytes, t, List.mem_append_left _ hh, hc⟩, hg.mono (List.subset_append_left ..) le_rfl⟩
  · simp [came, Event.handedNo?]

theorem settle_eq (h : Sound log s) (hs : s.slot j = some a) (status : Status) (rtt : UInt32) :
    ourDestReceiptSettle j status rtt s =
      (s.ourDestReceiptFree j, [.told (some a.no) a.conn.handle (.result a.sendId status rtt a.hops)]) := by
  obtain ⟨c, hc, hh⟩ := h.tied hs
  simp [ourDestReceiptSettle, hs, hc, hh, Opportunistic.tell]

/-- The slots are freed by a result, and the consumer is there to hear it. -/
theorem settle_spec (h : Sound log s) (hs : s.slot j = some a) {status : Status} (rtt : UInt32)
    (hst : status = .delivered ∨ status = .proofTimeout)
    (hg : Grounds log s.clock a.no (.result a.sendId status rtt a.hops)) :
    Sound (log ++ (ourDestReceiptSettle j status rtt s).2) (ourDestReceiptSettle j status rtt s).1 ∧
      Booked s (ourDestReceiptSettle j status rtt s).1 (ourDestReceiptSettle j status rtt s).2 := by
  rw [settle_eq h hs]
  obtain ⟨r, hr, ho⟩ := h.owned hs
  obtain ⟨bytes, t, hh⟩ := ho.handed
  refine ⟨h.free.tell ⟨a.conn, bytes, t, hh, rfl⟩ (by rwa [State.clock_free]), fun st => ?_⟩
  rw [Balances, ← held_free hs st]
  rcases hst with rfl | rfl <;> cases st <;> simp [came, went, Event.handedNo?, Event.airedNo?, Event.sentNo?, Event.ends?,
    Event.fails?]

theorem delivery_spec {hash : Bytes} (h : Sound log s) (hp : .proved hash ∈ log) :
    Sound (log ++ (onOurDestReceiptDelivery hash s).2) (onOurDestReceiptDelivery hash s).1 ∧
      Booked s (onOurDestReceiptDelivery hash s).1 (onOurDestReceiptDelivery hash s).2 := by
  have hstill : Sound (log ++ []) s ∧ Booked s s [] := ⟨by rwa [List.append_nil], booked_still rfl rfl⟩
  unfold onOurDestReceiptDelivery
  split
  · exact hstill
  · next j hf =>
    split
    · exact hstill
    · next a hs =>
      obtain ⟨o, ho, -, hk⟩ := Slots.find_eq_some hf
      rw [State.slot_eq_some.1 hs] at ho
      obtain rfl := Option.some.inj ho
      obtain ⟨r, hr, hown⟩ := h.owned hs
      obtain ⟨payload, ha⟩ := hown.aired
      have hhash : r.hash = hash := by simpa [hashOf, hr] using hk
      exact settle_spec h hs _ (.inl rfl) ⟨payload, hash, a.deadline, hhash ▸ ha, hp⟩

theorem receiptTurn_spec : Meets (Under Sound Booked) (receiptTurn j) := by
  intro s log h
  have hstill : Sound (log ++ []) s ∧ Booked s s [] := ⟨by rwa [List.append_nil], booked_still rfl rfl⟩
  unfold receiptTurn
  split
  · exact hstill
  · next a hs =>
    obtain ⟨r, hr, ho⟩ := h.owned hs
    obtain ⟨payload, ha⟩ := ho.aired
    simp only [hr, Option.map_some, Option.getD_some]
    split
    · next hdel => exact settle_spec h hs _ (.inl rfl) ⟨payload, r.hash, a.deadline, ha, ho.proved hdel⟩
    · next hdel =>
      split
      · next hlate =>
        refine settle_spec h hs _ (.inr rfl) (.inr ⟨payload, r.hash, a.deadline, ha, ?_⟩)
        rcases hlate with hsent | hd
        · exact ho.late hsent hdel
        · exact .inr hd
      · exact hstill

theorem receiptTick_spec : Meets (Under Sound Booked) ourDestReceiptTick := by
  apply (under_composes booked_composes).all
  intro t ht
  obtain ⟨j, -, rfl⟩ := List.mem_map.1 ht
  exact receiptTurn_spec

theorem adopt_took (hj : s.awaited[j]? = some none) {window : Int} {receipt : Nat} :
    Took no s (s.adopt j no conn sendId hops receipt window) [] := by
  intro st
  rw [held_adopt hj]
  simp

/-- There is a slot for the receipt: a free one, or the one that is nearest its deadline. -/
theorem track_spec (h : Sound log s) (hready : Ready log s no conn sendId bytes) (hr : s.receipts[i]? = some r)
    (hn : r.hooked = false) (hs : r.packet.status = .sent) (ht : r.packet.sentAt = s.clock) {window : Int}
    (ha : ∃ payload, .aired no payload r.hash (s.clock + window) ∈ log) :
    Sound (log ++ (ourDestReceiptTrack no conn sendId hops i window s).2)
        (ourDestReceiptTrack no conn sendId hops i window s).1 ∧
      Took no s (ourDestReceiptTrack no conn sendId hops i window s).1
        (ourDestReceiptTrack no conn sendId hops i window s).2 := by
  obtain ⟨⟨t, hh⟩, c, hc, hhdl⟩ := hready
  unfold ourDestReceiptTrack
  split
  · next j hf =>
    obtain ⟨o, hj, ho⟩ := Slots.free_eq_some hf
    obtain rfl := Option.isSome_eq_false_iff.1 ho |> Option.isNone_iff_eq_none.1
    rw [quiet_apply, List.append_nil]
    exact ⟨h.adopt hj hr hn hs ht hc hhdl ⟨bytes, t, hh⟩ ha, adopt_took hj⟩
  · next hfull =>
    have hall := Slots.free_eq_none.1 hfull
    split
    · next hv =>
      have hnone := Slots.victim_eq_none.1 hv
      obtain ⟨o, ho⟩ : ∃ o, o ∈ s.awaited := by
        refine List.exists_mem_of_length_pos ?_
        rw [h.shaped.slots]
        decide
      exact absurd (hnone o ho) (by simp [hall o ho])
    · next j hv =>
      obtain ⟨o, hj, hu, -⟩ := Slots.victim_eq_some hv
      obtain ⟨a, rfl⟩ := Option.isSome_iff_exists.1 hu
      have hslot := State.slot_eq_some.2 hj
      obtain ⟨r', hr', hown⟩ := h.owned hslot
      have hne : a.receipt ≠ i := by
        rintro rfl
        rw [hr] at hr'
        cases hr'
        rw [hown.hooked] at hn
        cases hn
      have h₁ : Sound (log ++ [.ousted a.no]) s := by
        apply h.say _ rfl
        intro e he
        rw [List.mem_singleton.1 he]
        trivial
      have hsettle := settle_eq h₁ hslot .proofTimeout 0
      have hspec := settle_spec h₁ hslot 0 (.inr rfl) (.inl (by simp))
      rw [hsettle] at hspec
      obtain ⟨h₂, hb⟩ := hspec
      have hj' : (s.ourDestReceiptFree j).awaited[j]? = some none := by
        have hlt := (List.getElem?_eq_some_iff.1 hj).1
        simp [State.ourDestReceiptFree, hslot, hlt]
      have hkeep : (s.ourDestReceiptFree j).receipts[i]? = some r := by
        rw [State.receipts_free hslot, getElem?_modified, if_neg hne, hr]
      have hin : log ⊆ log ++ [.ousted a.no] ++
          [.told (some a.no) a.conn.handle (.result a.sendId .proofTimeout 0 a.hops)] := fun e he => by simp [he]
      have hclock : (s.ourDestReceiptFree j).clock = s.clock := State.clock_free
      obtain ⟨payload, ha⟩ := ha
      have h₃ : Sound _ ((s.ourDestReceiptFree j).adopt j no conn sendId hops i window) :=
        h₂.adopt hj' hkeep hn hs (by rw [hclock, ht]) (by rw [State.dest_congr State.ourDests_free, hc]) hhdl
          ⟨bytes, t, hin hh⟩ ⟨payload, by rw [hclock]; exact hin ha⟩
      rw [hslot]
      simp only
      rw [act_andThen, andThen_apply, id, hsettle]
      refine ⟨by simpa using h₃, fun st => ?_⟩
      have hst := hb st
      rw [Balances] at hst
      simp only [quiet_apply]
      rw [held_adopt hj', add_right_comm]
      simp only [List.append_nil, total_cons, total_nil, add_zero] at hst ⊢
      have hzero : ∀ st, went st (.ousted a.no) = 0 ∧ came st (.ousted a.no) = 0 := fun st => by cases st <;> exact ⟨rfl, rfl⟩
      rw [(hzero st).1, (hzero st).2, zero_add, zero_add, hst, add_right_comm]

-- ---------------------------------------------------------------------------
-- A consumer goes
-- ---------------------------------------------------------------------------

theorem purgeTurn_spec {ref : Nat} : Meets (Under Sound Booked) (purgeTurn ref j) := by
  intro s log h
  have hstill : Sound (log ++ []) s ∧ Booked s s [] := ⟨by rwa [List.append_nil], booked_still rfl rfl⟩
  unfold purgeTurn
  split
  · exact hstill
  · next a hs =>
    split
    · refine ⟨h.free.say (fun e he => ?_) rfl, fun st => ?_⟩
      · rw [List.mem_singleton.1 he]
        trivial
      · rw [Balances, ← held_free hs st]
        cases st <;> simp [came, went, Event.handedNo?, Event.airedNo?, Event.sentNo?, Event.ends?, Event.fails?]
    · exact hstill

theorem purge_spec {ref : Nat} : Meets (Under Sound Booked) (ourDestReceiptPurgeConn ref) := by
  apply (under_composes booked_composes).all
  intro t ht
  obtain ⟨j, -, rfl⟩ := List.mem_map.1 ht
  exact purgeTurn_spec

theorem slot_purgeTurn {ref : Nat} (h : (purgeTurn ref j s).1.slot j' = some a) :
    s.slot j' = some a ∧ (j' = j → a.conn.idx ≠ ref) := by
  unfold purgeTurn at h
  split at h
  · next hn =>
    refine ⟨h, fun hj => ?_⟩
    rw [skip_apply, hj, hn] at h
    cases h
  · next a' hs =>
    split at h
    · rw [act_apply, State.slot_free] at h
      split at h
      · cases h
      · next hj => exact ⟨h, fun hj' => absurd hj' hj⟩
    · next hn =>
      refine ⟨h, fun hj => ?_⟩
      rw [skip_apply, hj, hs] at h
      cases h
      exact hn

theorem ourDests_purgeTurn {ref : Nat} : (purgeTurn ref j s).1.ourDests = s.ourDests := by
  unfold purgeTurn
  split
  · rfl
  · split
    · exact State.ourDests_free
    · rfl

theorem slot_purge {ref : Nat} {js : List Nat} (h : (all (js.map (purgeTurn ref)) s).1.slot j' = some a) :
    s.slot j' = some a ∧ (j' ∈ js → a.conn.idx ≠ ref) := by
  induction js generalizing s with
  | nil => exact ⟨h, fun hj => absurd hj List.not_mem_nil⟩
  | cons j js ih =>
    obtain ⟨hs, hrest⟩ := ih h
    obtain ⟨hs, hj⟩ := slot_purgeTurn hs
    refine ⟨hs, fun hmem => ?_⟩
    rcases List.mem_cons.1 hmem with hmem | hmem
    · exact hj hmem
    · exact hrest hmem

theorem ourDests_purge {ref : Nat} {js : List Nat} : (all (js.map (purgeTurn ref)) s).1.ourDests = s.ourDests := by
  induction js generalizing s with
  | nil => rfl
  | cons j js ih => exact ih.trans ourDests_purgeTurn

/-- Nothing is left of the connection in the slots of receipts. -/
theorem purged {ref : Nat} (h : Shaped s) (hs : (ourDestReceiptPurgeConn ref s).1.slot j = some a) :
    a.conn.idx ≠ ref := by
  obtain ⟨hslot, hn⟩ := slot_purge hs
  apply hn
  rw [List.mem_range, ← h.slots]
  exact (List.getElem?_eq_some_iff.1 (State.slot_eq_some.1 hslot)).1

theorem inDest_dropped (st : Stage) :
    inDest st (some c) = total (went st) (c.pending.filterMap (Option.map fun p => .dropped p.no)) := by
  simp only [inDest]
  induction c.pending with
  | nil => rfl
  | cons o rest ih =>
    rw [total_cons, ih]
    cases o with
    | none => cases st <;> simp [inPending]
    | some p => cases st <;> simp [inPending, went, Event.ends?, Event.fails?]

theorem close_spec {ref : Nat} (hn : ∀ {j : Nat} {a : Awaited}, s.slot j = some a → a.conn.idx ≠ ref) :
    Under Sound Booked s (close ref s).1 (close ref s).2 := by
  intro log h
  unfold close
  split
  · exact ⟨by simpa using h, booked_still rfl rfl⟩
  · next c hd =>
    have hev : ∀ e ∈ c.pending.filterMap (Option.map fun p => Event.dropped p.no), ∃ no, e = .dropped no := by
      intro e he
      obtain ⟨o, -, ho⟩ := List.mem_filterMap.1 he
      obtain ⟨p, -, rfl⟩ := Option.map_eq_some_iff.1 ho
      exact ⟨p.no, rfl⟩
    refine ⟨(h.closes hn).say (fun e he => ?_) ?_, fun st => ?_⟩
    · obtain ⟨no, rfl⟩ := hev e he
      trivial
    · apply total_eq_zero
      intro e he
      obtain ⟨no, rfl⟩ := hev e he
      rfl
    · have hcame : total (came st) (c.pending.filterMap (Option.map fun p => .dropped p.no)) = 0 := by
        apply total_eq_zero
        intro e he
        obtain ⟨no, rfl⟩ := hev e he
        cases st <;> rfl
      have hj := State.dest_eq_some.1 hd
      rw [Balances, hcame, ← inDest_dropped]
      simp only [held]
      rw [total_set hj, total_of_getElem? hj]
      simp only [inDest]
      abel

theorem disconnect_spec {ref : Nat} : Meets (Under Sound Booked) (onOurDestDisconnect ref) := by
  intro s log h
  unfold onOurDestDisconnect
  split
  · exact ⟨by simpa using h, booked_still rfl rfl⟩
  · exact (under_composes booked_composes).andThen_at (purge_spec s) (close_spec fun hs => purged h.shaped hs) log h

-- ---------------------------------------------------------------------------
-- Sending
-- ---------------------------------------------------------------------------

/-- What a call of `ourDestTrySend` does. -/
inductive Tries (conn : Conn) (no : Nat) (sendId : UInt16) (bytes : Bytes) (look : Look) :
    Tried × Transition State Event → Prop
  | pending (h : ¬ (look.hasPath ∧ look.recalls)) : Tries conn no sendId bytes look
      (.pending, requestPath conn no sendId bytes)
  | failed (status : Status) (hs : status = .evicted ∨ status = .tooLarge ∧ ENCRYPTED_MDU < (payload bytes).length) :
      Tries conn no sendId bytes look (.failed, tell (some no) conn.handle (.result sendId status 0 0))
  | sent (hash : Bytes) (hops : UInt8) (hl : (payload bytes).length ≤ ENCRYPTED_MDU) :
      Tries conn no sendId bytes look (.sent, sendOut conn no sendId bytes hash hops look.window)

theorem trySend_tries (look : Look) : Tries conn no sendId bytes look (ourDestTrySend conn no sendId bytes look) := by
  unfold ourDestTrySend
  simp only
  split
  · exact .failed _ (.inl rfl)
  · split
    · next h => exact .pending fun hp => by simp [hp.1] at h
    · split
      · next h => exact .pending fun hp => by simp [hp.2] at h
      · split
        · exact .failed _ (.inl rfl)
        · split
          · next h => exact .failed _ (.inr ⟨rfl, h⟩)
          · next h =>
            split
            · exact .failed _ (.inl rfl)
            · exact .failed _ (.inl rfl)
            · exact .sent _ _ (not_lt.1 h)

theorem Ready.mono {more : List Event} (h : Ready log s no conn sendId bytes) (hl : log ⊆ more)
    (hd : s'.dest conn.idx = s.dest conn.idx) : Ready more s' no conn sendId bytes where
  handed := by
    obtain ⟨t, ht⟩ := h.handed
    exact ⟨t, hl ht⟩
  tied := by
    rw [hd]
    exact h.tied

theorem request_quiet (st : Stage) : total (came st) (requestPath conn no sendId bytes s).2 = 0 ∧
    total (went st) (requestPath conn no sendId bytes s).2 = 0 := by
  cases st <;> simp [requestPath, came, went, Event.handedNo?, Event.airedNo?, Event.sentNo?, Event.ends?, Event.fails?]

theorem request_spec (h : Sound log s) (hr : Ready log s no conn sendId bytes) :
    Sound (log ++ (requestPath conn no sendId bytes s).2) (requestPath conn no sendId bytes s).1 := by
  obtain ⟨t, ht⟩ := hr.handed
  apply h.say
  · intro e he
    rcases List.mem_pair.1 he with rfl | rfl
    · trivial
    · exact ⟨⟨conn, bytes, t, List.mem_append_left _ ht, rfl⟩, trivial⟩
  · exact (request_quiet .handed).1

theorem fail_spec (h : Sound log s) (hr : Ready log s no conn sendId bytes) {status : Status}
    (hs : status = .evicted ∨ status = .tooLarge ∧ ENCRYPTED_MDU < (payload bytes).length) :
    Sound (log ++ [.told (some no) conn.handle (.result sendId status 0 0)]) s ∧
      Spent no s s [.told (some no) conn.handle (.result sendId status 0 0)] := by
  obtain ⟨t, ht⟩ := hr.handed
  refine ⟨h.tell ⟨conn, bytes, t, ht, rfl⟩ ?_, fun st => ?_⟩
  · rcases hs with rfl | ⟨rfl, hl⟩
    · trivial
    · exact ⟨conn, sendId, bytes, t, ht, hl⟩
  · rcases hs with rfl | ⟨rfl, -⟩ <;> cases st <;>
      simp [inHand, came, went, Event.handedNo?, Event.airedNo?, Event.sentNo?, Event.ends?, Event.fails?]

theorem sendOut_spec (h : Sound log s) (hr : Ready log s no conn sendId bytes) {hash : Bytes} {setting : Int}
    (hl : (payload bytes).length ≤ ENCRYPTED_MDU) :
    Sound (log ++ (sendOut conn no sendId bytes hash hops setting s).2) (sendOut conn no sendId bytes hash hops setting s).1 ∧
      Spent no s (sendOut conn no sendId bytes hash hops setting s).1 (sendOut conn no sendId bytes hash hops setting s).2 := by
  obtain ⟨t, ht⟩ := hr.handed
  let pre : List Event := [.aired no (payload bytes) hash (s.clock + proofWindow setting),
    .told (some no) conn.handle (.bare sendId .egressQueued), .told (some no) conn.handle (.result sendId .sent 0 hops)]
  have heq : sendOut conn no sendId bytes hash hops setting s =
      ((ourDestReceiptTrack no conn sendId hops s.receipts.length (proofWindow setting) (s.air hash)).1,
        pre ++ (ourDestReceiptTrack no conn sendId hops s.receipts.length (proofWindow setting) (s.air hash)).2) := rfl
  have h₁ : Sound (log ++ pre) (s.air hash) := by
    apply Sound.extend _ rfl
    apply h.say
    · intro e he
      have hhand : .handed no conn sendId bytes t ∈ log ++ pre := List.mem_append_left _ ht
      rcases List.mem_cons.1 he with rfl | he
      · exact ⟨conn, sendId, bytes, t, hhand, rfl, hl⟩
      · rcases List.mem_pair.1 he with rfl | rfl
        · exact ⟨⟨conn, bytes, t, hhand, rfl⟩, trivial⟩
        · exact ⟨⟨conn, bytes, t, hhand, rfl⟩, trivial⟩
    · simp [pre, came, Event.handedNo?]
  have hget : (s.air hash).receipts[s.receipts.length]? = some { packet := { sentAt := s.clock, timeout := 0 }, hash } := by
    simp [State.air]
  have hready : Ready (log ++ pre) (s.air hash) no conn sendId bytes := hr.mono (List.subset_append_left ..) rfl
  have haired : ∃ payload', .aired no payload' hash ((s.air hash).clock + proofWindow setting) ∈ log ++ pre :=
    ⟨payload bytes, by simp [pre, State.air]⟩
  obtain ⟨h₂, ht₂⟩ := track_spec h₁ hready hget rfl rfl rfl haired
  rw [heq]
  refine ⟨by rwa [← List.append_assoc], fun st => ?_⟩
  have hst := ht₂ st
  have hair : held st (s.air hash) = held st s := held_congr rfl rfl st
  rw [hair] at hst
  rw [total_append, total_append]
  cases st <;> simp only [pre, inHand, came, went, Event.handedNo?, Event.airedNo?, Event.sentNo?, Event.ends?, Event.fails?,
    total_cons, total_nil, tickets_none, tickets_some, add_zero, zero_add] at hst ⊢ <;> rw [hst]
  · rw [add_assoc]
  · rw [add_assoc]

/-- The send is spent, or it is as it was. -/
theorem trySend_spec (h : Sound log s) (hr : Ready log s no conn sendId bytes) (look : Look)
    {tried : Tried × Transition State Event} (ht : tried = ourDestTrySend conn no sendId bytes look) :
    Sound (log ++ (tried.2 s).2) (tried.2 s).1 ∧
      (tried.1 ≠ .pending → Spent no s (tried.2 s).1 (tried.2 s).2) ∧
      (tried.1 = .pending → tried.2 = requestPath conn no sendId bytes ∧ ¬ (look.hasPath ∧ look.recalls)) := by
  have htries : Tries conn no sendId bytes look tried := ht ▸ trySend_tries look
  cases htries with
  | pending hp => exact ⟨request_spec h hr, fun hn => absurd rfl hn, fun _ => ⟨rfl, hp⟩⟩
  | failed status hs =>
    obtain ⟨h₁, hsp⟩ := fail_spec h hr hs
    exact ⟨h₁, fun _ => hsp, fun hn => Tried.noConfusion hn⟩
  | sent hash hops hl =>
    exact ⟨(sendOut_spec h hr hl).1, fun _ => (sendOut_spec h hr hl).2, fun hn => Tried.noConfusion hn⟩

theorem Booked.of_spent {u : State} (hu : ∀ st, held st u + inHand st no = held st s) (h : Spent no u s' new) :
    Booked s s' new := by
  intro st
  rw [Balances, ← hu st]
  exact h st

theorem inPending_some (st : Stage) : inPending st (some p) = inHand st p.no := by
  cases st <;> rfl

theorem inPending_none (st : Stage) : inPending st none = 0 := by
  cases st <;> rfl

theorem held_unpark (hd : s.dest j = some c) (hi : c.pending[i]? = some (some p)) (st : Stage) :
    held st (s.unpark j i) + inHand st p.no = held st s := by
  have h := held_park hd hi st none
  rwa [inPending_some, inPending_none, add_zero] at h

theorem ready_of_parked (h : Sound log s) (hd : s.dest j = some c) (hi : c.pending[i]? = some (some p)) :
    Ready log (s.unpark j i) p.no ⟨j, c.handle⟩ p.sendId p.bytes where
  handed := ⟨p.firstSeenAt, h.kept hd hi⟩
  tied := by
    refine ⟨{ c with pending := c.pending.set i none }, ?_, rfl⟩
    rw [State.unpark, State.dest_park, if_pos rfl, hd]
    rfl

theorem Sound.unpark (h : Sound log s) (hd : s.dest j = some c) : Sound log (s.unpark j i) :=
  h.park hd fun _ hp => absurd hp (by simp)

/-- It waits in a slot, or the consumer keeps it. -/
theorem hold_spec (h : Sound log s) (hr : .handed no conn sendId bytes s.clock ∈ log)
    (hc : s.dest conn.idx = some c) (hhdl : c.handle = conn.handle) :
    Sound (log ++ (hold conn no sendId bytes s).2) (hold conn no sendId bytes s).1 ∧
      Spent no s (hold conn no sendId bytes s).1 (hold conn no sendId bytes s).2 := by
  unfold hold
  rw [hc, Option.bind_some]
  split
  · refine ⟨h.tell ⟨conn, bytes, s.clock, hr, rfl⟩ trivial, fun st => ?_⟩
    cases st <;> simp [tell, inHand, came, went, Event.handedNo?, Event.airedNo?, Event.sentNo?, Event.ends?, Event.fails?]
  · next i hf =>
    obtain ⟨o, hi, ho⟩ := Slots.free_eq_some hf
    obtain rfl := Option.isNone_iff_eq_none.1 (Option.isSome_eq_false_iff.1 ho)
    rw [skip_apply, List.append_nil]
    refine ⟨h.park hc fun p hp => ?_, fun st => ?_⟩
    · cases hp
      have hconn : (⟨conn.idx, c.handle⟩ : Conn) = conn := by rw [hhdl]
      rwa [hconn]
    · have hheld := held_park hc hi st (some ⟨no, sendId, bytes, s.clock, s.clock, 0⟩)
      rw [inPending_none, add_zero, inPending_some] at hheld
      simp [hheld]

theorem outPacket_spec {look : Look} (hc : s.dest conn.idx = some c) (hhdl : c.handle = conn.handle) :
    Under Sound Booked s (outPacket conn sendId bytes look s).1 (outPacket conn sendId bytes look s).2 := by
  intro log h
  unfold outPacket
  simp only
  generalize htried : ourDestTrySend conn s.serial sendId bytes look = tried
  let s₁ : State := { s with serial := s.serial + 1 }
  have h₁ : Sound (log ++ [.handed s.serial conn sendId bytes s.clock]) s₁ := h.hand
  have hready : Ready (log ++ [.handed s.serial conn sendId bytes s.clock]) s₁ s.serial conn sendId bytes :=
    ⟨⟨s.clock, by simp⟩, c, hc, hhdl⟩
  obtain ⟨h₂, hspent, hpending⟩ := trySend_spec h₁ hready look htried.symm
  have hbooks : ∀ {s' : State} {new : List Event}, Spent s.serial s₁ s' new →
      Booked s s' (.handed s.serial conn sendId bytes s.clock :: new) := by
    intro s' new hs st
    have hst := hs st
    have hheld : held st s₁ = held st s := held_congr rfl rfl st
    rw [Balances, total_cons, total_cons]
    cases st <;> simp only [came, went, inHand, Event.handedNo?, Event.airedNo?, Event.sentNo?, Event.ends?, Event.fails?,
      tickets_none, tickets_some, zero_add, add_zero] at hst ⊢ <;> rw [hst, hheld]
    rw [add_assoc]
  rw [act_andThen, andThen_apply]
  by_cases hp : tried.1 = .pending
  · obtain ⟨ht, -⟩ := hpending hp
    rw [if_pos hp]
    rw [ht] at h₂ ⊢
    have hhand : .handed s.serial conn sendId bytes (requestPath conn s.serial sendId bytes s₁).1.clock ∈
        log ++ [.handed s.serial conn sendId bytes s.clock] ++ (requestPath conn s.serial sendId bytes s₁).2 :=
      List.mem_append_left _ (List.mem_append_right _ (List.mem_singleton.2 rfl))
    obtain ⟨h₃, hs₃⟩ := hold_spec h₂ hhand hc hhdl
    refine ⟨by simpa using h₃, hbooks fun st => ?_⟩
    have hst := hs₃ st
    rw [total_append, total_append, (request_quiet st).1, (request_quiet st).2, zero_add, zero_add]
    exact hst
  · rw [if_neg hp]
    refine ⟨by simpa using h₂, ?_⟩
    rw [skip_apply, List.append_nil]
    exact hbooks (hspent hp)

theorem outCancel_spec (hc : s.dest conn.idx = some c) (hhdl : c.handle = conn.handle) :
    Under Sound Booked s (outCancel conn sendId s).1 (outCancel conn sendId s).2 := by
  intro log h
  unfold outCancel
  rw [hc, Option.bind_some]
  split
  · refine ⟨h.say (fun e he => ?_) (by simp [tell, came, Event.handedNo?]), fun st => ?_⟩
    · rw [List.mem_singleton.1 he]
      trivial
    · cases st <;> simp [Balances, tell, came, went, Event.handedNo?, Event.airedNo?, Event.sentNo?, Event.ends?, Event.fails?]
  · next i hf =>
    split
    · exact ⟨by simpa using h, booked_still rfl rfl⟩
    · next p hp =>
      obtain ⟨c', hc', hi⟩ := State.parked_eq_some.1 hp
      obtain rfl : c = c' := by simpa [hc] using hc'
      have hsend : p.sendId = sendId := by
        obtain ⟨o, ho, -, hk⟩ := Slots.find_eq_some hf
        rw [hi] at ho
        cases ho
        simpa using hk
      have hconn : (⟨conn.idx, c.handle⟩ : Conn) = conn := by rw [hhdl]
      have hhand := h.kept hc hi
      rw [hconn, hsend] at hhand
      refine ⟨(h.unpark hc).tell ⟨conn, p.bytes, p.firstSeenAt, hhand, rfl⟩ trivial,
        Booked.of_spent (held_unpark hc hi) fun st => ?_⟩
      cases st <;> simp [tell, inHand, came, went, Event.handedNo?, Event.airedNo?, Event.sentNo?, Event.ends?, Event.fails?]

theorem findByHandle_eq_some {hdl : Handle} (h : s.findByHandle hdl = some j) :
    ∃ c, s.dest j = some c ∧ c.handle = hdl := by
  obtain ⟨o, hj, hu, hk⟩ := Slots.find_eq_some h
  obtain ⟨c, rfl⟩ := Option.isSome_iff_exists.1 hu
  exact ⟨c, State.dest_eq_some.2 hj, by simpa using hk⟩

theorem recv_spec {hdl : Handle} {buf : Bytes} {look : Look} : Meets (Under Sound Booked) (onOurDestRecv hdl buf look) := by
  intro s log h
  have hstill : Sound (log ++ []) s ∧ Booked s s [] := ⟨by rwa [List.append_nil], booked_still rfl rfl⟩
  unfold onOurDestRecv
  split
  · exact hstill
  · next j hf =>
    obtain ⟨c, hc, hhdl⟩ := findByHandle_eq_some hf
    split
    · split
      · split
        · exact hstill
        · exact outPacket_spec hc hhdl log h
      · split
        · exact outCancel_spec hc hhdl log h
        · exact hstill
    · exact hstill

/-- A slot's turn: the send goes out, is given up, asks again, or waits on. -/
theorem pendingTurn_spec {turn : Turn} : Meets (Under Sound Booked) (pendingTurn j i turn) := by
  intro s log h
  have hstill : Sound (log ++ []) s ∧ Booked s s [] := ⟨by rwa [List.append_nil], booked_still rfl rfl⟩
  unfold pendingTurn
  split
  · next c p hc hp =>
    obtain ⟨c', hc', hi⟩ := State.parked_eq_some.1 hp
    obtain rfl : c = c' := by simpa [hc] using hc'
    have hun : Sound log (s.unpark j i) := h.unpark hc
    have hready := ready_of_parked h hc hi
    split
    · generalize htried : ourDestTrySend ⟨j, c.handle⟩ p.no p.sendId p.bytes turn.toLook = tried
      obtain ⟨h₂, hspent, hpending⟩ := trySend_spec hun hready turn.toLook htried.symm
      simp only [andThen_apply]
      by_cases hpend : tried.1 = .pending
      · obtain ⟨ht, -⟩ := hpending hpend
        rw [if_pos hpend]
        rw [ht] at h₂ ⊢
        rw [act_apply]
        refine ⟨?_, Booked.of_spent (held_unpark hc hi) fun st => ?_⟩
        · rw [← List.append_assoc]
          refine h₂.say (fun e he => ?_) rfl
          rw [List.mem_singleton.1 he]
          trivial
        · rw [total_append, total_append, (request_quiet st).1, (request_quiet st).2, zero_add, zero_add]
          cases st <;> simp [requestPath, inHand, came, went, Event.handedNo?, Event.airedNo?, Event.sentNo?, Event.ends?,
            Event.fails?]
      · rw [if_neg hpend, skip_apply, List.append_nil]
        exact ⟨h₂, Booked.of_spent (held_unpark hc hi) (hspent hpend)⟩
    · split
      · next hgive =>
        have hhand := h.kept hc hi
        refine ⟨hun.tell ⟨⟨j, c.handle⟩, p.bytes, p.firstSeenAt, hhand, rfl⟩ ?_,
          Booked.of_spent (held_unpark hc hi) fun st => ?_⟩
        · refine ⟨⟨j, c.handle⟩, p.sendId, p.bytes, p.firstSeenAt, hhand, ?_⟩
          change _ ≤ s.clock
          linarith
        · cases st <;> simp [tell, inHand, came, went, Event.handedNo?, Event.airedNo?, Event.sentNo?, Event.ends?,
            Event.fails?]
      · split
        · have hhand := h.kept hc hi
          have hpark : Sound log (s.park j i (some { p with attempts := p.attempts + 1, lastRequestPathAt := s.clock })) :=
            h.park hc fun p' hp' => by
              cases hp'
              exact hhand
          refine ⟨hpark.say (fun e he => ?_) (by simp [came, Event.handedNo?]), fun st => ?_⟩
          · rcases List.mem_pair.1 he with rfl | rfl
            · trivial
            · exact ⟨⟨⟨j, c.handle⟩, p.bytes, p.firstSeenAt, List.mem_append_left _ hhand, rfl⟩, trivial⟩
          · have hheld := held_park hc hi st (some { p with attempts := p.attempts + 1, lastRequestPathAt := s.clock })
            rw [inPending_some, inPending_some] at hheld
            rw [Balances, add_right_cancel hheld]
            cases st <;> simp [came, went, Event.handedNo?, Event.airedNo?, Event.sentNo?, Event.ends?, Event.fails?]
        · exact hstill
  · exact hstill

theorem tickPending_spec {turns : Nat → Nat → Turn} : Meets (Under Sound Booked) (ourDestTickPending turns) := by
  apply (under_composes booked_composes).all
  intro t ht
  obtain ⟨j, -, rfl⟩ := List.mem_map.1 ht
  apply (under_composes booked_composes).all
  intro t ht
  obtain ⟨i, -, rfl⟩ := List.mem_map.1 ht
  exact pendingTurn_spec

theorem connect_spec {hdl : Handle} : Meets (Under Sound Booked) (onOurDestConnect hdl) := by
  intro s log h
  unfold onOurDestConnect
  simp only [quiet_apply, List.append_nil]
  split
  · exact ⟨h, booked_still rfl rfl⟩
  · next j hf =>
    obtain ⟨o, hj, ho⟩ := Slots.free_eq_some hf
    obtain rfl := Option.isNone_iff_eq_none.1 (Option.isSome_eq_false_iff.1 ho)
    refine ⟨h.opens hj, fun st => ?_⟩
    have hempty : ∀ k, total (inPending st) (List.replicate k none) = 0 := fun k =>
      total_eq_zero fun o ho => by rw [List.eq_of_mem_replicate ho, inPending_none]
    rw [Balances, total_nil, total_nil, add_zero, add_zero]
    simp only [held]
    rw [total_set hj, total_of_getElem? hj]
    simp [inDest, hempty]

-- ---------------------------------------------------------------------------
-- The transport's half
-- ---------------------------------------------------------------------------

theorem validateProof_spec : Meets (Under Sound Booked) (validateProof i) := by
  intro s log h
  unfold validateProof
  split
  · exact ⟨by simpa using h, booked_still rfl rfl⟩
  · next r hr =>
    let s₁ : State := { s with receipts := s.receipts.set i { r with packet := r.packet.deliver s.clock } }
    have hsaid : Sound (log ++ [.proved r.hash]) s := by
      refine h.say (fun e he => ?_) rfl
      rw [List.mem_singleton.1 he]
      trivial
    have h₁ : Sound (log ++ [.proved r.hash]) s₁ := by
      apply hsaid.rereceipt
      · intro k r' hr' hh
        rcases Slots.getElem?_set_cases hr' with ⟨rfl, rfl⟩ | ⟨-, hold⟩
        · exact ⟨r, hr, hh⟩
        · exact ⟨r', hold, hh⟩
      · intro a r' hr' ho
        by_cases hi : a.receipt = i
        · subst hi
          rw [hr] at hr'
          cases hr'
          have hlt := (List.getElem?_eq_some_iff.1 hr).1
          refine ⟨{ r with packet := r.packet.deliver s.clock }, by simp [hlt], ?_⟩
          exact ⟨ho.hooked, ho.handed, ho.aired, fun _ => by simp, ho.window, fun _ hd => absurd rfl hd⟩
        · exact ⟨r', by rw [List.getElem?_set_ne (Ne.symm hi), hr'], ho⟩
    have hb : Booked s s₁ [.proved r.hash] := fun st => by
      have hheld : held st s₁ = held st s := held_congr rfl rfl st
      rw [Balances, hheld]
      cases st <;> simp [came, went, Event.handedNo?, Event.airedNo?, Event.sentNo?, Event.ends?, Event.fails?]
    rw [act_andThen]
    change Sound (log ++ ([.proved r.hash] ++ _)) _ ∧ Booked s _ ([.proved r.hash] ++ _)
    rw [← List.append_assoc]
    split
    · have hmem : .proved r.hash ∈ log ++ [.proved r.hash] := by simp
      obtain ⟨h₂, hb₂⟩ := delivery_spec h₁ hmem
      exact ⟨h₂, booked_composes.comp hb hb₂⟩
    · exact ⟨by simpa using h₁, booked_composes.comp hb (booked_still rfl rfl)⟩

theorem proof_spec {hash : Option Bytes} {signed : Nat → Bool} : Meets (Under Sound Booked) (inboundProof hash signed) := by
  intro s log h
  refine (under_composes booked_composes).andThen_at (?_ : Under Sound Booked _ _ _) ?_ log h
  · apply (under_composes booked_composes).all
    intro t ht
    obtain ⟨k, -, rfl⟩ := List.mem_map.1 ht
    exact validateProof_spec
  · intro log' h'
    rw [quiet_apply, List.append_nil]
    exact ⟨h'.rereceipt (fun k r hr hh => ⟨r, hr, hh⟩) fun a r hr ho => ⟨r, hr, ho⟩, booked_still rfl rfl⟩

/-- A look at a receipt: it stays, or its time is over. -/
theorem status_checkTimeout (p : PacketReceipt) (t : ℚ) : (p.checkTimeout t).sentAt = p.sentAt ∧
    (p.checkTimeout t).timeout = p.timeout ∧
    ((p.checkTimeout t).status = p.status ∨ p.sentAt + p.timeout < t ∧ (p.checkTimeout t).status ≠ .delivered) := by
  unfold PacketReceipt.checkTimeout
  split
  · next h =>
    refine ⟨rfl, rfl, .inr ⟨by simpa [PacketReceipt.isTimedOut] using h.2, ?_⟩⟩
    split <;> simp
  · exact ⟨rfl, rfl, .inl rfl⟩

theorem owned_mapIdx {f : Nat → Receipt → Receipt} {out : List Nat} (h : Sound log s)
    (hf : ∀ k r, (f k r).hooked = r.hooked)
    (ho : ∀ (a : Awaited) (r : Receipt), s.receipts[a.receipt]? = some r → Owned log s.clock a r →
      Owned log s.clock a (f a.receipt r)) :
    Sound log { s with receipts := s.receipts.mapIdx f, outstanding := out } := by
  apply h.rereceipt
  · intro k r' hr' hh
    rw [List.getElem?_mapIdx] at hr'
    obtain ⟨r, hr, rfl⟩ := Option.map_eq_some_iff.1 hr'
    exact ⟨r, hr, hf k r ▸ hh⟩
  · intro a r hr hown
    exact ⟨f a.receipt r, by rw [List.getElem?_mapIdx, hr]; rfl, ho a r hr hown⟩

theorem cull_spec : Meets (Under Sound Booked) cullReceipts := by
  intro s log h
  let out := s.outstanding.take (s.outstanding.length - MAX_RECEIPTS)
  let new : List Event := out.filterMap fun i => s.receipts[i]?.map fun r => .culled r.hash
  have hev : ∀ e ∈ new, ∃ hash, e = .culled hash := by
    intro e he
    obtain ⟨k, -, hk⟩ := List.mem_filterMap.1 he
    obtain ⟨r, -, rfl⟩ := Option.map_eq_some_iff.1 hk
    exact ⟨r.hash, rfl⟩
  have hzero : ∀ f : Event → Multiset Nat, (∀ hash, f (.culled hash) = 0) → total f new = 0 := by
    intro f hf
    apply total_eq_zero
    intro e he
    obtain ⟨hash, rfl⟩ := hev e he
    exact hf hash
  have hsaid : Sound (log ++ new) s := by
    refine h.say (fun e he => ?_) (hzero _ fun _ => rfl)
    obtain ⟨hash, rfl⟩ := hev e he
    trivial
  refine ⟨owned_mapIdx hsaid (fun k r => by split <;> rfl) fun a r hr ho => ?_, fun st => ?_⟩
  · split
    · next hmem =>
      have hculled : .culled r.hash ∈ log ++ new :=
        List.mem_append_right _ (List.mem_filterMap.2 ⟨a.receipt, hmem, by rw [hr]; rfl⟩)
      obtain ⟨-, -, hst⟩ := status_checkTimeout { r.packet with timeout := -1 } s.clock
      refine ⟨ho.hooked, ho.handed, ho.aired, fun hd => ?_, .inl hculled, fun _ _ => .inl hculled⟩
      rcases hst with heq | ⟨-, hne⟩
      · exact ho.proved (heq.symm.trans hd)
      · exact absurd hd hne
    · exact ho
  · have hcame : total (came st) new = 0 := hzero _ fun _ => by cases st <;> rfl
    have hwent : total (went st) new = 0 := hzero _ fun _ => by cases st <;> rfl
    change held st _ + total (went st) new = _ + total (came st) new
    rw [hcame, hwent]
    exact congrArg (· + 0) (held_congr rfl rfl st)

theorem check_spec : Meets (Under Sound Booked) (quiet checkReceipts) := by
  intro s log h
  rw [quiet_apply, List.append_nil]
  refine ⟨owned_mapIdx h (fun k r => by split <;> rfl) fun a r hr ho => ?_, booked_still rfl rfl⟩
  split
  · obtain ⟨hsent, hwindow, hst⟩ := status_checkTimeout r.packet s.clock
    refine ⟨ho.hooked, ho.handed, ho.aired, fun hd => ?_, ?_, fun hs hd => ?_⟩
    · rcases hst with heq | ⟨-, hne⟩
      · exact ho.proved (heq.symm.trans hd)
      · exact absurd hd hne
    · exact ho.window.imp id fun hw => by simp only; rw [hsent, hwindow, hw]
    · rcases hst with heq | ⟨hlt, -⟩
      · exact ho.late (fun hn => hs (heq.trans hn)) fun hn => hd (heq.trans hn)
      · exact ho.window.imp id fun hw => by
          rw [hw] at hlt
          exact hlt.le
  · exact ho

theorem step_spec (op : Op) : Meets (Under Sound Booked) (step op) := by
  cases op with
  | wait d =>
    intro s log h
    simp only [step, quiet_apply, List.append_nil]
    exact ⟨h.later (by simp), booked_still rfl rfl⟩
  | connect => exact connect_spec
  | disconnect => exact disconnect_spec
  | recv => exact recv_spec
  | tickPending => exact tickPending_spec
  | tickReceipts => exact receiptTick_spec
  | other r =>
    intro s log h
    simp only [step, quiet_apply, List.append_nil]
    exact ⟨h.extend rfl, booked_still rfl rfl⟩
  | proof => exact proof_spec
  | jobs => exact (under_composes booked_composes).andThen cull_spec check_spec

theorem sound_boot (t : ℚ) : Sound [] (boot t) where
  shaped := ⟨rfl, fun {j c} hd => by
    rw [State.dest_eq_some] at hd
    simp [boot, List.getElem?_replicate] at hd, rfl⟩
  kept hd _ := by
    rw [State.dest_eq_some] at hd
    simp [boot, List.getElem?_replicate] at hd
  tied ha := by
    rw [State.slot_eq_some] at ha
    simp [boot, List.getElem?_replicate] at ha
  owned ha := by
    rw [State.slot_eq_some] at ha
    simp [boot, List.getElem?_replicate] at ha
  apart ha := by
    rw [State.slot_eq_some] at ha
    simp [boot, List.getElem?_replicate] at ha
  hooks hr _ := by simp [boot] at hr
  said e he := absurd he List.not_mem_nil
  counted := rfl

theorem held_boot (st : Stage) (t : ℚ) : held st (boot t) = 0 := by
  have hd : total (inDest st) (boot t).ourDests = 0 :=
    total_eq_zero fun o ho => by rw [List.eq_of_mem_replicate ho]; rfl
  have ha : total inSlot (boot t).awaited = 0 :=
    total_eq_zero fun o ho => by rw [List.eq_of_mem_replicate ho]; rfl
  rw [held, hd, ha, add_zero]

-- ---------------------------------------------------------------------------
-- Whole runs
-- ---------------------------------------------------------------------------

/-- The sends that wait for a path, and those that wait for a proof. -/
def waiting (s : State) : Multiset Nat := total (inDest .handed) s.ourDests

def awaiting (s : State) : Multiset Nat := total inSlot s.awaited

structure Delivering (s : State) (log : List Event) : Prop where
  numbered : ↑(log.filterMap Event.handedNo?) = Multiset.range s.serial
  /-- Each is in one slot, or has come to one end. -/
  placed : waiting s + awaiting s + (↑(log.filterMap Event.ends?) + ↑(log.filterMap Event.fails?)) =
    Multiset.range s.serial
  /-- What has gone out waits for its proof or has come to its end, and was called `SENT` once. -/
  out : awaiting s + ↑(log.filterMap Event.ends?) = ↑(log.filterMap Event.airedNo?)
  sent : (↑(log.filterMap Event.sentNo?) : Multiset Nat) = ↑(log.filterMap Event.airedNo?)
  said : ∀ e ∈ log, Justified log s.clock e
  hooked : ∀ (i : Nat) (r : Receipt), s.receipts[i]? = some r →
    (r.hooked ↔ ∃ j a, s.slot j = some a ∧ a.receipt = i)

theorem total_tickets (f : Event → Option Nat) : total (fun e => tickets (f e)) log = ↑(log.filterMap f) := by
  induction log with
  | nil => rfl
  | cons e log ih =>
    rw [total_cons, ih, List.filterMap_cons]
    cases f e with
    | none => simp
    | some no => simp [← Multiset.singleton_add, ← Multiset.cons_coe]

theorem total_add (f g : Event → Multiset Nat) : total (fun e => f e + g e) log = total f log + total g log := by
  induction log with
  | nil => rfl
  | cons e log ih =>
    rw [total_cons, total_cons, total_cons, ih]
    abel

theorem Sound.books (h : Sound log s) {t : ℚ} (hb : Booked (boot t) s log) : Delivering s log := by
  have hcame : ∀ st, held st s + total (went st) log = total (came st) log := by
    intro st
    have hst := hb st
    rwa [Balances, held_boot, zero_add] at hst
  have hdests : ∀ st, st ≠ .handed → total (inDest st) s.ourDests = 0 := by
    intro st hst
    apply total_eq_zero
    rintro (_ | c) -
    · rfl
    · apply total_eq_zero
      intro o _
      cases st with
      | handed => exact absurd rfl hst
      | aired | told => rfl
  have hended : total (went .aired) log = ↑(log.filterMap Event.ends?) := total_tickets _
  have haired : awaiting s + ↑(log.filterMap Event.ends?) = ↑(log.filterMap Event.airedNo?) := by
    have h := hcame .aired
    rw [held, hdests .aired (by decide), zero_add, hended] at h
    exact h.trans (total_tickets _)
  have htold : awaiting s + ↑(log.filterMap Event.ends?) = ↑(log.filterMap Event.sentNo?) := by
    have h := hcame .told
    rw [held, hdests .told (by decide), zero_add] at h
    exact (congrArg _ (total_tickets _).symm).trans (h.trans (total_tickets _))
  have hnumbered : ↑(log.filterMap Event.handedNo?) = Multiset.range s.serial := by
    rw [← h.counted]
    exact (total_tickets _).symm
  refine ⟨hnumbered, ?_, haired, htold.symm.trans haired, h.said, fun i r hr => ⟨h.hooks hr, ?_⟩⟩
  · rw [← h.counted, ← hcame .handed, ← total_tickets, ← total_tickets, ← total_add]
    rfl
  · rintro ⟨j, a, ha, rfl⟩
    obtain ⟨r', hr', ho⟩ := h.owned ha
    rw [hr] at hr'
    cases hr'
    exact ho.hooked

theorem delivering (t : ℚ) (ops : List Op) :
    Delivering (Runs.run (logged step) (boot t, []) ops).1 (Runs.run (logged step) (boot t, []) ops).2 := by
  have hrun := run_under booked_composes (fun op (_ : op ∈ ops) => step_spec op) (sound_boot t)
  exact hrun.1.books hrun.2

end MicroReticulum.Rnsd.Opportunistic
