import MicroReticulum.Lib.Circle
import MicroReticulum.Transport.Holding

/-!
# The emission walk

Which slots a pass over the announce table sends, and in which order. The
cursor is moved behind every announce sent while the walk counts its steps from
it, so slots are left out. A walk is a scan round the circle of slots; the
records it retires on its way make no difference to what it sends.
-/

namespace MicroReticulum.AnnounceTable

open Lib Lib.Runs Lib.Circle

variable {ring ring' : Ring} {r : AnnounceRec} {w : Walk} {scan : Scan Ring} {now cursor i k n x y : Nat} {d : Hash}
  {t : Table} {op : Op} {ops : List Op}

-- ---------------------------------------------------------------------------
-- What is sent
-- ---------------------------------------------------------------------------

/-- In use, not held, not retired, and its time has come. -/
def AnnounceRec.due (now : Nat) (r : AnnounceRec) : Bool :=
  r.used && !r.held && !r.retired && decide (r.retransmitAt < now)

def dueAt (now : Nat) (ring : Ring) (i : Nat) : Bool := (ring[i]?).any (AnnounceRec.due now)

/-- The slot a step of the walk comes to. -/
def Walk.slot (w : Walk) (k : Nat) : Nat := (w.cursor + k) % w.ring.length

/-- The slot a step of the walk sends, and its record. -/
def sends (now : Nat) (w : Walk) (k : Nat) : Option (Nat × AnnounceRec) :=
  if w.budget = 0 then none else ((w.ring[w.slot k]?).filter (AnnounceRec.due now)).map (w.slot k, ·)

def emissions (now : Nat) : List Nat → Walk → List (Nat × AnnounceRec)
  | [], _ => []
  | k :: ks, w => (sends now w k).toList ++ emissions now ks (walkSlot now w k)

def walkStart (cursor : Nat) (ring : Ring) : Walk :=
  { ring, outgoing := [], cursor, budget := ANNOUNCE_EMITS_PER_PASS }

/-- The slots a walk sends, in their order. -/
def emitted (now cursor : Nat) (ring : Ring) : List Nat :=
  (emissions now (List.range ring.length) (walkStart cursor ring)).map Prod.fst

theorem walkSlot_some (h : sends now w k = some (x, r)) :
    x = w.slot k ∧ w.budget ≠ 0 ∧ w.ring[x]? = some r ∧ r.due now = true ∧
      walkSlot now w k = { ring := announceRecEmit now x w.ring, outgoing := w.outgoing ++ [r],
                           cursor := (x + 1) % w.ring.length, budget := w.budget - 1 } := by
  unfold sends at h
  split at h
  · cases h
  · next hb =>
    obtain ⟨r', hr', heq⟩ := Option.map_eq_some_iff.1 h
    obtain ⟨rfl, rfl⟩ := Prod.mk.inj heq
    obtain ⟨hr, hd⟩ := Option.filter_eq_some_iff.1 hr'
    refine ⟨rfl, hb, hr, hd, ?_⟩
    simp only [AnnounceRec.due, Bool.and_eq_true, Bool.not_eq_true', decide_eq_true_eq] at hd
    obtain ⟨⟨⟨hu, hh⟩, hret⟩, ht⟩ := hd
    have hslot : w.ring[(w.cursor + k) % w.ring.length]? = some r' := hr
    simp [walkSlot, hb, hslot, hu, hh, hret, ht, Walk.slot]

-- ---------------------------------------------------------------------------
-- What the walk retires on its way
-- ---------------------------------------------------------------------------

/-- Retired records, where they are not held, out of the way. -/
def AnnounceRec.tidy (r : AnnounceRec) : AnnounceRec := if r.used && !r.held && r.retired then .zero else r

def tidied (ring : Ring) : Ring := ring.map AnnounceRec.tidy

theorem tidy_zero : AnnounceRec.zero.tidy = .zero := rfl

theorem AnnounceRec.tidy_of_held (hh : r.held = true) : r.tidy = r := by simp [AnnounceRec.tidy, hh]

theorem AnnounceRec.tidy_of_due (hd : r.due now = true) : r.tidy = r := by
  simp only [AnnounceRec.due, Bool.and_eq_true, Bool.not_eq_true'] at hd
  simp [AnnounceRec.tidy, hd.1.2]

theorem AnnounceRec.due_tidy : r.tidy.due now = r.due now := by
  unfold AnnounceRec.tidy
  split
  · next h =>
    simp only [Bool.and_eq_true, Bool.not_eq_true'] at h
    simp [AnnounceRec.due, zero_used, h.2]
  · rfl

theorem AnnounceRec.key_tidy : (r.tidy.used && decide (r.tidy.key = (d, true))) = (r.used && decide (r.key = (d, true))) := by
  unfold AnnounceRec.tidy
  split
  · next h =>
    simp only [Bool.and_eq_true, Bool.not_eq_true'] at h
    simp [zero_used, AnnounceRec.key, h.1.2]
  · rfl

theorem dueAt_tidied : dueAt now (tidied ring) i = dueAt now ring i := by
  simp only [dueAt, tidied, List.getElem?_map]
  cases ring[i]? with
  | none => rfl
  | some r => exact AnnounceRec.due_tidy

theorem announceFind_tidied : announceFind d true (tidied ring) = announceFind d true ring := by
  simp only [announceFind, Slots.find, tidied, List.findIdx?_map, Function.comp_def, AnnounceRec.key_tidy]

theorem tidy_tidy : r.tidy.tidy = r.tidy := by
  unfold AnnounceRec.tidy
  split <;> simp_all [zero_used]

theorem tidied_set (i : Nat) (b : AnnounceRec) (ring : Ring) : tidied (ring.set i b) = (tidied ring).set i b.tidy :=
  List.map_set

theorem tidied_tidied : tidied (tidied ring) = tidied ring := by
  simp only [tidied, List.map_map, Function.comp_def, tidy_tidy]

theorem tidied_set_tidied (b : AnnounceRec) : tidied ((tidied ring).set i b) = tidied (ring.set i b) := by
  rw [tidied_set, tidied_set, tidied_tidied]

theorem tidied_wipe : tidied (wipe i ring) = wipe i (tidied ring) := tidied_set i .zero ring

theorem tidied_unhold : tidied (unhold d (tidied ring)) = tidied (unhold d ring) := by
  unfold unhold
  rw [announceFind_tidied]
  cases hf : announceFind d true ring with
  | none => exact tidied_tidied
  | some j =>
    obtain ⟨r, hr, -, -, -, hh⟩ := announceFind_eq_some hf
    have hr' : (tidied ring)[j]? = some r := by
      rw [tidied, List.getElem?_map, hr, Option.map_some, AnnounceRec.tidy_of_held hh]
    simp only
    rw [modify_eq_set _ hr, modify_eq_set _ hr', tidied_set_tidied]

theorem dueAt_eq_true : dueAt now ring x = true ↔ ∃ r, ring[x]? = some r ∧ r.due now = true := by
  rw [dueAt, Option.any_eq_true]

theorem tidied_emit (hd : dueAt now ring x = true) :
    tidied (announceRecEmit now x (tidied ring)) = tidied (announceRecEmit now x ring) := by
  obtain ⟨r, hr, hdue⟩ := dueAt_eq_true.1 hd
  have hr' : (tidied ring)[x]? = some r := by
    rw [tidied, List.getElem?_map, hr, Option.map_some, AnnounceRec.tidy_of_due hdue]
  simp only [announceRecEmit, hr, hr', announceFind_tidied]
  split
  · rw [← tidied_wipe, tidied_unhold]
  · exact tidied_set_tidied _

theorem tidied_emit_congr (h : tidied ring = tidied ring') (hd : dueAt now ring x = true) :
    tidied (announceRecEmit now x ring) = tidied (announceRecEmit now x ring') := by
  have hd' : dueAt now ring' x = true := by rw [← dueAt_tidied, ← h, dueAt_tidied, hd]
  rw [← tidied_emit hd, h, tidied_emit hd']

theorem tidied_wipe_retired (hr : ring[i]? = some r) (hu : r.used = true) (hh : r.held = false)
    (hret : r.retired = true) : tidied (wipe i ring) = tidied ring := by
  obtain ⟨hi, rfl⟩ := List.getElem?_eq_some_iff.1 hr
  have htidy : (ring[i]).tidy = .zero := by simp [AnnounceRec.tidy, hu, hh, hret]
  rw [tidied_wipe, wipe, ← htidy, tidied]
  refine List.ext_getElem? fun j => ?_
  by_cases hj : i = j
  · subst hj
    simp [hi]
  · simp [hj]

@[simp] theorem length_wipe : (wipe i ring).length = ring.length := List.length_set

@[simp] theorem length_unhold : (unhold d ring).length = ring.length := by
  unfold unhold
  split <;> simp

@[simp] theorem length_emit : (announceRecEmit now i ring).length = ring.length := by
  unfold announceRecEmit
  split
  · rfl
  · split <;> simp

theorem length_walkSlot : (walkSlot now w k).ring.length = w.ring.length := by
  unfold walkSlot
  split
  · rfl
  · simp only
    split
    · rfl
    · split
      · rfl
      · split
        · exact length_wipe
        · split
          · rfl
          · exact length_emit

/-- At most a retired record has been wiped. -/
inductive Swept (ring : Ring) : Ring → Prop
  | kept : Swept ring ring
  | wiped {i : Nat} {r : AnnounceRec} : ring[i]? = some r → r.used = true → r.held = false → r.retired = true → Swept ring (wipe i ring)

theorem Swept.tidied_eq (h : Swept ring ring') : tidied ring' = tidied ring := by
  cases h with
  | kept => rfl
  | wiped hr hu hh hret => exact tidied_wipe_retired hr hu hh hret

theorem walkSlot_none (h : sends now w k = none) :
    (walkSlot now w k).cursor = w.cursor ∧ (walkSlot now w k).budget = w.budget ∧
      (walkSlot now w k).outgoing = w.outgoing ∧ Swept w.ring (walkSlot now w k).ring := by
  unfold walkSlot
  split
  · exact ⟨rfl, rfl, rfl, .kept⟩
  · next hb =>
    simp only
    split
    · exact ⟨rfl, rfl, rfl, .kept⟩
    · next r hr =>
      have hslot : w.ring[w.slot k]? = some r := hr
      have hd : r.due now = false := by simpa [sends, hb, hslot, Option.filter_some] using h
      split
      · exact ⟨rfl, rfl, rfl, .kept⟩
      · next hlive =>
        simp only [Bool.or_eq_true, Bool.not_eq_true', not_or, Bool.not_eq_false, Bool.not_eq_true] at hlive
        obtain ⟨hu, hh⟩ := hlive
        split
        · next hret => exact ⟨rfl, rfl, rfl, .wiped hr hu hh hret⟩
        · next hret =>
          split
          · exact ⟨rfl, rfl, rfl, .kept⟩
          · next ht => simp [AnnounceRec.due, hu, hh, hret, Nat.lt_of_not_le ht] at hd

/-- The records sent are those of the emissions. -/
theorem foldl_outgoing {ks : List Nat} :
    (ks.foldl (walkSlot now) w).outgoing = w.outgoing ++ (emissions now ks w).map Prod.snd := by
  induction ks generalizing w with
  | nil => simp [emissions]
  | cons k ks ih =>
    rw [List.foldl_cons, ih, emissions]
    cases hs : sends now w k with
    | none => simp [walkSlot_none hs]
    | some p =>
      obtain ⟨-, -, -, -, hw⟩ := walkSlot_some hs
      simp [hw]

theorem walk_outgoing : (walk now cursor ring).outgoing =
    (emissions now (List.range ring.length) (walkStart cursor ring)).map Prod.snd :=
  foldl_outgoing

-- ---------------------------------------------------------------------------
-- The walk is a scan
-- ---------------------------------------------------------------------------

/-- The walk and a scan of the same slots are at the same point. -/
structure Like (n : Nat) (w : Walk) (scan : Scan Ring) : Prop where
  ring : tidied w.ring = tidied scan.state
  length : w.ring.length = n
  cursor : w.cursor % n = scan.cursor % n
  budget : w.budget = scan.budget

theorem Like.dueAt (h : Like n w scan) (i : Nat) : dueAt now w.ring i = dueAt now scan.state i := by
  rw [← dueAt_tidied, h.ring, dueAt_tidied]

theorem Like.look (h : Like n w scan) (k : Nat) :
    look n scan k = if w.budget = 0 then none else some (w.slot k) := by
  rw [Circle.look, ← h.budget, Walk.slot, h.length, Nat.add_mod, ← h.cursor, ← Nat.add_mod]

theorem Like.sends (h : Like n w scan) (now k : Nat) :
    Circle.served n (AnnounceTable.dueAt now) scan k = (sends now w k).map Prod.fst := by
  rw [Circle.served, h.look]
  unfold AnnounceTable.sends
  split
  · rfl
  · rw [Option.filter_some, ← h.dueAt, AnnounceTable.dueAt]
    cases hr : w.ring[w.slot k]? with
    | none => rfl
    | some r => cases hd : r.due now <;> simp [Option.filter_some, hd]

theorem Like.step (h : Like n w scan) (k : Nat) :
    Like n (walkSlot now w k) (visit n (AnnounceTable.dueAt now) (announceRecEmit now) scan k) := by
  have hserved := h.sends now k
  unfold visit
  rw [hserved]
  cases hs : AnnounceTable.sends now w k with
  | none =>
    obtain ⟨hcursor, hbudget, -, hring⟩ := walkSlot_none hs
    exact ⟨hring.tidied_eq.trans h.ring, length_walkSlot.trans h.length, by rw [hcursor]; exact h.cursor,
      hbudget.trans h.budget⟩
  | some p =>
    obtain ⟨-, -, hr, hd, hw⟩ := walkSlot_some hs
    rw [hw]
    have hdue : AnnounceTable.dueAt now w.ring p.1 = true := dueAt_eq_true.2 ⟨_, hr, hd⟩
    refine ⟨tidied_emit_congr h.ring hdue, length_emit.trans h.length, ?_, by simp [h.budget]⟩
    simp only [Option.map_some]
    rw [h.length, Nat.mod_mod]

theorem Like.emissions (h : Like n w scan) {ks : List Nat} :
    serves n (AnnounceTable.dueAt now) (announceRecEmit now) ks scan = (emissions now ks w).map Prod.fst := by
  induction ks generalizing w scan with
  | nil => rfl
  | cons k ks ih =>
    rw [serves, AnnounceTable.emissions, List.map_append, h.sends now, ih (h.step k)]
    congr 1
    cases AnnounceTable.sends now w k <;> rfl

theorem Like.run (h : Like n w scan) (now : Nat) (ks : List Nat) :
    Like n (ks.foldl (walkSlot now) w) (ks.foldl (visit n (AnnounceTable.dueAt now) (announceRecEmit now)) scan) := by
  induction ks generalizing w scan with
  | nil => exact h
  | cons k ks ih => exact ih (h.step k)

theorem like_start (cursor : Nat) (ring : Ring) :
    Like ring.length (walkStart cursor ring) ⟨ring, cursor, ANNOUNCE_EMITS_PER_PASS⟩ :=
  ⟨rfl, rfl, rfl, rfl⟩

theorem emitted_eq (now cursor : Nat) (ring : Ring) :
    emitted now cursor ring = serves ring.length (dueAt now) (announceRecEmit now) (List.range ring.length)
      ⟨ring, cursor, ANNOUNCE_EMITS_PER_PASS⟩ :=
  (like_start cursor ring).emissions.symm

theorem lt_of_dueAt (h : dueAt now ring x = true) : x < ring.length := by
  obtain ⟨r, hr, -⟩ := dueAt_eq_true.1 h
  exact (List.getElem?_eq_some_iff.1 hr).1

-- ---------------------------------------------------------------------------
-- Each slot once
-- ---------------------------------------------------------------------------

/-- Neither held nor due. -/
def Spent (now : Nat) (ring : Ring) (x : Nat) : Prop :=
  ∀ r, ring[x]? = some r → r.used = true → r.held = false ∧ now ≤ r.retransmitAt

theorem Spent.not_due (h : Spent now ring x) : dueAt now ring x = false := by
  rw [Bool.eq_false_iff]
  intro hd
  obtain ⟨r, hr, hdue⟩ := dueAt_eq_true.1 hd
  simp only [AnnounceRec.due, Bool.and_eq_true, decide_eq_true_eq] at hdue
  exact absurd hdue.2 (h r hr hdue.1.1.1).2.not_gt

theorem Spent.set {b : AnnounceRec} (h : x ≠ y → Spent now ring x)
    (hb : x = y → b.used = true → b.held = false ∧ now ≤ b.retransmitAt) : Spent now (ring.set y b) x := by
  intro r hr hu
  obtain ⟨hxy, rfl⟩ | ⟨hxy, hr⟩ := Slots.getElem?_set_cases hr
  · exact hb hxy hu
  · exact h hxy r hr hu

theorem Spent.unhold (h : Spent now ring x) : Spent now (unhold d ring) x := by
  unfold AnnounceTable.unhold
  split
  · exact h
  · next j hf =>
    obtain ⟨r, hr, -, hu, -, hh⟩ := announceFind_eq_some hf
    rw [modify_eq_set _ hr]
    refine Spent.set (fun _ => h) ?_
    rintro rfl -
    simp [(h r hr hu).1] at hh

/-- What is sent is spent, and stays so. -/
theorem Spent.emit (h : x ≠ y → Spent now ring x) (hr : ∀ r, ring[x]? = some r → r.used = true → r.held = false) :
    Spent now (announceRecEmit now y ring) x := by
  unfold announceRecEmit
  split
  · next hnone =>
    intro r hx hu
    refine h ?_ r hx hu
    rintro rfl
    cases hnone.symm.trans hx
  · next r hy =>
    split
    · exact Spent.unhold (Spent.set h fun _ hu => absurd hu (by simp [zero_used]))
    · refine Spent.set h ?_
      rintro rfl hu
      exact ⟨hr r hy hu, by simp only; omega⟩

theorem nodup_emitted : (emitted now cursor ring).Nodup := by
  rw [emitted_eq, List.range_eq_range']
  obtain ⟨hroute, -⟩ := serves_route (dueAt now) (announceRecEmit now)
    ⟨ring, cursor, ANNOUNCE_EMITS_PER_PASS⟩ (Nat.zero_add ring.length)
  refine hroute.nodup (fun s x (h : Spent now s x) => h.not_due) (fun s x hd => ?_) fun s x y h => ?_
  · obtain ⟨r, hr, hdue⟩ := dueAt_eq_true.1 hd
    refine Spent.emit (fun hne => absurd rfl hne) fun r' hr' _ => ?_
    cases hr.symm.trans hr'
    simp only [AnnounceRec.due, Bool.and_eq_true, Bool.not_eq_true'] at hdue
    exact hdue.1.1.2
  · exact Spent.emit (fun _ => h) fun r hr hu => (h r hr hu).1

-- ---------------------------------------------------------------------------
-- Rotation
-- ---------------------------------------------------------------------------

theorem dueAt_emit (hx : dueAt now ring x = true) (hne : y ≠ x) : dueAt now (announceRecEmit now y ring) x = true := by
  obtain ⟨r, hr, hdue⟩ := dueAt_eq_true.1 hx
  refine dueAt_eq_true.2 ⟨r, emit_getElem? hne.symm hr ?_, hdue⟩
  simp only [AnnounceRec.due, Bool.and_eq_true, Bool.not_eq_true'] at hdue
  exact hdue.1.1.2

/-- A route from the cursor, within the budget, comes by every slot due. -/
def OnRoute (now cursor : Nat) (ring : Ring) : Prop :=
  ∃ xs, xs.length ≤ ANNOUNCE_EMITS_PER_PASS ∧
    Route ring.length (dueAt now) (announceRecEmit now) ring cursor 0 xs ∧ ∀ x, dueAt now ring x = true → x ∈ xs

/-- No slot that is due is left out. -/
def InStep (now cursor : Nat) (ring : Ring) : Prop :=
  InStride ring.length (dueAt now) (announceRecEmit now) (dueAt now) ANNOUNCE_EMITS_PER_PASS ring cursor 0

theorem emitted_all : (∀ x, dueAt now ring x = true → x ∈ emitted now cursor ring) ↔ OnRoute now cursor ring := by
  have hall := serves_all ring.length (dueAt now) (announceRecEmit now) ⟨ring, cursor, ANNOUNCE_EMITS_PER_PASS⟩
  rw [← emitted_eq] at hall
  constructor
  · intro h
    obtain ⟨xs, hlen, hroute, hxs⟩ := hall.1 fun x _ => h x
    exact ⟨xs, hlen, hroute, fun x hx => hxs x (lt_of_dueAt hx) hx⟩
  · rintro ⟨xs, hlen, hroute, hxs⟩ x hx
    exact hall.2 ⟨xs, hlen, hroute, fun x _ => hxs x⟩ x (lt_of_dueAt hx) hx

/-- A walk in step that does not come to a slot that is due is on its way there. -/
theorem InStep.approaches (h : InStep now cursor ring) (hx : dueAt now ring x = true)
    (hout : x ∉ emitted now cursor ring) : Approaches ring.length x cursor (emitted now cursor ring) := by
  rw [emitted_eq] at hout ⊢
  refine (approaches_of_stride ⟨ring, cursor, ANNOUNCE_EMITS_PER_PASS⟩ (fun s y hx _ hne => dueAt_emit hx hne)
    (lt_of_dueAt hx) h hx fun hseen => hout ?_).1
  exact serves_of_looks (fun s y hx _ hne => dueAt_emit hx hne) hx hseen

theorem cursor_walk : (walk now cursor ring).cursor % ring.length =
    behind cursor (emitted now cursor ring) % ring.length := by
  have hlike := (like_start cursor ring).run now (List.range ring.length)
  rw [emitted_eq]
  exact hlike.cursor.trans (by rw [cursor_eq])

-- ---------------------------------------------------------------------------
-- Runs
-- ---------------------------------------------------------------------------

@[simp] theorem length_dropOldest (m : Nat) : (dropOldest m ring).length = ring.length := by
  induction m generalizing ring with
  | zero => rfl
  | succ m ih =>
    rw [dropOldest]
    split
    · rfl
    · rw [ih, length_wipe]

@[simp] theorem length_announceAlloc : (announceAlloc ring).1.length = ring.length := by
  unfold announceAlloc
  split
  · rfl
  · split
    · rfl
    · exact length_wipe

@[simp] theorem length_announceStore (slot : Option Nat) : (announceStore slot r ring).length = ring.length := by
  cases slot <;> simp [announceStore]

@[simp] theorem length_slotFor : (slotFor d ring).1.length = ring.length := by
  unfold slotFor
  split
  · rfl
  · exact length_announceAlloc

@[simp] theorem length_hold : (hold d ring).length = ring.length := by
  unfold hold dropStale
  split
  · rfl
  · split <;> simp

theorem length_step (t : Table) (op : Op) : (step t op).ring.length = t.ring.length := by
  cases op with
  | answerHeard h =>
    simp only [step, dropAnswered]
    split
    · rfl
    · split <;> simp
  | repeatHeard h =>
    simp only [step, dropRepeated]
    split
    · split
      · rfl
      · split <;> simp
    · rfl
  | accept e => simp [step, accept, acceptStored, cullAnnounceTable]
  | answer e => simp [step, answer, answerStored, cullAnnounceTable]
  | jobs transportEnabled now =>
    cases transportEnabled with
    | false => simp [step, jobs]
    | true => exact ((like_start t.cursor t.ring).run now (List.range t.ring.length)).length
  | timers now =>
    have hslot : ∀ (s : Pass) k, s.ring.length = t.ring.length → (timerSlot now s k).ring.length = t.ring.length := by
      intro s k hs
      unfold timerSlot
      split
      · exact hs
      · split
        · exact length_emit.trans hs
        · exact hs
    exact invariant (fun s k => hslot s k) rfl
  | resize maxsize => rfl

/-- What the walk of a step sends. -/
def Op.emitted (t : Table) : Op → List Nat
  | .jobs true now => AnnounceTable.emitted now t.cursor t.ring
  | _ => []

/-- What the walks of a run send, one after the other. -/
def walked : Table → List Op → List Nat
  | _, [] => []
  | t, op :: ops => op.emitted t ++ walked (step t op) ops

/-- Every walk is in step, and leaves a slot unsent that is due. -/
def Passes (x : Nat) (t : Table) : Op → Prop
  | .jobs true now => InStep now t.cursor t.ring ∧ dueAt now t.ring x = true ∧ x ∉ emitted now t.cursor t.ring
  | _ => True

theorem cursor_step (t : Table) (op : Op) :
    (step t op).cursor % t.ring.length = behind t.cursor (op.emitted t) % t.ring.length := by
  cases op with
  | jobs transportEnabled now =>
    cases transportEnabled with
    | false => rfl
    | true => exact cursor_walk
  | _ => rfl

theorem Passes.approaches (h : Passes x t op) : Approaches t.ring.length x t.cursor (op.emitted t) := by
  have hnil : Approaches t.ring.length x t.cursor [] := ⟨List.Pairwise.nil, by simp, le_rfl⟩
  cases op with
  | jobs transportEnabled now =>
    cases transportEnabled with
    | false => exact hnil
    | true =>
      obtain ⟨hstep, hdue, hout⟩ := h
      exact hstep.approaches hdue hout
  | _ => exact hnil

/-- While a slot waits its turn, walks in step come nearer to it. -/
theorem walked_approaches (h : Guarded step (Passes x) t ops) :
    Approaches t.ring.length x t.cursor (walked t ops) := by
  induction ops generalizing t with
  | nil => exact ⟨List.Pairwise.nil, by simp [walked], le_rfl⟩
  | cons op ops ih =>
    have hnext := ih h.2
    rw [length_step] at hnext
    exact h.1.approaches.append (hnext.of_mod_eq (cursor_step t op))

/-- A walk sends what is due, each once, exactly where all of it lies on its
route; and while walks in step leave something due unsent, they send nothing
else twice. -/
theorem walk_complete (now cursor : Nat) (ring : Ring) :
    ((ring.countP (AnnounceRec.due now) ≤ ANNOUNCE_EMITS_PER_PASS →
        ∀ x, dueAt now ring x = true → (emitted now cursor ring).count x = 1) ↔
      (ring.countP (AnnounceRec.due now) ≤ ANNOUNCE_EMITS_PER_PASS → OnRoute now cursor ring)) ∧
    ∀ (t : Table) (ops : List Op) (x : Nat), Guarded step (Passes x) t ops → (walked t ops).Nodup := by
  refine ⟨imp_congr_right fun _ => ?_, fun t ops x h => (walked_approaches h).nodup⟩
  rw [← emitted_all]
  refine forall_congr' fun x => imp_congr_right fun _ => ⟨fun h => ?_, fun h => ?_⟩
  · exact List.count_pos_iff.1 (h ▸ Nat.one_pos)
  · exact List.count_eq_one_of_mem nodup_emitted h

theorem walk_complete_one : (emitted 600 0 (run step (started 4 4) [.accept (entry 10)]).ring).count 0 = 1 := by
  have hone : ∀ x < 4, dueAt 600 (run step (started 4 4) [.accept (entry 10)]).ring x = true → x = 0 := by
    decide +kernel
  have hzero : dueAt 600 (run step (started 4 4) [.accept (entry 10)]).ring 0 = true := by decide +kernel
  refine (walk_complete 600 0 _).1.2 (fun _ => ⟨[0], by decide, ?_, fun x hx => ?_⟩) (by decide +kernel) 0 hzero
  · refine ⟨⟨lt_of_dueAt hzero, hzero, Nat.zero_le _, fun y hy hd _ => ?_⟩, trivial⟩
    rw [hone y hy hd]
  · rw [hone x (lt_of_dueAt hx) hx]
    exact List.mem_singleton_self 0

def elsewhere : Hash := .replicate 16 2

/-- Announces of two places, each half a second after it is stored. -/
def twoDue : List Op := [.accept (entry 10), .accept { entry 20 with dest := elsewhere }]

/-- Two slots are due and one walk has room for both: the one behind the first is left out. -/
theorem walk_leaves_out :
    (run step (started 4 4) twoDue).ring.countP (AnnounceRec.due 600) = 2 ∧
      dueAt 600 (run step (started 4 4) twoDue).ring 1 = true ∧
      emitted 600 0 (run step (started 4 4) twoDue).ring = [0] ∧
      ¬ ∀ (now cursor : Nat) (ring : Ring), ring.countP (AnnounceRec.due now) ≤ ANNOUNCE_EMITS_PER_PASS →
        ∀ x, dueAt now ring x = true → (emitted now cursor ring).count x = 1 := by
  have htwo : (run step (started 4 4) twoDue).ring.countP (AnnounceRec.due 600) = 2 := by decide +kernel
  have hdue : dueAt 600 (run step (started 4 4) twoDue).ring 1 = true := by decide +kernel
  have hsent : emitted 600 0 (run step (started 4 4) twoDue).ring = [0] := by decide +kernel
  refine ⟨htwo, hdue, hsent, fun h => ?_⟩
  have hcount := h 600 0 _ (by rw [htwo, ANNOUNCE_EMITS_PER_PASS]; norm_num) 1 hdue
  rw [hsent] at hcount
  simp at hcount

end MicroReticulum.AnnounceTable
