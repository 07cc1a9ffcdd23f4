import MicroReticulum.Interface.AnnounceQueue
import MicroReticulum.Lib.Runs

/-!
# What leaves under the announce cap

Whatever comes in and whenever the queue is served: one entry for a destination,
the nearest and oldest goes first, none goes twice, and the airtime stays within
the cap. A newer emission takes the place of the one that waits, as long as the
queue is not full.
-/

namespace MicroReticulum.Interfaces

open Lib Lib.Pacing Lib.Runs

/-- The ways a step can go. -/
inductive Moves (i : Interface) (s : State) : State → Prop
  | thinned {q : List AnnounceEntry} {t : ℚ} (hq : q.Sublist s.announceQueue)
      (ht : s.announceAllowedAt ≤ t) : Moves i s { s with announceQueue := q, announceAllowedAt := t }
  | released {q : List AnnounceEntry} {t : ℚ} {raw : Bytes} {node : Option Nat}
      (hq : q.Sublist s.announceQueue) (ht : s.announceAllowedAt ≤ t)
      (hn : ∀ n ∈ node, n ∈ s.announceQueue.map (·.node) ∧ n ∉ q.map (·.node)) :
      Moves i s { s with
        announceQueue := q
        announceAllowedAt := t + i.waitTime raw.length
        released := { time := t, raw, node } :: s.released }
  | folded {e : AnnounceEntry} {p : Announce} {now : ℚ} {pre post : List AnnounceEntry}
      (hq : s.announceQueue = pre ++ e :: post) (hd : e.destination = p.destinationHash) (hnew : e.emitted < p.emitted) :
      Moves i s { s with announceQueue := pre ++ e.refresh now p :: post }
  | queued {p : Announce} {now : ℚ} (hd : ∀ e ∈ s.announceQueue, e.destination ≠ p.destinationHash) :
      Moves i s { s with announceQueue := s.announceQueue ++ [p.entry now s.nodes], nodes := s.nodes + 1 }

variable {i : Interface} {s s' : State} {ev : Event} {events : List Event} {e e' : AnnounceEntry}
  {p : Announce} {q q' : List AnnounceEntry} {now t : ℚ} {later : ℚ≥0} {n : Nat} {raw : Bytes}

def Release.wait (i : Interface) (r : Release) : ℚ := i.waitTime r.raw.length

def Release.airtime (i : Interface) (r : Release) : ℚ := i.txTime r.raw.length

-- ---------------------------------------------------------------------------
-- The pieces
-- ---------------------------------------------------------------------------

theorem waitTime_nonneg {size : Nat} : 0 ≤ i.waitTime size := by
  unfold Interface.waitTime Interface.txTime
  split
  · next h =>
    have hcap := h.2.le
    positivity
  · exact le_rfl

@[simp] theorem refresh_node : (e.refresh now p).node = e.node := rfl

@[simp] theorem refresh_destination : (e.refresh now p).destination = e.destination := rfl

@[simp] theorem refresh_emitted : (e.refresh now p).emitted = p.emitted := rfl

theorem fold_eq_none : fold now p q = none ↔ ∀ e ∈ q, e.destination ≠ p.destinationHash := by
  induction q with
  | nil => simp [fold]
  | cons e q ih =>
    by_cases h : e.destination = p.destinationHash
    · simp [fold, h]
    · simp [fold, h, ih]

/-- The first entry of the destination, and what becomes of it. -/
theorem fold_eq_some (h : fold now p q = some q') :
    ∃ pre e post, q = pre ++ e :: post ∧ e.destination = p.destinationHash ∧
      q' = pre ++ (if e.emitted < p.emitted then e.refresh now p else e) :: post := by
  induction q generalizing q' with
  | nil => simp [fold] at h
  | cons e q ih =>
    by_cases hd : e.destination = p.destinationHash
    · simp only [fold, hd, ↓reduceIte, Option.some.injEq] at h
      exact ⟨[], e, q, rfl, hd, h.symm⟩
    · simp only [fold, hd, ↓reduceIte, Option.map_eq_some_iff] at h
      obtain ⟨q', hq', rfl⟩ := h
      obtain ⟨pre, e', post, rfl, hd', rfl⟩ := ih hq'
      exact ⟨e :: pre, e', post, rfl, hd', rfl⟩

-- ---------------------------------------------------------------------------
-- What a step does
-- ---------------------------------------------------------------------------

theorem moves_self : Moves i s s := .thinned (List.Sublist.refl _) le_rfl

theorem moves_outbound : Moves i s (outbound i now p s) := by
  unfold outbound
  split
  · exact moves_self
  split
  · next h => exact .released (List.Sublist.refl _) h.2.le (by simp)
  split
  · split
    · next q hq =>
      obtain ⟨pre, e, post, hs, hd, rfl⟩ := fold_eq_some hq
      split
      · next hnew => exact .folded hs hd hnew
      · rw [← hs]
        exact moves_self
    · next hq => exact .queued (fold_eq_none.1 hq)
  · exact moves_self

theorem moves_processAnnounceQueue (ht : s.announceAllowedAt ≤ now) :
    Moves i s (processAnnounceQueue i now s) := by
  unfold processAnnounceQueue
  dsimp only
  split
  · exact .thinned List.filter_sublist le_rfl
  · next selected hsel =>
    have hmem := (List.mem_filter.1 (List.argmin_mem hsel)).1
    refine .released (List.filter_sublist.trans List.filter_sublist) ht ?_
    rintro _ ⟨⟩
    refine ⟨List.mem_map_of_mem hmem, fun h => ?_⟩
    obtain ⟨e, he, hnode⟩ := List.mem_map.1 h
    simp [hnode] at he

theorem moves_step : Moves i s (step i s ev) := by
  cases ev with
  | outbound now p => exact moves_outbound
  | jobs now later =>
    simp only [step]
    split
    · next h =>
      simp only [due, ne_eq, decide_eq_true_eq] at h
      refine moves_processAnnounceQueue (h.2.le.trans ?_)
      simp
    · exact moves_self
  | heardRepeat destination emitted hops => exact .thinned List.filter_sublist le_rfl
  | dropAnnounceQueues => exact .thinned (List.nil_sublist _) le_rfl
  | requestPath now size =>
    simp only [step, requestPath]
    split
    · exact moves_self
    · next h =>
      simp only [not_or, not_lt] at h
      exact .thinned (List.Sublist.refl _) (h.2.trans (le_add_of_nonneg_right waitTime_nonneg))

-- ---------------------------------------------------------------------------
-- The invariant
-- ---------------------------------------------------------------------------

/-- The nodes that hold an entry and those whose entry has gone. -/
def State.used (s : State) : List Nat := s.announceQueue.map (·.node) ++ s.released.filterMap (·.node)

structure Inv (i : Interface) (s : State) : Prop where
  destinations : (s.announceQueue.map (·.destination)).Nodup
  used : s.used.Nodup
  made : ∀ n ∈ s.used, n < s.nodes
  paced : s.released.Pairwise (Paid (·.time) (·.wait i))
  allowed : ∀ r ∈ s.released, r.time + r.wait i ≤ s.announceAllowedAt

theorem inv_init : Inv i {} where
  destinations := List.nodup_nil
  used := List.nodup_nil
  made := by simp [State.used]
  paced := List.Pairwise.nil
  allowed := by simp

theorem Moves.inv (h : Moves i s s') (hs : Inv i s) : Inv i s' := by
  cases h with
  | thinned hq ht =>
    have hsub := (hq.map AnnounceEntry.node).append_right (s.released.filterMap (·.node))
    exact ⟨hs.destinations.sublist (hq.map _), hs.used.sublist hsub, fun n hn => hs.made n (hsub.subset hn),
      hs.paced, fun r hr => (hs.allowed r hr).trans ht⟩
  | @released q t raw node hq ht hn =>
    have hsub := (hq.map AnnounceEntry.node).append_right (s.released.filterMap (·.node))
    have hused := hs.used.sublist hsub
    have hmade : ∀ n ∈ q.map (·.node) ++ s.released.filterMap (·.node), n < s.nodes :=
      fun n hn => hs.made n (hsub.subset hn)
    have hpaid : ∀ r ∈ s.released, r.time + r.wait i ≤ t := fun r hr => (hs.allowed r hr).trans ht
    refine ⟨hs.destinations.sublist (hq.map _), ?_, ?_, List.pairwise_cons.2 ⟨hpaid, hs.paced⟩, ?_⟩
    · cases node with
      | none => exact hused
      | some n =>
        obtain ⟨hin, hout⟩ := hn n rfl
        have hgone : n ∉ s.released.filterMap (·.node) :=
          fun h => (List.nodup_append.1 hs.used).2.2 n hin n h rfl
        show (q.map (·.node) ++ n :: s.released.filterMap (·.node)).Nodup
        refine List.nodup_middle.2 (List.nodup_cons.2 ⟨?_, hused⟩)
        rw [List.mem_append]
        exact not_or.2 ⟨hout, hgone⟩
    · cases node with
      | none => exact hmade
      | some n =>
        intro m hm
        have hm : m ∈ q.map (·.node) ++ n :: s.released.filterMap (·.node) := hm
        rw [List.mem_append, List.mem_cons] at hm
        rcases hm with hm | rfl | hm
        · exact hmade m (List.mem_append_left _ hm)
        · exact hs.made m (List.mem_append_left _ (hn m rfl).1)
        · exact hmade m (List.mem_append_right _ hm)
    · rintro r hr
      rcases List.mem_cons.1 hr with rfl | hr
      · exact le_rfl
      · exact (hpaid r hr).trans (le_add_of_nonneg_right waitTime_nonneg)
  | @folded e p now pre post hq hd hnew =>
    have hnodes : (pre ++ e.refresh now p :: post).map (·.node) = s.announceQueue.map (·.node) := by simp [hq]
    have hdests : (pre ++ e.refresh now p :: post).map (·.destination) = s.announceQueue.map (·.destination) := by
      simp [hq]
    refine ⟨?_, ?_, ?_, hs.paced, hs.allowed⟩
    · rw [hdests]
      exact hs.destinations
    · simp only [State.used, hnodes]
      exact hs.used
    · simp only [State.used, hnodes]
      exact hs.made
  | @queued p now hd =>
    have hfresh : s.nodes ∉ s.used := fun h => absurd (hs.made _ h) (Nat.lt_irrefl _)
    have hperm : (s.used ++ [s.nodes]).Perm
        ((s.announceQueue ++ [p.entry now s.nodes]).map (·.node) ++ s.released.filterMap (·.node)) := by
      simp only [State.used, List.map_append, List.append_assoc]
      exact List.Perm.append_left _ List.perm_append_comm
    refine ⟨?_, ?_, ?_, hs.paced, hs.allowed⟩
    · rw [List.map_append, List.nodup_append]
      refine ⟨hs.destinations, List.nodup_singleton _, ?_⟩
      intro d hmem d' hd' heq
      obtain ⟨e, he, rfl⟩ := List.mem_map.1 hmem
      obtain rfl := List.mem_singleton.1 hd'
      exact hd e he heq
    · refine hperm.nodup_iff.1 (List.nodup_append.2 ⟨hs.used, List.nodup_singleton _, ?_⟩)
      rintro n hn _ hm rfl
      obtain rfl := List.mem_singleton.1 hm
      exact hfresh hn
    · intro n hn
      have hmem := hperm.mem_iff.2 hn
      rcases List.mem_append.1 hmem with h | h
      · exact (hs.made n h).trans (Nat.lt_succ_self _)
      · obtain rfl := List.mem_singleton.1 h
        exact Nat.lt_succ_self _

theorem inv_step (hs : Inv i s) : Inv i (step i s ev) := moves_step.inv hs

-- ---------------------------------------------------------------------------
-- In every state
-- ---------------------------------------------------------------------------

/-- The cap is on. -/
structure Capped (i : Interface) : Prop where
  bitrate : 0 < i.bitrate
  cap : 0 < i.announceCap

/-- The airtime of any window is at most its share and one frame, the window's last. -/
def WithinCap (i : Interface) (s : State) : Prop :=
  ∀ a b r rest, window (·.time) a b s.released = r :: rest →
    ((window (·.time) a b s.released).map (·.airtime i)).sum ≤ i.announceCap * (b - a) + r.airtime i

structure Orderly (i : Interface) (s : State) : Prop where
  onePerDestination : (s.announceQueue.map (·.destination)).Nodup
  /-- No entry goes out twice, and none waits that has gone. -/
  once : (s.released.filterMap (·.node)).Nodup ∧
    ∀ e ∈ s.announceQueue, e.node ∉ s.released.filterMap (·.node)
  withinCap : WithinCap i s

theorem wait_eq (hc : Capped i) (r : Release) : r.wait i = r.airtime i / i.announceCap :=
  if_pos ⟨hc.bitrate, hc.cap⟩

theorem Inv.withinCap (hc : Capped i) (hs : Inv i s) : WithinCap i s := by
  intro a b r rest hw
  have hpaced : s.released.Pairwise (Paid (·.time) fun r => r.airtime i / i.announceCap) := by
    simpa only [wait_eq hc] using hs.paced
  exact size_window_le hc.cap hpaced hw

theorem Inv.orderly (hc : Capped i) (hs : Inv i s) : Orderly i s := by
  obtain ⟨-, hgone, hapart⟩ := List.nodup_append.1 hs.used
  refine ⟨hs.destinations, ⟨hgone, fun e he h => ?_⟩, hs.withinCap hc⟩
  exact hapart _ (List.mem_map_of_mem he) _ h rfl

-- ---------------------------------------------------------------------------
-- In every step
-- ---------------------------------------------------------------------------

/-- A waiting entry only changes into a newer emission. -/
def OnlyNewer (s s' : State) : Prop :=
  ∀ e ∈ s.announceQueue, ∀ e' ∈ s'.announceQueue, e'.node = e.node →
    e' = e ∨ e.emitted < e'.emitted ∧ e'.destination = e.destination

/-- A newer emission that is forwarded takes the waiting entry's place. -/
def TakesPlace (i : Interface) (s : State) (ev : Event) (s' : State) : Prop :=
  ∀ now p, ev = .outbound now p → i.forwards p → ∀ e ∈ s.announceQueue,
    e.destination = p.destinationHash → e.emitted < p.emitted → e.refresh now p ∈ s'.announceQueue

/-- A drain sends one of the nearest entries that still live, of those one of the oldest. -/
def SendsFirst (s : State) (ev : Event) (s' : State) : Prop :=
  ∀ now (later : ℚ≥0), ev = .jobs now later → due now s → (∃ e ∈ s.announceQueue, alive (now + later) e) →
    ∃ e ∈ s.announceQueue, alive (now + later) e ∧
      (∀ e' ∈ s.announceQueue, alive (now + later) e' →
        e.hops < e'.hops ∨ e.hops = e'.hops ∧ e.time ≤ e'.time) ∧
      s'.released = { time := now + later, raw := e.raw, node := some e.node } :: s.released ∧
      ∀ e' ∈ s'.announceQueue, e'.node ≠ e.node

structure StepOrderly (i : Interface) (s : State) (ev : Event) : Prop where
  onlyNewer : OnlyNewer s (step i s ev)
  takesPlace : TakesPlace i s ev (step i s ev)
  sendsFirst : SendsFirst s ev (step i s ev)

/-- There is room in the queue when a newer emission of a waiting destination comes. -/
def Room (i : Interface) (s : State) (ev : Event) : Prop :=
  ∀ now p, ev = .outbound now p → i.forwards p →
    (∃ e ∈ s.announceQueue, e.destination = p.destinationHash ∧ e.emitted < p.emitted) →
      s.announceQueue.length < MAX_QUEUED_ANNOUNCES

theorem Inv.node_inj (hs : Inv i s) (he : e ∈ s.announceQueue) (he' : e' ∈ s.announceQueue)
    (h : e'.node = e.node) : e' = e :=
  List.inj_on_of_nodup_map (List.nodup_append.1 hs.used).1 he' he h

theorem Inv.dest_inj (hs : Inv i s) (he : e ∈ s.announceQueue) (he' : e' ∈ s.announceQueue)
    (h : e'.destination = e.destination) : e' = e :=
  List.inj_on_of_nodup_map hs.destinations he' he h

theorem Moves.onlyNewer (h : Moves i s s') (hs : Inv i s) : OnlyNewer s s' := by
  intro e he e' he' hnode
  cases h with
  | thinned hq => exact .inl (hs.node_inj he (hq.subset he') hnode)
  | released hq => exact .inl (hs.node_inj he (hq.subset he') hnode)
  | @folded f p now pre post hq hd hnew =>
    have hmem : e' = f.refresh now p ∨ e' ∈ s.announceQueue := by
      rw [hq]
      simp only [List.mem_append, List.mem_cons] at he' ⊢
      tauto
    rcases hmem with rfl | hmem
    · have hf : f ∈ s.announceQueue := by simp [hq]
      obtain rfl := hs.node_inj he hf hnode
      exact .inr ⟨hnew, rfl⟩
    · exact .inl (hs.node_inj he hmem hnode)
  | @queued p now hd =>
    rcases List.mem_append.1 he' with hmem | hmem
    · exact .inl (hs.node_inj he hmem hnode)
    · -- a new node is not one that is in use
      obtain rfl := List.mem_singleton.1 hmem
      have hlt := hs.made e.node (List.mem_append_left _ (List.mem_map_of_mem he))
      exact absurd (hnode ▸ hlt) (Nat.lt_irrefl _)

theorem sendsFirst_step : SendsFirst s ev (step i s ev) := by
  rintro now later rfl hdue ⟨e₀, he₀, hlive⟩
  simp only [step, if_pos hdue, processAnnounceQueue]
  split
  · next h =>
    have hnil := List.argmin_eq_none.1 h
    have hmem : e₀ ∈ s.announceQueue.filter (alive (now + later)) := List.mem_filter.2 ⟨he₀, hlive⟩
    rw [hnil] at hmem
    cases hmem
  · next e hsel =>
    obtain ⟨he, helive⟩ := List.mem_filter.1 (List.argmin_mem hsel)
    refine ⟨e, he, helive, fun e' he' hlive' => ?_, rfl, fun e' he' => ?_⟩
    · have hle := List.le_of_mem_argmin (List.mem_filter.2 ⟨he', hlive'⟩) hsel
      simpa [AnnounceEntry.rank, Prod.Lex.toLex_le_toLex, UInt8.lt_iff_toNat_lt, ← UInt8.toNat_inj] using hle
    · simpa using (List.mem_filter.1 he').2

/-- With room, the newer emission is folded in; without, it is dropped. -/
theorem Inv.takesPlace_iff (hs : Inv i s) : TakesPlace i s ev (step i s ev) ↔ Room i s ev := by
  constructor
  · rintro h now p rfl hf ⟨e, he, hd, hnew⟩
    by_contra hfull
    have hne : s.announceQueue ≠ [] := List.ne_nil_of_mem he
    have hkept : (step i s (.outbound now p)).announceQueue = s.announceQueue := by
      simp [step, outbound, hf, hne, hfull]
    have hmem := h now p rfl hf e he hd hnew
    rw [hkept] at hmem
    have hsame := hs.node_inj he hmem refresh_node
    have hemitted := congrArg AnnounceEntry.emitted hsame
    exact absurd hemitted hnew.ne'
  · rintro h now p rfl hf e he hd hnew
    have hroom := h now p rfl hf ⟨e, he, hd, hnew⟩
    have hne : s.announceQueue ≠ [] := List.ne_nil_of_mem he
    simp only [step, outbound, hf, hne, hroom, not_true_eq_false, ↓reduceIte, false_and]
    split
    · next q hq =>
      obtain ⟨pre, e', post, hqueue, hd', rfl⟩ := fold_eq_some hq
      have he' : e' ∈ s.announceQueue := by simp [hqueue]
      obtain rfl := hs.dest_inj he' he (hd.trans hd'.symm)
      simp [hnew]
    · next hq => exact absurd hd (fold_eq_none.1 hq e he)

theorem Inv.stepOrderly_iff (hs : Inv i s) : StepOrderly i s ev ↔ Room i s ev := by
  rw [← hs.takesPlace_iff]
  exact ⟨(·.takesPlace), fun h => ⟨moves_step.onlyNewer hs, h, sendsFirst_step⟩⟩

-- ---------------------------------------------------------------------------
-- Over a run
-- ---------------------------------------------------------------------------

/-- The queue keeps its order in every state and in every step exactly where a
newer emission of a destination that waits never finds the queue full. -/
theorem orderly_iff_room (hc : Capped i) :
    Throughout (step i) (Orderly i) {} events ∧ Guarded (step i) (StepOrderly i) {} events ↔
      Guarded (step i) (Room i) {} events := by
  have hstep : ∀ s ev, Inv i s → Inv i (step i s ev) := fun _ _ => inv_step
  have hall : Throughout (step i) (Orderly i) {} events :=
    fun pre _ => (invariant hstep inv_init).orderly hc
  rw [and_iff_right hall]
  exact guarded_congr hstep (fun _ _ hs => hs.stepOrderly_iff) inv_init

-- ---------------------------------------------------------------------------
-- A full queue
-- ---------------------------------------------------------------------------

private def radio : Interface where
  hash := [1]
  mode := .full
  out := true
  bitrate := 1000
  announceCap := 1 / 50
  communityRadius := 5
  pointToPoint := false

/-- An announce of a destination with its emission. -/
private def announceOf (d emission : UInt8) : Announce where
  destinationHash := [d]
  hops := 1
  data := .replicate 83 0 ++ [emission]
  raw := .replicate 20 d
  attachedInterface := none
  receivingInterface := none
  ours := false

/-- One announce goes out, and the next ones fill the queue. -/
private def filling : List Event :=
  .outbound 1 (announceOf 0 0) :: (List.range 20).map fun d => .outbound 1 (announceOf (.ofNat d) 0)

theorem orderly_iff_room_filling :
    Throughout (step radio) (Orderly radio) {} filling ∧ Guarded (step radio) (StepOrderly radio) {} filling ↔
      Guarded (step radio) (Room radio) {} filling :=
  orderly_iff_room ⟨by decide, by simp [radio]⟩

private def late : State := run (step radio) {} filling

/-- The newest emission of a waiting destination is dropped, and the old one stays. -/
theorem full_queue_drops :
    ¬ ∀ i events, Capped i → Throughout (step i) (Orderly i) {} events ∧
        Guarded (step i) (StepOrderly i) {} events := by
  intro h
  have hc : Capped radio := ⟨by decide, by simp [radio]⟩
  have hsteps := (h radio (filling ++ [.outbound 2 (announceOf 3 1)]) hc).2
  have hlast : StepOrderly radio late (.outbound 2 (announceOf 3 1)) := (guarded_append.1 hsteps).2.1
  have hwaits : (announceOf 3 0).entry 1 3 ∈ late.announceQueue := by decide +kernel
  have hmem := hlast.takesPlace 2 (announceOf 3 1) rfl (by decide) _ hwaits rfl (by decide)
  exact absurd hmem (by decide +kernel)

end MicroReticulum.Interfaces
