import MicroReticulum.Bytes
import MicroReticulum.Lib.Log
import MicroReticulum.Lib.Slots

/-!
# Cheapest first

A path this node wants is asked for on the cheap interfaces, and the
destination is noted in a small table. A sweep drops those whose path has
arrived and asks the expensive interfaces for those whose grace is over. Asking
again starts the grace anew, so the bound is on the latest request.
-/

namespace MicroReticulum.Escalation

open Lib Lib.Log Lib.Log.Transition

def PATH_ESCALATIONS_MAX : Nat := 16

structure Interface where
  hash : Bytes
  OUT : Bool := true
  bitrate : Nat := 0
  pointToPoint : Bool := false

structure Config where
  interfaces : List Interface
  pathCheapBitrate : Nat
  pathEscalateTime : ℚ

structure PathEscalation where
  dest : Bytes := []
  due : ℚ := 0
  used : Bool := false

/-- The escalations, and the interface each known path was learned on. -/
structure State where
  pathEscalations : List PathEscalation := List.replicate PATH_ESCALATIONS_MAX {}
  nextHopInterface : Bytes → Option Bytes := fun _ => none

structure Question where
  dest : Bytes
  interface : Bytes
deriving DecidableEq

inductive Op where
  | request (dest : Bytes) (now : ℚ)
  | arrive (dest interface : Bytes)
  | lose (dest : Bytes)
  | sweep (now : ℚ)

variable (c : Config) (s : State) (i : Interface) (e : PathEscalation) (dest : Bytes) (now : ℚ)

-- ---------------------------------------------------------------------------
-- Asking
-- ---------------------------------------------------------------------------

/-- A bitrate that was never declared does not delay discovery. -/
def interfaceIsCheap : Bool := i.bitrate = 0 ∨ c.pathCheapBitrate ≤ i.bitrate

def Config.cheap : List Interface := c.interfaces.filter fun i => i.OUT && interfaceIsCheap c i

def Config.expensive : List Interface := c.interfaces.filter fun i => i.OUT && !interfaceIsCheap c i

def hasPath : Bool := (s.nextHopInterface dest).isSome

/-- One interface is asked, unless its single peer is who told us. -/
def requestPathOn : List Question :=
  if i.pointToPoint ∧ s.nextHopInterface dest = some i.hash then [] else [⟨dest, i.hash⟩]

def askAll (is : List Interface) : List Question := is.flatMap fun i => requestPathOn s i dest

/-- Without an interface the question goes out on every one. -/
def broadcast : List Question := (c.interfaces.filter (·.OUT)).map fun i => ⟨dest, i.hash⟩

/-- The grace starts, or starts again; a full table asks at once. -/
def await : Transition State Question := fun s =>
  let due := now + c.pathEscalateTime
  match Slots.find (·.used) (·.dest) dest s.pathEscalations with
  | some k => ({ s with pathEscalations := s.pathEscalations.modify k ({ · with due := due }) }, [])
  | none =>
    match Slots.free (·.used) s.pathEscalations with
    | some k => ({ s with pathEscalations := s.pathEscalations.set k ⟨dest, due, true⟩ }, [])
    | none => (s, askAll s dest c.expensive)

def requestPath : Transition State Question := fun s =>
  let asked := askAll s dest c.cheap
  if c.cheap = [] then (s, broadcast c dest)
  else if c.expensive = [] then (s, asked)
  else ((await c dest now s).1, asked ++ (await c dest now s).2)

-- ---------------------------------------------------------------------------
-- The sweep
-- ---------------------------------------------------------------------------

def escalate : PathEscalation × List Question :=
  if !e.used then (e, [])
  else if hasPath s e.dest then ({ e with used := false }, [])
  else if now < e.due then (e, [])
  else ({ e with used := false }, askAll s e.dest c.expensive)

def escalatePathRequests : Transition State Question := fun s =>
  ({ s with pathEscalations := s.pathEscalations.map fun e => (escalate c s e now).1 },
    s.pathEscalations.flatMap fun e => (escalate c s e now).2)

def step : Op → Transition State Question
  | .request dest now => requestPath c dest now
  | .arrive dest interface =>
    quiet fun s => { s with nextHopInterface := Function.update s.nextHopInterface dest (some interface) }
  | .lose dest => quiet fun s => { s with nextHopInterface := Function.update s.nextHopInterface dest none }
  | .sweep now => escalatePathRequests c now

-- ---------------------------------------------------------------------------
-- What is asked
-- ---------------------------------------------------------------------------

variable {c s i e dest now} {d : Bytes} {due : ℚ} {op : Op} {ops : List Op} {q : Question}

/-- Every expensive interface is asked for the destination. -/
def Asked (c : Config) (d : Bytes) (log : List Question) : Prop := ∀ i ∈ c.expensive, ⟨d, i.hash⟩ ∈ log

theorem Asked.mono {log more : List Question} (h : Asked c d log) (hm : ∀ q ∈ log, q ∈ more) : Asked c d more :=
  fun i hi => hm _ (h i hi)

theorem asked_askAll (hn : s.nextHopInterface d = none) : Asked c d (askAll s d c.expensive) := by
  intro i hi
  exact List.mem_flatMap.2 ⟨i, hi, by simp [requestPathOn, hn]⟩

theorem mem_askAll {is : List Interface} (h : q ∈ askAll s d is) : q.dest = d := by
  obtain ⟨i, -, hq⟩ := List.mem_flatMap.1 h
  unfold requestPathOn at hq
  split at hq
  · simp at hq
  · rw [List.mem_singleton.1 hq]

-- ---------------------------------------------------------------------------
-- One step
-- ---------------------------------------------------------------------------

/-- The destination waits for its time in a slot of the table. -/
def Awaits (d : Bytes) (due : ℚ) (s : State) : Prop :=
  ∃ e ∈ s.pathEscalations, e.used = true ∧ e.dest = d ∧ e.due = due

theorem await_nextHop : (await c dest now s).1.nextHopInterface = s.nextHopInterface := by
  unfold await
  split
  · rfl
  · split <;> rfl

theorem await_awaits (hn : s.nextHopInterface d = none) :
    Awaits d (now + c.pathEscalateTime) (await c d now s).1 ∨ Asked c d (await c d now s).2 := by
  unfold await
  cases hf : Slots.find (·.used) (·.dest) d s.pathEscalations with
  | some k =>
    obtain ⟨e, he, hu, hd⟩ := Slots.find_eq_some hf
    refine .inl ⟨{ e with due := now + c.pathEscalateTime }, ?_, hu, hd, rfl⟩
    exact List.mem_of_getElem? (i := k) (by simp [he])
  | none =>
    cases hfree : Slots.free (·.used) s.pathEscalations with
    | some k =>
      obtain ⟨e, he, -⟩ := Slots.free_eq_some hfree
      refine .inl ⟨⟨d, now + c.pathEscalateTime, true⟩, ?_, rfl, rfl, rfl⟩
      exact List.mem_of_getElem? (i := k) (by simp [(List.getElem?_eq_some_iff.1 he).1])
    | none => exact .inr (asked_askAll hn)

theorem awaits_await (h : Awaits d due s) (hne : dest ≠ d) : Awaits d due (await c dest now s).1 := by
  obtain ⟨e, he, hu, hd, hdue⟩ := h
  obtain ⟨j, hj⟩ := List.mem_iff_getElem?.1 he
  unfold await
  cases hf : Slots.find (·.used) (·.dest) dest s.pathEscalations with
  | some k =>
    obtain ⟨a, ha, -, hda⟩ := Slots.find_eq_some hf
    have hkj : k ≠ j := by
      rintro rfl
      cases ha.symm.trans hj
      exact hne (hda.symm.trans hd)
    exact ⟨e, List.mem_of_getElem? (i := j) (by simp [hkj, hj]), hu, hd, hdue⟩
  | none =>
    cases hfree : Slots.free (·.used) s.pathEscalations with
    | some k =>
      obtain ⟨a, ha, hua⟩ := Slots.free_eq_some hfree
      have hkj : k ≠ j := by
        rintro rfl
        cases ha.symm.trans hj
        simp [hu] at hua
      exact ⟨e, List.mem_of_getElem? (i := j) (by simp [hkj, hj]), hu, hd, hdue⟩
    | none => exact ⟨e, he, hu, hd, hdue⟩

/-- A sweep keeps what waits, or asks for it; from its time on it asks. -/
theorem awaits_escalate (now : ℚ) (h : Awaits d due s) (hn : s.nextHopInterface d = none) :
    now < due ∧ Awaits d due (escalatePathRequests c now s).1 ∨
      Asked c d (escalatePathRequests c now s).2 := by
  obtain ⟨e, he, hu, rfl, rfl⟩ := h
  have hpath : hasPath s e.dest = false := by simp [hasPath, hn]
  rcases lt_or_ge now e.due with hlt | hge
  · refine .inl ⟨hlt, e, List.mem_map.2 ⟨e, he, ?_⟩, hu, rfl, rfl⟩
    simp [escalate, hu, hpath, hlt]
  · refine .inr ((asked_askAll hn).mono fun q hq => List.mem_flatMap.2 ⟨e, he, ?_⟩)
    simpa [escalate, hu, hpath, hge.not_gt] using hq

theorem escalate_asks (hq : q ∈ (escalatePathRequests c now s).2) : s.nextHopInterface q.dest = none := by
  obtain ⟨e, -, hq⟩ := List.mem_flatMap.1 hq
  unfold escalate at hq
  split at hq
  · simp at hq
  · split at hq
    · simp at hq
    · next hpath =>
      split at hq
      · simp at hq
      · rw [mem_askAll hq]
        simpa [hasPath] using hpath

theorem requestPath_nextHop : (requestPath c dest now s).1.nextHopInterface = s.nextHopInterface := by
  unfold requestPath
  split
  · rfl
  · split
    · rfl
    · exact await_nextHop

theorem requestPath_awaits (now : ℚ) (hn : s.nextHopInterface d = none) :
    Awaits d (now + c.pathEscalateTime) (requestPath c d now s).1 ∨ Asked c d (requestPath c d now s).2 := by
  unfold requestPath
  split
  · refine .inr fun i hi => ?_
    obtain ⟨hi, hout⟩ := List.mem_filter.1 hi
    exact List.mem_map.2 ⟨i, List.mem_filter.2 ⟨hi, by simp_all⟩, rfl⟩
  · split
    · next he => exact .inr fun i hi => by simp [he] at hi
    · exact (await_awaits hn).imp id fun h => h.mono fun q hq => List.mem_append_right _ hq

theorem awaits_requestPath (h : Awaits d due s) (hne : dest ≠ d) : Awaits d due (requestPath c dest now s).1 := by
  unfold requestPath
  split
  · exact h
  · split
    · exact h
    · exact awaits_await h hne

def Op.requests (d : Bytes) : Op → Prop
  | .request dest _ => dest = d
  | _ => False

theorem awaits_step (h : Awaits d due s) (hn : s.nextHopInterface d = none) (hop : ¬ op.requests d) :
    Awaits d due (step c op s).1 ∨ Asked c d (step c op s).2 := by
  cases op with
  | request dest now => exact .inl (awaits_requestPath h hop)
  | arrive dest interface => exact .inl h
  | lose dest => exact .inl h
  | sweep now => exact (awaits_escalate now h hn).imp And.right id

-- ---------------------------------------------------------------------------
-- Runs
-- ---------------------------------------------------------------------------

/-- The destination has no path in any state the operations pass through. -/
def Unanswered (c : Config) (d : Bytes) (s : State) (ops : List Op) : Prop :=
  ∀ pre, pre <+: ops → (trace (step c) pre s).1.nextHopInterface d = none

theorem Unanswered.tail (h : Unanswered c d s (op :: ops)) : Unanswered c d (step c op s).1 ops :=
  fun _ hp => h (op :: _) (List.cons_prefix_cons.2 ⟨rfl, hp⟩)

def Op.brings (d : Bytes) : Op → Prop
  | .arrive dest _ => dest = d
  | _ => False

theorem step_nextHop (hn : s.nextHopInterface d = none) (hop : ¬ op.brings d) :
    (step c op s).1.nextHopInterface d = none := by
  cases op with
  | request dest now =>
    rw [step, requestPath_nextHop]
    exact hn
  | arrive dest interface =>
    have hne : d ≠ dest := fun h => hop h.symm
    simp [step, Function.update_of_ne hne, hn]
  | lose dest =>
    by_cases h : d = dest
    · simp [step, h]
    · simp [step, Function.update_of_ne h, hn]
  | sweep now => exact hn

theorem unanswered_of_no_arrival (hops : ∀ op ∈ ops, ¬ op.brings d) (hn : s.nextHopInterface d = none) :
    Unanswered c d s ops := by
  rintro pre ⟨rest, rfl⟩
  induction pre generalizing s with
  | nil => exact hn
  | cons op pre ih =>
    rw [trace_cons]
    exact ih (step_nextHop hn (hops op (by simp))) fun o ho => hops o (by simp [ho])

theorem awaits_trace (h : Awaits d due s) (hn : Unanswered c d s ops) (hops : ∀ op ∈ ops, ¬ op.requests d) :
    Awaits d due (trace (step c) ops s).1 ∨ Asked c d (trace (step c) ops s).2 := by
  induction ops generalizing s with
  | nil => exact .inl h
  | cons op ops ih =>
    rw [trace_cons]
    obtain h | h := awaits_step h (hn [] List.nil_prefix) (hops op (by simp))
    · refine (ih h hn.tail fun o ho => hops o (by simp [ho])).imp id fun h => ?_
      exact h.mono fun q hq => List.mem_append_right _ hq
    · exact .inr (h.mono fun q hq => List.mem_append_left _ hq)

/-- The first sweep a grace or more after the latest request has the expensive
interfaces asked; a sweep asks for nothing that has a path. -/
theorem escalation_bounded (c : Config) :
    (∀ (pre mid : List Op) (d : Bytes) (r t : ℚ), (∀ op ∈ mid, ¬ op.requests d) →
      Unanswered c d (trace (step c) pre {}).1 (.request d r :: mid) → r + c.pathEscalateTime ≤ t →
        Asked c d (trace (step c) (.request d r :: (mid ++ [.sweep t])) (trace (step c) pre {}).1).2) ∧
    ∀ (pre : List Op) (now : ℚ) (q : Question), q ∈ (step c (.sweep now) (trace (step c) pre {}).1).2 →
      (trace (step c) pre {}).1.nextHopInterface q.dest = none := by
  refine ⟨fun pre mid d r t hmid hn ht => ?_, fun pre now q => escalate_asks⟩
  generalize (trace (step c) pre {}).1 = s at hn ⊢
  have hs : s.nextHopInterface d = none := hn [] List.nil_prefix
  rw [trace_cons, trace_append]
  obtain h | h := requestPath_awaits (c := c) r hs
  · obtain h | h := awaits_trace h hn.tail hmid
    · have hlast := hn.tail mid List.prefix_rfl
      obtain ⟨hlt, -⟩ | h := awaits_escalate (c := c) t h hlast
      · exact absurd hlt ht.not_gt
      · refine h.mono fun q hq => List.mem_append_right _ (List.mem_append_right _ ?_)
        simpa [trace_cons, step] using hq
    · exact h.mono fun q hq => List.mem_append_right _ (List.mem_append_left _ hq)
  · exact h.mono fun q hq => List.mem_append_left _ hq

/-- A cheap interface and a radio. -/
def lanAndRadio : Config where
  interfaces := [{ hash := [1] }, { hash := [2], bitrate := 1200 }]
  pathCheapBitrate := 50000
  pathEscalateTime := 3

theorem escalation_bounded_once :
    Asked lanAndRadio (List.replicate 16 7)
      (trace (step lanAndRadio) [.request (List.replicate 16 7) 0, .sweep 3] {}).2 :=
  (escalation_bounded lanAndRadio).1 [] [] (List.replicate 16 7) 0 3 (by simp)
    (unanswered_of_no_arrival (by simp [Op.brings]) rfl) (by norm_num [lanAndRadio])

/-- Asked for at 0 and again at 2: the sweep at 3 leaves the radio alone. -/
theorem grace_restarted :
    Unanswered lanAndRadio (List.replicate 16 7) {}
        [.request (List.replicate 16 7) 0, .request (List.replicate 16 7) 2, .sweep 3] ∧
      0 + lanAndRadio.pathEscalateTime ≤ 3 ∧
      ¬ Asked lanAndRadio (List.replicate 16 7) (trace (step lanAndRadio)
        [.request (List.replicate 16 7) 0, .request (List.replicate 16 7) 2, .sweep 3] {}).2 := by
  refine ⟨unanswered_of_no_arrival (by simp [Op.brings]) rfl, by norm_num [lanAndRadio], fun h => ?_⟩
  exact absurd (h { hash := [2], bitrate := 1200 } (by simp [Config.expensive, lanAndRadio, interfaceIsCheap]))
    (by decide +kernel)

end MicroReticulum.Escalation
