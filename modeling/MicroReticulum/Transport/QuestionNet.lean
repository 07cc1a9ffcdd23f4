import MicroReticulum.Gateway.Table
import MicroReticulum.Lib.Runs
import MicroReticulum.Transport.AskedOnce
import Mathlib.Algebra.BigOperators.Group.Finset.Basic
import Mathlib.Data.Fintype.Basic
import Mathlib.Data.List.Chain

/-!
# A question in a network

Questions are put from outside, heard any number of times in any order, asked on
and repeated. As long as no node forgets a question's tag each node asks it once
on each of its interfaces. Repeats on a radio come closer to a gateway with each
asker whose distance is known; one whose distance is not known counts as far.
-/

namespace MicroReticulum.Questions

open Lib Lib.Log Lib.Runs Interfaces Wire

/-- A request put from outside, and who hears it on which interface. -/
structure Original (V : Type*) where
  data : Bytes
  audience : V → Bytes → Bool

structure Network (V : Type*) where
  node : V → Node
  /-- What the first node sends on its interface the second one hears on its own. -/
  reaches : V → Bytes → V → Bytes → Bool
  originals : List (Original V)

structure Net (V : Type*) where
  node : V → State := fun _ => {}
  sent : V → List Sent := fun _ => []

inductive NetOp (V : Type*) where
  | original (k : ℕ) (v : V) (on : ℕ) (e : Env)
  | hear (u : V) (k : ℕ) (v : V) (on : ℕ) (e : Env)
  | timers (v : V) (e : Env)
  | cull (v : V) (maxPrTags : ℕ)

namespace Network

variable {V : Type*} [DecidableEq V] (N : Network V)

def act (s : Net V) (v : V) (t : Transition State Sent) : Net V :=
  { node := Function.update s.node v (t (s.node v)).1
    sent := Function.update s.sent v (s.sent v ++ (t (s.node v)).2) }

/-- A request may be heard again and again, on every interface it reaches. -/
def step (s : Net V) : NetOp V → Net V
  | .original k v on e =>
    match N.originals[k]?, (N.node v).interfaces[on]? with
    | some a, some i => if a.audience v i.hash then act s v (pathRequestHandler (N.node v) e i a.data) else s
    | _, _ => s
  | .hear u k v on e =>
    match (s.sent u)[k]?, (N.node v).interfaces[on]? with
    | some x, some i =>
      if N.reaches u x.iface v i.hash then act s v (pathRequestHandler (N.node v) e i x.data) else s
    | _, _ => s
  | .timers v e => act s v (timers (N.node v) e)
  | .cull v maxPrTags => act s v (cullTags maxPrTags)

/-- The questions from outside name destinations by their full hash. -/
def Full : Prop := ∀ a ∈ N.originals, ∀ q, Question.parse a.data = some q → isLabel q.dest = false

def Declared (u v : V) : Prop := distanceOf (N.node v) (N.node u).identity ≠ DISTANCE_UNKNOWN

/-- A node knows another one's distance or nothing of it. -/
def Truthful : Prop := ∀ u v, N.Declared u v → distanceOf (N.node v) (N.node u).identity = (N.node u).ownDistance

/-- No node forgets the question. -/
def Remembers (dest tag : Bytes) (s : Net V) (op : NetOp V) : Prop :=
  ∀ v, dest ++ tag ∈ (s.node v).discoveryPrTags → dest ++ tag ∈ ((N.step s op).node v).discoveryPrTags

/-- The node has heard these bytes on the interface. -/
def Heard (s : Net V) (v : V) (iface data : Bytes) : Prop :=
  ∃ i ∈ (N.node v).interfaces, keyOf i = iface ∧
    ((∃ a ∈ N.originals, a.audience v i.hash ∧ a.data = data) ∨
      ∃ u, ∃ x ∈ s.sent u, N.reaches u x.iface v i.hash ∧ x.data = data)

def origin (s : Net V) (v : V) : Origin := fun dest tag iface asker =>
  ∃ data, N.Heard s v iface data ∧ Question.parse data = some ⟨dest, asker, tag⟩

end Network

-- ---------------------------------------------------------------------------
-- Every step
-- ---------------------------------------------------------------------------

variable {V : Type*} [DecidableEq V] {N : Network V} {s s' : Net V} {v u : V} {op : NetOp V} {ops : List (NetOp V)}
  {dest tag data key : Bytes} {t : Transition State Sent} {x y : Sent} {i : Interface} {e : Env}

/-- Every node's account is in order. -/
def Accounts (N : Network V) (dest tag : Bytes) (s : Net V) : Prop :=
  ∀ v, Account (N.node v) (N.origin s v) dest tag (s.sent v) (s.node v)

theorem sent_act : x ∈ s.sent u → x ∈ (Network.act s v t).sent u := by
  intro hx
  by_cases hu : u = v
  · subst hu
    simp [Network.act, hx]
  · simpa [Network.act, hu] using hx

theorem origin_act (w : V) (d t' iface asker : Bytes) (h : N.origin s w d t' iface asker) :
    N.origin (Network.act s v t) w d t' iface asker := by
  obtain ⟨data, ⟨i, hi, hk, hheard⟩, hp⟩ := h
  refine ⟨data, ⟨i, hi, hk, hheard.imp id ?_⟩, hp⟩
  rintro ⟨u, x, hx, hr, hd⟩
  exact ⟨u, x, sent_act hx, hr, hd⟩

/-- One node's step. -/
theorem Accounts.act (h : Accounts N dest tag s)
    (hv : Account (N.node v) (N.origin s v) dest tag (s.sent v ++ (t (s.node v)).2) (t (s.node v)).1) :
    Accounts N dest tag (Network.act s v t) := by
  intro w
  by_cases hw : w = v
  · subst hw
    have hnode : (Network.act s w t).node w = (t (s.node w)).1 := Function.update_self ..
    have hsent : (Network.act s w t).sent w = s.sent w ++ (t (s.node w)).2 := Function.update_self ..
    rw [hnode, hsent]
    exact hv.mono (origin_act w)
  · have hnode : (Network.act s v t).node w = s.node w := Function.update_of_ne hw ..
    have hsent : (Network.act s v t).sent w = s.sent w := Function.update_of_ne hw ..
    rw [hnode, hsent]
    exact (h w).mono (origin_act w)

omit [DecidableEq V] in
/-- A full hash is passed on as it is. -/
theorem Accounts.full (h : Accounts N dest tag s) (hx : x ∈ s.sent u) {q : Question}
    (hp : Question.parse x.data = some q) : isLabel q.dest = false := by
  obtain ⟨-, d, t, hs, hf, hdata, -⟩ := (h u).logged x hx
  rw [hdata, parse_pathRequestData hs] at hp
  cases hp
  exact hf

theorem Accounts.hear (h : Accounts N dest tag s) (hi : i ∈ (N.node v).interfaces)
    (hfull : ∀ q, Question.parse data = some q → isLabel q.dest = false) (hheard : N.Heard s v (keyOf i) data) :
    Accounts N dest tag (Network.act s v (pathRequestHandler (N.node v) e i data)) :=
  h.act ((h v).hear hi hfull fun _ hp => ⟨data, hheard, hp⟩)

theorem Accounts.step (hN : N.Full) (h : Accounts N dest tag s) (hop : N.Remembers dest tag s op) :
    Accounts N dest tag (N.step s op) := by
  cases op with
  | original k v on e =>
    simp only [Network.step]
    split
    · next a i ha hi =>
      split
      · next haud =>
        have hmem := List.mem_of_getElem? ha
        exact h.hear (List.mem_of_getElem? hi) (hN a hmem)
          ⟨i, List.mem_of_getElem? hi, rfl, .inl ⟨a, hmem, haud, rfl⟩⟩
      · exact h
    · exact h
  | hear u k v on e =>
    simp only [Network.step]
    split
    · next x i hx hi =>
      split
      · next hreach =>
        have hmem := List.mem_of_getElem? hx
        exact h.hear (List.mem_of_getElem? hi) (fun q hp => h.full hmem hp)
          ⟨i, List.mem_of_getElem? hi, rfl, .inr ⟨u, x, hmem, hreach, rfl⟩⟩
      · exact h
    · exact h
  | timers v e =>
    refine h.act ((h v).keep (timers_spends _ _ _) fun hm => ?_)
    rwa [timers_tags]
  | cull v maxPrTags =>
    refine h.act ((h v).keep (.nothing rfl) fun hm => ?_)
    have hkept := hop v hm
    simpa [Network.step, Network.act] using hkept

omit [DecidableEq V] in
theorem accounts_initial (N : Network V) (dest tag : Bytes) : Accounts N dest tag {} :=
  fun v => Account.initial (N.node v) _ dest tag

-- ---------------------------------------------------------------------------
-- How often a question is asked
-- ---------------------------------------------------------------------------

/-- The question. -/
def asks (dest tag : Bytes) (x : Sent) : Bool := (Question.parse x.data).any fun q => q.dest = dest ∧ q.tag = tag

omit [DecidableEq V] in
/-- No interface is asked twice. -/
theorem Accounts.asked_once (h : Accounts N dest tag s) (v : V) (i : Interface) :
    (s.sent v).countP (fun x => x.iface = i.hash ∧ asks dest tag x) ≤ 1 := by
  have hone := (h v).once (keyOf i)
  have hmono : (s.sent v).countP (fun x => x.iface = i.hash ∧ asks dest tag x) ≤
      (s.sent v).countP (carries dest tag (keyOf i)) := by
    refine List.countP_mono_left fun x _ hx => ?_
    obtain ⟨hi, hasks⟩ := of_decide_eq_true hx
    exact decide_eq_true ⟨congrArg (List.take DESTINATION_LENGTH) hi, hasks⟩
  unfold load at hone
  omega

omit [DecidableEq V] in
/-- A node asks no more often than it has interfaces. -/
theorem Accounts.asked_le (h : Accounts N dest tag s) (v : V) :
    (s.sent v).countP (asks dest tag) ≤ (N.node v).interfaces.length := by
  have hnodup : (((s.sent v).filter (asks dest tag)).map fun x => x.iface.take DESTINATION_LENGTH).Nodup := by
    rw [List.nodup_iff_count_le_one]
    intro key
    rw [List.count_eq_countP, List.countP_map, List.countP_filter]
    have hone := (h v).once key
    have hmono : (s.sent v).countP (fun x => ((fun a => a == key) ∘ fun x => x.iface.take DESTINATION_LENGTH) x &&
        asks dest tag x) ≤ (s.sent v).countP (carries dest tag key) := by
      refine List.countP_mono_left fun x _ hx => ?_
      obtain ⟨hk, hasks⟩ := Bool.and_eq_true_iff.1 hx
      exact decide_eq_true ⟨eq_of_beq hk, hasks⟩
    unfold load at hone
    omega
  have hsub : ((s.sent v).filter (asks dest tag)).map (fun x => x.iface.take DESTINATION_LENGTH) ⊆
      (N.node v).interfaces.map keyOf := by
    intro key hkey
    obtain ⟨x, hx, rfl⟩ := List.mem_map.1 hkey
    obtain ⟨⟨i, hi, hhash⟩, -⟩ := (h v).logged x (List.mem_of_mem_filter hx)
    exact List.mem_map.2 ⟨i, hi, by rw [keyOf, hhash]⟩
  have hle := (hnodup.subperm hsub).length_le
  rwa [List.length_map, List.length_map, ← List.countP_eq_length_filter] at hle

-- ---------------------------------------------------------------------------
-- Chains of repeats
-- ---------------------------------------------------------------------------

/-- `b` is the question `a` repeated on the radio on which its node heard the other one's. -/
structure RepeatOf (N : Network V) (a b : V × Sent) : Prop where
  repeats : ∃ r, b.2.repeated = some r ∧ r.asker = some (N.node a.1).identity
  reaches : N.reaches a.1 a.2.iface b.1 b.2.iface

instance (N : Network V) (a b : V × Sent) : Decidable (RepeatOf N a b) :=
  decidable_of_iff (b.2.repeated.bind (·.asker) = some (N.node a.1).identity ∧
      N.reaches a.1 a.2.iface b.1 b.2.iface = true) <| by
    rw [Option.bind_eq_some_iff]
    exact ⟨fun h => ⟨h.1, h.2⟩, fun h => ⟨h.repeats, h.reaches⟩⟩

instance (N : Network V) (u v : V) : Decidable (N.Declared u v) := inferInstanceAs (Decidable (_ ≠ _))

/-- Repeats of the question, each after the first of the one before it. -/
structure RepeatChain (N : Network V) (s : Net V) (dest tag : Bytes) (c : List (V × Sent)) : Prop where
  repeats : ∀ a ∈ c, a.2 ∈ s.sent a.1 ∧ asks dest tag a.2 ∧ a.2.repeated.isSome
  linked : c.IsChain (RepeatOf N)

omit [DecidableEq V] in
/-- A repeating node is not a gateway and has one. -/
theorem Accounts.repeater (h : Accounts N dest tag s) (hx : x ∈ s.sent v) (hr : x.repeated.isSome) :
    0 < (N.node v).ownDistance ∧ (N.node v).ownDistance < DISTANCE_NONE := by
  obtain ⟨r, hr⟩ := Option.isSome_iff_exists.1 hr
  obtain ⟨-, d, t, -, -, -, hsound⟩ := (h v).logged x hx
  exact ⟨(hsound r hr).1.positive, (hsound r hr).1.reachable⟩

omit [DecidableEq V] in
/-- A repeating node is closer than an asker whose distance it knows. -/
theorem Accounts.closer {a b : V × Sent} (h : Accounts N dest tag s) (ht : N.Truthful) (hb : b.2 ∈ s.sent b.1)
    (hab : RepeatOf N a b) (hd : N.Declared a.1 b.1) : (N.node b.1).ownDistance < (N.node a.1).ownDistance := by
  obtain ⟨r, hr, hasker⟩ := hab.repeats
  obtain ⟨-, d, t, -, -, -, hsound⟩ := (h b.1).logged b.2 hb
  have hcloser := (hsound r hr).1.closer
  rw [hasker, Option.getD_some, ht a.1 b.1 hd] at hcloser
  exact hcloser

omit [DecidableEq V] in
/-- What a node repeats it has heard, and on the interface it repeats it on. -/
theorem Accounts.heard (h : Accounts N dest tag s) (hx : x ∈ s.sent v) {r : PendingRepeat} (hr : x.repeated = some r) :
    ∃ data, N.Heard s v (x.iface.take DESTINATION_LENGTH) data ∧
      Question.parse data = some ⟨r.dest, r.asker.getD [], r.tag⟩ := by
  obtain ⟨-, d, t, -, -, -, hsound⟩ := (h v).logged x hx
  obtain ⟨hr, -, -, hiface⟩ := hsound r hr
  have horigin := hr.origin
  rwa [hiface] at horigin

theorem isChain_and {α : Type*} {R S : α → α → Prop} {l : List α} (hr : l.IsChain R) (hs : l.IsChain S) :
    l.IsChain fun a b => R a b ∧ S a b := by
  induction l with
  | nil => exact .nil
  | cons a l ih =>
    obtain ⟨hra, hrl⟩ := List.isChain_cons.1 hr
    obtain ⟨hsa, hsl⟩ := List.isChain_cons.1 hs
    exact List.isChain_cons.2 ⟨fun b hb => ⟨hra b hb, hsa b hb⟩, ih hrl hsl⟩

theorem length_le_of_descending {k : ℕ} {l : List ℕ} (h : l.IsChain (· > ·)) (hl : ∀ d ∈ l, 0 < d ∧ d < k) :
    l.length ≤ k - 1 := by
  have hnodup : l.Nodup := (List.isChain_iff_pairwise.1 h).imp fun hlt => hlt.ne'
  have hsub : l ⊆ List.range' 1 (k - 1) := by
    intro d hd
    obtain ⟨hpos, hlt⟩ := hl d hd
    rw [List.mem_range'_1]
    omega
  simpa using (hnodup.subperm hsub).length_le

section Chains

variable {c : List (V × Sent)}

omit [DecidableEq V] in
theorem RepeatChain.descends (h : Accounts N dest tag s) (ht : N.Truthful) (hc : RepeatChain N s dest tag c) :
    c.IsChain fun a b => N.Declared a.1 b.1 → (N.node b.1).ownDistance < (N.node a.1).ownDistance :=
  hc.linked.imp_of_mem_imp fun _ b _ hb hab hd => h.closer ht (hc.repeats b hb).1 hab hd

omit [DecidableEq V] in
/-- A chain whose askers' distances are known ends before the distance does. -/
theorem RepeatChain.length_le (h : Accounts N dest tag s) (ht : N.Truthful) (hc : RepeatChain N s dest tag c)
    (hd : c.IsChain fun a b => N.Declared a.1 b.1) : c.length ≤ Gateway.RNSD_GW_NONE - 1 := by
  have hdown : c.IsChain fun a b => (N.node a.1).ownDistance > (N.node b.1).ownDistance :=
    (isChain_and (hc.descends h ht) hd).imp fun _ _ hab => hab.1 hab.2
  have hle := length_le_of_descending (k := DISTANCE_NONE) ((List.isChain_map fun a : V × Sent => (N.node a.1).ownDistance).2 hdown)
    fun d hd => by
      obtain ⟨a, ha, rfl⟩ := List.mem_map.1 hd
      obtain ⟨hmem, -, hrep⟩ := hc.repeats a ha
      exact h.repeater hmem hrep
  rwa [List.length_map] at hle

end Chains

/-- In every run of a finite network in which no node forgets the question each
node asks it at most once on each interface, so that it is asked no more often
than there are interfaces. What is repeated was heard on that interface; along
the repeats the distances fall wherever the asker's is known, and where each of
them is known there are fewer repeats than distances. -/
theorem question_dies_out [Fintype V] (N : Network V) (hfull : N.Full) (htruth : N.Truthful) (dest tag : Bytes)
    (ops : List (NetOp V)) (hops : Guarded N.step (N.Remembers dest tag) {} ops) :
    (∀ v, ∀ i ∈ (N.node v).interfaces,
      ((run N.step {} ops).sent v).countP (fun x => x.iface = i.hash ∧ asks dest tag x) ≤ 1) ∧
    ∑ v, ((run N.step {} ops).sent v).countP (asks dest tag) ≤ ∑ v, (N.node v).interfaces.length ∧
    (∀ v, ∀ x ∈ (run N.step {} ops).sent v, ∀ r, x.repeated = some r →
      ∃ data, N.Heard (run N.step {} ops) v (x.iface.take DESTINATION_LENGTH) data ∧
        Question.parse data = some ⟨r.dest, r.asker.getD [], r.tag⟩) ∧
    ∀ c, RepeatChain N (run N.step {} ops) dest tag c →
      (c.IsChain fun a b => N.Declared a.1 b.1 → (N.node b.1).ownDistance < (N.node a.1).ownDistance) ∧
      ((c.IsChain fun a b => N.Declared a.1 b.1) → c.length ≤ Gateway.RNSD_GW_NONE - 1) := by
  have h : Accounts N dest tag (run N.step {} ops) :=
    hops.invariant (fun _ _ h hop => h.step hfull hop) (accounts_initial N dest tag)
  refine ⟨fun v i _ => h.asked_once v i, ?_, fun v x hx r hr => h.heard hx hr, fun c hc => ⟨hc.descends h htruth, ?_⟩⟩
  · exact Finset.sum_le_sum fun v _ => h.asked_le v
  · exact hc.length_le h htruth

-- ---------------------------------------------------------------------------
-- A row of nodes on one radio
-- ---------------------------------------------------------------------------

theorem pathRequestHandler_tags {n : Node} (st : State) {b : Bytes} (h : b ∈ st.discoveryPrTags) :
    b ∈ (pathRequestHandler n e i data st).1.discoveryPrTags := by
  unfold pathRequestHandler
  cases Question.parse data with
  | none => exact h
  | some q =>
    simp only
    split
    · exact h
    · rw [pathRequest_tags]
      exact List.mem_append_left _ h

theorem known_act (ht : ∀ st : State, data ∈ st.discoveryPrTags → data ∈ (t st).1.discoveryPrTags)
    (h : data ∈ (s.node v).discoveryPrTags) : data ∈ ((Network.act s u t).node v).discoveryPrTags := by
  by_cases hv : v = u
  · subst hv
    simpa [Network.act] using ht _ h
  · simpa [Network.act, hv] using h

/-- Only a cull makes a node forget. -/
theorem remembers_unless_cull (h : ∀ v m, op ≠ .cull v m) (s : Net V) : N.Remembers dest tag s op := by
  intro v hv
  cases op with
  | original k w on e =>
    simp only [Network.step]
    split
    · split
      · exact known_act (fun st => pathRequestHandler_tags st) hv
      · exact hv
    · exact hv
  | hear u k w on e =>
    simp only [Network.step]
    split
    · split
      · exact known_act (fun st => pathRequestHandler_tags st) hv
      · exact hv
    · exact hv
  | timers w e => exact known_act (fun st hst => by rwa [timers_tags]) hv
  | cull w m => exact absurd rfl (h w m)

def radio : Interface :=
  { hash := .replicate 32 1, mode := .accessPoint, out := true, bitrate := 1200, announceCap := 0
    communityRadius := 8, pointToPoint := false }

def distances : List ℕ := [7, 6, 5, 4, 3, 2, 1, 7, 6, 5]

def idOf (v : ℕ) : Bytes := .replicate 16 (.ofNat (v + 1))

/-- Each hears the one before it; the distance of the seventh is not known. -/
def row : Network (Fin 10) where
  node v :=
    { identity := idOf v, sized := by simp [idOf, DESTINATION_LENGTH], interfaces := [radio], apart := by simp
      ownDistance := distances.getD v 0
      declared := fun id => if id = idOf 6 then DISTANCE_UNKNOWN else distances.getD (id.byte 0 - 1) 0 }
  reaches u _ v _ := u.val + 1 = v.val
  originals := [{ data := .replicate 16 9 ++ [1], audience := fun v _ => v = 0 }]

/-- A node hears the question and, its time come, repeats it. -/
def passOn (v : Fin 10) : List (NetOp (Fin 10)) :=
  [if v = 0 then .original 0 0 0 { now := 0 } else .hear (v - 1) 0 v 0 { now := 0 }, .timers v { now := 9 }]

def downRow : List (NetOp (Fin 10)) := (List.finRange 10).flatMap passOn

def passed (v : Fin 10) : Sent :=
  { iface := radio.hash, data := pathRequestData (row.node v) (.replicate 16 9) [1]
    repeated := some
      { dest := .replicate 16 9, tag := [1], iface := .replicate 16 1
        asker := if v = 0 then none else some (idOf (v.val - 1)), due := distances.getD v 0, used := true } }

theorem row_sent : ∀ v, (run row.step {} downRow).sent v = [passed v] := by decide +kernel

theorem row_full : row.Full := by
  intro a ha q hq
  obtain rfl := List.mem_singleton.1 ha
  have hparse : Question.parse (.replicate 16 9 ++ [1]) = some ⟨.replicate 16 9, [], [1]⟩ := by decide
  cases hparse.symm.trans hq
  decide

theorem row_truthful : row.Truthful := by
  unfold Network.Truthful Network.Declared
  decide

theorem row_remembers : Guarded row.step (row.Remembers (.replicate 16 9) [1]) {} downRow := by
  refine guarded_of_forall fun op hop s => remembers_unless_cull (fun w m => ?_) s
  rintro rfl
  obtain ⟨v, -, hv⟩ := List.mem_flatMap.1 hop
  simp only [passOn, List.mem_cons, reduceCtorEq, List.not_mem_nil, or_false] at hv
  split at hv <;> cases hv

/-- The question goes down the row, and in the end has been repeated by all of them. -/
theorem row_chain : RepeatChain row (run row.step {} downRow) (.replicate 16 9) [1]
    ((List.finRange 10).map fun v => (v, passed v)) := by
  constructor
  · intro a ha
    obtain ⟨v, -, rfl⟩ := List.mem_map.1 ha
    refine ⟨?_, ?_, rfl⟩
    · rw [row_sent v]
      exact List.mem_singleton_self _
    · revert v
      decide
  · decide

theorem question_dies_out_row :
    (∀ v, ∀ i ∈ (row.node v).interfaces,
      ((run row.step {} downRow).sent v).countP
        (fun x => x.iface = i.hash ∧ asks (.replicate 16 9) [1] x) ≤ 1) ∧
    ∑ v, ((run row.step {} downRow).sent v).countP (asks (.replicate 16 9) [1]) ≤
      ∑ v, (row.node v).interfaces.length ∧
    (∀ v, ∀ x ∈ (run row.step {} downRow).sent v, ∀ r, x.repeated = some r →
      ∃ data, row.Heard (run row.step {} downRow) v (x.iface.take DESTINATION_LENGTH) data ∧
        Question.parse data = some ⟨r.dest, r.asker.getD [], r.tag⟩) ∧
    ∀ c, RepeatChain row (run row.step {} downRow) (.replicate 16 9) [1] c →
      (c.IsChain fun a b => row.Declared a.1 b.1 → (row.node b.1).ownDistance < (row.node a.1).ownDistance) ∧
      ((c.IsChain fun a b => row.Declared a.1 b.1) → c.length ≤ Gateway.RNSD_GW_NONE - 1) :=
  question_dies_out row row_full row_truthful (.replicate 16 9) [1] downRow row_remembers

/-- Nine of the ten are known to every node, and their repeats make one chain. -/
theorem declared_repeats_exceed :
    ¬ ∀ (N : Network (Fin 10)) (dest tag : Bytes) (ops : List (NetOp (Fin 10))), N.Full → N.Truthful →
      Guarded N.step (N.Remembers dest tag) {} ops → ∀ c, RepeatChain N (run N.step {} ops) dest tag c →
        (c.filter fun a => ∀ v, N.Declared a.1 v).length ≤ Gateway.RNSD_GW_NONE := by
  intro h
  have hle := h row _ _ downRow row_full row_truthful row_remembers _ row_chain
  revert hle
  decide

end MicroReticulum.Questions
