import MicroReticulum.Transport.Questions

/-!
# A question is asked once

The first time a node hears a question it owes it to each of its interfaces at
most once: asked at once on the others, pending or never to be asked on the one
it came in on. Nothing later adds to that, and a repeat that goes out is one
that was pending.
-/

namespace MicroReticulum.Questions

open Lib Lib.Log Lib.Log.Transition Interfaces Wire

def keyOf (i : Interface) : Bytes := i.hash.take DESTINATION_LENGTH

/-- The question went out on the interface. -/
def carries (dest tag key : Bytes) (x : Sent) : Bool :=
  x.iface.take DESTINATION_LENGTH = key ∧ (Question.parse x.data).any fun q => q.dest = dest ∧ q.tag = tag

/-- The question waits to go out on the interface. -/
def pends (dest tag key : Bytes) (r : PendingRepeat) : Bool :=
  r.used ∧ r.dest = dest ∧ r.tag = tag ∧ r.iface = key

/-- What is known of the hearing of a destination's question with a tag, on an
interface and from an asker. -/
abbrev Origin := Bytes → Bytes → Bytes → Bytes → Prop

/-- A repeat as `repeat_schedule` writes it, of a question with a full hash: the
node is closer to a gateway than the asker. -/
structure PendingRepeat.Sound (n : Node) (P : Origin) (r : PendingRepeat) : Prop where
  sized : Sized r.dest r.tag
  full : isLabel r.dest = false
  positive : 0 < n.ownDistance
  reachable : n.ownDistance < DISTANCE_NONE
  closer : n.ownDistance < distanceOf n (r.asker.getD [])
  origin : P r.dest r.tag r.iface (r.asker.getD [])

def State.Sound (n : Node) (P : Origin) (s : State) : Prop := ∀ r ∈ s.repeats, r.used → r.Sound n P

/-- A question goes out on an interface, with a full hash, and back where it was heard
only as a repeat. -/
def Sent.Sound (n : Node) (P : Origin) (x : Sent) : Prop :=
  (∃ i ∈ n.interfaces, x.iface = i.hash) ∧ ∃ d t, Sized d t ∧ isLabel d = false ∧ x.data = pathRequestData n d t ∧
    ∀ r, x.repeated = some r → r.Sound n P ∧ r.dest = d ∧ r.tag = t ∧ r.iface = x.iface.take DESTINATION_LENGTH

/-- What is sent and what is left pending of a question is at most what was
pending and so much for each interface. -/
def Spends (n : Node) (P : Origin) (dest tag : Bytes) (b : Bytes → ℕ) (s s' : State) (log : List Sent) : Prop :=
  s.Sound n P → s'.Sound n P ∧ (∀ x ∈ log, x.Sound n P) ∧
    ∀ key, log.countP (carries dest tag key) + s'.repeats.countP (pends dest tag key)
      ≤ s.repeats.countP (pends dest tag key) + b key

variable {n : Node} {e : Env} {i on : Interface} {dest tag d t key data requestor : Bytes} {s s' s₁ s₂ s₃ : State}
  {log log₁ log₂ : List Sent} {k : ℕ} {q : Question} {rs : List PendingRepeat} {r : PendingRepeat}
  {b b₁ b₂ : Bytes → ℕ} {P P' : Origin}

theorem Spends.refl : Spends n P dest tag 0 s s [] := fun h => ⟨h, by simp, by simp⟩

theorem Spends.trans (h₁ : Spends n P dest tag b₁ s₁ s₂ log₁) (h₂ : Spends n P dest tag b₂ s₂ s₃ log₂) :
    Spends n P dest tag (b₁ + b₂) s₁ s₃ (log₁ ++ log₂) := by
  intro hs
  obtain ⟨hs₂, hlog₁, hb₁⟩ := h₁ hs
  obtain ⟨hs₃, hlog₂, hb₂⟩ := h₂ hs₂
  refine ⟨hs₃, fun x hx => ?_, fun key => ?_⟩
  · rcases List.mem_append.1 hx with hx | hx
    · exact hlog₁ x hx
    · exact hlog₂ x hx
  · have h₁ := hb₁ key
    have h₂ := hb₂ key
    rw [List.countP_append, Pi.add_apply]
    omega

theorem Spends.mono (h : Spends n P dest tag b₁ s s' log) (hb : b₁ ≤ b₂) : Spends n P dest tag b₂ s s' log := by
  intro hs
  obtain ⟨hs', hlog, hle⟩ := h hs
  exact ⟨hs', hlog, fun key => (hle key).trans (Nat.add_le_add_left (hb key) _)⟩

/-- Only the repeats matter. -/
theorem Spends.after (h : Spends n P dest tag b s₂ s₃ log) (hr : s₂.repeats = s₁.repeats) :
    Spends n P dest tag b s₁ s₃ log := by
  unfold Spends State.Sound at *
  rwa [← hr]

theorem Spends.nothing (h : s'.repeats = s.repeats) : Spends n P dest tag b s s' [] :=
  (Spends.refl.after h).mono fun _ => Nat.zero_le _

theorem Spends.all {α : Type*} {f : α → Transition State Sent} {c : α → Bytes → ℕ} {l : List α}
    (h : ∀ a ∈ l, ∀ s, Spends n P dest tag (c a) s (f a s).1 (f a s).2) (s : State) :
    Spends n P dest tag (l.map c).sum s (all (l.map f) s).1 (all (l.map f) s).2 := by
  induction l generalizing s with
  | nil => exact .refl
  | cons a l ih =>
    exact (h a (by simp) s).trans (ih (fun c hc => h c (List.mem_cons_of_mem _ hc)) _)

-- ---------------------------------------------------------------------------
-- Asking
-- ---------------------------------------------------------------------------

/-- One on this interface, if it is the question. -/
def once (dest tag d t key : Bytes) : Bytes → ℕ := fun k => if d = dest ∧ t = tag ∧ key = k then 1 else 0

theorem ite_le_once {c : Prop} [Decidable c] {k : Bytes} (h : c → d = dest ∧ t = tag ∧ key = k) :
    (if c then 1 else 0) ≤ once dest tag d t key k := by
  by_cases hc : c
  · rw [if_pos hc, once, if_pos (h hc)]
  · rw [if_neg hc]
    exact Nat.zero_le _

theorem carries_sent (h : Sized d t) {repeated : Option PendingRepeat} :
    carries dest tag key ⟨i.hash, pathRequestData n d t, repeated⟩ = true ↔ d = dest ∧ t = tag ∧ keyOf i = key := by
  simp only [carries, parse_pathRequestData h, Option.any_some, keyOf, Bool.decide_and, Bool.and_eq_true,
    decide_eq_true_eq]
  constructor
  · rintro ⟨hk, hd, ht⟩
    exact ⟨hd, ht, hk⟩
  · rintro ⟨hd, ht, hk⟩
    exact ⟨hk, hd, ht⟩

theorem send_spends (h : Sized d t) (hf : isLabel d = false) (hi : i ∈ n.interfaces) {repeated : Option PendingRepeat}
    (hr : ∀ r, repeated = some r → r.Sound n P ∧ r.dest = d ∧ r.tag = t ∧ r.iface = keyOf i) (s : State) :
    Spends n P dest tag (once dest tag d t (keyOf i)) s (send n i d t repeated s).1 (send n i d t repeated s).2 := by
  intro hs
  refine ⟨hs, fun x hx => ?_, fun key => ?_⟩
  · unfold send at hx
    split at hx
    · obtain rfl := List.mem_singleton.1 hx
      exact ⟨⟨i, hi, rfl⟩, d, t, h, hf, rfl, hr⟩
    · simp at hx
  · unfold send
    split
    · simp only [List.countP_singleton, carries_sent h, once]
      omega
    · simp

theorem requestPath_spends (h : Sized d t) (hf : isLabel d = false) (hi : i ∈ n.interfaces) {repeated : Option PendingRepeat}
    (hr : ∀ r, repeated = some r → r.Sound n P ∧ r.dest = d ∧ r.tag = t ∧ r.iface = keyOf i) (recursive : Bool)
    (s : State) :
    Spends n P dest tag (once dest tag d t (keyOf i)) s (requestPath n e i d t recursive repeated s).1
      (requestPath n e i d t recursive repeated s).2 := by
  unfold requestPath
  split
  · exact .nothing rfl
  · split
    · split
      · exact .nothing rfl
      · split
        · exact .nothing rfl
        · exact (send_spends h hf hi hr _).after rfl
    · exact send_spends h hf hi hr s

/-- Interfaces with other hashes have other keys. -/
theorem keyOf_ne (hon : on ∈ n.interfaces) (hi : i ∈ n.interfaces) (hne : i.hash ≠ on.hash) : keyOf i ≠ keyOf on := by
  intro hk
  have heq := List.inj_on_of_nodup_map n.apart hi hon hk
  exact hne (congrArg Interface.hash heq)

theorem sum_once_le {is : List Interface} (h : (is.map keyOf).Nodup) :
    (is.map fun i => once dest tag d t (keyOf i)).sum key ≤
      if d = dest ∧ t = tag ∧ key ∈ is.map keyOf then 1 else 0 := by
  induction is with
  | nil => simp
  | cons i is ih =>
    obtain ⟨hnew, hrest⟩ := List.nodup_cons.1 h
    have hle := ih hrest
    rw [List.map_cons, List.sum_cons, Pi.add_apply]
    by_cases hi : keyOf i = key
    · subst hi
      rw [if_neg fun hm => hnew hm.2.2] at hle
      simp only [once, List.map_cons, List.mem_cons, true_or, and_true]
      omega
    · have hzero : once dest tag d t (keyOf i) key = 0 := if_neg fun hm => hi hm.2.2
      rw [hzero, zero_add]
      simpa [Ne.symm hi] using hle

/-- The others are asked once each. -/
theorem forward_spends (h : Sized d t) (hf : isLabel d = false) (hon : on ∈ n.interfaces) (s : State) :
    Spends n P dest tag (fun key => if d = dest ∧ t = tag ∧ keyOf on ≠ key then 1 else 0) s
      (forward n e on d t s).1 (forward n e on d t s).2 := by
  have hall : Spends n P dest tag ((n.interfaces.filter fun i => i.hash ≠ on.hash).map fun i =>
      once dest tag d t (keyOf i)).sum s (forward n e on d t s).1 (forward n e on d t s).2 :=
    Spends.all (fun i hi s => requestPath_spends h hf (List.mem_of_mem_filter hi) (by simp) true s) s
  refine hall.mono fun key => ?_
  have hnodup : ((n.interfaces.filter fun i => i.hash ≠ on.hash).map keyOf).Nodup :=
    n.apart.sublist (List.filter_sublist.map keyOf)
  refine (sum_once_le hnodup).trans ?_
  split
  · next hq =>
    obtain ⟨i, hi, hkey⟩ := List.mem_map.1 hq.2.2
    obtain ⟨hi, hne⟩ := List.mem_filter.1 hi
    have hkne : keyOf on ≠ key := by
      rw [← hkey]
      exact (keyOf_ne hon hi (of_decide_eq_true hne)).symm
    rw [if_pos ⟨hq.1, hq.2.1, hkne⟩]
  · exact Nat.zero_le _

-- ---------------------------------------------------------------------------
-- Repeats
-- ---------------------------------------------------------------------------

/-- A slot written over leaves at most its own question behind. -/
theorem countP_set_le_add {α : Type*} {p : α → Bool} {l : List α} {x : α} :
    (l.set k x).countP p ≤ l.countP p + if p x then 1 else 0 := by
  by_cases hk : k < l.length
  · rw [List.countP_set hk]
    omega
  · rw [List.set_eq_of_length_le (not_lt.1 hk)]
    omega

theorem repeatSchedule_cases (e : Env) (on : Interface) (d t requestor : Bytes) (delay : ℚ) (rs : List PendingRepeat) :
    repeatSchedule e on d t requestor delay rs = rs ∨ ∃ k, repeatSchedule e on d t requestor delay rs = rs.set k
      { dest := d, tag := t.left DESTINATION_LENGTH, iface := on.hash.left DESTINATION_LENGTH
        asker := if DESTINATION_LENGTH ≤ requestor.length then some (requestor.left DESTINATION_LENGTH) else none
        due := e.now + delay, used := true } := by
  unfold repeatSchedule
  split
  · exact .inl rfl
  · split
    · exact .inl rfl
    · simp only
      split
      · exact .inl rfl
      · exact .inr ⟨_, rfl⟩

/-- The repeat is pending where the question came in. -/
theorem schedule_spends (h : Sized d t) (hf : isLabel d = false) (hn : repeats n on requestor = true)
    (hreq : requestor.length = DESTINATION_LENGTH ∨ requestor = []) (ho : P d t (keyOf on) requestor) (delay : ℚ) (s : State) :
    Spends n P dest tag (once dest tag d t (keyOf on)) s
      { s with repeats := repeatSchedule e on d t requestor delay s.repeats } [] := by
  intro hs
  obtain heq | ⟨k, heq⟩ := repeatSchedule_cases e on d t requestor delay s.repeats
  · rw [heq]
    exact Spends.nothing rfl hs
  · rw [heq]
    have htag : t.left DESTINATION_LENGTH = t := List.take_of_length_le h.tag_le
    refine ⟨fun r hr hu => ?_, by simp, fun key => ?_⟩
    · obtain rfl | hr := Slots.mem_set_cases hr
      · simp only [repeats, decide_eq_true_eq] at hn
        obtain ⟨-, -, hpos, hreach, hclose⟩ := hn
        have hasker : (if DESTINATION_LENGTH ≤ requestor.length then some (requestor.left DESTINATION_LENGTH)
            else none).getD [] = requestor := by
          obtain hlen | rfl := hreq
          · have hself : requestor.left DESTINATION_LENGTH = requestor := List.take_of_length_le hlen.le
            simp [hlen, hself]
          · simp [DESTINATION_LENGTH]
        refine ⟨by rwa [htag], hf, hpos, hreach, ?_, ?_⟩
        · rwa [hasker]
        · rw [hasker, htag]
          exact ho
      · exact hs r hr hu
    · rw [List.countP_nil, zero_add]
      refine countP_set_le_add.trans (Nat.add_le_add_left ?_ _)
      refine ite_le_once fun hp => ?_
      obtain ⟨-, hd, ht, hk⟩ := of_decide_eq_true hp
      exact ⟨hd, htag.symm.trans ht, hk⟩

theorem heard_spends (s : State) :
    Spends n P dest tag 0 s { s with repeats := repeatHeard n d t requestor s.repeats } [] := by
  unfold repeatHeard
  split
  · exact .nothing rfl
  · next k hk =>
    simp only
    split
    · intro hs
      obtain ⟨r, hr, -, -⟩ := Slots.find_eq_some hk
      have hset : s.repeats.modify k ({ · with used := false }) = s.repeats.set k { r with used := false } := by
        rw [List.modify_eq_set_getElem?, hr]
        rfl
      rw [hset]
      refine ⟨fun c hc hu => ?_, by simp, fun key => ?_⟩
      · obtain rfl | hc := Slots.mem_set_cases hc
        · simp at hu
        · exact hs c hc hu
      · rw [List.countP_nil, zero_add]
        exact countP_set_le_add.trans (by simp [pends])
    · exact .nothing rfl

-- ---------------------------------------------------------------------------
-- Hearing, timers
-- ---------------------------------------------------------------------------

theorem noteRepeat_spends (h : Sized d t) (hf : isLabel d = false)
    (hreq : requestor.length = DESTINATION_LENGTH ∨ requestor = []) (ho : P d t (keyOf on) requestor) (s : State) :
    Spends n P dest tag (once dest tag d t (keyOf on)) s (noteRepeat n e on d t requestor s) [] := by
  unfold noteRepeat
  split
  · next hn => exact schedule_spends h hf hn hreq ho _ s
  · exact .nothing rfl

theorem search_spends (h : Sized d t) (hf : isLabel d = false) (hon : on ∈ n.interfaces) (s : State) :
    Spends n P dest tag (fun key => if d = dest ∧ t = tag ∧ keyOf on ≠ key then 1 else 0) s
      (search n e on d t requestor s).1 (search n e on d t requestor s).2 := by
  unfold search
  split
  · exact .nothing rfl
  · exact (forward_spends h hf hon _).after rfl

/-- Altogether an interface is asked once, or to be asked. -/
theorem pathRequest_spends (h : Sized d t) (hf : isLabel d = false) (hon : on ∈ n.interfaces)
    (hreq : requestor.length = DESTINATION_LENGTH ∨ requestor = []) (ho : P d t (keyOf on) requestor) (s : State) :
    Spends n P dest tag (fun _ => if d = dest ∧ t = tag then 1 else 0) s (pathRequest n e on d t requestor s).1
      (pathRequest n e on d t requestor s).2 := by
  by_cases hans : answers n e d ∨ ¬ searches n on
  · rw [pathRequest, if_pos hans]
    exact .nothing rfl
  · rw [pathRequest, if_neg hans, quiet_andThen]
    -- once where it came in, and once on each of the others
    refine ((noteRepeat_spends h hf hreq ho s).trans (search_spends h hf hon _)).mono fun key => ?_
    rw [Pi.add_apply, once]
    split_ifs <;> simp_all

theorem countP_set_out {α : Type*} {p : α → Bool} {l : List α} {a x : α} (ha : l[k]? = some a) (hx : p x = false) :
    (l.set k x).countP p + (if p a then 1 else 0) = l.countP p := by
  obtain ⟨hk, rfl⟩ := List.getElem?_eq_some_iff.1 ha
  rw [List.countP_set hk, hx]
  split
  · next hp =>
    have hpos : 0 < l.countP p := List.countP_pos_iff.2 ⟨_, List.getElem_mem hk, hp⟩
    simp only [Bool.false_eq_true, if_false]
    omega
  · simp

/-- The slot of a repeat that is taken pays for sending it. -/
theorem Spends.pay (hr : s.repeats[k]? = some r) (hu : r.used = true)
    (h : Spends n P dest tag (once dest tag r.dest r.tag r.iface)
      { s with repeats := s.repeats.set k { r with used := false } } s' log) : Spends n P dest tag 0 s s' log := by
  intro hs
  have hkept : ({ s with repeats := s.repeats.set k { r with used := false } } : State).Sound n P := by
    intro c hc huc
    obtain rfl | hc := Slots.mem_set_cases hc
    · simp at huc
    · exact hs c hc huc
  obtain ⟨hs', hlog, hle⟩ := h hkept
  refine ⟨hs', hlog, fun key => (hle key).trans ?_⟩
  have hout : (s.repeats.set k { r with used := false }).countP (pends dest tag key) +
      (if pends dest tag key r then 1 else 0) = s.repeats.countP (pends dest tag key) :=
    countP_set_out hr (by simp [pends])
  have hsame : once dest tag r.dest r.tag r.iface key = if pends dest tag key r then 1 else 0 := by
    simp [once, pends, hu]
  rw [hsame]
  exact hout.le

/-- A repeat that goes out was pending on the interface. -/
theorem serve_spends (n : Node) (e : Env) (k : ℕ) (s : State) :
    Spends n P dest tag 0 s (serve n e k s).1 (serve n e k s).2 := by
  cases hr : s.repeats[k]? with
  | none =>
    simp only [serve, hr]
    exact .nothing rfl
  | some r =>
    by_cases hdue : ¬ r.used ∨ e.now < r.due
    · simp only [serve, hr, if_pos hdue]
      exact .nothing rfl
    · have hu : r.used = true := by
        rw [not_or, not_not] at hdue
        exact hdue.1
      intro hs
      have hsound := hs r (List.mem_of_getElem? hr) hu
      refine Spends.pay hr hu ?_ hs
      simp only [serve, hr, if_neg hdue]
      cases hi : findInterfaceFromHashPrefix n r.iface with
      | none => exact .nothing rfl
      | some i =>
        have hkey : keyOf i = r.iface := by simpa [keyOf] using List.find?_some hi
        by_cases hpath : hasPath n e r.dest
        · simp only [if_pos hpath]
          exact .nothing rfl
        · simp only [if_neg hpath]
          rw [← hkey]
          refine (requestPath_spends hsound.sized hsound.full (List.mem_of_find?_eq_some hi) ?_ false _).after rfl
          rintro _ ⟨⟩
          exact ⟨hsound, rfl, rfl, hkey.symm⟩

theorem timers_spends (n : Node) (e : Env) (s : State) : Spends n P dest tag 0 s (timers n e s).1 (timers n e s).2 := by
  have hall : Spends n P dest tag ((List.range PENDING_REPEATS_MAX).map fun _ => 0).sum s (timers n e s).1
      (timers n e s).2 := Spends.all (fun k _ s => serve_spends n e k s) s
  refine hall.mono ?_
  simp

-- ---------------------------------------------------------------------------
-- The tags
-- ---------------------------------------------------------------------------

theorem sameTags_composes :
    Composes fun (s s' : State) (_ : List Sent) => s'.discoveryPrTags = s.discoveryPrTags where
  refl _ := rfl
  comp h₁ h₂ := h₂.trans h₁

theorem requestPath_tags (recursive : Bool) (repeated : Option PendingRepeat) (s : State) :
    (requestPath n e i d t recursive repeated s).1.discoveryPrTags = s.discoveryPrTags := by
  unfold requestPath send
  split_ifs <;> rfl

theorem forward_tags (s : State) : (forward n e on d t s).1.discoveryPrTags = s.discoveryPrTags := by
  refine sameTags_composes.all (fun u hu => ?_) s
  obtain ⟨i, -, rfl⟩ := List.mem_map.1 hu
  exact fun s => requestPath_tags true none s

theorem pathRequest_tags (s : State) : (pathRequest n e on d t requestor s).1.discoveryPrTags = s.discoveryPrTags := by
  by_cases hans : answers n e d ∨ ¬ searches n on
  · rw [pathRequest, if_pos hans]
    rfl
  · have hnote : (noteRepeat n e on d t requestor s).discoveryPrTags = s.discoveryPrTags := by
      unfold noteRepeat
      split <;> rfl
    rw [pathRequest, if_neg hans, quiet_andThen, ← hnote]
    unfold search
    split
    · rfl
    · exact forward_tags _

theorem serve_tags (n : Node) (e : Env) (k : ℕ) (s : State) :
    (serve n e k s).1.discoveryPrTags = s.discoveryPrTags := by
  unfold serve
  cases s.repeats[k]? with
  | none => rfl
  | some r =>
    simp only
    split
    · rfl
    · cases findInterfaceFromHashPrefix n r.iface with
      | none => rfl
      | some i =>
        simp only
        split
        · rfl
        · exact requestPath_tags false (some r) _

theorem timers_tags (n : Node) (e : Env) (s : State) : (timers n e s).1.discoveryPrTags = s.discoveryPrTags := by
  refine sameTags_composes.all (fun u hu => ?_) s
  obtain ⟨k, -, rfl⟩ := List.mem_map.1 hu
  exact serve_tags n e k

-- ---------------------------------------------------------------------------
-- A node's account of the question
-- ---------------------------------------------------------------------------

/-- How often the question went out on an interface, or is to. -/
def load (dest tag key : Bytes) (log : List Sent) (s : State) : ℕ :=
  log.countP (carries dest tag key) + s.repeats.countP (pends dest tag key)

/-- A node that has not heard the question owes and has asked nothing, and no
interface is ever asked twice. -/
structure Account (n : Node) (P : Origin) (dest tag : Bytes) (log : List Sent) (s : State) : Prop where
  sound : s.Sound n P
  logged : ∀ x ∈ log, x.Sound n P
  unheard : dest ++ tag ∉ s.discoveryPrTags → ∀ key, load dest tag key log s = 0
  once : ∀ key, load dest tag key log s ≤ 1

theorem PendingRepeat.Sound.mono (h : r.Sound n P) (hw : ∀ d t iface asker, P d t iface asker → P' d t iface asker) :
    r.Sound n P' := ⟨h.sized, h.full, h.positive, h.reachable, h.closer, hw _ _ _ _ h.origin⟩

theorem Account.mono (h : Account n P dest tag log s)
    (hw : ∀ d t iface asker, P d t iface asker → P' d t iface asker) : Account n P' dest tag log s := by
  refine ⟨fun r hr hu => (h.sound r hr hu).mono hw, fun x hx => ?_, h.unheard, h.once⟩
  obtain ⟨hi, d, t, hs, hf, hdata, hr⟩ := h.logged x hx
  exact ⟨hi, d, t, hs, hf, hdata, fun r hrep => ⟨(hr r hrep).1.mono hw, (hr r hrep).2⟩⟩

theorem load_append (h : Spends n P dest tag b s s' log₂) (hs : s.Sound n P) :
    load dest tag key (log₁ ++ log₂) s' ≤ load dest tag key log₁ s + b key := by
  have hle := (h hs).2.2 key
  rw [load, load, List.countP_append]
  omega

/-- What costs nothing leaves the account in order. -/
theorem Account.keep (h : Account n P dest tag log s) (hs : Spends n P dest tag 0 s s' log₂)
    (ht : dest ++ tag ∈ s.discoveryPrTags → dest ++ tag ∈ s'.discoveryPrTags) :
    Account n P dest tag (log ++ log₂) s' := by
  obtain ⟨hsound, hlogged, -⟩ := hs h.sound
  have hle (key : Bytes) : load dest tag key (log ++ log₂) s' ≤ load dest tag key log s :=
    load_append hs h.sound
  refine ⟨hsound, fun x hx => ?_, fun hnew key => ?_, fun key => (hle key).trans (h.once key)⟩
  · exact (List.mem_append.1 hx).elim (h.logged x) (hlogged x)
  · exact Nat.le_zero.1 ((hle key).trans (h.unheard (mt ht hnew) key).le)

theorem requestor_length (h : Question.parse data = some q) :
    q.requestor.length = DESTINATION_LENGTH ∨ q.requestor = [] := by
  unfold Question.parse Question.tagged at h
  split_ifs at h with hlen htrans htag htag
  · cases h
    left
    rw [Bytes.length_mid]
    omega
  · cases h
    exact .inr rfl

/-- The first hearing of the question opens the account, and other questions do
not touch it. -/
theorem Account.hear (h : Account n P dest tag log s) (hon : on ∈ n.interfaces)
    (hfull : ∀ q, Question.parse data = some q → isLabel q.dest = false)
    (ho : ∀ q, Question.parse data = some q → P q.dest q.tag (keyOf on) q.requestor) :
    Account n P dest tag (log ++ (pathRequestHandler n e on data s).2) (pathRequestHandler n e on data s).1 := by
  cases hp : Question.parse data with
  | none =>
    simp only [pathRequestHandler, hp]
    exact h.keep (.nothing rfl) id
  | some q =>
    have hsized := parse_sized hp
    have hasked : asked e q.dest = q.dest := by simp [asked, hfull q hp]
    simp only [pathRequestHandler, hp]
    by_cases hknown : q.dest ++ q.tag ∈ s.discoveryPrTags
    · rw [if_pos hknown]
      exact h.keep (heard_spends s) id
    · rw [if_neg hknown, hasked]
      have hspends : Spends n P dest tag (fun _ => if q.dest = dest ∧ q.tag = tag then 1 else 0) s
          (pathRequest n e on q.dest q.tag q.requestor
            { s with discoveryPrTags := s.discoveryPrTags ++ [q.dest ++ q.tag] }).1
          (pathRequest n e on q.dest q.tag q.requestor
            { s with discoveryPrTags := s.discoveryPrTags ++ [q.dest ++ q.tag] }).2 :=
        (pathRequest_spends hsized (hfull q hp) hon (requestor_length hp) (ho q hp) _).after rfl
      have htags : (pathRequest n e on q.dest q.tag q.requestor
          { s with discoveryPrTags := s.discoveryPrTags ++ [q.dest ++ q.tag] }).1.discoveryPrTags =
          s.discoveryPrTags ++ [q.dest ++ q.tag] := pathRequest_tags _
      generalize pathRequest n e on q.dest q.tag q.requestor _ = res at hspends htags ⊢
      obtain ⟨hsound, hlogged, -⟩ := hspends h.sound
      have hle (key : Bytes) : load dest tag key (log ++ res.2) res.1 ≤
          load dest tag key log s + if q.dest = dest ∧ q.tag = tag then 1 else 0 := load_append hspends h.sound
      refine ⟨hsound, fun x hx => (List.mem_append.1 hx).elim (h.logged x) (hlogged x), fun hnew key => ?_, fun key => ?_⟩
      · rw [htags] at hnew
        have hold : dest ++ tag ∉ s.discoveryPrTags := fun hm => hnew (List.mem_append_left _ hm)
        have hother : ¬ (q.dest = dest ∧ q.tag = tag) := by
          rintro ⟨rfl, rfl⟩
          exact hnew (by simp)
        have hkey := hle key
        rw [if_neg hother, h.unheard hold key] at hkey
        exact Nat.le_zero.1 hkey
      · have hkey := hle key
        by_cases hsame : q.dest = dest ∧ q.tag = tag
        · obtain ⟨rfl, rfl⟩ := hsame
          rw [h.unheard hknown key] at hkey
          simpa using hkey
        · rw [if_neg hsame] at hkey
          exact hkey.trans (h.once key)

/-- A node that has just started. -/
theorem Account.initial (n : Node) (P : Origin) (dest tag : Bytes) : Account n P dest tag [] {} := by
  have hidle : ∀ r ∈ ({} : State).repeats, r.used = false := by
    intro r hr
    rw [List.eq_of_mem_replicate hr]
  have hnone (key : Bytes) : load dest tag key [] {} = 0 := by
    rw [load, List.countP_nil, zero_add, List.countP_eq_zero]
    intro r hr
    simp [pends, hidle r hr]
  refine ⟨fun r hr hu => ?_, by simp, fun _ => hnone, fun key => ?_⟩
  · simp [hidle r hr] at hu
  · rw [hnone key]
    exact Nat.zero_le 1

end MicroReticulum.Questions
