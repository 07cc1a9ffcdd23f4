import MicroReticulum.Transport.AskedOnce

/-!
# A repeat stands down

A node that has a question to repeat gives it up when one at least as close to a
gateway is heard repeating it. The repeat is scheduled under the destination the
question is for, and given up under the one it names, which for a label that
stands for a destination is another.
-/

namespace MicroReticulum.Questions

open Lib Lib.Log Lib.Log.Transition Lib.Runs Interfaces Wire

structure Listening where
  state : State := {}
  /-- Ghost: what each question taken as new named, its tag, and the destination it was for. -/
  taken : List (Bytes × Bytes × Bytes) := []

inductive ListenOp where
  | hear (e : Env) (on : Interface) (data : Bytes)
  | timers (e : Env)
  | cull (maxPrTags : ℕ)

def note (e : Env) (data : Bytes) (w : Listening) : List (Bytes × Bytes × Bytes) :=
  match Question.parse data with
  | none => w.taken
  | some q =>
    if q.dest ++ q.tag ∈ w.state.discoveryPrTags then w.taken else w.taken ++ [(q.dest, q.tag, asked e q.dest)]

def listen (n : Node) (w : Listening) : ListenOp → Listening
  | .hear e on data => { state := (pathRequestHandler n e on data w.state).1, taken := note e data w }
  | .timers e => { w with state := (timers n e w.state).1 }
  | .cull maxPrTags => { w with state := (cullTags maxPrTags w.state).1 }

def Pending (dest tag : Bytes) (rs : List PendingRepeat) : Prop := ∃ r ∈ rs, r.used ∧ r.dest = dest ∧ r.tag = tag

/-- The question comes from a node at a distance no greater than ours. -/
def Near (n : Node) (q : Question) : Prop :=
  distanceOf n q.requestor ≠ DISTANCE_UNKNOWN ∧ distanceOf n q.requestor ≤ n.ownDistance

/-- A question repeated by a near node cancels the node's own repeat of it. -/
def Cancels (n : Node) (w : Listening) : ListenOp → Prop
  | .hear e on data => ∀ q, Question.parse data = some q → Near n q → ∀ dest, (q.dest, q.tag, dest) ∈ w.taken →
      ¬ Pending dest q.tag (listen n w (.hear e on data)).state.repeats
  | _ => True

/-- What is pending of such a question is pending under the name it goes by, and its
tag is remembered. -/
def Named (n : Node) (w : Listening) : ListenOp → Prop
  | .hear _ _ data => ∀ q, Question.parse data = some q → Near n q → ∀ dest, (q.dest, q.tag, dest) ∈ w.taken →
      Pending dest q.tag w.state.repeats → q.dest ++ q.tag ∈ w.state.discoveryPrTags ∧ q.dest = dest
  | _ => True

/-- At most one repeat is pending for a destination. -/
def Listening.Single (w : Listening) : Prop :=
  Slots.Distinct PendingRepeat.used PendingRepeat.dest w.state.repeats

variable {n : Node} {e : Env} {i on : Interface} {dest tag d t data requestor : Bytes} {s : State} {w : Listening}
  {op : ListenOp} {ops : List ListenOp} {q : Question} {rs : List PendingRepeat} {r : PendingRepeat} {k : ℕ}

-- ---------------------------------------------------------------------------
-- What leaves the repeats alone
-- ---------------------------------------------------------------------------

theorem sameRepeats_composes : Composes fun (s s' : State) (_ : List Sent) => s'.repeats = s.repeats where
  refl _ := rfl
  comp h₁ h₂ := h₂.trans h₁

theorem requestPath_repeats (recursive : Bool) (repeated : Option PendingRepeat) (s : State) :
    (requestPath n e i d t recursive repeated s).1.repeats = s.repeats := by
  unfold requestPath send
  split_ifs <;> rfl

theorem search_repeats (s : State) : (search n e on d t requestor s).1.repeats = s.repeats := by
  unfold search
  split
  · rfl
  · refine sameRepeats_composes.all (fun u hu => ?_) _
    obtain ⟨i, -, rfl⟩ := List.mem_map.1 hu
    exact fun s => requestPath_repeats true none s

theorem pathRequest_repeats (s : State) : (pathRequest n e on d t requestor s).1.repeats = s.repeats ∨
    (pathRequest n e on d t requestor s).1.repeats = (noteRepeat n e on d t requestor s).repeats := by
  by_cases hans : answers n e d ∨ ¬ searches n on
  · rw [pathRequest, if_pos hans]
    exact .inl rfl
  · rw [pathRequest, if_neg hans, quiet_andThen]
    exact .inr (search_repeats _)

/-- No node that is near is waited for. -/
theorem Near.repeats (h : Near n q) : repeats n on q.requestor = false := by
  have hle := h.2
  simp only [Questions.repeats, decide_eq_false_iff_not]
  omega

theorem Near.pathRequest_repeats (h : Near n q) (s : State) :
    (pathRequest n e on d t q.requestor s).1.repeats = s.repeats := by
  refine (Questions.pathRequest_repeats s).elim id fun heq => ?_
  rw [heq, noteRepeat, if_neg (by simp [h.repeats])]

-- ---------------------------------------------------------------------------
-- One repeat for a destination
-- ---------------------------------------------------------------------------

abbrev Single (rs : List PendingRepeat) : Prop := Slots.Distinct PendingRepeat.used PendingRepeat.dest rs

theorem Single.schedule (h : Single rs) (delay : ℚ) : Single (repeatSchedule e on d t requestor delay rs) := by
  unfold repeatSchedule
  split
  · exact h
  · split
    · exact h
    · next hnone =>
      dsimp only
      split
      · exact h
      · refine Slots.Distinct.set h fun _ j c _ hc hu hk => hnone ?_
        exact List.any_eq_true.2 ⟨c, List.mem_of_getElem? hc, decide_eq_true ⟨hu, hk⟩⟩

theorem modify_used (rs : List PendingRepeat) (h : rs[k]? = some r) :
    rs.modify k ({ · with used := false }) = rs.set k { r with used := false } := by
  rw [List.modify_eq_set_getElem?, h]
  rfl

theorem Single.heard (h : Single rs) : Single (repeatHeard n d t requestor rs) := by
  unfold repeatHeard
  split
  · exact h
  · next k hk =>
    obtain ⟨r, hr, -, -⟩ := Slots.find_eq_some hk
    dsimp only
    split
    · rw [modify_used rs hr]
      exact Slots.Distinct.set_free h rfl
    · exact h

theorem Single.serve (h : Single s.repeats) (k : ℕ) : Single (serve n e k s).1.repeats := by
  unfold Questions.serve
  cases hr : s.repeats[k]? with
  | none => exact h
  | some r =>
    have hfreed : Single (s.repeats.set k { r with used := false }) := Slots.Distinct.set_free h rfl
    dsimp only
    split
    · exact h
    · cases findInterfaceFromHashPrefix n r.iface with
      | none => exact hfreed
      | some i =>
        dsimp only
        split
        · exact hfreed
        · rw [requestPath_repeats]
          exact hfreed

theorem single_composes : Composes fun (s s' : State) (_ : List Sent) => Single s.repeats → Single s'.repeats where
  refl _ := id
  comp h₁ h₂ := h₂ ∘ h₁

theorem Single.timers (h : Single s.repeats) : Single (timers n e s).1.repeats := by
  refine single_composes.all (fun u hu => ?_) s h
  obtain ⟨k, -, rfl⟩ := List.mem_map.1 hu
  exact fun s hs => hs.serve k

theorem Single.pathRequest (h : Single s.repeats) : Single (pathRequest n e on d t requestor s).1.repeats := by
  refine (pathRequest_repeats s).elim (fun heq => heq.symm ▸ h) fun heq => ?_
  rw [heq]
  unfold noteRepeat
  split
  · exact h.schedule _
  · exact h

theorem Single.handler (h : Single s.repeats) : Single (pathRequestHandler n e on data s).1.repeats := by
  unfold pathRequestHandler
  split
  · exact h
  · split
    · exact h.heard
    · exact Single.pathRequest h

theorem Listening.Single.listen (h : w.Single) : (listen n w op).Single := by
  cases op with
  | hear e on data => exact Questions.Single.handler h
  | timers e =>
    simp only [Listening.Single, Questions.listen]
    exact Questions.Single.timers h
  | cull maxPrTags => exact h

theorem single_fresh : Listening.Single {} := by
  intro i j a b ha _ hu
  rw [List.eq_of_mem_replicate (List.mem_of_getElem? ha)] at hu
  cases hu

-- ---------------------------------------------------------------------------
-- Heard again
-- ---------------------------------------------------------------------------

/-- A near node's repeat takes just the one that is pending under its name. -/
theorem pending_heard (h : Single rs) (hnear : Near n q) (htag : q.tag.length ≤ DESTINATION_LENGTH) :
    Pending dest tag (repeatHeard n q.dest q.tag q.requestor rs) ↔
      Pending dest tag rs ∧ ¬ (dest = q.dest ∧ tag = q.tag) := by
  have hcut : q.tag.left DESTINATION_LENGTH = q.tag := List.take_of_length_le htag
  unfold repeatHeard
  rw [hcut]
  split
  · next hnone =>
    refine (and_iff_left_of_imp ?_).symm
    rintro ⟨r, hr, hu, rfl, rfl⟩ ⟨hd, ht⟩
    exact Slots.find_eq_none.1 hnone r hr hu (Prod.ext hd ht)
  · next k hk =>
    obtain ⟨c, hc, huc, hkey⟩ := Slots.find_eq_some hk
    obtain ⟨hcd, hct⟩ := Prod.ext_iff.1 hkey
    dsimp only at hcd hct ⊢
    rw [if_pos (show _ ∧ _ from hnear), modify_used rs hc]
    constructor
    · rintro ⟨r, hr, hu, rfl, rfl⟩
      obtain ⟨j, hj⟩ := List.mem_iff_getElem?.1 hr
      obtain ⟨rfl, rfl⟩ | ⟨hne, hj⟩ := Slots.getElem?_set_cases hj
      · cases hu
      · refine ⟨⟨r, List.mem_of_getElem? hj, hu, rfl, rfl⟩, fun hsame => hne ?_⟩
        exact h j k r c hj hc hu huc (hsame.1.trans hcd.symm)
    · rintro ⟨⟨r, hr, hu, rfl, rfl⟩, hother⟩
      obtain ⟨j, hj⟩ := List.mem_iff_getElem?.1 hr
      have hne : k ≠ j := by
        rintro rfl
        cases hj.symm.trans hc
        exact hother ⟨hcd, hct⟩
      exact ⟨r, List.mem_of_getElem? (by rwa [List.getElem?_set_ne hne]), hu, rfl, rfl⟩

theorem cancels_iff (h : w.Single) : Cancels n w op ↔ Named n w op := by
  cases op with
  | timers e => exact Iff.rfl
  | cull maxPrTags => exact Iff.rfl
  | hear e on data =>
    refine forall_congr' fun q => forall_congr' fun hq => forall_congr' fun hnear => forall_congr' fun dest =>
      forall_congr' fun _ => ?_
    have htag := (parse_sized hq).tag_le
    by_cases hknown : q.dest ++ q.tag ∈ w.state.discoveryPrTags
    · have hrepeats : (listen n w (.hear e on data)).state.repeats =
          repeatHeard n q.dest q.tag q.requestor w.state.repeats := by
        simp only [listen, pathRequestHandler, hq, if_pos hknown, quiet_apply]
      rw [hrepeats, pending_heard h hnear htag]
      tauto
    · have hrepeats : (listen n w (.hear e on data)).state.repeats = w.state.repeats := by
        simp only [listen, pathRequestHandler, hq, if_neg hknown]
        exact hnear.pathRequest_repeats _
      rw [hrepeats]
      tauto

/-- However questions are heard and the timers pass, one repeat is pending for a
destination at most; and a near node's repeat of a question cancels the node's
own exactly if that is pending under the question's name and the tag is
remembered. -/
theorem stands_down (n : Node) (ops : List ListenOp) :
    Throughout (listen n) Listening.Single {} ops ∧
      (Guarded (listen n) (Cancels n) {} ops ↔ Guarded (listen n) (Named n) {} ops) :=
  ⟨fun _ _ => invariant (fun _ _ h => h.listen) single_fresh,
    guarded_congr (fun _ _ h => h.listen) (fun _ _ h => cancels_iff h) single_fresh⟩

-- ---------------------------------------------------------------------------
-- A label
-- ---------------------------------------------------------------------------

/-- Two hops from a gateway, on one radio; it knows a node nearer and one farther. -/
def relay₀ : Node :=
  { identity := .replicate 16 1, sized := by simp [DESTINATION_LENGTH]
    interfaces := [⟨.replicate 32 1, .accessPoint, true, 1200, 0, 8, false⟩], apart := by simp
    ownDistance := 2, declared := fun id => if id.byte 0 = 2 then 1 else 5 }

/-- A label, and the destination that bears it. -/
def label₀ : Bytes := [1, 2, 3, 4] ++ .replicate 12 0

def bearer₀ : Bytes := [1, 2, 3, 4] ++ .replicate 12 9

def env₀ : Env := { now := 0, bearing := fun _ => some bearer₀ }

/-- The farther node asks, the nearer one repeats the question. -/
def carriedOn : List ListenOp :=
  (relay₀.interfaces.map fun on => ListenOp.hear env₀ on (label₀ ++ .replicate 16 3 ++ [7])) ++
    relay₀.interfaces.map fun on => ListenOp.hear env₀ on (label₀ ++ .replicate 16 2 ++ [7])

theorem label_goes_on :
    Pending bearer₀ [7] (run (listen relay₀) {} carriedOn).state.repeats ∧
      ¬ ∀ (n : Node) (ops : List ListenOp), Guarded (listen n) (Cancels n) {} ops := by
  have hpending : ((run (listen relay₀) {} carriedOn).state.repeats.any fun r =>
      r.used ∧ r.dest = bearer₀ ∧ r.tag = [7]) = true := by decide +kernel
  obtain ⟨r, hr, hp⟩ := List.any_eq_true.1 hpending
  have hstill : Pending bearer₀ [7] (run (listen relay₀) {} carriedOn).state.repeats := ⟨r, hr, of_decide_eq_true hp⟩
  refine ⟨hstill, fun h => ?_⟩
  have hsecond := (guarded_append.1 (h relay₀ carriedOn)).2.1
  have hparse : Question.parse (label₀ ++ .replicate 16 2 ++ [7]) = some ⟨label₀, .replicate 16 2, [7]⟩ := by
    decide +kernel
  refine hsecond _ hparse ⟨by decide +kernel, by decide +kernel⟩ bearer₀ ?_ hstill
  decide +kernel

end MicroReticulum.Questions
