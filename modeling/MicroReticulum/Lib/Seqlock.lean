import MicroReticulum.Lib.Runs

/-!
# Sequence locks

One writer, whose operations are lists of stores to a record and to the
counter beside it, and a reader that reads the counter, copies the record
piece by piece, reads the counter again and accepts if it has not moved. The
events of a run interleave the two, store by store and piece by piece.

A store may wipe the counter along with the record, as a `memset` of the whole
slot does, and another may put back a value saved before. `run_coherent` says when an accepted copy is the record of a moment at which no operation was
under way: no read of the counter falls in between the two, and a counter that
restarted has not come back to where the reader found it.
-/

namespace Lib.Seqlock

open Lib.Runs

inductive Store (ρ : Type) where
  | enter
  | put (f : ρ → ρ)
  | save
  | wipe
  | restore
  | leave

/-- The counter's two stores. It counts modulo `2 * half`, odd while an
operation is under way. -/
structure Counter where
  half : Nat
  enter : Nat → Nat
  leave : Nat → Nat
  half_pos : 0 < half
  enter_even : ∀ s, s % 2 = 0 → s < 2 * half → enter s = s + 1
  leave_odd : ∀ s, s % 2 = 1 → s < 2 * half → leave s = (s + 1) % (2 * half)
  leave_zero : leave 0 = 0

/-- How a record is copied: its pieces in the order they are read. -/
structure Layout (ρ φ : Type) where
  pieces : List φ
  copy : φ → ρ → ρ → ρ
  Same : φ → ρ → ρ → Prop
  same_copy : ∀ p out src, Same p (copy p out src) src
  same_keep : ∀ p q out src, Same q out src → Same q (copy p out src) src
  ext : ∀ a b, (∀ p ∈ pieces, Same p a b) → a = b

structure Slot (ρ : Type) where
  payload : ρ
  seq : Nat
  /-- The writer's copy of the counter. -/
  saved : Nat := 0
  /-- The counter has been wiped and not yet put back. -/
  wiped : Bool := false

/-- The reader between its two reads of the counter. What it found, how many
operations began and whether the counter restarted since then is kept for the
statements only. -/
structure Attempt (ρ φ : Type) where
  s1 : Nat
  left : List φ
  out : ρ
  found : ρ
  writes : Nat := 0
  restarted : Bool := false

/-- A copy, the record at the moment it was accepted, and whether an operation
was under way then. -/
structure Accepted (ρ : Type) where
  copy : ρ
  payload : ρ
  quiet : Bool

structure State (ρ φ : Type) where
  slot : Slot ρ
  /-- The stores that are left of the operation under way. -/
  todo : List (Store ρ) := []
  attempt : Option (Attempt ρ φ) := none
  /-- Where the reader copies to. -/
  out : ρ
  accepted : List (Accepted ρ) := []

inductive Event (ω : Type) where
  | start (op : ω)
  | write
  | read
  deriving DecidableEq, Repr

variable {ρ φ ω : Type}

-- ---------------------------------------------------------------------------
-- Steps
-- ---------------------------------------------------------------------------

section

variable (c : Counter) (l : Layout ρ φ) (program : ω → ρ → List (Store ρ))

def Store.exec (s : Slot ρ) : Store ρ → Slot ρ
  | enter => { s with seq := c.enter s.seq }
  | put f => { s with payload := f s.payload }
  | save => { s with saved := s.seq }
  | wipe => { s with seq := 0, wiped := true }
  | restore => { s with seq := s.saved, wiped := false }
  | leave => { s with seq := c.leave s.seq, wiped := false }

/-- What the statements remember of a store during an attempt. -/
def Attempt.note (a : Attempt ρ φ) (wiped : Bool) : Store ρ → Attempt ρ φ
  | .enter => { a with writes := a.writes + 1 }
  | .leave => { a with restarted := a.restarted || wiped }
  | _ => a

def State.store (s : State ρ φ) : List (Store ρ) → State ρ φ
  | [] => s
  | m :: todo =>
    { s with slot := m.exec c s.slot, todo, attempt := s.attempt.map (·.note s.slot.wiped m) }

def State.read (s : State ρ φ) : State ρ φ :=
  match s.attempt with
  | none =>
    if s.slot.seq % 2 = 1 then s
    else { s with attempt := some { s1 := s.slot.seq, left := l.pieces, out := s.out, found := s.slot.payload } }
  | some a =>
    match a.left with
    | p :: left => { s with attempt := some { a with left, out := l.copy p a.out s.slot.payload } }
    | [] =>
      { s with
        attempt := none
        out := a.out
        accepted :=
          if s.slot.seq = a.s1 then s.accepted ++ [⟨a.out, s.slot.payload, s.todo.isEmpty⟩] else s.accepted }

def step (s : State ρ φ) : Event ω → State ρ φ
  | .start op => if s.todo.isEmpty then s.store c (program op s.slot.payload) else s
  | .write => s.store c s.todo
  | .read => s.read l

/-- Fewer than `half` operations begin during an attempt; the counter is not
read while it is wiped; and where it restarted during the attempt, it is not
back at the value the attempt began with. -/
def Sound (s : State ρ φ) : Event ω → Prop
  | .start _ => ∀ a ∈ s.attempt, a.writes + 1 < c.half
  | .write => True
  | .read =>
    (s.attempt = none → s.slot.wiped = false) ∧
    ∀ a ∈ s.attempt, a.left.isEmpty = true → s.slot.wiped = false ∧ (a.restarted = true → s.slot.seq ≠ a.s1)

instance (s : State ρ φ) : (e : Event ω) → Decidable (Sound c s e)
  | .start _ => inferInstanceAs (Decidable (∀ a ∈ s.attempt, a.writes + 1 < c.half))
  | .write => .isTrue trivial
  | .read => inferInstanceAs (Decidable
      ((s.attempt = none → s.slot.wiped = false) ∧
        ∀ a ∈ s.attempt, a.left.isEmpty = true → s.slot.wiped = false ∧ (a.restarted = true → s.slot.seq ≠ a.s1)))

end

-- ---------------------------------------------------------------------------
-- Operations
-- ---------------------------------------------------------------------------

/-- The stores behind the first one: what is saved is saved before the counter
is wiped, and put back only then. -/
def body : (held wiped : Bool) → List (Store ρ) → Bool
  | _, _, [.leave] => true
  | held, wiped, .put _ :: rest => body held wiped rest
  | _, false, .save :: rest => body true false rest
  | held, _, .wipe :: rest => body held true rest
  | true, true, .restore :: rest => body true false rest
  | _, _, _ => false

/-- An operation leaves the slot alone, or enters, stores and leaves. -/
def disciplined : List (Store ρ) → Bool
  | [] => true
  | .enter :: rest => body false false rest
  | _ => false

-- ---------------------------------------------------------------------------
-- The invariant
-- ---------------------------------------------------------------------------

section

variable {c : Counter} {l : Layout ρ φ} {program : ω → ρ → List (Store ρ)} {s : State ρ φ} {v : Nat}
  {slot : Slot ρ} {todo rest : List (Store ρ)} {m : Store ρ} {a : Attempt ρ φ} {held wiped : Bool}

/-- `v` is what the counter reads or, while it is wiped, is to read again. -/
inductive Phase (c : Counter) (slot : Slot ρ) (v : Nat) : List (Store ρ) → Prop
  | quiet : slot.wiped = false → slot.seq = v → v % 2 = 0 → v < 2 * c.half → Phase c slot v []
  | busy (held : Bool) {todo : List (Store ρ)} : body held slot.wiped todo = true → (held = true → slot.saved = v) →
      slot.seq = (if slot.wiped then 0 else v) → v % 2 = 1 → v < 2 * c.half → Phase c slot v todo

theorem Phase.seq_eq (h : Phase c slot v todo) (hw : slot.wiped = false) : slot.seq = v := by
  cases h with
  | quiet _ hs _ _ => exact hs
  | busy _ _ _ hs _ _ => simpa [hw] using hs

theorem Phase.nil_of_even (h : Phase c slot v todo) (he : v % 2 = 0) : todo = [] := by
  cases h with
  | quiet => rfl
  | busy _ _ _ _ ho _ => omega

/-- What the attempt knows of the counter and of the record. -/
structure Tracks (c : Counter) (l : Layout ρ φ) (payload : ρ) (v : Nat) (a : Attempt ρ φ) : Prop where
  even : a.s1 % 2 = 0
  few : a.writes < c.half
  count : a.restarted = false → (v + v % 2) % (2 * c.half) = (a.s1 + 2 * a.writes) % (2 * c.half)
  fresh : a.writes = 0 → v = a.s1 ∧ a.restarted = false ∧ a.found = payload ∧
    ∀ p ∈ l.pieces, p ∈ a.left ∨ l.Same p a.out payload

/-- A copy was accepted with no operation under way, and is the record of then. -/
def Accepted.Coherent (x : Accepted ρ) : Prop := x.quiet = true ∧ x.copy = x.payload

instance [DecidableEq ρ] (x : Accepted ρ) : Decidable x.Coherent :=
  inferInstanceAs (Decidable (x.quiet = true ∧ x.copy = x.payload))

structure Inv (c : Counter) (l : Layout ρ φ) (s : State ρ φ) : Prop where
  phase : ∃ v, Phase c s.slot v s.todo ∧ ∀ a ∈ s.attempt, Tracks c l s.slot.payload v a
  accepted : ∀ x ∈ s.accepted, x.Coherent

theorem Phase.enter (h : Phase c slot v []) (hb : body false false rest = true) :
    Phase c (Store.enter.exec c slot) (v + 1) rest := by
  cases h with
  | quiet hw hs he hv =>
    refine .busy false ?_ nofun ?_ (by omega) (by omega)
    · simpa [Store.exec, hw] using hb
    · simp [Store.exec, hw, hs, c.enter_even v he hv]
  | busy held hb' _ _ _ _ => simp [body] at hb'

/-- An operation that has been entered goes on store by store, and the value
its counter stands for changes only as it leaves. -/
theorem Phase.store (h : Phase c slot v (m :: rest)) (hv : v % 2 = 1) :
    (m ≠ .enter ∧ m ≠ .leave ∧ Phase c (m.exec c slot) v rest) ∨
    (m = .leave ∧ slot.wiped = false ∧ Phase c (m.exec c slot) ((v + 1) % (2 * c.half)) rest) ∨
    (m = .leave ∧ slot.wiped = true ∧ Phase c (m.exec c slot) 0 rest) := by
  have hpos := c.half_pos
  cases h with
  | busy held hb hs hq ho hlt =>
  cases m with
  | enter => simp [body] at hb
  | put f =>
    refine .inl ⟨nofun, nofun, .busy held ?_ hs hq ho hlt⟩
    simpa [body, Store.exec] using hb
  | save =>
    cases hw : slot.wiped with
    | true => simp [body, hw] at hb
    | false =>
      refine .inl ⟨nofun, nofun, .busy true ?_ ?_ ?_ ho hlt⟩
      · simpa [body, Store.exec, hw] using hb
      · simpa [Store.exec, hw] using hq
      · simpa [Store.exec, hw] using hq
  | wipe =>
    refine .inl ⟨nofun, nofun, .busy held ?_ hs rfl ho hlt⟩
    simpa [body, Store.exec] using hb
  | restore =>
    cases hw : slot.wiped with
    | false => cases held <;> simp [body, hw] at hb
    | true =>
      cases held with
      | false => simp [body] at hb
      | true =>
        refine .inl ⟨nofun, nofun, .busy true ?_ hs ?_ ho hlt⟩
        · simpa [body, Store.exec, hw] using hb
        · simpa [Store.exec] using hs rfl
  | leave =>
    have hrest : rest = [] := by
      cases rest with
      | nil => rfl
      | cons m rest => cases held <;> cases hw : slot.wiped <;> simp [body] at hb
    subst hrest
    cases hw : slot.wiped with
    | false =>
      refine .inr (.inl ⟨rfl, rfl, .quiet rfl ?_ ?_ (Nat.mod_lt _ (by omega))⟩)
      · rw [hw] at hq
        simp only [Store.exec, hq, Bool.false_eq_true, if_false]
        exact c.leave_odd v ho hlt
      · rw [Nat.mod_mul_right_mod]
        omega
    | true =>
      refine .inr (.inr ⟨rfl, rfl, .quiet rfl ?_ rfl (by omega)⟩)
      rw [hw] at hq
      simp only [Store.exec, hq, if_true]
      exact c.leave_zero

-- ---------------------------------------------------------------------------
-- Steps keep the invariant
-- ---------------------------------------------------------------------------

variable {payload payload' : ρ} {op : ω} {e : Event ω} {ops : List (Event ω)}

theorem Tracks.written (h : Tracks c l payload v a) (hv : v % 2 = 1) : a.writes ≠ 0 := by
  intro hw
  have := (h.fresh hw).1
  have := h.even
  omega

theorem Tracks.enter (h : Tracks c l payload v a) (he : v % 2 = 0) (hfew : a.writes + 1 < c.half) :
    Tracks c l payload' (v + 1) (a.note wiped .enter) where
  even := h.even
  few := hfew
  count hr := by
    have hc := h.count hr
    rw [he, Nat.add_zero] at hc
    have h2 : v + 1 + (v + 1) % 2 = v + 2 := by omega
    have h3 : a.s1 + 2 * (a.writes + 1) = a.s1 + 2 * a.writes + 2 := by ring
    simp only [Attempt.note, h2, h3]
    exact Nat.ModEq.add_right 2 hc
  fresh hw := by simp [Attempt.note] at hw

/-- Once an operation has been entered the attempt knows nothing more of the
record, so it does not matter what is stored. -/
theorem Tracks.put (h : Tracks c l payload v a) (hv : v % 2 = 1) : Tracks c l payload' v a :=
  ⟨h.even, h.few, h.count, fun hw => absurd hw (h.written hv)⟩

theorem note_other (h : m ≠ .enter) (h' : m ≠ .leave) : a.note wiped m = a := by
  cases m with
  | enter => exact absurd rfl h
  | leave => exact absurd rfl h'
  | _ => rfl

theorem Tracks.leave (h : Tracks c l payload v a) (hv : v % 2 = 1) :
    Tracks c l payload' ((v + 1) % (2 * c.half)) (a.note false .leave) where
  even := h.even
  few := h.few
  count hr := by
    have hr' : a.restarted = false := by simpa [Attempt.note] using hr
    have hc := h.count hr'
    have h2 : (v + 1) % (2 * c.half) % 2 = 0 := by
      rw [Nat.mod_mul_right_mod]
      omega
    rw [h2, Nat.add_zero, Nat.mod_mod]
    rwa [hv] at hc
  fresh hw := absurd hw (h.written hv)

theorem Tracks.restart (h : Tracks c l payload v a) (hv : v % 2 = 1) :
    Tracks c l payload' 0 (a.note true .leave) where
  even := h.even
  few := h.few
  count hr := by simp [Attempt.note] at hr
  fresh hw := absurd hw (h.written hv)

/-- Of the attempt of a state, if there is one. -/
theorem tracks_note (h : ∀ a ∈ s.attempt, Tracks c l payload v a)
    (hnote : ∀ a, s.attempt = some a → Tracks c l payload v a → Tracks c l payload' v' (a.note wiped m)) :
    ∀ a ∈ s.attempt.map (·.note wiped m), Tracks c l payload' v' a := by
  intro a ha
  obtain ⟨a₀, ha₀, rfl⟩ := Option.mem_map.1 ha
  exact hnote a₀ ha₀ (h a₀ ha₀)

theorem inv_enter (h : Inv c l s) (htodo : s.todo = []) (hb : body false false rest = true)
    (hfew : ∀ a ∈ s.attempt, a.writes + 1 < c.half) : Inv c l (s.store c (.enter :: rest)) := by
  obtain ⟨v, hp, ht⟩ := h.phase
  rw [htodo] at hp
  have he : v % 2 = 0 := by
    cases hp with
    | quiet _ _ he _ => exact he
    | busy held hb' _ _ _ _ => simp [body] at hb'
  refine ⟨⟨v + 1, hp.enter hb, ?_⟩, h.accepted⟩
  exact tracks_note ht fun a ha hta => hta.enter he (hfew a ha)

theorem inv_store (h : Inv c l s) : Inv c l (s.store c s.todo) := by
  obtain ⟨v, hp, ht⟩ := h.phase
  cases htodo : s.todo with
  | nil => exact h
  | cons m rest =>
    rw [htodo] at hp
    have hv : v % 2 = 1 := by
      by_contra he
      cases hp.nil_of_even (by omega)
    rcases hp.store hv with ⟨h1, h2, hp'⟩ | ⟨rfl, hw, hp'⟩ | ⟨rfl, hw, hp'⟩
    · refine ⟨⟨v, hp', ?_⟩, h.accepted⟩
      exact tracks_note ht fun a _ hta => note_other h1 h2 ▸ hta.put hv
    · refine ⟨⟨_, hp', ?_⟩, h.accepted⟩
      exact tracks_note ht fun a _ hta => hw ▸ hta.leave hv
    · refine ⟨⟨_, hp', ?_⟩, h.accepted⟩
      exact tracks_note ht fun a _ hta => hw ▸ hta.restart hv

theorem inv_read_first (h : Inv c l s) (ha : s.attempt = none) (hw : s.slot.wiped = false) :
    Inv c l (s.read l) := by
  obtain ⟨v, hp, -⟩ := h.phase
  unfold State.read
  rw [ha]
  dsimp only
  split_ifs with ho
  · exact h
  · have hs := hp.seq_eq hw
    refine ⟨⟨v, hp, ?_⟩, h.accepted⟩
    rintro a ⟨⟩
    have he : s.slot.seq % 2 = 0 := Nat.mod_two_ne_one.1 ho
    refine ⟨he, c.half_pos, fun _ => ?_, fun _ => ⟨hs.symm, rfl, rfl, fun p hp => .inl hp⟩⟩
    show (v + v % 2) % (2 * c.half) = (s.slot.seq + 2 * 0) % (2 * c.half)
    rw [← hs, he]

theorem inv_read_piece (h : Inv c l s) (ha : s.attempt = some a) (hl : a.left = p :: left) :
    Inv c l (s.read l) := by
  obtain ⟨v, hp, ht⟩ := h.phase
  have hta := ht a ha
  unfold State.read
  rw [ha]
  dsimp only
  rw [hl]
  refine ⟨⟨v, hp, ?_⟩, h.accepted⟩
  rintro a' ⟨⟩
  refine ⟨hta.even, hta.few, hta.count, fun hw => ?_⟩
  obtain ⟨h1, h2, h3, h4⟩ := hta.fresh hw
  refine ⟨h1, h2, h3, fun q hq => ?_⟩
  rcases h4 q hq with hm | hs
  · rw [hl, List.mem_cons] at hm
    rcases hm with rfl | hm
    · exact .inr (l.same_copy q a.out s.slot.payload)
    · exact .inl hm
  · exact .inr (l.same_keep p q a.out s.slot.payload hs)

/-- The counter stands where the attempt found it only if no operation began. -/
theorem Tracks.unwritten (h : Tracks c l payload a.s1 a) (hr : a.restarted = false) : a.writes = 0 := by
  have hc := h.count hr
  have hfew := h.few
  rw [h.even, Nat.add_zero] at hc
  have hz : 2 * a.writes ≡ 0 [MOD 2 * c.half] :=
    (Nat.ModEq.add_left_cancel' a.s1 (show a.s1 + 0 ≡ a.s1 + 2 * a.writes [MOD 2 * c.half] from hc)).symm
  have := Nat.eq_zero_of_dvd_of_lt ((Nat.modEq_zero_iff_dvd).1 hz) (by omega)
  omega

theorem inv_read_last (h : Inv c l s) (ha : s.attempt = some a) (hl : a.left = [])
    (hw : s.slot.wiped = false) (hr : a.restarted = true → s.slot.seq ≠ a.s1) : Inv c l (s.read l) := by
  obtain ⟨v, hp, ht⟩ := h.phase
  have hta := ht a ha
  unfold State.read
  rw [ha]
  dsimp only
  rw [hl]
  refine ⟨⟨v, hp, nofun⟩, ?_⟩
  dsimp only
  split_ifs with hs
  · obtain rfl : v = a.s1 := (hp.seq_eq hw).symm.trans hs
    have hrestart : a.restarted = false := by
      cases hra : a.restarted with
      | false => rfl
      | true => exact absurd hs (hr hra)
    obtain ⟨-, -, -, hsame⟩ := hta.fresh (hta.unwritten hrestart)
    intro x hx
    rcases List.mem_append.1 hx with hx | hx
    · exact h.accepted x hx
    · obtain rfl := List.mem_singleton.1 hx
      refine ⟨by simp [hp.nil_of_even hta.even], l.ext _ _ fun p hp => ?_⟩
      exact (hsame p hp).resolve_left (by simp [hl])
  · exact h.accepted

theorem inv_step (hprog : ∀ op payload, disciplined (program op payload) = true) (h : Inv c l s)
    (hs : Sound c s e) : Inv c l (step c l program s e) := by
  cases e with
  | start op =>
    show Inv c l (if s.todo.isEmpty then s.store c (program op s.slot.payload) else s)
    split_ifs with htodo
    · have hd := hprog op s.slot.payload
      cases hp : program op s.slot.payload with
      | nil => exact h
      | cons m rest =>
        rw [hp] at hd
        cases m with
        | enter => exact inv_enter h (List.isEmpty_iff.1 htodo) hd hs
        | _ => cases hd
    · exact h
  | write => exact inv_store h
  | read =>
    cases ha : s.attempt with
    | none => exact inv_read_first h ha (hs.1 ha)
    | some a =>
      cases hl : a.left with
      | nil =>
        have hlast := hs.2 a ha (by simp [hl])
        exact inv_read_last h ha hl hlast.1 hlast.2
      | cons p left => exact inv_read_piece h ha hl

/-- At rest, with an even counter and no attempt. -/
def atRest (payload out : ρ) (seq : Nat) : State ρ φ := { slot := { payload, seq }, out }

theorem atRest_inv (he : seq % 2 = 0) (hlt : seq < 2 * c.half) :
    Inv c l (atRest payload out seq : State ρ φ) :=
  ⟨⟨seq, .quiet rfl rfl he hlt, nofun⟩, nofun⟩

/-- What an attempt makes of the record: every accepted copy is coherent; and
where the counter reads what the attempt found, the record is the one it found
and no operation is under way. -/
structure Coherent (s : State ρ φ) : Prop where
  accepted : ∀ x ∈ s.accepted, x.Coherent
  unmoved : ∀ a ∈ s.attempt, s.slot.wiped = false → a.restarted = false → s.slot.seq = a.s1 →
    s.todo = [] ∧ s.slot.payload = a.found

theorem Inv.coherent (h : Inv c l s) : Coherent s where
  accepted := h.accepted
  unmoved a ha hw hr hs := by
    obtain ⟨v, hp, ht⟩ := h.phase
    have hta := ht a ha
    obtain rfl : v = a.s1 := (hp.seq_eq hw).symm.trans hs
    exact ⟨hp.nil_of_even hta.even, (hta.fresh (hta.unwritten hr)).2.2.1.symm⟩

/-- Every state of a sound run of disciplined operations is coherent. -/
theorem run_coherent (hprog : ∀ op payload, disciplined (program op payload) = true) (hs : Inv c l s)
    (h : Guarded (step c l program) (Sound c) s ops) : Throughout (step c l program) Coherent s ops :=
  (h.throughout (fun _ _ h hs => inv_step hprog h hs) hs).mono fun _ h => h.coherent

end

end Lib.Seqlock
