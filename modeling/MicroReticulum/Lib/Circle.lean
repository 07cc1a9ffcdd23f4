import Mathlib.Tactic

/-!
# A scan round a circle of slots

A scan counts its steps from a cursor that moves to behind every slot it
serves, so the further on a slot was found, the more slots after it are left
out. `Route` says which slots a scan comes by, and `InStride` that none of
those left out was due; then the scan serves what is nearest first, and
scan after scan goes once round the circle.
-/

namespace Lib.Circle

-- ---------------------------------------------------------------------------
-- Distances
-- ---------------------------------------------------------------------------

/-- How many steps it is from one slot on to another. -/
def ahead (n base x : Nat) : Nat := (x + (n - base % n)) % n

variable {n base x y k : Nat}

theorem ahead_lt (base x : Nat) (hn : 0 < n) : ahead n base x < n := Nat.mod_lt _ hn

theorem ahead_mod : ahead n (base % n) x = ahead n base x := by rw [ahead, ahead, Nat.mod_mod]

theorem ahead_eq (hx : x < n) : ahead n base x = if base % n ≤ x then x - base % n else x + n - base % n := by
  have hb : base % n < n := Nat.mod_lt _ (Nat.zero_lt_of_lt hx)
  unfold ahead
  split
  · next h =>
    have hsum : x + (n - base % n) = x - base % n + n := by omega
    rw [hsum, Nat.add_mod_right, Nat.mod_eq_of_lt (by omega)]
  · rw [Nat.mod_eq_of_lt (by omega)]
    omega

theorem slot_eq (hk : k < n) : (base + k) % n = if base % n + k < n then base % n + k else base % n + k - n := by
  have hb : base % n < n := Nat.mod_lt _ (Nat.zero_lt_of_lt hk)
  rw [Nat.add_mod, Nat.mod_eq_of_lt hk]
  split
  · next h => exact Nat.mod_eq_of_lt h
  · rw [Nat.mod_eq_sub_mod (by omega), Nat.mod_eq_of_lt (by omega)]

theorem ahead_slot (hk : k < n) : ahead n base ((base + k) % n) = k := by
  have hb : base % n < n := Nat.mod_lt _ (Nat.zero_lt_of_lt hk)
  rw [ahead_eq (Nat.mod_lt _ (Nat.zero_lt_of_lt hk)), slot_eq hk]
  split <;> split <;> omega

theorem slot_ahead (hx : x < n) : (base + ahead n base x) % n = x := by
  have hb : base % n < n := Nat.mod_lt _ (Nat.zero_lt_of_lt hx)
  rw [slot_eq (ahead_lt base x (Nat.zero_lt_of_lt hx)), ahead_eq hx]
  split <;> split <;> omega

theorem ahead_inj (hx : x < n) (hy : y < n) (h : ahead n base x = ahead n base y) : x = y := by
  calc x = (base + ahead n base x) % n := (slot_ahead hx).symm
    _ = (base + ahead n base y) % n := by rw [h]
    _ = y := slot_ahead hy

/-- From a slot on the way, the rest of the way is left. -/
theorem ahead_from (base : Nat) (hx : x < n) (hy : y < n) (h : ahead n base y ≤ ahead n base x) :
    ahead n y x + ahead n base y = ahead n base x := by
  have hb : base % n < n := Nat.mod_lt _ (Nat.zero_lt_of_lt hx)
  rw [ahead_eq hx, ahead_eq hx, ahead_eq hy, Nat.mod_eq_of_lt hy] at *
  split at h <;> split at h <;> split <;> omega

theorem ahead_succ (hx : x < n) (hy : y < n) (hne : y ≠ x) : ahead n (y + 1) x + 1 = ahead n y x := by
  have hsucc : (y + 1) % n = if y + 1 < n then y + 1 else 0 := by
    split
    · next h => exact Nat.mod_eq_of_lt h
    · rw [show y + 1 = n by omega, Nat.mod_self]
  rw [ahead_eq hx, ahead_eq hx, Nat.mod_eq_of_lt hy, hsucc]
  split <;> split <;> split <;> omega

-- ---------------------------------------------------------------------------
-- Scans
-- ---------------------------------------------------------------------------

structure Scan (σ : Type*) where
  state : σ
  cursor : Nat
  budget : Nat

variable {σ : Type*} (n : Nat) (due : σ → Nat → Bool) (serve : Nat → σ → σ)

/-- The slot a step looks at. -/
def look (s : Scan σ) (k : Nat) : Option Nat := if s.budget = 0 then none else some ((s.cursor + k) % n)

/-- The slot a step serves. -/
def served (s : Scan σ) (k : Nat) : Option Nat := (look n s k).filter (due s.state)

def visit (s : Scan σ) (k : Nat) : Scan σ :=
  match served n due s k with
  | some x => ⟨serve x s.state, x + 1, s.budget - 1⟩
  | none => s

def looks : List Nat → Scan σ → List Nat
  | [], _ => []
  | k :: ks, s => (look n s k).toList ++ looks ks (visit n due serve s k)

/-- The slots a scan serves, in their order. -/
def serves : List Nat → Scan σ → List Nat
  | [], _ => []
  | k :: ks, s => (served n due s k).toList ++ serves ks (visit n due serve s k)

-- ---------------------------------------------------------------------------
-- Routes
-- ---------------------------------------------------------------------------

/-- The nearest of the slots due that are at least so many steps ahead. -/
structure Next (s : σ) (base least x : Nat) : Prop where
  lt : x < n
  isDue : due s x = true
  beyond : least ≤ ahead n base x
  nearest : ∀ y < n, due s y = true → least ≤ ahead n base y → ahead n base x ≤ ahead n base y

/-- Each slot lies further beyond the one before it than that lay beyond its own
predecessor, and is the nearest of those. -/
def Route : σ → Nat → Nat → List Nat → Prop
  | _, _, _, [] => True
  | s, base, least, x :: xs =>
    Next n due s base least x ∧ Route (serve x s) (x + 1) (ahead n base x + 1) xs

/-- No slot that is wanted is among those left out. -/
def InStride (want : σ → Nat → Bool) : Nat → σ → Nat → Nat → Prop
  | 0, _, _, _ => True
  | budget + 1, s, base, least =>
    (∀ y < n, want s y → least ≤ ahead n base y) ∧
      ∀ x, Next n due s base least x → InStride want budget (serve x s) (x + 1) (ahead n base x + 1)

variable {n due serve} {s : σ} {scan : Scan σ} {base least x y k budget : Nat} {xs : List Nat}

theorem Next.unique (hx : Next n due s base least x) (hy : Next n due s base least y) : x = y :=
  ahead_inj hx.lt hy.lt
    (le_antisymm (hx.nearest y hy.lt hy.isDue hy.beyond) (hy.nearest x hx.lt hx.isDue hx.beyond))

theorem served_eq_some (h : served n due scan k = some x) :
    x = (scan.cursor + k) % n ∧ scan.budget ≠ 0 ∧ due scan.state x = true := by
  obtain ⟨hl, hd⟩ := Option.filter_eq_some_iff.1 h
  unfold look at hl
  split at hl
  · cases hl
  · next hb =>
    cases hl
    exact ⟨rfl, hb, hd⟩

/-- A slot that is not due may be stepped over. -/
theorem next_succ (hd : due s ((base + k) % n) = false) :
    Next n due s base k x ↔ Next n due s base (k + 1) x := by
  have hne : ∀ y < n, due s y = true → k ≠ ahead n base y := by
    rintro y hlt hy rfl
    rw [slot_ahead hlt, hy] at hd
    cases hd
  constructor
  · intro h
    exact ⟨h.lt, h.isDue, Nat.lt_of_le_of_ne h.beyond (hne x h.lt h.isDue),
      fun y hlt hy hb => h.nearest y hlt hy (Nat.le_of_succ_le hb)⟩
  · intro h
    exact ⟨h.lt, h.isDue, Nat.le_of_succ_le h.beyond,
      fun y hlt hy hb => h.nearest y hlt hy (Nat.lt_of_le_of_ne hb (hne y hlt hy))⟩

theorem route_succ (hd : due s ((base + k) % n) = false) :
    Route n due serve s base k xs ↔ Route n due serve s base (k + 1) xs := by
  cases xs with
  | nil => exact Iff.rfl
  | cons x xs => exact and_congr_left fun _ => next_succ hd

theorem next_of_due (hk : k < n) (hd : due s ((base + k) % n) = true) :
    Next n due s base k ((base + k) % n) := by
  refine ⟨Nat.mod_lt _ (Nat.zero_lt_of_lt hk), hd, (ahead_slot hk).ge, fun y _ _ hy => ?_⟩
  rw [ahead_slot hk]
  exact hy

/-- A scan's slots are a route, and no route within the budget goes on beyond them. -/
theorem serves_route (due : σ → Nat → Bool) (serve : Nat → σ → σ) (scan : Scan σ) {k m : Nat} (hm : k + m = n) :
    Route n due serve scan.state scan.cursor k (serves n due serve (List.range' k m) scan) ∧
      (serves n due serve (List.range' k m) scan).length ≤ scan.budget ∧
      ∀ xs, Route n due serve scan.state scan.cursor k xs → xs.length ≤ scan.budget →
        xs <+: serves n due serve (List.range' k m) scan := by
  induction m generalizing k scan with
  | zero =>
    refine ⟨trivial, Nat.zero_le _, fun xs hxs _ => ?_⟩
    cases xs with
    | nil => exact List.nil_prefix
    | cons x xs =>
      have hfar := ahead_lt scan.cursor x (Nat.zero_lt_of_lt hxs.1.lt)
      have hbeyond := hxs.1.beyond
      omega
  | succ m ih =>
    have hk : k < n := by omega
    rw [List.range'_succ, serves]
    cases hs : served n due scan k with
    | none =>
      have hv : visit n due serve scan k = scan := by rw [visit, hs]
      rw [hv, Option.toList_none, List.nil_append]
      obtain ⟨hroute, hlen, hmax⟩ := ih scan (k := k + 1) (by omega)
      by_cases hb : scan.budget = 0
      · have hnil : serves n due serve (List.range' (k + 1) m) scan = [] :=
          List.eq_nil_of_length_eq_zero (Nat.le_zero.1 (hb ▸ hlen))
        rw [hnil]
        refine ⟨trivial, Nat.zero_le _, fun xs _ hxs => ?_⟩
        rw [hb, Nat.le_zero] at hxs
        rw [List.eq_nil_of_length_eq_zero hxs]
      · have hd : due scan.state ((scan.cursor + k) % n) = false := by simpa [served, look, hb] using hs
        exact ⟨(route_succ hd).2 hroute, hlen, fun xs hxs => hmax xs ((route_succ hd).1 hxs)⟩
    | some x =>
      obtain ⟨rfl, hb, hd⟩ := served_eq_some hs
      have hnext := next_of_due hk hd
      have hv : visit n due serve scan k =
          ⟨serve ((scan.cursor + k) % n) scan.state, (scan.cursor + k) % n + 1, scan.budget - 1⟩ := by
        rw [visit, hs]
      rw [hv, Option.toList_some, List.singleton_append]
      generalize hx : (scan.cursor + k) % n = x at *
      have hax : ahead n scan.cursor x = k := by rw [← hx, ahead_slot hk]
      obtain ⟨hroute, hlen, hmax⟩ := ih ⟨serve x scan.state, x + 1, scan.budget - 1⟩ (k := k + 1) (by omega)
      refine ⟨⟨hnext, by rwa [hax]⟩, ?_, fun xs hxs hle => ?_⟩
      · rw [List.length_cons]
        simp only at hlen
        omega
      · cases xs with
        | nil => exact List.nil_prefix
        | cons y xs =>
          obtain ⟨hy, hrest⟩ := hxs
          obtain rfl := hy.unique hnext
          rw [hax] at hrest
          rw [List.length_cons] at hle
          exact List.cons_prefix_cons.2 ⟨rfl, hmax xs hrest (Nat.le_sub_one_of_lt hle)⟩

/-- A scan comes by every slot due if there is a route of that kind. -/
theorem serves_all (n : Nat) (due : σ → Nat → Bool) (serve : Nat → σ → σ) (scan : Scan σ) :
    (∀ x < n, due scan.state x → x ∈ serves n due serve (List.range n) scan) ↔
      ∃ xs, xs.length ≤ scan.budget ∧ Route n due serve scan.state scan.cursor 0 xs ∧
        ∀ x < n, due scan.state x → x ∈ xs := by
  rw [List.range_eq_range']
  obtain ⟨hroute, hlen, hmax⟩ := serves_route due serve scan (Nat.zero_add n)
  constructor
  · intro h
    exact ⟨_, hlen, hroute, h⟩
  · rintro ⟨xs, hle, hxs, hall⟩ x hlt hx
    exact (hmax xs hxs hle).subset (hall x hlt hx)

/-- A slot that is spent once it is served is not served again. -/
theorem Route.nodup {Spent : σ → Nat → Prop} (hspent : ∀ s x, Spent s x → due s x = false)
    (hserve : ∀ s x, due s x → Spent (serve x s) x) (hkeep : ∀ s x y, Spent s x → Spent (serve y s) x)
    (h : Route n due serve s base least xs) : xs.Nodup := by
  have hout : ∀ x xs s base least, Spent s x → Route n due serve s base least xs → x ∉ xs := by
    intro x xs
    induction xs with
    | nil => simp
    | cons y xs ih =>
      rintro s base least hx ⟨hy, hxs⟩
      rw [List.mem_cons, not_or]
      refine ⟨?_, ih _ _ _ (hkeep s x y hx) hxs⟩
      rintro rfl
      exact absurd hy.isDue (by simp [hspent s x hx])
  induction xs generalizing s base least with
  | nil => exact List.nodup_nil
  | cons x xs ih => exact List.nodup_cons.2 ⟨hout x xs _ _ _ (hserve s x h.1.isDue) h.2, ih h.2⟩

-- ---------------------------------------------------------------------------
-- Rotation
-- ---------------------------------------------------------------------------

/-- Where the cursor is once these have been served. -/
def behind (base : Nat) (xs : List Nat) : Nat := xs.foldl (fun _ x => x + 1) base

theorem cursor_eq (scan : Scan σ) {ks : List Nat} :
    (ks.foldl (visit n due serve) scan).cursor = behind scan.cursor (serves n due serve ks scan) := by
  induction ks generalizing scan with
  | nil => rfl
  | cons k ks ih =>
    rw [List.foldl_cons, ih, serves, visit]
    cases hs : served n due scan k with
    | none => rfl
    | some x => rfl

/-- The slots lie between the cursor and a slot, each nearer to it than the one
before, and the cursor comes nearer. -/
structure Approaches (n x base : Nat) (xs : List Nat) : Prop where
  nearer : xs.Pairwise fun y z => ahead n z x < ahead n y x
  within : ∀ y ∈ xs, ahead n (behind base xs) x < ahead n y x ∧ ahead n y x ≤ ahead n base x
  closer : ahead n (behind base xs) x ≤ ahead n base x

theorem Approaches.cons (h : Approaches n x (y + 1) xs) (hsucc : ahead n (y + 1) x + 1 = ahead n y x)
    (hle : ahead n y x ≤ ahead n base x) : Approaches n x base (y :: xs) := by
  obtain ⟨hnear, hwithin, hcloser⟩ := h
  have hbehind : behind base (y :: xs) = behind (y + 1) xs := rfl
  refine ⟨List.pairwise_cons.2 ⟨fun z hz => ?_, hnear⟩, fun z hz => ?_, ?_⟩
  · have := (hwithin z hz).2
    omega
  · rw [hbehind]
    obtain rfl | hz := List.mem_cons.1 hz
    · omega
    · have := hwithin z hz
      omega
  · rw [hbehind]
    omega

theorem serves_of_spent (hb : scan.budget = 0) {ks : List Nat} : serves n due serve ks scan = [] := by
  induction ks with
  | nil => rfl
  | cons k ks ih =>
    have hs : served n due scan k = none := by simp [served, look, hb]
    have hv : visit n due serve scan k = scan := by rw [visit, hs]
    rw [serves, hs, hv, ih]
    rfl

theorem approaches_of_spent (hb : scan.budget = 0) {ks : List Nat} :
    Approaches n x scan.cursor (serves n due serve ks scan) ∧ (serves n due serve ks scan).length = scan.budget := by
  rw [serves_of_spent hb, hb]
  exact ⟨⟨List.Pairwise.nil, by simp, le_rfl⟩, rfl⟩

/-- In stride, a scan that has not looked at a slot that is wanted has spent its
budget on the way there. -/
theorem approaches_of_unseen {want : σ → Nat → Bool}
    (hkeep : ∀ s y, want s x → due s y → y ≠ x → want (serve y s) x) (hlt : x < n) (scan : Scan σ) {least k m : Nat}
    (hm : k + m = n) (hs : InStride n due serve want scan.budget scan.state scan.cursor least)
    (hleast : ∀ y < n, due scan.state y → least ≤ ahead n scan.cursor y → k ≤ ahead n scan.cursor y)
    (hk : least ≤ k) (hfar : scan.budget ≠ 0 → k ≤ ahead n scan.cursor x) (hx : want scan.state x)
    (hout : x ∉ looks n due serve (List.range' k m) scan) :
    Approaches n x scan.cursor (serves n due serve (List.range' k m) scan) ∧
      (serves n due serve (List.range' k m) scan).length = scan.budget := by
  induction m generalizing k scan least with
  | zero =>
    by_cases hb : scan.budget = 0
    · exact approaches_of_spent hb
    · have hfar := hfar hb
      have hx := ahead_lt scan.cursor x (Nat.zero_lt_of_lt hlt)
      omega
  | succ m ih =>
    by_cases hb : scan.budget = 0
    · exact approaches_of_spent hb
    have hfar := hfar hb
    have hkn : k < n := by omega
    have hslot : (scan.cursor + k) % n < n := Nat.mod_lt _ (Nat.zero_lt_of_lt hkn)
    have hlook : look n scan k = some ((scan.cursor + k) % n) := if_neg hb
    have hahead : ahead n scan.cursor ((scan.cursor + k) % n) = k := ahead_slot hkn
    rw [List.range'_succ, looks, hlook, Option.toList_some, List.singleton_append, List.mem_cons, not_or] at hout
    obtain ⟨hne, hout⟩ := hout
    have hpast : k < ahead n scan.cursor x := by
      refine lt_of_le_of_ne hfar ?_
      rintro rfl
      exact hne (slot_ahead hlt).symm
    have hserved : served n due scan k = Option.filter (due scan.state) (some ((scan.cursor + k) % n)) := by
      rw [served, hlook]
    rw [List.range'_succ, serves]
    generalize (scan.cursor + k) % n = y at *
    cases hd : due scan.state y with
    | false =>
      have hnone : served n due scan k = none := by rw [hserved, Option.filter_some, hd]; rfl
      have hv : visit n due serve scan k = scan := by rw [visit, hnone]
      rw [hv] at hout ⊢
      rw [hnone, Option.toList_none, List.nil_append]
      refine ih scan (by omega) hs (fun z hz hdz hl => ?_) (Nat.le_succ_of_le hk) (fun _ => hpast) hx hout
      refine Nat.lt_of_le_of_ne (hleast z hz hdz hl) ?_
      rintro rfl
      rw [ahead_inj hslot hz hahead] at hd
      simp [hdz] at hd
    | true =>
      have hsome : served n due scan k = some y := by rw [hserved, Option.filter_some, hd]; rfl
      have hv : visit n due serve scan k = ⟨serve y scan.state, y + 1, scan.budget - 1⟩ := by rw [visit, hsome]
      rw [hv] at hout ⊢
      rw [hsome, Option.toList_some, List.singleton_append, List.length_cons]
      obtain ⟨budget, hbudget⟩ := Nat.exists_eq_succ_of_ne_zero hb
      rw [hbudget] at hs hout ⊢
      have hnext : Next n due scan.state scan.cursor least y :=
        ⟨hslot, hd, by omega, fun z hz hdz hl => by have := hleast z hz hdz hl; omega⟩
      have hstride := hs.2 y hnext
      rw [hahead] at hstride
      have hwant := hkeep scan.state y hx hd (Ne.symm hne)
      have hfrom := ahead_from scan.cursor hlt hslot (by omega)
      have hrest : budget ≠ 0 → k + 1 ≤ ahead n (y + 1) x := by
        intro hb
        obtain ⟨budget, rfl⟩ := Nat.exists_eq_succ_of_ne_zero hb
        exact hstride.1 x hlt hwant
      obtain ⟨happ, hlen⟩ := ih ⟨serve y scan.state, y + 1, budget⟩ (by omega) hstride
        (fun z _ _ hl => hl) le_rfl hrest hwant hout
      exact ⟨happ.cons (ahead_succ hlt hslot (Ne.symm hne)) (by omega), congrArg Nat.succ hlen⟩

theorem approaches_of_stride {want : σ → Nat → Bool} (scan : Scan σ)
    (hkeep : ∀ s y, want s x → due s y → y ≠ x → want (serve y s) x) (hlt : x < n)
    (hs : InStride n due serve want scan.budget scan.state scan.cursor 0) (hx : want scan.state x)
    (hout : x ∉ looks n due serve (List.range n) scan) :
    Approaches n x scan.cursor (serves n due serve (List.range n) scan) ∧
      (serves n due serve (List.range n) scan).length = scan.budget := by
  rw [List.range_eq_range'] at hout ⊢
  exact approaches_of_unseen hkeep hlt scan (Nat.zero_add n) hs (fun _ _ _ _ => Nat.zero_le _) le_rfl
    (fun _ => Nat.zero_le _) hx hout

/-- What is looked at while it is due is served. -/
theorem serves_of_looks (hkeep : ∀ s y, due s x → due s y → y ≠ x → due (serve y s) x) {ks : List Nat}
    (hx : due scan.state x) (h : x ∈ looks n due serve ks scan) : x ∈ serves n due serve ks scan := by
  induction ks generalizing scan with
  | nil => cases h
  | cons k ks ih =>
    rw [serves, List.mem_append]
    obtain hk | hrest := List.mem_append.1 h
    · left
      simp only [Option.mem_toList] at hk ⊢
      rw [served, hk, Option.filter_some, hx]
      rfl
    · cases hs : served n due scan k with
      | none =>
        have hv : visit n due serve scan k = scan := by rw [visit, hs]
        rw [hv] at hrest ⊢
        exact .inr (ih hx hrest)
      | some y =>
        have hv : visit n due serve scan k = ⟨serve y scan.state, y + 1, scan.budget - 1⟩ := by rw [visit, hs]
        rw [hv] at hrest ⊢
        by_cases hy : y = x
        · simp [hy]
        · exact .inr (ih (hkeep _ _ hx (served_eq_some hs).2.2 hy) hrest)

theorem Approaches.of_mod_eq (h : Approaches n x base xs) {base' : Nat} (hb : base % n = base' % n) :
    Approaches n x base' xs := by
  have hbase : ahead n base' x = ahead n base x := by rw [← ahead_mod, ← hb, ahead_mod]
  have hbehind : ahead n (behind base' xs) x = ahead n (behind base xs) x := by
    cases xs with
    | nil => exact hbase
    | cons y xs => rfl
  constructor
  · exact h.nearer
  · rw [hbase, hbehind]
    exact h.within
  · rw [hbase, hbehind]
    exact h.closer

/-- One approach after the other. -/
theorem Approaches.append {ys : List Nat} (h : Approaches n x base xs) (h' : Approaches n x (behind base xs) ys) :
    Approaches n x base (xs ++ ys) := by
  have hbehind : behind base (xs ++ ys) = behind (behind base xs) ys := by simp [behind]
  refine ⟨List.pairwise_append.2 ⟨h.nearer, h'.nearer, fun y hy z hz => ?_⟩, fun y hy => ?_, ?_⟩
  · exact (h'.within z hz).2.trans_lt (h.within y hy).1
  · rw [hbehind]
    obtain hy | hy := List.mem_append.1 hy
    · exact ⟨h'.closer.trans_lt (h.within y hy).1, (h.within y hy).2⟩
    · exact ⟨(h'.within y hy).1, (h'.within y hy).2.trans h.closer⟩
  · rw [hbehind]
    exact h'.closer.trans h.closer

theorem Approaches.nodup (h : Approaches n x base xs) : xs.Nodup :=
  h.nearer.imp fun hlt => by
    rintro rfl
    exact lt_irrefl _ hlt

end Lib.Circle
