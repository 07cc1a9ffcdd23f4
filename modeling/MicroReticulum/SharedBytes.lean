import MicroReticulum.Bytes
import MicroReticulum.Lib.Runs
import MicroReticulum.Lib.Sharing

/-!
# Bytes objects

`RNS::Bytes` shares its vector between copies until one of them changes it. An
object is a handle; `none` is the object an expression makes. An empty object has
no vector, or an empty one.
-/

namespace MicroReticulum.SharedBytes

open Lib Lib.Sharing Lib.Runs

variable {V : Type*} [DecidableEq V]

abbrev Objects (V : Type*) := Store (Option V) Bytes

/-- `resize` of a vector: cut, or filled up with zeros. -/
def resized (n : Nat) (b : Bytes) : Bytes := b.take n ++ List.replicate (n - b.length) 0

/-- Bytes written through a pointer. -/
def overwrite (writes : List (Nat × UInt8)) (b : Bytes) : Bytes := writes.foldl (fun b x => b.set x.1 x.2) b

/-- `operator <` of vectors. -/
def less : Bytes → Bytes → Bool
  | _, [] => false
  | [], _ :: _ => true
  | x :: xs, y :: ys => if x < y then true else if y < x then false else less xs ys

section
variable {N : Type*} [DecidableEq N] (s : Store N Bytes) (v w : N)

def bytes : Bytes := (s.content v).getD []

-- ---------------------------------------------------------------------------
-- One object
-- ---------------------------------------------------------------------------

def newData : Store N Bytes := s.fresh v []

def exclusiveData (copy : Bool) : Store N Bytes :=
  match s.content v with
  | none => newData s v
  | some data =>
    if (s.handles v).exclusive then s
    else if copy ∧ data ≠ [] then s.fresh v data
    else newData s v

def clear : Store N Bytes := s.drop v

def assign : Store N Bytes := s.share v w

def assignChunk (data : Bytes) : Store N Bytes :=
  if data = [] then s.drop v else (exclusiveData s v false).write v fun _ => data

/-- The storage is reserved first, so an object may be appended to itself. -/
def append : Store N Bytes :=
  if bytes s w = [] then s
  else
    let s := exclusiveData s v true
    s.write v (· ++ bytes s w)

def appendChunk (data : Bytes) : Store N Bytes :=
  if data = [] then s else (exclusiveData s v true).write v (· ++ data)

def resize (n : Nat) : Store N Bytes :=
  if n = (bytes s v).length then s else (exclusiveData s v true).write v (resized n)

def writable (n : Nat) : Store N Bytes :=
  if 0 < n then resize (exclusiveData s v false) v n
  else match s.content v with
    | none => s
    | some data => resize (exclusiveData s v false) v data.length

def compare : Ordering :=
  if (s.handles v).cell = (s.handles w).cell then .eq
  else match s.content v, s.content w with
    | none, _ => .lt
    | _, none => .gt
    | some x, some y => if less x y then .lt else if less y x then .gt else .eq

end

-- ---------------------------------------------------------------------------
-- Programs
-- ---------------------------------------------------------------------------

inductive Expr (V : Type*) where
  | mid (b : V) (pos len : Nat)
  | midToEnd (b : V) (pos : Nat)
  | left (b : V) (len : Nat)
  | right (b : V) (len : Nat)
  | concat (b c : V)

inductive Op (V : Type*) where
  /-- `Bytes(size_t capacity)`. -/
  | capacity (a : V)
  /-- The copy constructor, and `operator =`. -/
  | assign (a b : V)
  | assignChunk (a : V) (data : Bytes)
  | append (a b : V)
  | appendChunk (a : V) (data : Bytes)
  | resize (a : V) (n : Nat)
  | clear (a : V)
  /-- The pointer is written through at once and not kept. -/
  | writable (a : V) (n : Nat) (writes : List (Nat × UInt8))
  /-- The object an expression makes is `a` itself, or is assigned to it. -/
  | eval (a : V) (e : Expr V) (constructed : Bool)
  | compare (a b : V)

/-- The object that an expression makes. -/
def Expr.make (s : Objects V) : Expr V → Objects V
  | .mid b pos len => if pos ≥ (bytes s (some b)).length then s else assignChunk s none ((bytes s (some b)).mid pos len)
  | .midToEnd b pos => if pos ≥ (bytes s (some b)).length then s else assignChunk s none ((bytes s (some b)).drop pos)
  | .left b len => assignChunk s none ((bytes s (some b)).left len)
  | .right b len => assignChunk s none ((bytes s (some b)).right len)
  | .concat b c => SharedBytes.append (SharedBytes.assign s none (some b)) none (some c)

/-- The objects, and how the comparisons came out. -/
structure Machine (V : Type*) where
  objects : Objects V := {}
  compared : List Ordering := []

def step (m : Machine V) : Op V → Machine V
  | .capacity a => { m with objects := newData m.objects (some a) }
  | .assign a b => { m with objects := assign m.objects (some a) (some b) }
  | .assignChunk a data => { m with objects := assignChunk m.objects (some a) data }
  | .append a b => { m with objects := append m.objects (some a) (some b) }
  | .appendChunk a data => { m with objects := appendChunk m.objects (some a) data }
  | .resize a n => { m with objects := resize m.objects (some a) n }
  | .clear a => { m with objects := clear m.objects (some a) }
  | .writable a n writes => { m with objects := (writable m.objects (some a) n).write (some a) (overwrite writes) }
  | .eval a e constructed =>
    let made := e.make (clear m.objects none)
    if constructed then { m with objects := made.move (some a) none }
    else { m with objects := clear (assign made (some a) none) none }
  | .compare a b => { m with compared := m.compared ++ [compare m.objects (some a) (some b)] }

-- ---------------------------------------------------------------------------
-- Independent byte strings
-- ---------------------------------------------------------------------------

/-- Lexicographic, by the numbers the bytes are. -/
def compareContents (x y : Bytes) : Ordering := cmp (x.map UInt8.toNat) (y.map UInt8.toNat)

structure Values (V : Type*) where
  value : V → Bytes := fun _ => []
  compared : List Ordering := []

def Expr.value (σ : V → Bytes) : Expr V → Bytes
  | .mid b pos len => (σ b).mid pos len
  | .midToEnd b pos => (σ b).drop pos
  | .left b len => (σ b).left len
  | .right b len => (σ b).right len
  | .concat b c => σ b ++ σ c

def Values.set (m : Values V) (a : V) (b : Bytes) : Values V := { m with value := Function.update m.value a b }

def compute (m : Values V) : Op V → Values V
  | .capacity a => m.set a []
  | .assign a b => m.set a (m.value b)
  | .assignChunk a data => m.set a data
  | .append a b => m.set a (m.value a ++ m.value b)
  | .appendChunk a data => m.set a (m.value a ++ data)
  | .resize a n => m.set a (resized n (m.value a))
  | .clear a => m.set a []
  | .writable a n writes =>
    m.set a (overwrite writes (resized (if 0 < n then n else (m.value a).length) (m.value a)))
  | .eval a e _ => m.set a (e.value m.value)
  | .compare a b => { m with compared := m.compared ++ [compareContents (m.value a) (m.value b)] }

/-- Every object's content, and every comparison, is that of the byte strings. -/
def Agrees (m : Machine V) (σ : Values V) : Prop :=
  (∀ a, bytes m.objects (some a) = σ.value a) ∧ m.compared = σ.compared

/-- What a shared object held, and `writable` would keep, is zero or written over. -/
def Detaches (s : Objects V) (a : V) (n : Nat) (writes : List (Nat × UInt8)) : Prop :=
  (s.handles (some a)).exclusive = false →
    ∀ i < if 0 < n then n else (bytes s (some a)).length, i ∉ writes.map Prod.fst → (bytes s (some a)).getD i 0 = 0

/-- An object without a vector is not compared with one whose vector is empty. -/
def Comparable (s : Objects V) (a b : V) : Prop :=
  s.content (some a) = none → s.content (some b) ≠ some []

def Ok (s : Objects V) : Op V → Prop
  | .writable a n writes => Detaches s a n writes
  | .compare a b => Comparable s a b ∧ Comparable s b a
  | _ => True

section
variable {N : Type*} [DecidableEq N] {s s' s₁ s₂ : Store N Bytes} {u v w : N} {b b' data : Bytes} {n : Nat} {copy : Bool}

-- ---------------------------------------------------------------------------
-- What the operations do
-- ---------------------------------------------------------------------------

/-- One object holds the bytes, the others what they held. -/
structure Sets (s s' : Store N Bytes) (v : N) (b : Bytes) : Prop where
  sound : s'.Sound
  self : bytes s' v = b
  other : ∀ u, u ≠ v → s'.content u = s.content u

omit [DecidableEq N] in
theorem Sets.bytes (h : Sets s s' v b) (hu : u ≠ v) : bytes s' u = bytes s u := by
  rw [SharedBytes.bytes, h.other u hu, SharedBytes.bytes]

omit [DecidableEq N] in
theorem Sets.trans (h₁ : Sets s s₁ v b) (h₂ : Sets s₁ s₂ v b') : Sets s s₂ v b' :=
  ⟨h₂.sound, h₂.self, fun u hu => (h₂.other u hu).trans (h₁.other u hu)⟩

omit [DecidableEq N] in
theorem Sets.refl (h : s.Sound) : Sets s s v (SharedBytes.bytes s v) := ⟨h, rfl, fun _ _ => rfl⟩

theorem fresh_sets (h : s.Sound) : Sets s (s.fresh v b) v b :=
  ⟨h.fresh, by simp [bytes, Store.content_fresh h], fun u hu => by rw [Store.content_fresh h, if_neg hu]⟩

theorem clear_sets (h : s.Sound) : Sets s (clear s v) v [] :=
  ⟨h.drop, by simp [bytes, clear, Store.content_drop], fun u hu => by rw [clear, Store.content_drop, if_neg hu]⟩

theorem assign_sets (h : s.Sound) : Sets s (assign s v w) v (bytes s w) :=
  ⟨h.share, by simp [bytes, assign, Store.content_share], fun u hu => by rw [assign, Store.content_share, if_neg hu]⟩

/-- What an object holds by itself afterwards: a copy, unless none was asked for. -/
theorem exclusiveData_sets (h : s.Sound) (v : N) (copy : Bool) :
    Sets s (exclusiveData s v copy) v (if copy ∨ (s.handles v).exclusive then bytes s v else []) ∧
      ((exclusiveData s v copy).handles v).exclusive ∧ (exclusiveData s v copy).content v ≠ none := by
  have hfresh : ∀ b, (s.fresh v b).content v ≠ none := by
    intro b
    rw [Store.content_fresh h, if_pos rfl]
    exact Option.some_ne_none b
  unfold exclusiveData newData
  split
  · next hv =>
    have hb : bytes s v = [] := by
      rw [bytes, hv]
      rfl
    rw [hb, ite_self]
    exact ⟨fresh_sets h, Store.fresh_exclusive, hfresh _⟩
  · next data hv =>
    have hb : bytes s v = data := by
      rw [bytes, hv]
      rfl
    split
    · next he =>
      rw [if_pos (.inr he)]
      exact ⟨.refl h, he, by simp [hv]⟩
    · next he =>
      split
      · next hcopy =>
        rw [if_pos (.inl hcopy.1), hb]
        exact ⟨fresh_sets h, Store.fresh_exclusive, hfresh _⟩
      · next hcopy =>
        have hnil : (if copy ∨ (s.handles v).exclusive then bytes s v else []) = [] := by
          rw [hb]
          split
          · next hor =>
            by_contra hne
            exact hcopy ⟨hor.resolve_right he, hne⟩
          · rfl
        rw [hnil]
        exact ⟨fresh_sets h, Store.fresh_exclusive, hfresh _⟩

/-- Written in place, where that shows nowhere else. -/
theorem write_sets {f : Bytes → Bytes} (h : s.Sound) (he : (s.handles v).exclusive) (hv : s.content v ≠ none) :
    Sets s (s.write v f) v (f (bytes s v)) := by
  refine ⟨h.write, ?_, fun u hu => by rw [Store.content_write h fun _ => he, if_neg hu]⟩
  rw [bytes, Store.content_write h fun _ => he, if_pos rfl, bytes]
  cases hc : s.content v with
  | none => exact absurd hc hv
  | some x => rfl

theorem exclusive_write_sets {f : Bytes → Bytes} (h : s.Sound) (copy : Bool) :
    Sets s ((exclusiveData s v copy).write v f) v
      (f (if copy ∨ (s.handles v).exclusive then bytes s v else [])) := by
  obtain ⟨hsets, he, hv⟩ := exclusiveData_sets h v copy
  have hwrite := write_sets (f := f) hsets.sound he hv
  rw [hsets.self] at hwrite
  exact hsets.trans hwrite

theorem assignChunk_sets (h : s.Sound) : Sets s (assignChunk s v data) v data := by
  unfold assignChunk
  split
  · next hd =>
    rw [hd]
    exact clear_sets h
  · exact exclusive_write_sets (f := fun _ => data) h false

theorem append_sets (h : s.Sound) : Sets s (append s v w) v (bytes s v ++ bytes s w) := by
  unfold append
  split
  · next hw =>
    rw [hw, List.append_nil]
    exact .refl h
  · have hset := (exclusiveData_sets h v true).1
    rw [if_pos (.inl rfl)] at hset
    have hw : bytes (exclusiveData s v true) w = bytes s w := by
      by_cases hwv : w = v
      · rw [hwv, hset.self]
      · exact hset.bytes hwv
    have hwrite := exclusive_write_sets (v := v) (f := (· ++ bytes s w)) h true
    rw [if_pos (.inl rfl)] at hwrite
    dsimp only
    rw [hw]
    exact hwrite

theorem appendChunk_sets (h : s.Sound) : Sets s (appendChunk s v data) v (bytes s v ++ data) := by
  unfold appendChunk
  split
  · next hd =>
    rw [hd, List.append_nil]
    exact .refl h
  · have hwrite := exclusive_write_sets (v := v) (f := (· ++ data)) h true
    rwa [if_pos (.inl rfl)] at hwrite

theorem resized_length (n : Nat) (b : Bytes) : (resized n b).length = n := by
  simp only [resized, List.length_append, List.length_take, List.length_replicate]
  omega

theorem resized_self (b : Bytes) : resized b.length b = b := by simp [resized]

theorem resize_sets (h : s.Sound) : Sets s (resize s v n) v (resized n (bytes s v)) := by
  unfold resize
  split
  · next hn =>
    rw [hn, resized_self]
    exact .refl h
  · have hwrite := exclusive_write_sets (v := v) (f := resized n) h true
    rwa [if_pos (.inl rfl)] at hwrite

/-- An object with a vector of its own. -/
def Owned (s : Store N Bytes) (v : N) : Prop := (s.handles v).exclusive ∧ s.content v ≠ none

theorem Owned.write {f : Bytes → Bytes} (h : Owned s v) (hs : s.Sound) : Owned (s.write v f) v := by
  refine ⟨by rw [Store.write_handles]; exact h.1, ?_⟩
  rw [Store.content_write hs fun _ => h.1, if_pos rfl]
  cases hv : s.content v with
  | none => exact absurd hv h.2
  | some x => exact Option.some_ne_none _

theorem Owned.exclusiveData (h : Owned s v) (copy : Bool) : exclusiveData s v copy = s := by
  unfold SharedBytes.exclusiveData
  cases hv : s.content v with
  | none => exact absurd hv h.2
  | some x => exact if_pos h.1

theorem Owned.resize (h : Owned s v) (hs : s.Sound) : Owned (resize s v n) v := by
  unfold SharedBytes.resize
  split
  · exact h
  · rw [h.exclusiveData]
    exact h.write hs

theorem overwrite_nil (writes : List (Nat × UInt8)) : overwrite writes [] = [] := by
  induction writes with
  | nil => rfl
  | cons x writes ih => exact ih

/-- The pointer leads to the bytes an object alone on its vector held, to none of
those it shared. -/
theorem writable_sets (h : s.Sound) (n : Nat) (writes : List (Nat × UInt8)) :
    Sets s ((writable s v n).write v (overwrite writes)) v
      (overwrite writes (resized (if 0 < n then n else (bytes s v).length)
        (if (s.handles v).exclusive then bytes s v else []))) := by
  obtain ⟨hsets, howned⟩ := exclusiveData_sets h v false
  simp only [Bool.false_eq_true, false_or] at hsets
  have hresized : ∀ n, Sets s ((resize (exclusiveData s v false) v n).write v (overwrite writes)) v
      (overwrite writes (resized n (if (s.handles v).exclusive then bytes s v else []))) := by
    intro n
    have hresize := resize_sets (v := v) (n := n) hsets.sound
    have hown := Owned.resize (n := n) howned hsets.sound
    have hwrite := write_sets (f := overwrite writes) hresize.sound hown.1 hown.2
    rw [hresize.self, hsets.self] at hwrite
    exact (hsets.trans hresize).trans hwrite
  unfold writable
  by_cases hn : 0 < n
  · rw [if_pos hn, if_pos hn]
    exact hresized n
  · rw [if_neg hn, if_neg hn]
    split
    · next hv =>
      have hb : bytes s v = [] := by
        rw [bytes, hv]
        rfl
      have hcell := (Store.content_none h).1 hv
      have hwrite : s.write v (overwrite writes) = s := by
        unfold Store.write
        rw [hcell]
      have hself := Sets.refl (v := v) h
      rw [hb] at hself
      rw [hwrite, hb, ite_self]
      simpa [resized, overwrite_nil] using hself
    · next data hv =>
      have hb : bytes s v = data := by
        rw [bytes, hv]
        rfl
      rw [hb] at hresized ⊢
      exact hresized _

end

-- ---------------------------------------------------------------------------
-- Bytes written through a pointer
-- ---------------------------------------------------------------------------

theorem overwrite_eq_iff (writes : List (Nat × UInt8)) {b b' : Bytes} (h : b.length = b'.length) :
    overwrite writes b = overwrite writes b' ↔ ∀ i, i ∉ writes.map Prod.fst → b[i]? = b'[i]? := by
  induction writes generalizing b b' with
  | nil =>
    constructor
    · rintro hb i -
      exact congrArg (·[i]?) hb
    · intro hb
      exact List.ext_getElem? fun i => hb i (by simp)
  | cons x writes ih =>
    have hset : overwrite (x :: writes) b = overwrite (x :: writes) b' ↔
        overwrite writes (b.set x.1 x.2) = overwrite writes (b'.set x.1 x.2) := Iff.rfl
    rw [hset, ih (by simp [h])]
    refine forall_congr' fun i => ?_
    rw [List.map_cons, List.mem_cons, not_or]
    by_cases hi : i = x.1
    · subst hi
      simp [List.getElem?_set, h]
    · simp [List.getElem?_set_ne (Ne.symm hi), hi]

theorem resized_getElem? (n i : Nat) (b : Bytes) : (resized n b)[i]? = if i < n then some (b.getD i 0) else none := by
  unfold resized
  by_cases hi : i < n
  · rw [if_pos hi]
    by_cases hb : i < b.length
    · rw [List.getElem?_append_left (by rw [List.length_take]; omega), List.getElem?_take_of_lt hi]
      simp [hb]
    · rw [List.getElem?_append_right (by rw [List.length_take]; omega), List.getElem?_replicate,
        if_pos (by rw [List.length_take]; omega), List.getD_eq_getElem?_getD, List.getElem?_eq_none (not_lt.1 hb)]
      rfl
  · rw [if_neg hi, List.getElem?_eq_none]
    rw [List.length_append, List.length_take, List.length_replicate]
    omega

/-- Zeros in place of what was held make no difference where that was zero or is
written over. -/
theorem overwrite_resized_iff (n : Nat) (writes : List (Nat × UInt8)) (b : Bytes) :
    overwrite writes (resized n []) = overwrite writes (resized n b) ↔
      ∀ i < n, i ∉ writes.map Prod.fst → b.getD i 0 = 0 := by
  rw [overwrite_eq_iff writes ((resized_length n []).trans (resized_length n b).symm)]
  refine forall_congr' fun i => ?_
  rw [resized_getElem?, resized_getElem?]
  by_cases hi : i < n
  · simp only [hi, if_true, Option.some.injEq, List.getD_nil, forall_const]
    exact imp_congr_right fun _ => eq_comm
  · simp [hi]

-- ---------------------------------------------------------------------------
-- Comparisons
-- ---------------------------------------------------------------------------

theorem less_iff : ∀ x y : Bytes, less x y = true ↔ x.map UInt8.toNat < y.map UInt8.toNat
  | x, [] => by simp [less]
  | [], y :: ys => by simp [less]
  | x :: xs, y :: ys => by
    rw [less, List.map_cons, List.map_cons, List.cons_lt_cons_iff]
    split
    · next hlt => simp [UInt8.lt_iff_toNat_lt.1 hlt]
    · next hle =>
      have hle : ¬ x.toNat < y.toNat := fun h => hle (UInt8.lt_iff_toNat_lt.2 h)
      split
      · next hgt =>
        have hgt := UInt8.lt_iff_toNat_lt.1 hgt
        simp only [Bool.false_eq_true, false_iff, not_or, not_and]
        exact ⟨hle, fun he => absurd he (by omega)⟩
      · next hge =>
        have hge : ¬ y.toNat < x.toNat := fun h => hge (UInt8.lt_iff_toNat_lt.2 h)
        have heq : x.toNat = y.toNat := by omega
        rw [less_iff xs ys]
        simp [heq]

/-- Equal is what has the same contents. -/
theorem compareContents_eq {x y : Bytes} : compareContents x y = .eq ↔ x = y := by
  have hinj : x.map UInt8.toNat = y.map UInt8.toNat ↔ x = y :=
    List.map_inj_right fun _ _ h => UInt8.toNat_inj.1 h
  rw [← hinj, compareContents, cmp, cmpUsing]
  have htri := lt_trichotomy (x.map UInt8.toNat) (y.map UInt8.toNat)
  split_ifs with hlt hgt
  · simp [ne_of_lt hlt]
  · simp [ne_of_gt hgt]
  · simp [(htri.resolve_left hlt).resolve_right hgt]

theorem compareContents_less (x y : Bytes) :
    (if less x y then Ordering.lt else if less y x then .gt else .eq) = compareContents x y := by
  simp only [less_iff]
  rfl

omit [DecidableEq V] in
theorem compare_iff {s : Objects V} (h : s.Sound) (a b : V) :
    compare s (some a) (some b) = compareContents (bytes s (some a)) (bytes s (some b)) ↔
      Comparable s a b ∧ Comparable s b a := by
  unfold compare Comparable bytes
  split
  · next hcell =>
    have hsame : s.content (some a) = s.content (some b) := by rw [Store.content, hcell, Store.content]
    rw [hsame]
    refine iff_of_true (compareContents_eq.2 rfl).symm ⟨fun hn => ?_, fun hn => ?_⟩ <;> simp [hn]
  · next hcell =>
    cases ha : s.content (some a) with
    | none =>
      cases hb : s.content (some b) with
      | none => exact absurd (((Store.content_none h).1 ha).trans ((Store.content_none h).1 hb).symm) hcell
      | some y =>
        cases y with
        | nil => simp [compareContents_eq.2]
        | cons y ys => simp [compareContents, cmp, cmpUsing]
    | some x =>
      cases hb : s.content (some b) with
      | none =>
        cases x with
        | nil => simp [compareContents_eq.2]
        | cons x xs => simp [compareContents, cmp, cmpUsing]
      | some y => simp [compareContents_less]

-- ---------------------------------------------------------------------------
-- Any program
-- ---------------------------------------------------------------------------

variable {s s' : Objects V} {m : Machine V} {σ : Values V} {a : V} {b b' : Bytes} {e : Expr V} {op : Op V}

theorem Expr.make_sets (h : s.Sound) (hmade : bytes s none = []) : ∀ e : Expr V,
    Sets s (e.make s) none (e.value fun b => bytes s (some b)) := by
  have hself : Sets s s none [] := hmade ▸ Sets.refl (v := none) h
  intro e
  cases e with
  | mid b pos len =>
    simp only [make, value]
    split
    · next hpos =>
      have hnil : (bytes s (some b)).mid pos len = [] := by simp [Bytes.mid, List.drop_eq_nil_of_le hpos]
      rwa [hnil]
    · exact assignChunk_sets h
  | midToEnd b pos =>
    simp only [make, value]
    split
    · next hpos => rwa [List.drop_eq_nil_of_le hpos]
    · exact assignChunk_sets h
  | left b len => exact assignChunk_sets h
  | right b len => exact assignChunk_sets h
  | concat b c =>
    have hassign := assign_sets (v := none) (w := some b) h
    have happend := append_sets (v := none) (w := some c) hassign.sound
    rw [hassign.self, hassign.bytes (by simp)] at happend
    exact hassign.trans happend

/-- What matters to the program: its own objects. -/
structure Leaves (s s' : Objects V) (a : V) (b : Bytes) : Prop where
  sound : s'.Sound
  self : bytes s' (some a) = b
  other : ∀ x, x ≠ a → bytes s' (some x) = bytes s (some x)

omit [DecidableEq V] in
theorem Sets.leaves (h : Sets s s' (some a) b) : Leaves s s' a b :=
  ⟨h.sound, h.self, fun _ hx => h.bytes fun he => hx (Option.some.inj he)⟩

/-- What an expression made becomes the object, or is assigned to it. -/
theorem Sets.eval (h : Sets s s' none b) (a : V) (constructed : Bool) :
    Leaves s (if constructed then s'.move (some a) none else clear (SharedBytes.assign s' (some a) none) none) a b := by
  have hother : ∀ x : V, SharedBytes.bytes s' (some x) = SharedBytes.bytes s (some x) := fun x => h.bytes (Option.some_ne_none x)
  have hne : some a ≠ none := Option.some_ne_none a
  cases constructed with
  | true =>
    refine ⟨h.sound.move hne, ?_, fun x hx => ?_⟩
    · rw [← h.self]
      simp [SharedBytes.bytes, Store.content_move hne]
    · rw [← hother]
      simp [SharedBytes.bytes, Store.content_move hne, hx]
  | false =>
    have hassign := assign_sets (v := some a) (w := none) h.sound
    have hclear := clear_sets (v := none) hassign.sound
    refine ⟨hclear.sound, ?_, fun x hx => ?_⟩
    · exact (hclear.bytes hne).trans (hassign.self.trans h.self)
    · exact (hclear.bytes (Option.some_ne_none x)).trans ((hassign.bytes fun he => hx (Option.some.inj he)).trans (hother x))

/-- The objects stay in step where what is left is what was computed. -/
theorem Agrees.set_iff (h : Agrees m σ) (hl : Leaves m.objects s' a b) :
    Agrees { m with objects := s' } (σ.set a b') ↔ b = b' := by
  constructor
  · rintro ⟨hvalues, -⟩
    have ha := hvalues a
    rw [hl.self] at ha
    simpa [Values.set] using ha
  · rintro rfl
    refine ⟨fun x => ?_, h.2⟩
    by_cases hx : x = a
    · subst hx
      simp [Values.set, hl.self]
    · simp [Values.set, hx, hl.other x hx, h.1 x]

theorem Agrees.set (h : Agrees m σ) (hl : Leaves m.objects s' a b) (hb : b = b') :
    s'.Sound ∧ Agrees { m with objects := s' } (σ.set a b') := ⟨hl.sound, (h.set_iff hl).2 hb⟩

/-- A step stays in step exactly if it meets the condition. -/
theorem step_agrees (hs : m.objects.Sound) (h : Agrees m σ) (op : Op V) :
    (step m op).objects.Sound ∧ (Agrees (step m op) (compute σ op) ↔ Ok m.objects op) := by
  have hval := h.1
  have hset : ∀ {s' : Objects V} {a : V} {b b' : Bytes}, Leaves m.objects s' a b → b = b' →
      s'.Sound ∧ (Agrees { m with objects := s' } (σ.set a b') ↔ True) :=
    fun hl hb => ⟨(h.set hl hb).1, iff_true_intro (h.set hl hb).2⟩
  cases op with
  | capacity a => exact hset (fresh_sets hs).leaves rfl
  | assign a b => exact hset (assign_sets hs).leaves (hval b)
  | assignChunk a data => exact hset (assignChunk_sets hs).leaves rfl
  | append a b => exact hset (append_sets hs).leaves (by rw [hval, hval])
  | appendChunk a data => exact hset (appendChunk_sets hs).leaves (by rw [hval])
  | resize a n => exact hset (resize_sets hs).leaves (by rw [hval])
  | clear a => exact hset (clear_sets hs).leaves rfl
  | writable a n writes =>
    have hl := (writable_sets (v := some a) hs n writes).leaves
    refine ⟨hl.sound, (h.set_iff hl).trans ?_⟩
    rw [← hval a, Ok, Detaches]
    cases he : (m.objects.handles (some a)).exclusive with
    | true => simp
    | false =>
      simp only [Bool.false_eq_true, if_false, forall_const]
      exact overwrite_resized_iff _ _ _
  | eval a e constructed =>
    have hclear := clear_sets (v := none) hs
    have hmade := Expr.make_sets hclear.sound hclear.self e
    have hvalue : (e.value fun b => bytes (clear m.objects none) (some b)) = e.value σ.value := by
      congr 1
      funext b
      rw [hclear.bytes (Option.some_ne_none b), hval]
    have hl := (hclear.trans hmade).eval a constructed
    cases constructed with
    | true => exact hset hl hvalue
    | false => exact hset hl hvalue
  | compare a b =>
    refine ⟨hs, ?_⟩
    rw [Ok, ← compare_iff hs, hval, hval]
    constructor
    · rintro ⟨-, hlog⟩
      have hlast : m.compared ++ [compare m.objects (some a) (some b)] =
          σ.compared ++ [compareContents (σ.value a) (σ.value b)] := hlog
      rw [h.2] at hlast
      simpa using hlast
    · intro hcompare
      refine ⟨hval, ?_⟩
      show m.compared ++ [compare m.objects (some a) (some b)] =
        σ.compared ++ [compareContents (σ.value a) (σ.value b)]
      rw [h.2, hcompare]

/-- The objects and the byte strings, side by side. -/
def both (p : Machine V × Values V) (op : Op V) : Machine V × Values V := (step p.1 op, compute p.2 op)

def InStep (p : Machine V × Values V) : Prop := p.1.objects.Sound ∧ Agrees p.1 p.2

theorem InStep.both_iff {p : Machine V × Values V} (h : InStep p) (op : Op V) :
    Agrees (both p op).1 (both p op).2 ↔ Ok p.1.objects op := (step_agrees h.1 h.2 op).2

theorem InStep.both {p : Machine V × Values V} (h : InStep p) {op : Op V} (hok : Ok p.1.objects op) :
    InStep (both p op) := ⟨(step_agrees h.1 h.2 op).1, (h.both_iff op).2 hok⟩

/-- A program's objects hold, and compare as, what the same program computes on
independent byte strings, exactly as long as no shared object is made writable
that held more than zeros and what is written over, and no object without a
vector is compared with one whose vector is empty. -/
theorem value_type (ops : List (Op V)) :
    Throughout both (fun p => Agrees p.1 p.2) (({}, {}) : Machine V × Values V) ops ↔
      Guarded both (fun p op => Ok p.1.objects op) ({}, {}) ops := by
  have hstart : InStep (({}, {}) : Machine V × Values V) := ⟨Store.Sound.initial, fun _ => rfl, rfl⟩
  exact throughout_iff (fun _ _ h hok => InStep.both h hok) (fun _ h => h.2) (fun _ op h hbad hagrees =>
    hbad ((h.both_iff op).1 hagrees)) hstart

/-- Of two objects with the same contents one is made writable. -/
def copiedThenWritable : List (Op Bool) := [.assignChunk true [1, 2, 3], .assign false true, .writable false 3 [(0, 9)]]

/-- An object is cleared, the other cut to nothing. -/
def bothEmpty : List (Op Bool) := [.assignChunk true [1], .resize true 0, .clear false, .compare false true]

theorem shared_writable_loses :
    bytes (run step {} copiedThenWritable).objects (some false) = [9, 0, 0] ∧
      (run compute {} copiedThenWritable).value false = [9, 2, 3] ∧
      (run step {} bothEmpty).compared = [.lt] ∧ (run compute {} bothEmpty).compared = [.eq] ∧
      ¬ ∀ ops : List (Op Bool),
        Throughout both (fun p => Agrees p.1 p.2) (({}, {}) : Machine Bool × Values Bool) ops := by
  refine ⟨by decide, by decide, by decide, by decide, fun h => ?_⟩
  have hlast := ((h copiedThenWritable).last).1 false
  revert hlast
  decide

end MicroReticulum.SharedBytes
