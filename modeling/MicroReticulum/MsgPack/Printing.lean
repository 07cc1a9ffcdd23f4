import MicroReticulum.MsgPack.Printer
import MicroReticulum.MsgPack.Skipping

/-!
# Where the pretty-printer is confined

All its tests add a size to an offset; it is confined where none of these sums
is more than a size holds.
-/

namespace MicroReticulum.MsgPack

open Lib.Cursor

/-- What a value has behind its tag. -/
inductive Form where
  | scalar (k : Nat)
  /-- `len` bytes. -/
  | fixed (len : Nat)
  /-- A `k`-byte length, and `extra` bytes more than it says. -/
  | sized (k extra : Nat)
  | items (pairs : Bool) (count : Nat)
  | counted (pairs : Bool) (k : Nat)
  deriving DecidableEq, Repr

def formOf (b : Nat) : Form :=
  if b ≤ 0x7f then .scalar 0
  else if b ≤ 0x8f then .items true (b - 0x80)
  else if b ≤ 0x9f then .items false (b - 0x90)
  else if b ≤ 0xbf then .fixed (b - 0xa0)
  else if 0xe0 ≤ b then .scalar 0
  else if b ∈ [0xcc, 0xd0] then .scalar 1
  else if b ∈ [0xcd, 0xd1] then .scalar 2
  else if b ∈ [0xce, 0xd2, 0xca] then .scalar 4
  else if b ∈ [0xcf, 0xd3, 0xcb] then .scalar 8
  else if b ∈ [0xc4, 0xd9] then .sized 1 0
  else if b ∈ [0xc5, 0xda] then .sized 2 0
  else if b ∈ [0xc6, 0xdb] then .sized 4 0
  else if b = 0xc7 then .sized 1 1
  else if b = 0xc8 then .sized 2 1
  else if b = 0xc9 then .sized 4 1
  else if 0xd4 ≤ b ∧ b ≤ 0xd8 then .fixed (1 + 2 ^ (b - 0xd4))
  else if b = 0xdc then .counted false 2
  else if b = 0xdd then .counted false 4
  else if b = 0xde then .counted true 2
  else if b = 0xdf then .counted true 4
  -- nil, the booleans and the reserved tag
  else .scalar 0

/-- The largest offset that a value of this form at `i` makes the printer test. -/
def Form.reach (d : Bytes) (i : Nat) : Form → Nat
  | .scalar k => i + 1 + k
  | .fixed len => i + 1 + len
  | .sized k extra => if i + 1 + k ≤ d.length then i + 1 + k + extra + be (d.mid (i + 1) k) else i + 1 + k
  | .items _ _ => i + 1
  | .counted _ k => i + 1 + k

/-- The elements of a value of this form at `i`, and where they begin. -/
def Form.elements (d : Bytes) (i : Nat) : Form → Option (Bool × Nat × Nat)
  | .items pairs count => some (pairs, count, i + 1)
  | .counted pairs k =>
    if i + 1 + k ≤ d.length then some (pairs, be (d.mid (i + 1) k), i + 1 + k) else none
  | _ => none

/-- A header whose test fits, and elements that are printable by `Fits`. -/
def FormFits (next : Text → Nat → Read (Text × Nat)) (Fits : Text → Nat → Prop) (d : Bytes) (out : Text) (i : Nat)
    (form : Form) : Prop :=
  form.reach d i < SIZE ∧
    ∀ pairs count j, form.elements d i = some (pairs, count, j) →
      Along (fun s sep => next (s.1 ++ sep) s.2) (fun s sep => Fits (s.1 ++ sep) s.2)
        (separators pairs count) (out ++ opening pairs, j)

/-- Every value the printer enters from here on makes it test only offsets that
a size holds. -/
def Printable (fl : FloatText) (d : Bytes) : Nat → Text → Nat → Prop
  | 0, _, _ => True
  | levels + 1, out, i =>
    i < d.length → out.length ≤ 800 →
      FormFits (mpDecode fl d levels) (Printable fl d levels) d out i (formOf (d.byte i))

variable {fl : FloatText} {d : Bytes} {out : Text} {i k L levels b : Nat} {form : Form} {t : Nat → Text}
  {next : Text → Nat → Read (Text × Nat)} {put : Bytes → Text → Nat → Nat → Read (Text × Nat)} {P : Prop}
  {pairs : Bool} {r x y : Read (Text × Nat)}

-- ---------------------------------------------------------------------------
-- The tests
-- ---------------------------------------------------------------------------

theorem needN_of_lt (h : i + k < SIZE) : needN d i k = pure (decide (i + k ≤ d.length)) := by
  simp only [needN, add_of_lt h, Read.pure_bind]

theorem needN_of_le (h : SIZE ≤ i + k) : needN d i k = .escaped := by
  rw [needN, add, if_neg (not_lt.2 h)]
  rfl

/-- Confined, and leaving the cursor in the buffer, exactly where `P` holds. -/
def Stays (d : Bytes) (r : Read (α × Nat)) (P : Prop) : Prop :=
  (r.confined = true ↔ P) ∧ ∀ a j, r = .ok true (a, j) → j ≤ d.length

theorem Stays.congr {r : Read (α × Nat)} (h : Stays d r P) (hp : P ↔ P') : Stays d r P' := ⟨h.1.trans hp, h.2⟩

theorem stays_pure (h : i ≤ d.length) : Stays d (pure (a, i)) True := by
  refine ⟨by simp, ?_⟩
  intro a' j hr
  obtain ⟨-, rfl⟩ := Prod.mk.inj (Read.pure_eq_ok.1 hr)
  exact h

theorem stays_giveUp : Stays d (giveUp : Read (α × Nat)) True := ⟨by simp [giveUp], nofun⟩

theorem stays_bind {r : Read (α × Nat)} {f : α × Nat → Read (β × Nat)} {Q : α → Nat → Prop}
    (hr : r.confined = true ↔ P) (hf : ∀ a j, r = .ok true (a, j) → Stays d (f (a, j)) (Q a j)) :
    Stays d (r >>= f) (P ∧ ∀ a j, r = .ok true (a, j) → Q a j) := by
  constructor
  · rw [Read.confined_bind, hr, Prod.forall]
    refine and_congr_right fun _ => forall_congr' fun a => forall_congr' fun j => ?_
    exact ⟨fun h hr => (hf a j hr).1.1 (h hr), fun h hr => (hf a j hr).1.2 (h hr)⟩
  · intro b j h
    obtain ⟨⟨a, i⟩, hr, h⟩ := Read.bind_eq_ok.1 h
    exact (hf a i hr).2 b j h

/-- A test, and what is done where it succeeds. -/
theorem needN_stays {found : Read (α × Nat)} (h : i + k ≤ d.length → Stays d found P) :
    Stays d (needN d i k >>= fun ok => if ok = true then found else giveUp)
      (i + k < SIZE ∧ (i + k ≤ d.length → P)) := by
  rcases Nat.lt_or_ge (i + k) SIZE with hs | hs
  · rw [needN_of_lt hs, Read.pure_bind]
    by_cases hk : i + k ≤ d.length
    · simpa only [hs, hk, decide_true, if_true, true_and, forall_const] using h hk
    · simpa only [hs, hk, decide_false, Bool.false_eq_true, if_false, true_and, false_imp_iff] using stays_giveUp
  · rw [needN_of_le hs]
    refine ⟨⟨nofun, fun h => absurd h.1 (not_lt.2 hs)⟩, nofun⟩

theorem readBe_stays : Stays d (readBe d i k) (i + k < SIZE) := by
  refine (needN_stays (P := True) fun hk => ?_).congr (and_iff_left fun _ => trivial)
  rw [field_of_le hk, Read.pure_bind]
  exact stays_pure hk

theorem readBe_eq_ok (h : readBe d i k = .ok true (v, j)) :
    i + k ≤ d.length ∧ j = i + k ∧ v = be (d.mid i k) := by
  obtain ⟨ok, -, h⟩ := Read.bind_eq_ok.1 h
  split_ifs at h
  · obtain ⟨v', hv, h⟩ := Read.bind_eq_ok.1 h
    obtain ⟨rfl, rfl⟩ := Prod.mk.inj (Read.pure_eq_ok.1 h)
    unfold field at hv
    split_ifs at hv with hk
    exact ⟨hk, rfl, (Read.pure_eq_ok.1 hv).symm⟩
  · cases h

theorem readBe_of_le (hd : d.length < SIZE) (h : i + k ≤ d.length) :
    readBe d i k = .ok true (be (d.mid i k), i + k) := by
  simp only [readBe, needN_of_lt (show i + k < SIZE by omega), h, decide_true, Read.pure_bind, if_true,
    field_of_le h]
  rfl

theorem putBytes_stays (o : Text) (each : UInt8 → Text) : Stays d (putBytes o each d out i L) (i + L < SIZE) := by
  refine (needN_stays (P := True) fun hk => ?_).congr (by simp)
  rw [field_of_le hk, Read.pure_bind]
  exact stays_pure hk

theorem putExt_stays (hi : i ≤ d.length) :
    Stays d (putExt d out i L) (i + 1 + L < SIZE) := by
  unfold putExt add
  split_ifs with hL
  · rw [Read.pure_bind]
    refine (needN_stays (P := i + 1 + L < SIZE) fun hk => ?_).congr (by omega)
    rw [field_of_le (by omega), Read.pure_bind]
    exact putBytes_stays _ _
  · refine ⟨⟨nofun, fun h => ?_⟩, nofun⟩
    omega

-- ---------------------------------------------------------------------------
-- The forms
-- ---------------------------------------------------------------------------

variable {Fits : Text → Nat → Prop}

theorem scalar_fits : FormFits next Fits d out i (.scalar k) ↔ i + 1 + k < SIZE := by
  simp [FormFits, Form.reach, Form.elements]

theorem fixed_fits : FormFits next Fits d out i (.fixed L) ↔ i + 1 + L < SIZE := by
  simp [FormFits, Form.reach, Form.elements]

theorem plain_stays {out' : Text} (hd : d.length < SIZE) (hi : i < d.length) :
    Stays d (pure (out', i + 1)) (FormFits next Fits d out i (.scalar 0)) := by
  have hi' : i + 1 ≤ d.length := hi
  refine (stays_pure hi').congr ?_
  rw [scalar_fits, true_iff]
  omega

theorem putNumber_stays : Stays d (putNumber d out (i + 1) k t) (FormFits next Fits d out i (.scalar k)) := by
  refine (stays_bind (Q := fun _ _ => True) readBe_stays.1 fun v j h => ?_).congr (by simp [scalar_fits])
  exact stays_pure (readBe_stays.2 v j h)

/-- A length of `k` bytes, and what is put out by it. -/
theorem sized_stays (hd : d.length < SIZE)
    (hput : ∀ j L, j ≤ d.length → Stays d (put d out j L) (j + extra + L < SIZE)) :
    Stays d (do
      let (v, j) ← readBe d (i + 1) k
      put d out j v) (FormFits next Fits d out i (.sized k extra)) := by
  refine (stays_bind readBe_stays.1 fun v j h => hput j v (readBe_stays.2 v j h)).congr ?_
  simp only [FormFits, Form.reach, Form.elements, reduceCtorEq, false_imp_iff, implies_true, and_true]
  split_ifs with hk
  · rw [readBe_of_le hd hk]
    constructor
    · rintro ⟨-, h⟩
      exact h _ _ rfl
    · intro h
      refine ⟨by omega, ?_⟩
      rintro v j ⟨⟩
      exact h
  · refine and_iff_left ?_
    intro v j h
    exact absurd (readBe_eq_ok h).1 hk

theorem putItems_stays (hnext : ∀ out j, j ≤ d.length → Stays d (next out j) (Fits out j)) (hj : j ≤ d.length) :
    Stays d (putItems next pairs count out j)
      (Along (fun s sep => next (s.1 ++ sep) s.2) (fun s sep => Fits (s.1 ++ sep) s.2)
        (separators pairs count) (out ++ opening pairs, j)) := by
  have hkeep : ∀ (s : Text × Nat) (sep : Text) (s' : Text × Nat), s.2 ≤ d.length →
      next (s.1 ++ sep) s.2 = .ok true s' → s'.2 ≤ d.length :=
    fun s sep s' hs h => (hnext _ _ hs).2 _ _ h
  refine (stays_bind (Q := fun _ _ => True) (perform_confined (fun s sep hs => (hnext _ _ hs).1) hkeep hj)
    fun out' j' h => ?_).congr (by simp)
  exact stays_pure (perform_keeps (I := fun s : Text × Nat => s.2 ≤ d.length) hkeep hj h)

theorem items_stays (hnext : ∀ out j, j ≤ d.length → Stays d (next out j) (Fits out j)) (hd : d.length < SIZE)
    (hi : i < d.length) :
    Stays d (putItems next pairs count out (i + 1)) (FormFits next Fits d out i (.items pairs count)) := by
  refine (putItems_stays hnext (by omega)).congr ?_
  simp only [FormFits, Form.reach, Form.elements, Option.some.injEq, Prod.mk.injEq]
  constructor
  · intro h
    refine ⟨by omega, ?_⟩
    rintro _ _ _ ⟨rfl, rfl, rfl⟩
    exact h
  · rintro ⟨-, h⟩
    exact h _ _ _ ⟨rfl, rfl, rfl⟩

theorem counted_stays (hnext : ∀ out j, j ≤ d.length → Stays d (next out j) (Fits out j)) (hd : d.length < SIZE) :
    Stays d (do
      let (v, j) ← readBe d (i + 1) k
      putItems next pairs v out j) (FormFits next Fits d out i (.counted pairs k)) := by
  refine (stays_bind readBe_stays.1 fun v j h => putItems_stays hnext (readBe_stays.2 v j h)).congr ?_
  refine and_congr_right fun _ => ?_
  simp only [Form.elements]
  split_ifs with hk
  · rw [readBe_of_le hd hk]
    constructor
    · intro h pairs' count j he
      obtain ⟨rfl, rfl, rfl⟩ : pairs = pairs' ∧ be (d.mid (i + 1) k) = count ∧ i + 1 + k = j := by
        simpa using he
      exact h _ _ rfl
    · rintro h v j ⟨⟩
      exact h _ _ _ rfl
  · constructor
    · intro _ pairs' count j he
      cases he
    · intro _ v j h
      exact absurd (readBe_eq_ok h).1 hk

-- ---------------------------------------------------------------------------
-- The printer
-- ---------------------------------------------------------------------------

theorem select_stays {c : Prop} [Decidable c] (hx : c → Stays d x P) (hy : ¬ c → Stays d y P) :
    Stays d (if c then x else y) P := by
  split_ifs with h
  · exact hx h
  · exact hy h

theorem formOf_items {b : Nat} (h : 0x80 ≤ b) (h' : b ≤ 0x8f) : formOf b = .items true (b - 0x80) := by
  unfold formOf
  rw [if_neg (by omega), if_pos h']

theorem formOf_array {b : Nat} (h : 0x90 ≤ b) (h' : b ≤ 0x9f) : formOf b = .items false (b - 0x90) := by
  unfold formOf
  rw [if_neg (by omega), if_neg (by omega), if_pos h']

theorem formOf_str {b : Nat} (h : 0xa0 ≤ b) (h' : b ≤ 0xbf) : formOf b = .fixed (b - 0xa0) := by
  unfold formOf
  rw [if_neg (by omega), if_neg (by omega), if_neg (by omega), if_pos h']

theorem formOf_negative {b : Nat} (h : 0xe0 ≤ b) : formOf b = .scalar 0 := by
  unfold formOf
  rw [if_neg (by omega), if_neg (by omega), if_neg (by omega), if_neg (by omega), if_pos h]

theorem formOf_fixext {b : Nat} (h : 0xd4 ≤ b) (h' : b ≤ 0xd8) : formOf b = .fixed (1 + 2 ^ (b - 0xd4)) := by
  interval_cases b <;> rfl

theorem formOf_reserved {b : Nat} (h : b = 0xc1) : formOf b = .scalar 0 := h ▸ rfl

theorem field_byte (h : i < d.length) : field be d i 1 = pure (d.byte i) := by
  have hx : (d.drop i).take 1 = [d[i]] := by
    rw [List.drop_eq_getElem_cons h]
    rfl
  rw [field_of_le (show i + 1 ≤ d.length from h), hx]
  simp [be, Bytes.byte, h]

theorem low_1f : ∀ b < 256, b &&& 0x1f = b % 32 := by decide +kernel

theorem mpDecode_stays (hd : d.length < SIZE) (hi : i ≤ d.length) :
    Stays d (mpDecode fl d levels out i) (Printable fl d levels out i) := by
  induction levels generalizing out i with
  | zero => exact stays_giveUp
  | succ levels ih =>
    have hnext : ∀ out j, j ≤ d.length → Stays d (mpDecode fl d levels out j) (Printable fl d levels out j) :=
      fun out j hj => ih hj
    rw [mpDecode, Printable]
    rcases Nat.lt_or_ge i d.length with hlt | hge
    case inr =>
      rw [if_pos hge]
      exact stays_giveUp.congr (by simp [not_lt.2 hge])
    rw [if_neg (not_le.2 hlt), forall_prop_of_true hlt]
    rcases Nat.lt_or_ge 800 out.length with hout | hout
    · rw [if_pos hout]
      exact stays_giveUp.congr (by simp [not_le.2 hout])
    rw [if_neg (not_lt.2 hout), forall_prop_of_true hout]
    have h256 := d.byte_lt i
    rw [field_byte hlt, Read.pure_bind]
    generalize d.byte i = b at h256
    dsimp only
    refine select_stays (fun h => ?_) fun h1 => ?_
    · rw [formOf, if_pos h]
      exact plain_stays hd hlt
    refine select_stays (fun h => ?_) fun h2 => ?_
    · rw [formOf_negative h]
      exact plain_stays hd hlt
    refine select_stays (fun h => ?_) fun h3 => ?_
    · rw [formOf_str h.1 h.2, low_1f b h256, show b % 32 = b - 0xa0 by omega]
      exact (putBytes_stays _ _).congr fixed_fits.symm
    refine select_stays (fun h => ?_) fun h4 => ?_
    · rw [formOf_array h.1 h.2, low_0f b h256, show b % 16 = b - 0x90 by omega]
      exact items_stays hnext hd hlt
    refine select_stays (fun h => ?_) fun h5 => ?_
    · rw [formOf_items h.1 h.2, low_0f b h256, show b % 16 = b - 0x80 by omega]
      exact items_stays hnext hd hlt
    refine select_stays (fun h => h ▸ plain_stays hd hlt) fun h6 => ?_
    refine select_stays (fun h => h ▸ plain_stays hd hlt) fun h7 => ?_
    refine select_stays (fun h => h ▸ plain_stays hd hlt) fun h8 => ?_
    refine select_stays (fun h => h ▸ sized_stays hd fun j L _ => putBytes_stays _ _) fun h9 => ?_
    refine select_stays (fun h => h ▸ sized_stays hd fun j L _ => putBytes_stays _ _) fun h10 => ?_
    refine select_stays (fun h => h ▸ sized_stays hd fun j L _ => putBytes_stays _ _) fun h11 => ?_
    refine select_stays (fun h => h ▸ putNumber_stays) fun h12 => ?_
    refine select_stays (fun h => h ▸ putNumber_stays) fun h13 => ?_
    refine select_stays (fun h => h ▸ putNumber_stays) fun h14 => ?_
    refine select_stays (fun h => h ▸ putNumber_stays) fun h15 => ?_
    refine select_stays (fun h => h ▸ putNumber_stays) fun h16 => ?_
    refine select_stays (fun h => h ▸ putNumber_stays) fun h17 => ?_
    refine select_stays (fun h => h ▸ putNumber_stays) fun h18 => ?_
    refine select_stays (fun h => h ▸ putNumber_stays) fun h19 => ?_
    refine select_stays (fun h => h ▸ sized_stays hd fun j L _ => putBytes_stays _ _) fun h20 => ?_
    refine select_stays (fun h => h ▸ sized_stays hd fun j L _ => putBytes_stays _ _) fun h21 => ?_
    refine select_stays (fun h => h ▸ sized_stays hd fun j L _ => putBytes_stays _ _) fun h22 => ?_
    refine select_stays (fun h => h ▸ counted_stays hnext hd) fun h23 => ?_
    refine select_stays (fun h => h ▸ counted_stays hnext hd) fun h24 => ?_
    refine select_stays (fun h => h ▸ counted_stays hnext hd) fun h25 => ?_
    refine select_stays (fun h => h ▸ counted_stays hnext hd) fun h26 => ?_
    refine select_stays (fun h => h ▸ putNumber_stays) fun h27 => ?_
    refine select_stays (fun h => h ▸ putNumber_stays) fun h28 => ?_
    refine select_stays (fun h => ?_) fun h29 => ?_
    · rw [formOf_fixext h.1 h.2]
      exact (putExt_stays (Nat.succ_le_of_lt hlt)).congr (by rw [fixed_fits]; omega)
    refine select_stays (fun h => h ▸ sized_stays hd fun j L hj => putExt_stays hj) fun h30 => ?_
    refine select_stays (fun h => h ▸ sized_stays hd fun j L hj => putExt_stays hj) fun h31 => ?_
    refine select_stays (fun h => h ▸ sized_stays hd fun j L hj => putExt_stays hj) fun h32 => ?_
    rw [formOf_reserved (by omega)]
    exact stays_giveUp.congr (by rw [scalar_fits, true_iff]; omega)

end MicroReticulum.MsgPack
