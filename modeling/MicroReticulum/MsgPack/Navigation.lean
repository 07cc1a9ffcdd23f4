import MicroReticulum.MsgPack.Readers
import MicroReticulum.MsgPack.Skipping

/-!
# Where the readers built from the getters are confined

Each operation is confined where the getter it runs is, at the cursor it runs
at; the cursor stays in the buffer, so that is all there is to it.
-/

namespace MicroReticulum.MsgPack

open Lib.Cursor

variable {α β σ : Type} {b : Bytes} {off count : Nat} {r : Reader α} {P : Bytes → Prop}

theorem into_reads (h : Reads SIZE r P) (set : α → β) :
    Reads SIZE (into r set) P where
  confined b hb := by
    rw [← h.confined b hb, into, Read.confined_bind, and_iff_left]
    rintro ⟨a, k⟩ -
    rfl
  within b v k hb hr := by
    obtain ⟨⟨a, k'⟩, hk, hr⟩ := Read.bind_eq_ok.1 hr
    obtain ⟨-, rfl⟩ := Prod.mk.inj (Read.pure_eq_ok.1 hr)
    exact h.within b a k' hb hk

theorem discarding_reads (h : Reads SIZE r P) : Reads SIZE (discarding r) P := into_reads h _

-- ---------------------------------------------------------------------------
-- Values in a row
-- ---------------------------------------------------------------------------

theorem skipItems_within (hb : b.length < SIZE) (hoff : off ≤ b.length)
    (h : skipItems skipValue b count off = .ok true off') : off' ≤ b.length := by
  refine perform_keeps (I := fun off => off ≤ b.length) ?_ hoff h
  intro off _ off' _ hr
  obtain ⟨⟨_, o⟩, hc, hr⟩ := Read.bind_eq_ok.1 hr
  obtain rfl := Read.pure_eq_ok.1 hr
  exact (skipValue_reads.consume_ok hb hc).2

theorem skipItems_confined (hb : b.length < SIZE) (hoff : off ≤ b.length) :
    (skipItems skipValue b count off).confined = true ↔ walk count (b.drop off) ≠ .overruns := by
  have hall : ∀ m, off ≤ m → SkipAgrees (b.drop m) skipValue := by
    intro m _
    apply skipValue_agrees
    rw [List.length_drop]
    omega
  rw [← (items_agree hb hoff hall).confined, Read.confined_bind, and_iff_left]
  intro off' h
  exact decide_eq_true (skipItems_within hb hoff h)

-- ---------------------------------------------------------------------------
-- MapReader
-- ---------------------------------------------------------------------------

theorem state_confined {r : Read (α × σ)} : (state r).confined = true ↔ r.confined = true := by
  rw [state, Read.confined_bind, and_iff_left]
  rintro ⟨a, s⟩ -
  rfl

theorem state_eq_ok {r : Read (α × σ)} : state r = .ok true s ↔ ∃ a, r = .ok true (a, s) := by
  rw [state, Read.bind_eq_ok]
  constructor
  · rintro ⟨⟨a, s'⟩, hr, hs⟩
    obtain rfl := Read.pure_eq_ok.1 hs
    exact ⟨a, hr⟩
  · rintro ⟨a, hr⟩
    exact ⟨(a, s), hr, rfl⟩

/-- What an operation needs of the buffer, in the state it runs in. -/
def MapReader.Fits (b : Bytes) (m : MapReader) : MapOp → Prop
  | .next => m.seen < m.count → ¬ Wide strForms (b.drop m.off)
  | .valueStr => ¬ Wide strForms (b.drop m.off)
  | .valueBin => ¬ Wide binForms (b.drop m.off)
  | .skipValue => walk 1 (b.drop m.off) ≠ .overruns
  | .finish => walk m.left (b.drop m.off) ≠ .overruns
  | .valueBool | .valueNum | .valueIsNil | .valueSpan => True

namespace MapReader

variable {m m' : MapReader}

theorem value_confined (h : Reads SIZE r P) (hb : b.length < SIZE) (hm : m.off ≤ b.length) :
    (value b r m).confined = true ↔ P (b.drop m.off) := by
  rw [value, Read.confined_bind, h.consume_confined hb hm, and_iff_left]
  rintro ⟨a, off⟩ -
  rfl

theorem value_keeps (h : Reads SIZE r P) (hb : b.length < SIZE)
    (hr : value b r m = .ok true (a, m')) : m'.off ≤ b.length := by
  obtain ⟨⟨a', off⟩, hc, hr⟩ := Read.bind_eq_ok.1 hr
  obtain ⟨-, rfl⟩ := Prod.mk.inj (Read.pure_eq_ok.1 hr)
  exact (h.consume_ok hb hc).2

theorem next_confined (hb : b.length < SIZE) (hm : m.off ≤ b.length) :
    (m.next b).confined = true ↔ (m.seen < m.count → ¬ Wide strForms (b.drop m.off)) := by
  unfold next
  split_ifs with h
  · simp [not_lt.2 h]
  · rw [Read.confined_bind, unpackStr_reads.consume_confined hb hm, and_iff_left]
    · simp [not_le.1 h]
    · rintro ⟨a, off⟩ -
      rfl

theorem next_keeps (hb : b.length < SIZE) (hm : m.off ≤ b.length)
    (hr : m.next b = .ok true (a, m')) : m'.off ≤ b.length := by
  unfold next at hr
  split_ifs at hr with h
  · obtain ⟨-, rfl⟩ := Prod.mk.inj (Read.pure_eq_ok.1 hr)
    exact hm
  · obtain ⟨⟨a', off⟩, hc, hr⟩ := Read.bind_eq_ok.1 hr
    obtain ⟨-, rfl⟩ := Prod.mk.inj (Read.pure_eq_ok.1 hr)
    exact (unpackStr_reads.consume_ok hb hc).2

theorem valueIsNil_confined : (m.valueIsNil b).confined = true := by
  unfold valueIsNil
  split_ifs with h
  · rw [field_of_le (by omega)]
    rfl
  · rfl

theorem valueIsNil_keeps (hr : m.valueIsNil b = .ok true (a, m')) : m' = m := by
  unfold valueIsNil at hr
  split_ifs at hr with h
  · rw [field_of_le (by omega), Read.pure_bind] at hr
    exact (Prod.mk.inj (Read.pure_eq_ok.1 hr)).2.symm
  · exact (Prod.mk.inj (Read.pure_eq_ok.1 hr)).2.symm

theorem step_confined (hb : b.length < SIZE) (hm : m.off ≤ b.length) (op : MapOp) :
    (m.step b op).confined = true ↔ m.Fits b op := by
  cases op with
  | next => exact state_confined.trans (next_confined hb hm)
  | valueStr => exact state_confined.trans (value_confined unpackStr_reads hb hm)
  | valueBool => exact state_confined.trans (value_confined unpackBool_reads hb hm)
  | valueNum => exact state_confined.trans (value_confined unpackNumber_reads hb hm)
  | valueBin => exact state_confined.trans (value_confined unpackBin_reads hb hm)
  | skipValue => exact state_confined.trans (value_confined skipValue_reads hb hm)
  | valueIsNil => simp [step, Fits, state_confined, valueIsNil_confined]
  | valueSpan => simp [step, Fits, state_confined, valueSpan, rest, hm]
  | finish =>
    refine state_confined.trans ?_
    rw [finish, Read.confined_bind, skipItems_confined hb hm, and_iff_left]
    · rfl
    · intro off _
      rfl

theorem step_keeps (hb : b.length < SIZE) (hm : m.off ≤ b.length) (op : MapOp)
    (h : m.step b op = .ok true m') : m'.off ≤ b.length := by
  cases op with
  | next =>
    obtain ⟨a, h⟩ := state_eq_ok.1 h
    exact next_keeps hb hm h
  | valueStr =>
    obtain ⟨a, h⟩ := state_eq_ok.1 h
    exact value_keeps unpackStr_reads hb h
  | valueBool =>
    obtain ⟨a, h⟩ := state_eq_ok.1 h
    exact value_keeps unpackBool_reads hb h
  | valueNum =>
    obtain ⟨a, h⟩ := state_eq_ok.1 h
    exact value_keeps unpackNumber_reads hb h
  | valueBin =>
    obtain ⟨a, h⟩ := state_eq_ok.1 h
    exact value_keeps unpackBin_reads hb h
  | skipValue =>
    obtain ⟨a, h⟩ := state_eq_ok.1 h
    exact value_keeps skipValue_reads hb h
  | valueIsNil =>
    obtain ⟨a, h⟩ := state_eq_ok.1 h
    exact valueIsNil_keeps h ▸ hm
  | valueSpan =>
    obtain ⟨a, h⟩ := state_eq_ok.1 h
    obtain ⟨a', -, h⟩ := Read.bind_eq_ok.1 h
    obtain ⟨-, rfl⟩ := Prod.mk.inj (Read.pure_eq_ok.1 h)
    exact hm
  | finish =>
    obtain ⟨a, h⟩ := state_eq_ok.1 h
    obtain ⟨off, hs, h⟩ := Read.bind_eq_ok.1 h
    obtain ⟨-, rfl⟩ := Prod.mk.inj (Read.pure_eq_ok.1 h)
    exact skipItems_within hb hm hs

/-- Opening a map never leaves the buffer, and any operations on it stay there
where each fits. -/
theorem run_confined (hb : b.length < SIZE) (ops : List MapOp) :
    (start b >>= perform (step b) ops).confined = true ↔
      ∀ m, start b = .ok true m → Along (step b) (MapReader.Fits b) ops m := by
  have hstart : (start b).confined = true := by
    rw [start, Read.confined_bind]
    refine ⟨((containerHeader_reads ..).confined b hb).2 trivial, ?_⟩
    rintro ⟨count, off⟩ -
    rfl
  rw [Read.confined_bind, and_iff_right hstart]
  refine forall_congr' fun m => imp_congr_right fun hm => ?_
  obtain ⟨⟨count, off⟩, hh, hm⟩ := Read.bind_eq_ok.1 hm
  obtain rfl := Read.pure_eq_ok.1 hm
  exact perform_confined (fun m op hm => step_confined hb hm op) (fun m op m' hm => step_keeps hb hm op)
    ((containerHeader_reads ..).within b _ _ hb hh).2

end MapReader

-- ---------------------------------------------------------------------------
-- ArrayReader
-- ---------------------------------------------------------------------------

/-- What a getter needs of the bytes it is given. -/
def Getter.Fits : Getter → Bytes → Prop
  | .str, b => ¬ Wide strForms b
  | .bin, b => ¬ Wide binForms b
  | .one, b => ¬ Wide binForms b
  | .blobOrObject, b => BlobFits b
  | .uint, _ | .bool, _ | .double, _ | .number, _ | .mapHeader, _ | .arrayHeader, _ => True

theorem Getter.reads (g : Getter) : Reads SIZE g.run g.Fits := by
  cases g with
  | uint => exact discarding_reads unpackUint_reads
  | bool => exact discarding_reads unpackBool_reads
  | double => exact discarding_reads unpackDouble_reads
  | number => exact discarding_reads unpackNumber_reads
  | str => exact discarding_reads unpackStr_reads
  | bin => exact discarding_reads unpackBin_reads
  | one => exact discarding_reads unpackOne_reads
  | blobOrObject => exact discarding_reads unpackBlobOrObject_reads
  | mapHeader => exact discarding_reads (containerHeader_reads ..)
  | arrayHeader => exact discarding_reads (containerHeader_reads ..)

/-- What an operation needs of the buffer, in the state it runs in. `advance`
and the tag behind `value_ptr` are the caller's to justify. -/
def ArrayReader.Fits (b : Bytes) (a : ArrayReader) : ArrayOp → Prop
  | .next | .valueSpan => True
  | .skipValue => walk 1 (b.drop a.off) ≠ .overruns
  | .valueTag => a.off < b.length
  | .advance k => a.off + k ≤ b.length
  | .read g => g.Fits (b.drop a.off)

namespace ArrayReader

variable {a a' : ArrayReader} {r : Reader Unit}

theorem read_confined (h : Reads SIZE r P) (hb : b.length < SIZE) (ha : a.off ≤ b.length) :
    (read b r a).confined = true ↔ P (b.drop a.off) := by
  rw [read, Read.confined_bind, h.consume_confined hb ha, and_iff_left]
  rintro ⟨_, off⟩ -
  rfl

theorem read_keeps (h : Reads SIZE r P) (hb : b.length < SIZE)
    (hr : read b r a = .ok true (u, a')) : a'.off ≤ b.length := by
  obtain ⟨⟨_, off⟩, hc, hr⟩ := Read.bind_eq_ok.1 hr
  obtain ⟨-, rfl⟩ := Prod.mk.inj (Read.pure_eq_ok.1 hr)
  exact (h.consume_ok hb hc).2

theorem advance_confined (hb : b.length < SIZE) :
    (advance b k a).confined = true ↔ a.off + k ≤ b.length := by
  unfold advance add
  split_ifs with h
  · rw [Read.pure_bind, Read.confined_bind, and_iff_left]
    · simp [past]
    · rintro ⟨_, off⟩ -
      rfl
  · simp only [Read.escaped_bind, Read.confined_escaped, Bool.false_eq_true, false_iff]
    omega

theorem advance_keeps (hr : advance b k a = .ok true (u, a')) : a'.off ≤ b.length := by
  obtain ⟨off, -, hr⟩ := Read.bind_eq_ok.1 hr
  obtain ⟨⟨_, off'⟩, hp, hr⟩ := Read.bind_eq_ok.1 hr
  obtain ⟨-, rfl⟩ := Prod.mk.inj (Read.pure_eq_ok.1 hr)
  simp only [past, Read.ok.injEq, decide_eq_true_eq, Prod.mk.injEq, true_and] at hp
  exact hp.2 ▸ hp.1

theorem next_off : a.next.2.off = a.off := by
  unfold next
  split_ifs <;> rfl

theorem step_confined (hb : b.length < SIZE) (ha : a.off ≤ b.length) (op : ArrayOp) :
    (a.step b op).confined = true ↔ a.Fits b op := by
  cases op with
  | next => simp [step, Fits]
  | skipValue => exact state_confined.trans (read_confined skipValue_reads hb ha)
  | valueSpan => simp [step, Fits, state_confined, valueSpan, rest, ha]
  | valueTag =>
    refine state_confined.trans ?_
    rw [valueTag, field, Fits]
    split_ifs with h
    · simp only [Read.pure_bind, Read.confined_pure, true_iff]
      omega
    · simp only [Read.escaped_bind, Read.confined_escaped, Bool.false_eq_true, false_iff]
      omega
  | advance k => exact state_confined.trans (advance_confined hb)
  | read g => exact state_confined.trans (read_confined g.reads hb ha)

theorem step_keeps (hb : b.length < SIZE) (ha : a.off ≤ b.length) (op : ArrayOp)
    (h : a.step b op = .ok true a') : a'.off ≤ b.length := by
  cases op with
  | next =>
    obtain rfl := Read.pure_eq_ok.1 h
    exact next_off.trans_le ha
  | skipValue =>
    obtain ⟨u, h⟩ := state_eq_ok.1 h
    exact read_keeps skipValue_reads hb h
  | valueSpan =>
    obtain ⟨u, h⟩ := state_eq_ok.1 h
    obtain ⟨v, -, h⟩ := Read.bind_eq_ok.1 h
    obtain ⟨-, rfl⟩ := Prod.mk.inj (Read.pure_eq_ok.1 h)
    exact ha
  | valueTag =>
    obtain ⟨u, h⟩ := state_eq_ok.1 h
    obtain ⟨v, -, h⟩ := Read.bind_eq_ok.1 h
    obtain ⟨-, rfl⟩ := Prod.mk.inj (Read.pure_eq_ok.1 h)
    exact ha
  | advance k =>
    obtain ⟨u, h⟩ := state_eq_ok.1 h
    exact advance_keeps h
  | read g =>
    obtain ⟨u, h⟩ := state_eq_ok.1 h
    exact read_keeps g.reads hb h

theorem run_confined (hb : b.length < SIZE) (ops : List ArrayOp) :
    (start b >>= perform (step b) ops).confined = true ↔
      ∀ a, start b = .ok true a → Along (step b) (ArrayReader.Fits b) ops a := by
  have hstart : (start b).confined = true := by
    rw [start, Read.confined_bind]
    refine ⟨((containerHeader_reads ..).confined b hb).2 trivial, ?_⟩
    rintro ⟨count, off⟩ -
    rfl
  rw [Read.confined_bind, and_iff_right hstart]
  refine forall_congr' fun a => imp_congr_right fun ha => ?_
  obtain ⟨⟨count, off⟩, hh, ha⟩ := Read.bind_eq_ok.1 ha
  obtain rfl := Read.pure_eq_ok.1 ha
  exact perform_confined (fun a op ha => step_confined hb ha op) (fun a op a' ha => step_keeps hb ha op)
    ((containerHeader_reads ..).within b _ _ hb hh).2

end ArrayReader

end MicroReticulum.MsgPack
