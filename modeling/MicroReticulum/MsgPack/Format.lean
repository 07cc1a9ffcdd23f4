import MicroReticulum.MsgPack.Reading

/-!
# The format, and a walk that tests every length

`head` is the MessagePack tag table, by the ranges of the tags: what a value's
first bytes say of its extent. `walk` goes over values the way a careful reader
would. A container adds its elements to the values still to come, so there is
no nesting to follow; a scalar or blob that does not fit ends the walk.
-/

namespace MicroReticulum.MsgPack

inductive Head where
  /-- Too few bytes for the header, or the reserved tag, or an extension. -/
  | malformed
  /-- A scalar or a blob, of `size` bytes with its header. -/
  | leaf (size : Nat)
  /-- A container: `count` values behind a header of `hdr` bytes. -/
  | items (hdr count : Nat)
  deriving DecidableEq, Repr

namespace Head

/-- What `k` bytes behind the tag say, when they are there. -/
def counted (b : Bytes) (k : Nat) (h : Nat → Head) : Head :=
  if 1 + k ≤ b.length then h (be (b.mid 1 k)) else .malformed

def blob (b : Bytes) (k : Nat) : Head := counted b k fun len => .leaf (1 + k + len)

def elements (b : Bytes) (k each : Nat) : Head := counted b k fun count => .items (1 + k) (each * count)

end Head

open Head in
/-- The header at the front of `b`, whose first byte is `t`. -/
def headOf (t : Nat) (b : Bytes) : Head :=
  if t < 0x80 then .leaf 1
  else if t < 0x90 then .items 1 (2 * (t - 0x80))
  else if t < 0xa0 then .items 1 (t - 0x90)
  else if t < 0xc0 then .leaf (1 + (t - 0xa0))
  else if 0xe0 ≤ t then .leaf 1
  else if t ∈ [0xc0, 0xc2, 0xc3] then .leaf 1
  else if t ∈ [0xcc, 0xd0] then .leaf 2
  else if t ∈ [0xcd, 0xd1] then .leaf 3
  else if t ∈ [0xce, 0xd2, 0xca] then .leaf 5
  else if t ∈ [0xcf, 0xd3, 0xcb] then .leaf 9
  else if t ∈ [0xd9, 0xc4] then blob b 1
  else if t ∈ [0xda, 0xc5] then blob b 2
  else if t ∈ [0xdb, 0xc6] then blob b 4
  else if t = 0xdc then elements b 2 1
  else if t = 0xdd then elements b 4 1
  else if t = 0xde then elements b 2 2
  else if t = 0xdf then elements b 4 2
  else .malformed

def head (b : Bytes) : Head := if b.length = 0 then .malformed else headOf (b.byte 0) b

inductive Extent where
  /-- The values end where these bytes begin. -/
  | ends (rest : Bytes)
  | malformed
  | overruns
  deriving DecidableEq, Repr

/-- A header says something of its own bytes at least. -/
inductive Head.Within (b : Bytes) : Head → Prop
  | malformed : Within b .malformed
  | leaf : 1 ≤ size → Within b (.leaf size)
  | items : 1 ≤ hdr → hdr ≤ b.length → Within b (.items hdr count)

theorem counted_within {f : Nat → Head} (h : 1 + k ≤ b.length → ∀ n, (f n).Within b) :
    (Head.counted b k f).Within b := by
  unfold Head.counted
  split_ifs with hk
  · exact h hk _
  · exact .malformed

theorem blob_within : (Head.blob b k).Within b :=
  counted_within fun _ _ => .leaf (by omega)

theorem elements_within : (Head.elements b k each).Within b :=
  counted_within fun hk _ => .items (by omega) hk

theorem ite_within [Decidable c] (hx : Head.Within b x) (hy : Head.Within b y) :
    (if c then x else y).Within b := by
  split_ifs
  · exact hx
  · exact hy

theorem headOf_within (h : 1 ≤ b.length) : (headOf t b).Within b := by
  unfold headOf
  have one : ∀ count, Head.Within b (.items 1 count) := fun _ => .items le_rfl h
  have leaf : ∀ n, Head.Within b (.leaf (1 + n)) := fun _ => .leaf (by omega)
  refine ite_within (leaf 0) (ite_within (one _) (ite_within (one _) (ite_within (leaf _)
    (ite_within (leaf 0) (ite_within (leaf 0) (ite_within (leaf 1) (ite_within (leaf 2)
    (ite_within (leaf 4) (ite_within (leaf 8) ?_)))))))))
  refine ite_within blob_within (ite_within blob_within (ite_within blob_within ?_))
  exact ite_within elements_within (ite_within elements_within
    (ite_within elements_within (ite_within elements_within .malformed)))

theorem head_within : (head b).Within b := by
  unfold head
  split_ifs with h
  · exact .malformed
  · exact headOf_within (by omega)

theorem head_nil (h : b.length = 0) : head b = .malformed := if_pos h

theorem head_items (h : head b = .items hdr count) : 1 ≤ hdr ∧ hdr ≤ b.length := by
  have hw : (head b).Within b := head_within
  rw [h] at hw
  cases hw with
  | items h1 h2 => exact ⟨h1, h2⟩

theorem head_leaf (h : head b = .leaf size) : 1 ≤ size ∧ 1 ≤ b.length := by
  have hw : (head b).Within b := head_within
  rw [h] at hw
  cases hw with
  | leaf h1 =>
    refine ⟨h1, ?_⟩
    by_contra hb
    rw [head_nil (by omega)] at h
    cases h

/-- Walks over `count` values. -/
def walk (count : Nat) (b : Bytes) : Extent :=
  match count with
  | 0 => .ends b
  | count + 1 =>
    match _h : head b with
    | .malformed => .malformed
    | .leaf size => if size ≤ b.length then walk count (b.drop size) else .overruns
    | .items hdr inner => walk (inner + count) (b.drop hdr)
termination_by b.length
decreasing_by
  · have := head_leaf _h
    simp only [List.length_drop]
    omega
  · have := head_items _h
    simp only [List.length_drop]
    omega

end MicroReticulum.MsgPack
