import Mathlib.Tactic

/-!
# Flat memory

A memory is a list of cells. Ranges are read, written, moved and filled; a read
of a range sees the last write that covers it, whatever was written beside it.
-/

namespace Lib.Memory

variable {α : Type*} {mem cells : List α} {off at_ n m dst src : Nat} {v : α}

def read (mem : List α) (off n : Nat) : List α := (mem.drop off).take n

def write (mem : List α) (off : Nat) (cells : List α) : List α :=
  mem.take off ++ (cells ++ mem.drop (off + cells.length))

/-- The source is read before anything is written, as by `memmove`. -/
def move (mem : List α) (dst src n : Nat) : List α := write mem dst (read mem src n)

def fill (mem : List α) (off n : Nat) (v : α) : List α := write mem off (.replicate n v)

theorem length_read (h : off + n ≤ mem.length) : (read mem off n).length = n := by
  simp only [read, List.length_take, List.length_drop]
  omega

theorem length_write (h : off + cells.length ≤ mem.length) : (write mem off cells).length = mem.length := by
  simp only [write, List.length_append, List.length_take, List.length_drop]
  omega

theorem read_write_same (h : off + cells.length ≤ mem.length) :
    read (write mem off cells) off cells.length = cells := by
  have hoff : (mem.take off).length = off := by
    rw [List.length_take]
    omega
  rw [read, write, List.drop_left' hoff, List.take_left' rfl]

theorem read_write_front (h : cells.length ≤ mem.length) (hn : at_ + n ≤ cells.length) :
    read (write mem 0 cells) at_ n = read cells at_ n := by
  rw [write, List.take_zero, List.nil_append, read, List.drop_append_of_le_length (by omega),
    List.take_append_of_le_length, read]
  rw [List.length_drop]
  omega

/-- What lies before the write. -/
theorem read_write_before (h : off + cells.length ≤ mem.length) (hb : at_ + n ≤ off) :
    read (write mem off cells) at_ n = read mem at_ n := by
  have hlen : at_ ≤ (mem.take off).length := by
    rw [List.length_take]
    omega
  rw [read, write, List.drop_append_of_le_length hlen, List.take_append_of_le_length, List.drop_take,
    List.take_take, min_eq_left (by omega), read]
  rw [List.length_drop, List.length_take]
  omega

/-- What lies behind the write. -/
theorem read_write_after (h : off + cells.length ≤ mem.length) (ha : off + cells.length ≤ at_) :
    read (write mem off cells) at_ n = read mem at_ n := by
  have hoff : (mem.take off).length = off := by
    rw [List.length_take]
    omega
  obtain ⟨k, rfl⟩ := Nat.exists_eq_add_of_le ha
  have hdrop : (write mem off cells).drop (off + cells.length) = mem.drop (off + cells.length) := by
    rw [write, ← List.drop_drop, List.drop_left' hoff, List.drop_left' rfl]
  rw [read, read, ← List.drop_drop, hdrop, List.drop_drop]

theorem read_read (h : m + n ≤ at_) : read (read mem off at_) m n = read mem (off + m) n := by
  rw [read, read, read, List.drop_take, List.take_take, List.drop_drop, min_eq_left (by omega)]

theorem read_append_left (h : cells.length = n) : read (cells ++ mem) 0 n = cells := by
  rw [read, List.drop_zero, List.take_left' h]

theorem read_append_right (h : cells.length = off) : read (cells ++ mem) (off + m) n = read mem m n := by
  rw [read, ← List.drop_drop, List.drop_left' h, read]

theorem read_replicate (h : off + n ≤ m) : read (.replicate m v) off n = .replicate n v := by
  rw [read, List.drop_replicate, List.take_replicate, min_eq_left (by omega)]

-- ---------------------------------------------------------------------------
-- Moving and filling
-- ---------------------------------------------------------------------------

theorem read_move (hd : at_ + n ≤ mem.length) (hs : off + n ≤ mem.length) :
    read (move mem at_ off n) at_ n = read mem off n := by
  have hlen := length_read hs
  have h : read (write mem at_ (read mem off n)) at_ (read mem off n).length = read mem off n :=
    read_write_same (by omega)
  rwa [hlen] at h

theorem read_fill (h : off + n ≤ mem.length) : read (fill mem off n v) off n = .replicate n v := by
  have h : read (write mem off (.replicate n v)) off (List.replicate n v).length = .replicate n v :=
    read_write_same (by simpa using h)
  rwa [List.length_replicate] at h

-- ---------------------------------------------------------------------------
-- Cell by cell
-- ---------------------------------------------------------------------------

theorem write_concat (h : off + cells.length < mem.length) :
    (write mem off cells).set (off + cells.length) v = write mem off (cells ++ [v]) := by
  have hoff : (mem.take off).length = off := by
    rw [List.length_take]
    omega
  rw [write, write, List.set_append_right _ _ (by omega), hoff, Nat.add_sub_cancel_left,
    List.set_append_right _ _ le_rfl, Nat.sub_self, List.drop_eq_getElem_cons h, List.set_cons_zero]
  simp [Nat.add_assoc]

theorem read_succ (h : off + n < mem.length) : read mem off (n + 1) = read mem off n ++ [mem.getD (off + n) v] := by
  rw [read, read, List.take_add_one, List.getElem?_drop, List.getElem?_eq_getElem h]
  simp [List.getD_eq_getElem?_getD, h]

theorem getD_write_after (h : off + cells.length ≤ at_) (hin : off + cells.length ≤ mem.length) :
    (write mem off cells).getD at_ v = mem.getD at_ v := by
  have hr := read_write_after (n := 1) hin h
  rw [read, read] at hr
  have hcell : (write mem off cells)[at_]? = mem[at_]? := by simpa [List.head?_take] using congrArg List.head? hr
  simp [List.getD_eq_getElem?_getD, hcell]

/-- A move down may be done cell by cell, from the first one on. -/
theorem move_cells (hd : dst ≤ src) (hs : src + n ≤ mem.length) :
    (List.range n).foldl (fun mem k => mem.set (dst + k) (mem.getD (src + k) v)) mem = move mem dst src n := by
  induction n with
  | zero => simp [move, write, read]
  | succ n ih =>
    have hlen : (read mem src n).length = n := length_read (by omega)
    rw [List.range_succ, List.foldl_append, ih (by omega), List.foldl_cons, List.foldl_nil, move,
      getD_write_after (by omega) (by omega), move, read_succ (v := v) (by omega), ← write_concat (by omega), hlen]

theorem fill_cells (h : off + n ≤ mem.length) :
    (List.range n).foldl (fun mem k => mem.set (off + k) v) mem = fill mem off n v := by
  induction n with
  | zero => simp [fill, write]
  | succ n ih =>
    have hset : (write mem off (.replicate n v)).set (off + (List.replicate n v).length) v =
        write mem off (.replicate n v ++ [v]) :=
      write_concat (by rw [List.length_replicate]; omega)
    rw [List.length_replicate] at hset
    rw [List.range_succ, List.foldl_append, ih (by omega), List.foldl_cons, List.foldl_nil, fill, hset, fill,
      List.replicate_succ']
-- ---------------------------------------------------------------------------
-- Rows of one size
-- ---------------------------------------------------------------------------

variable {β γ : Type*} {decode : List α → β} {encode : γ → List α} {size base base' : Nat} {mem' : List α}

/-- `n` rows of the given size, from `base` on. -/
def rows (decode : List α → β) (mem : List α) (base size n : Nat) : List β :=
  (List.range n).map fun i => decode (read mem (base + i * size) size)

@[simp] theorem length_rows : (rows decode mem base size n).length = n := by simp [rows]

theorem rows_add : rows decode mem base size (n + m) =
    rows decode mem base size n ++ rows decode mem (base + n * size) size m := by
  rw [rows, List.range_add, List.map_append, List.map_map, rows, rows]
  congr 1
  refine List.map_congr_left fun i _ => ?_
  simp only [Function.comp_apply, Nat.add_mul, Nat.add_assoc]

theorem row_le {i : Nat} (hi : i < n) : i * size + size ≤ n * size := by
  rw [← Nat.succ_mul]
  exact Nat.mul_le_mul_right _ hi

/-- Rows are read off their range only. -/
theorem rows_congr (h : read mem base (n * size) = read mem' base' (n * size)) :
    rows decode mem base size n = rows decode mem' base' size n := by
  refine List.map_congr_left fun i hi => ?_
  have hin : i * size + size ≤ n * size := row_le (List.mem_range.1 hi)
  rw [← read_read hin, h, read_read hin]

theorem rows_replicate (h : read mem base (n * size) = .replicate (n * size) v) :
    rows decode mem base size n = .replicate n (decode (.replicate size v)) := by
  refine List.eq_replicate_iff.2 ⟨length_rows, fun b hb => ?_⟩
  obtain ⟨i, hi, rfl⟩ := List.mem_map.1 hb
  have hin : i * size + size ≤ n * size := row_le (List.mem_range.1 hi)
  rw [← read_read hin, h, read_replicate hin]

/-- What was written row by row is read row by row. -/
theorem rows_flatMap {f : γ → β} {xs : List γ} (hlen : ∀ x ∈ xs, (encode x).length = size)
    (hdec : ∀ x ∈ xs, decode (encode x) = f x) (hcells : cells.length = base) :
    rows decode (cells ++ (xs.flatMap encode ++ mem)) base size xs.length = xs.map f := by
  induction xs generalizing cells base with
  | nil => simp [rows]
  | cons x xs ih =>
    have hx := hlen x (by simp)
    have hhead : read (cells ++ (encode x ++ (xs.flatMap encode ++ mem))) base size = encode x := by
      have h : read (cells ++ (encode x ++ (xs.flatMap encode ++ mem))) (base + 0) size = _ :=
        read_append_right hcells
      rw [read_append_left hx] at h
      exact h
    have hnext : (cells ++ encode x).length = base + size := by rw [List.length_append, hcells, hx]
    have hrest := ih (fun y hy => hlen y (List.mem_cons_of_mem _ hy))
      (fun y hy => hdec y (List.mem_cons_of_mem _ hy)) hnext
    rw [List.append_assoc] at hrest
    rw [List.length_cons, Nat.add_comm xs.length, rows_add, List.flatMap_cons, List.append_assoc, Nat.one_mul,
      hrest, List.map_cons]
    simp [rows, hhead, hdec x]

end Lib.Memory
