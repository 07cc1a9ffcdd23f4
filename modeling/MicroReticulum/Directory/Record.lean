import MicroReticulum.Lib.Seqlock
import MicroReticulum.Bytes

/-!
# Directory records

The record of a directory slot (`rdir_dir_rec_t` less its counter and its
padding), the counter's two stores, and how the record is copied.
-/

namespace MicroReticulum.Directory

open Lib.Seqlock

def DEST_LEN : Nat := 16
def PUBKEY_LEN : Nat := 64
def NAME_HASH_LEN : Nat := 10

def F_USED : UInt8 := 0x01
def F_ROUTE : UInt8 := 0x02
def F_EDGE : UInt8 := 0x04
def F_PUBKEY : UInt8 := 0x08

def CLAIM_PRESENT_MASK : UInt32 := 0xff
def CLAIM_PERSIST_MASK : UInt32 := 0xff00
def CLAIM_PERSIST_SHIFT : UInt32 := 8
def CLAIM_BLOB_SHIFT : UInt32 := 16
def CLAIM_ANSWER_FOR : UInt32 := 0x1000000

def CAT_UNCLAIMED : UInt8 := 2
def CAT_EPH_LIVE : UInt8 := 4
def CAT_EDGE : UInt8 := 5
def CAT_PERSIST : UInt8 := 6

structure DirRec where
  dest : Bytes := .replicate DEST_LEN 0
  pubkey : Bytes := .replicate PUBKEY_LEN 0
  nameHash : Bytes := .replicate NAME_HASH_LEN 0
  lastHeard : UInt32 := 0
  hops : UInt8 := 0
  flags : UInt8 := 0
  claims : UInt32 := 0
  receivedFrom : Bytes := .replicate DEST_LEN 0
  ifaceHash : Bytes := .replicate DEST_LEN 0
  expires : UInt32 := 0
  lastUsed : UInt32 := 0
  timestamp : UInt32 := 0
  prio : UInt8 := 0
  claimTouch : UInt32 := 0
  claimDecay : UInt32 := 0
  lastAlive : UInt32 := 0
  deriving DecidableEq, Repr

/-- A wiped record, and one never used. -/
def DirRec.zero : DirRec := {}

/-- The static class that eviction ranks by. -/
def dirStaticPrio (r : DirRec) : UInt8 :=
  if r.claims &&& CLAIM_ANSWER_FOR ≠ 0 then CAT_PERSIST
  else if r.claims &&& CLAIM_PRESENT_MASK ≠ 0 then
    if r.claims &&& CLAIM_PERSIST_MASK ≠ 0 then CAT_PERSIST else CAT_EPH_LIVE
  else if r.flags &&& F_EDGE ≠ 0 then CAT_EDGE
  else CAT_UNCLAIMED

-- ---------------------------------------------------------------------------
-- The counter
-- ---------------------------------------------------------------------------

/-- The store of `writeBegin`. -/
def enterSeq (s : Nat) : Nat := s ||| 1

/-- The store of `writeEnd`. -/
def leaveSeq (s : Nat) : Nat := (s + 1) % 65536 &&& 0xfffe

theorem enterSeq_even (s : Nat) (h : s % 2 = 0) : enterSeq s = s + 1 := by
  obtain ⟨k, rfl⟩ : ∃ k, s = 2 ^ 1 * k := ⟨s / 2, by omega⟩
  exact (Nat.two_pow_add_eq_or_of_lt (by norm_num) k).symm

theorem and_even (s : Nat) (h : s % 2 = 0) (hlt : s < 65536) : s &&& 0xfffe = s := by
  obtain ⟨k, rfl⟩ : ∃ k, s = k <<< 1 := ⟨s / 2, by rw [Nat.shiftLeft_eq]; omega⟩
  have hk : k < 2 ^ 15 := by
    rw [Nat.shiftLeft_eq] at hlt
    omega
  have hm : (0xfffe : Nat) = (2 ^ 15 - 1) <<< 1 := by decide
  calc k <<< 1 &&& 0xfffe = (k &&& 2 ^ 15 - 1) <<< 1 := by rw [hm, Nat.shiftLeft_and_distrib]
    _ = k <<< 1 := by rw [Nat.and_two_pow_sub_one_eq_mod, Nat.mod_eq_of_lt hk]

/-- The 16-bit counter of a slot. -/
def seq16 : Counter where
  half := 32768
  enter := enterSeq
  leave := leaveSeq
  half_pos := by norm_num
  enter_even s h _ := enterSeq_even s h
  leave_odd s h hlt := and_even _ (by omega) (by omega)
  leave_zero := by decide

-- ---------------------------------------------------------------------------
-- Copying
-- ---------------------------------------------------------------------------

inductive Field where
  | dest
  | pubkey
  | nameHash
  | lastHeard
  | hops
  | flags
  | claims
  | receivedFrom
  | ifaceHash
  | expires
  | lastUsed
  | timestamp
  | prio
  | claimTouch
  | claimDecay
  | lastAlive
  deriving DecidableEq, Repr

inductive FieldValue where
  | bytes (v : Bytes)
  | u8 (v : UInt8)
  | u32 (v : UInt32)

def Field.get : Field → DirRec → FieldValue
  | dest, r => .bytes r.dest
  | pubkey, r => .bytes r.pubkey
  | nameHash, r => .bytes r.nameHash
  | lastHeard, r => .u32 r.lastHeard
  | hops, r => .u8 r.hops
  | flags, r => .u8 r.flags
  | claims, r => .u32 r.claims
  | receivedFrom, r => .bytes r.receivedFrom
  | ifaceHash, r => .bytes r.ifaceHash
  | expires, r => .u32 r.expires
  | lastUsed, r => .u32 r.lastUsed
  | timestamp, r => .u32 r.timestamp
  | prio, r => .u8 r.prio
  | claimTouch, r => .u32 r.claimTouch
  | claimDecay, r => .u32 r.claimDecay
  | lastAlive, r => .u32 r.lastAlive

/-- The part of `memcpy` that moves one field. -/
def Field.copy (f : Field) (out src : DirRec) : DirRec :=
  match f with
  | dest => { out with dest := src.dest }
  | pubkey => { out with pubkey := src.pubkey }
  | nameHash => { out with nameHash := src.nameHash }
  | lastHeard => { out with lastHeard := src.lastHeard }
  | hops => { out with hops := src.hops }
  | flags => { out with flags := src.flags }
  | claims => { out with claims := src.claims }
  | receivedFrom => { out with receivedFrom := src.receivedFrom }
  | ifaceHash => { out with ifaceHash := src.ifaceHash }
  | expires => { out with expires := src.expires }
  | lastUsed => { out with lastUsed := src.lastUsed }
  | timestamp => { out with timestamp := src.timestamp }
  | prio => { out with prio := src.prio }
  | claimTouch => { out with claimTouch := src.claimTouch }
  | claimDecay => { out with claimDecay := src.claimDecay }
  | lastAlive => { out with lastAlive := src.lastAlive }

theorem Field.get_copy (f g : Field) (out src : DirRec) :
    g.get (f.copy out src) = if g = f then f.get src else g.get out := by
  cases f <;> cases g <;> rfl

theorem DirRec.ext_get (a b : DirRec) (h : ∀ f : Field, f.get a = f.get b) : a = b := by
  cases a
  cases b
  simp only [mk.injEq]
  exact ⟨FieldValue.bytes.inj (h .dest), FieldValue.bytes.inj (h .pubkey), FieldValue.bytes.inj (h .nameHash),
    FieldValue.u32.inj (h .lastHeard), FieldValue.u8.inj (h .hops), FieldValue.u8.inj (h .flags),
    FieldValue.u32.inj (h .claims), FieldValue.bytes.inj (h .receivedFrom), FieldValue.bytes.inj (h .ifaceHash),
    FieldValue.u32.inj (h .expires), FieldValue.u32.inj (h .lastUsed), FieldValue.u32.inj (h .timestamp),
    FieldValue.u8.inj (h .prio), FieldValue.u32.inj (h .claimTouch), FieldValue.u32.inj (h .claimDecay),
    FieldValue.u32.inj (h .lastAlive)⟩

/-- An order in which a copy can read all fields. -/
def Order : Type := { fields : List Field // ∀ f, f ∈ fields }

def recLayout (order : Order) : Layout DirRec Field where
  pieces := order.1
  copy f out src := f.copy out src
  Same f a b := f.get a = f.get b
  same_copy f out src := by rw [Field.get_copy, if_pos rfl]
  same_keep f g out src h := by
    rw [Field.get_copy]
    split_ifs with hf
    · rw [hf]
    · exact h
  ext a b h := DirRec.ext_get a b fun f => h f (order.2 f)

/-- The fields as they lie in the record. -/
def ascending : Order :=
  ⟨[.dest, .pubkey, .nameHash, .lastHeard, .hops, .flags, .claims, .receivedFrom, .ifaceHash, .expires,
    .lastUsed, .timestamp, .prio, .claimTouch, .claimDecay, .lastAlive], by
    intro f
    cases f <;> decide⟩

end MicroReticulum.Directory
