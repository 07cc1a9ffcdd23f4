import MicroReticulum.Directory.Record

/-!
# The writer's operations

What each operation of the directory's writer stores in one slot, store by
store. An operation on a destination finds the slot when the slot holds that
destination, and takes it when the slot is free and the operation allocates;
otherwise it is about another slot.
-/

namespace MicroReticulum.Directory

open Lib.Seqlock

abbrev Stores := List (Store DirRec)

/-- What `rdirIngest` is given. -/
structure Announce where
  pubkey : Option Bytes
  nameHash : Option Bytes
  receivedFrom : Option Bytes
  ifaceHash : Option Bytes
  hops : UInt8
  edge : Bool
  answerFor : Bool
  timestamp : UInt32
  expires : UInt32
  deriving DecidableEq, Repr

structure Claim where
  consumer : UInt32
  persist : Bool
  blob : Bool
  decay : UInt32
  deriving DecidableEq, Repr

inductive Op where
  | ingest (dest : Bytes) (a : Announce) (now : UInt32)
  | touchUsed (dest : Bytes) (expires now : UInt32)
  | markAlive (dest : Bytes) (now : UInt32)
  | clearRoute (dest : Bytes)
  | clearAllRoutes
  | forget (dest : Bytes)
  | claim (dest : Bytes) (c : Claim) (now : UInt32)
  | claimTouch (dest : Bytes) (consumer now : UInt32)
  | claimDrop (dest : Bytes) (consumer : UInt32)
  | seedPubkey (dest pk : Bytes) (now : UInt32)
  | evict
  deriving DecidableEq, Repr

-- ---------------------------------------------------------------------------
-- Wiping
-- ---------------------------------------------------------------------------

/-- `memset(r, 0, sizeof(*r))`, from the record's start to its end: the counter
lies between `timestamp` and `prio`. -/
def memset : Stores :=
  [.put fun r => { r with dest := DirRec.zero.dest },
   .put fun r => { r with pubkey := DirRec.zero.pubkey },
   .put fun r => { r with nameHash := DirRec.zero.nameHash },
   .put fun r => { r with lastHeard := 0 },
   .put fun r => { r with hops := 0 },
   .put fun r => { r with flags := 0 },
   .put fun r => { r with claims := 0 },
   .put fun r => { r with receivedFrom := DirRec.zero.receivedFrom },
   .put fun r => { r with ifaceHash := DirRec.zero.ifaceHash },
   .put fun r => { r with expires := 0 },
   .put fun r => { r with lastUsed := 0 },
   .put fun r => { r with timestamp := 0 },
   .wipe,
   .put fun r => { r with prio := 0 },
   .put fun r => { r with claimTouch := 0 },
   .put fun r => { r with claimDecay := 0 },
   .put fun r => { r with lastAlive := 0 }]

def recClear : Stores := .save :: (memset ++ [.restore])

-- ---------------------------------------------------------------------------
-- Operations
-- ---------------------------------------------------------------------------

def DirRec.used (r : DirRec) : Bool := r.flags &&& F_USED ≠ 0

/-- `dirFind` finds this slot. -/
def DirRec.holds (r : DirRec) (dest : Bytes) : Bool := r.used && r.dest == dest

/-- The stores between `writeBegin` and `writeEnd`. -/
def written (stores : Stores) : Stores := .enter :: (stores ++ [.leave])

/-- An operation on a record that is there. -/
def onRecord (r : DirRec) (dest : Bytes) (stores : Stores) : Stores :=
  if r.holds dest then written stores else []

/-- An operation that allocates where the record is not there, and stores
`fresh` first then. -/
def onRecordOrFree (r : DirRec) (dest : Bytes) (fresh stores : Stores) : Stores :=
  if r.holds dest then written stores
  else if r.used then []
  else written (recClear ++ fresh ++ stores)

def setFlags (f : UInt8) : Store DirRec := .put fun r => { r with flags := r.flags ||| f }

def setPrio : Store DirRec := .put fun r => { r with prio := dirStaticPrio r }

def ingestStores (dest : Bytes) (a : Announce) (now : UInt32) : Stores :=
  [.put fun r => { r with dest },
   .put fun r => match a.pubkey with
     | some pubkey => { r with pubkey }
     | none => r,
   .put fun r => if a.pubkey.isSome then { r with flags := r.flags ||| F_PUBKEY } else r,
   .put fun r => match a.nameHash with
     | some nameHash => { r with nameHash }
     | none => r,
   .put fun r => { r with lastHeard := now },
   .put fun r => { r with hops := a.hops },
   .put fun r => { r with timestamp := a.timestamp },
   .put fun r => { r with expires := a.expires },
   .put fun r => match a.receivedFrom, a.ifaceHash with
     | some receivedFrom, some _ => { r with receivedFrom }
     | _, _ => r,
   .put fun r => match a.receivedFrom, a.ifaceHash with
     | some _, some ifaceHash => { r with ifaceHash }
     | _, _ => r,
   .put fun r => if a.receivedFrom.isSome ∧ a.ifaceHash.isSome then { r with flags := r.flags ||| F_ROUTE } else r,
   .put fun r => if a.edge then { r with flags := r.flags ||| F_EDGE } else r,
   .put fun r =>
     if a.answerFor then { r with claims := r.claims ||| CLAIM_ANSWER_FOR }
     else { r with claims := r.claims &&& ~~~CLAIM_ANSWER_FOR },
   setFlags F_USED,
   setPrio]

def clearRouteStores : Stores :=
  [.put fun r => { r with receivedFrom := DirRec.zero.receivedFrom },
   .put fun r => { r with ifaceHash := DirRec.zero.ifaceHash },
   .put fun r => { r with flags := r.flags &&& ~~~F_ROUTE },
   .put fun r => { r with expires := 0 },
   .put fun r => { r with lastUsed := 0 },
   .put fun r => { r with hops := 0 }]

/-- A consumer's bit in the claims. -/
def consumerBit (consumer : UInt32) : UInt32 := 1 <<< consumer

def setClaims (on : Bool) (mask : UInt32) : Store DirRec :=
  .put fun r => { r with claims := if on then r.claims ||| mask else r.claims &&& ~~~mask }

def claimStores (c : Claim) (now : UInt32) : Stores :=
  let bit := consumerBit c.consumer
  [setClaims true bit,
   setClaims c.persist (bit <<< CLAIM_PERSIST_SHIFT),
   setClaims c.blob (bit <<< CLAIM_BLOB_SHIFT),
   .put fun r => if c.decay > r.claimDecay then { r with claimDecay := c.decay } else r,
   .put fun r => { r with claimTouch := now },
   setPrio]

def claimDropStores (consumer : UInt32) : Stores :=
  let bit := consumerBit consumer
  [setClaims false (bit ||| bit <<< CLAIM_PERSIST_SHIFT ||| bit <<< CLAIM_BLOB_SHIFT),
   .put fun r => if r.claims &&& CLAIM_PRESENT_MASK = 0 then { r with claimDecay := 0 } else r,
   setPrio]

/-- The width of the claims' per-consumer fields. -/
def CONSUMER_COUNT : UInt32 := 8

/-- The resolution of `last_alive`, in seconds. -/
def ALIVE_RESOLUTION : UInt32 := 10

/-- The stores an operation makes in a slot whose record is `r`. -/
def program (op : Op) (r : DirRec) : Stores :=
  match op with
  | .ingest dest a now => onRecordOrFree r dest [] (ingestStores dest a now)
  | .touchUsed dest expires now =>
    onRecord r dest
      [.put fun r => { r with lastUsed := now },
       .put fun r => if expires > r.expires then { r with expires } else r]
  | .markAlive dest now =>
    if r.lastAlive ≠ 0 ∧ now - r.lastAlive < ALIVE_RESOLUTION then []
    else onRecord r dest [.put fun r => { r with lastAlive := now }]
  | .clearRoute dest => if r.flags &&& F_ROUTE = 0 then [] else onRecord r dest clearRouteStores
  | .clearAllRoutes => if r.used ∧ r.flags &&& F_ROUTE ≠ 0 then written clearRouteStores else []
  | .forget dest => onRecord r dest memset
  | .claim dest c now =>
    if CONSUMER_COUNT ≤ c.consumer then []
    else onRecordOrFree r dest
      [.put fun r => { r with dest }, setFlags F_USED, .put fun r => { r with lastHeard := now }]
      (claimStores c now)
  | .claimTouch dest consumer now =>
    if CONSUMER_COUNT ≤ consumer ∨ r.claims &&& consumerBit consumer = 0 then []
    else onRecord r dest [.put fun r => { r with claimTouch := now }]
  | .claimDrop dest consumer =>
    if CONSUMER_COUNT ≤ consumer then [] else onRecord r dest (claimDropStores consumer)
  | .seedPubkey dest pk now =>
    onRecordOrFree r dest
      [.put fun r => { r with dest }, .put fun r => { r with lastHeard := now }, setFlags F_USED, setPrio]
      [.put fun r => { r with pubkey := pk }, setFlags F_PUBKEY]
  | .evict => if r.used then written recClear else []

theorem onRecord_disciplined (h : disciplined (written stores) = true) :
    disciplined (onRecord r dest stores) = true := by
  unfold onRecord
  split_ifs
  · exact h
  · rfl

theorem onRecordOrFree_disciplined (h : disciplined (written stores) = true)
    (hfresh : disciplined (written (recClear ++ fresh ++ stores)) = true) :
    disciplined (onRecordOrFree r dest fresh stores) = true := by
  unfold onRecordOrFree
  split_ifs
  · exact h
  · rfl
  · exact hfresh

theorem unless_disciplined {c : Prop} [Decidable c] (h : disciplined stores = true) :
    disciplined (if c then [] else stores : Stores) = true := by
  split_ifs
  · rfl
  · exact h

theorem when_disciplined {c : Prop} [Decidable c] (h : disciplined stores = true) :
    disciplined (if c then stores else [] : Stores) = true := by
  split_ifs
  · exact h
  · rfl

/-- Every operation enters, stores and leaves. -/
theorem program_disciplined (op : Op) (r : DirRec) : disciplined (program op r) = true := by
  cases op with
  | ingest dest a now => exact onRecordOrFree_disciplined rfl rfl
  | touchUsed dest expires now => exact onRecord_disciplined rfl
  | markAlive dest now => exact unless_disciplined (onRecord_disciplined rfl)
  | clearRoute dest => exact unless_disciplined (onRecord_disciplined rfl)
  | clearAllRoutes => exact when_disciplined rfl
  | forget dest => exact onRecord_disciplined rfl
  | claim dest c now => exact unless_disciplined (onRecordOrFree_disciplined rfl rfl)
  | claimTouch dest consumer now => exact unless_disciplined (onRecord_disciplined rfl)
  | claimDrop dest consumer => exact unless_disciplined (onRecord_disciplined rfl)
  | seedPubkey dest pk now => exact onRecordOrFree_disciplined rfl rfl
  | evict => exact when_disciplined rfl

end MicroReticulum.Directory
