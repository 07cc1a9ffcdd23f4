import MicroReticulum.Directory.Reachable
import MicroReticulum.Lib.Bits
import MicroReticulum.Lib.Peak

/-!
# Claims and each consumer's last word

A record's claims word has a presence, a persistence and a blob bit for each
consumer, and one decay for all of them. The ledger is what the consumers last
said. The bits follow it, the decay only as long as the longest one is not
taken back.
-/

namespace MicroReticulum.Directory

open Lib Lib.Bits

variable {r : DirRec} {c : Claim} {consumer now : UInt32} {i k : Nat}

-- ---------------------------------------------------------------------------
-- The claims word
-- ---------------------------------------------------------------------------

theorem consumer_cases (h : consumer < CONSUMER_COUNT) : ∃ c : Fin 8, consumer = .ofNat c.val := by
  refine ⟨⟨consumer.toNat, UInt32.lt_iff_toNat_lt.1 h⟩, ?_⟩
  simp

/-- The three bits of a consumer. -/
theorem consumerBit_bits (h : consumer < CONSUMER_COUNT) (hi : i < 32) :
    bit (consumerBit consumer) i = decide (i = consumer.toNat) ∧
      bit (consumerBit consumer <<< CLAIM_PERSIST_SHIFT) i = decide (i = consumer.toNat + 8) ∧
      bit (consumerBit consumer <<< CLAIM_BLOB_SHIFT) i = decide (i = consumer.toNat + 16) := by
  have hall : ∀ c : Fin 8, ∀ i : Fin 32,
      bit (consumerBit (.ofNat c.val)) i = decide (i.val = (UInt32.ofNat c.val).toNat) ∧
      bit (consumerBit (.ofNat c.val) <<< CLAIM_PERSIST_SHIFT) i = decide (i.val = (UInt32.ofNat c.val).toNat + 8) ∧
      bit (consumerBit (.ofNat c.val) <<< CLAIM_BLOB_SHIFT) i = decide (i.val = (UInt32.ofNat c.val).toNat + 16) := by
    decide +kernel
  obtain ⟨c, rfl⟩ := consumer_cases h
  exact hall c ⟨i, hi⟩

theorem mask_bits (hi : i < 32) :
    bit CLAIM_PRESENT_MASK i = decide (i < 8) ∧ bit CLAIM_PERSIST_MASK i = decide (8 ≤ i ∧ i < 16) ∧
      bit CLAIM_ANSWER_FOR i = decide (i = 24) := by
  have hall : ∀ i : Fin 32, bit CLAIM_PRESENT_MASK i = decide (i.val < 8) ∧
      bit CLAIM_PERSIST_MASK i = decide (8 ≤ i.val ∧ i.val < 16) ∧ bit CLAIM_ANSWER_FOR i = decide (i.val = 24) := by
    decide +kernel
  exact hall ⟨i, hi⟩

/-- One of the three fields of the word, set or cleared for a consumer. -/
def setField (on : Bool) (mask x : UInt32) : UInt32 := if on then x ||| mask else x &&& ~~~mask

theorem bit_setField (on : Bool) {mask x : UInt32} :
    bit (setField on mask x) i = if bit mask i then on else bit x i := by
  cases on with
  | true => cases h : bit mask i <;> simp [setField, bit_or, h]
  | false => cases h : bit mask i <;> simp [setField, bit_clear, h]

theorem claimStores_claims (c : Claim) (now : UInt32) (r : DirRec) :
    (stored (claimStores c now) r).claims = setField c.blob (consumerBit c.consumer <<< CLAIM_BLOB_SHIFT)
      (setField c.persist (consumerBit c.consumer <<< CLAIM_PERSIST_SHIFT)
        (setField true (consumerBit c.consumer) r.claims)) := by
  simp only [stored, claimStores, setClaims, setPrio, List.foldl_cons, List.foldl_nil]
  split <;> rfl

theorem claimStores_decay (c : Claim) (now : UInt32) (r : DirRec) :
    (stored (claimStores c now) r).claimDecay.toNat = max r.claimDecay.toNat c.decay.toNat := by
  simp only [stored, claimStores, setClaims, setPrio, List.foldl_cons, List.foldl_nil]
  split
  · next hlt => exact (max_eq_right (UInt32.lt_iff_toNat_lt.1 hlt).le).symm
  · next hle => exact (max_eq_left (not_lt.1 fun h => hle (UInt32.lt_iff_toNat_lt.2 h))).symm

theorem claimDropStores_claims (consumer : UInt32) (r : DirRec) :
    (stored (claimDropStores consumer) r).claims = setField false
      (consumerBit consumer ||| consumerBit consumer <<< CLAIM_PERSIST_SHIFT |||
        consumerBit consumer <<< CLAIM_BLOB_SHIFT) r.claims := by
  simp only [stored, claimDropStores, setClaims, setPrio, setField, List.foldl_cons, List.foldl_nil,
    Bool.false_eq_true, if_false]
  split <;> rfl

theorem claimDropStores_decay (consumer : UInt32) (r : DirRec) :
    (stored (claimDropStores consumer) r).claimDecay =
      if (stored (claimDropStores consumer) r).claims &&& CLAIM_PRESENT_MASK = 0 then 0 else r.claimDecay := by
  rw [claimDropStores_claims]
  simp only [stored, claimDropStores, setClaims, setPrio, setField, List.foldl_cons, List.foldl_nil,
    Bool.false_eq_true, if_false]
  split <;> rfl

theorem claims_claimed (h : c.consumer < CONSUMER_COUNT) (hi : i < 32) :
    bit (stored (claimStores c now) r).claims i =
      if i = c.consumer.toNat + 16 then c.blob
      else if i = c.consumer.toNat + 8 then c.persist
      else if i = c.consumer.toNat then true
      else bit r.claims i := by
  obtain ⟨hp, hs, hb⟩ := consumerBit_bits h hi
  simp only [claimStores_claims, bit_setField, hp, hs, hb, decide_eq_true_eq]

theorem claims_dropped (h : consumer < CONSUMER_COUNT) (hi : i < 32) :
    bit (stored (claimDropStores consumer) r).claims i =
      if (i = consumer.toNat ∨ i = consumer.toNat + 8) ∨ i = consumer.toNat + 16 then false else bit r.claims i := by
  obtain ⟨hp, hs, hb⟩ := consumerBit_bits h hi
  simp only [claimDropStores_claims, bit_setField, bit_or, hp, hs, hb, Bool.or_eq_true, decide_eq_true_eq]

-- ---------------------------------------------------------------------------
-- The ledger
-- ---------------------------------------------------------------------------

/-- Each consumer's claim, where its last word was one. -/
abbrev Ledger := UInt32 → Option Claim

def Ledger.decays (l : Ledger) (consumer : UInt32) : Option Nat := (l consumer).map fun c => c.decay.toNat

/-- The record is what the ledger says: its bits, its class and its decay, zero
where nobody claims it. -/
structure Reflects (l : Ledger) (r : DirRec) : Prop where
  present : ∀ consumer < CONSUMER_COUNT, (r.claims &&& consumerBit consumer ≠ 0 ↔ (l consumer).isSome)
  persistent : r.prio = CAT_PERSIST ↔
    (∃ consumer < CONSUMER_COUNT, ∃ c, l consumer = some c ∧ c.persist) ∨ r.claims &&& CLAIM_ANSWER_FOR ≠ 0
  decay : Peak.Peak l.decays r.claimDecay.toNat

/-- The same bit by bit. -/
structure Mirror (l : Ledger) (r : DirRec) : Prop where
  known : ∀ consumer c, l consumer = some c → consumer < CONSUMER_COUNT
  present : ∀ consumer < CONSUMER_COUNT, bit r.claims consumer.toNat = (l consumer).isSome
  persist : ∀ consumer < CONSUMER_COUNT, bit r.claims (consumer.toNat + 8) = (l consumer).any Claim.persist

variable {l : Ledger}

theorem not_lt_of_count_le (h : CONSUMER_COUNT ≤ consumer) : ¬ consumer < CONSUMER_COUNT := UInt32.not_lt.2 h

theorem count_lt_of_not_le (h : ¬ CONSUMER_COUNT ≤ consumer) : consumer < CONSUMER_COUNT := UInt32.not_le.1 h

theorem bit_lt {x : UInt32} (h : bit x i) : i < 32 := by
  by_contra hn
  rw [bit_of_ge (not_lt.1 hn)] at h
  cases h

theorem and_consumerBit {x : UInt32} (h : consumer < CONSUMER_COUNT) :
    x &&& consumerBit consumer ≠ 0 ↔ bit x consumer.toNat := by
  have hlt : consumer.toNat < 8 := UInt32.lt_iff_toNat_lt.1 h
  rw [and_ne_zero_iff]
  constructor
  · rintro ⟨i, hx, hi⟩
    rw [(consumerBit_bits h (bit_lt hi)).1, decide_eq_true_eq] at hi
    exact hi ▸ hx
  · intro hx
    exact ⟨_, hx, by rw [(consumerBit_bits h (by omega)).1, decide_eq_true_eq]⟩

/-- Some consumer's bit is set, in the first field or in the second. -/
theorem and_presentMask {x : UInt32} :
    x &&& CLAIM_PRESENT_MASK ≠ 0 ↔ ∃ consumer < CONSUMER_COUNT, bit x consumer.toNat := by
  rw [and_ne_zero_iff]
  constructor
  · rintro ⟨i, hx, hi⟩
    rw [(mask_bits (bit_lt hi)).1, decide_eq_true_eq] at hi
    refine ⟨.ofNat i, UInt32.lt_iff_toNat_lt.2 ?_, ?_⟩
    · rwa [UInt32.toNat_ofNat_of_lt' (by simp [UInt32.size]; omega)]
    · rwa [UInt32.toNat_ofNat_of_lt' (by simp [UInt32.size]; omega)]
  · rintro ⟨consumer, hc, hx⟩
    exact ⟨_, hx, by rw [(mask_bits (bit_lt hx)).1, decide_eq_true_eq]; exact UInt32.lt_iff_toNat_lt.1 hc⟩

theorem and_persistMask {x : UInt32} :
    x &&& CLAIM_PERSIST_MASK ≠ 0 ↔ ∃ consumer < CONSUMER_COUNT, bit x (consumer.toNat + 8) := by
  rw [and_ne_zero_iff]
  constructor
  · rintro ⟨i, hx, hi⟩
    rw [(mask_bits (bit_lt hi)).2.1, decide_eq_true_eq] at hi
    obtain ⟨j, rfl⟩ := Nat.exists_eq_add_of_le' hi.1
    have hj : j < 8 := by omega
    refine ⟨.ofNat j, UInt32.lt_iff_toNat_lt.2 ?_, ?_⟩
    · rwa [UInt32.toNat_ofNat_of_lt' (by simp [UInt32.size]; omega)]
    · rwa [UInt32.toNat_ofNat_of_lt' (by simp [UInt32.size]; omega)]
  · rintro ⟨consumer, hc, hx⟩
    have hlt : consumer.toNat < 8 := UInt32.lt_iff_toNat_lt.1 hc
    exact ⟨_, hx, by rw [(mask_bits (bit_lt hx)).2.1, decide_eq_true_eq]; omega⟩

theorem staticPrio_persist : dirStaticPrio r = CAT_PERSIST ↔
    r.claims &&& CLAIM_ANSWER_FOR ≠ 0 ∨ r.claims &&& CLAIM_PRESENT_MASK ≠ 0 ∧ r.claims &&& CLAIM_PERSIST_MASK ≠ 0 := by
  unfold dirStaticPrio
  split_ifs with ha hp hs he
  · simp [ha]
  · simp [hp, hs]
  · simp [ha, hp, hs, CAT_EPH_LIVE, CAT_PERSIST]
  · simp [ha, hp, CAT_EDGE, CAT_PERSIST]
  · simp [ha, hp, CAT_UNCLAIMED, CAT_PERSIST]

theorem Mirror.reflects (h : Mirror l r) (hc : r.Current) (hd : Peak.Peak l.decays r.claimDecay.toNat) : Reflects l r := by
  refine ⟨fun consumer hc => ?_, ?_, hd⟩
  · rw [and_consumerBit hc, h.present consumer hc]
  · have hpersist : r.claims &&& CLAIM_PERSIST_MASK ≠ 0 ↔
        ∃ consumer < CONSUMER_COUNT, ∃ c, l consumer = some c ∧ c.persist := by
      rw [and_persistMask]
      constructor
      · rintro ⟨consumer, hc, hb⟩
        rw [h.persist consumer hc, Option.any_eq_true] at hb
        exact ⟨consumer, hc, hb⟩
      · rintro ⟨consumer, hc, hb⟩
        exact ⟨consumer, hc, by rwa [h.persist consumer hc, Option.any_eq_true]⟩
    rw [hc, staticPrio_persist, hpersist, or_comm]
    constructor
    · rintro (⟨-, hb⟩ | ha)
      · exact .inl hb
      · exact .inr ha
    · rintro (⟨consumer, hc, c, hl, hb⟩ | ha)
      · refine .inl ⟨and_presentMask.2 ⟨consumer, hc, ?_⟩, consumer, hc, c, hl, hb⟩
        rw [h.present consumer hc, hl]
        rfl
      · exact .inr ha

theorem toNat_eq_iff {a b : UInt32} : a.toNat = b.toNat ↔ a = b := UInt32.toNat_inj

theorem Mirror.claim (h : Mirror l r) (hc : c.consumer < CONSUMER_COUNT) (now : UInt32) :
    Mirror (Function.update l c.consumer (some c)) (stored (claimStores c now) r) := by
  have hlt : ∀ consumer : UInt32, consumer < CONSUMER_COUNT → consumer.toNat < 8 := fun _ => UInt32.lt_iff_toNat_lt.1
  have hcl := hlt _ hc
  refine ⟨fun consumer k hk => ?_, fun consumer hk => ?_, fun consumer hk => ?_⟩
  · by_cases he : consumer = c.consumer
    · exact he ▸ hc
    · rw [Function.update_of_ne he] at hk
      exact h.known consumer k hk
  · have hl := hlt consumer hk
    rw [claims_claimed hc (by omega), if_neg (by omega), if_neg (by omega)]
    by_cases he : consumer = c.consumer
    · simp [he]
    · rw [if_neg (by rwa [toNat_eq_iff]), Function.update_of_ne he, h.present consumer hk]
  · have hl := hlt consumer hk
    rw [claims_claimed hc (by omega), if_neg (by omega)]
    by_cases he : consumer = c.consumer
    · simp [he]
    · have hne : consumer.toNat ≠ c.consumer.toNat := by rwa [ne_eq, toNat_eq_iff]
      rw [if_neg (by omega), if_neg (by omega), Function.update_of_ne he, h.persist consumer hk]

theorem Mirror.drop (h : Mirror l r) (hc : consumer < CONSUMER_COUNT) :
    Mirror (Function.update l consumer none) (stored (claimDropStores consumer) r) := by
  have hlt : ∀ consumer : UInt32, consumer < CONSUMER_COUNT → consumer.toNat < 8 := fun _ => UInt32.lt_iff_toNat_lt.1
  have hcl := hlt _ hc
  refine ⟨fun other k hk => ?_, fun other hk => ?_, fun other hk => ?_⟩
  · by_cases he : other = consumer
    · exact he ▸ hc
    · rw [Function.update_of_ne he] at hk
      exact h.known other k hk
  · have hl := hlt other hk
    rw [claims_dropped hc (by omega)]
    by_cases he : other = consumer
    · simp [he]
    · have hne : other.toNat ≠ consumer.toNat := by rwa [ne_eq, toNat_eq_iff]
      rw [if_neg (by omega), Function.update_of_ne he, h.present other hk]
  · have hl := hlt other hk
    rw [claims_dropped hc (by omega)]
    by_cases he : other = consumer
    · simp [he]
    · have hne : other.toNat ≠ consumer.toNat := by rwa [ne_eq, toNat_eq_iff]
      rw [if_neg (by omega), Function.update_of_ne he, h.persist other hk]

theorem decays_update (consumer : UInt32) (k : Option Claim) :
    Ledger.decays (Function.update l consumer k) =
      Function.update l.decays consumer (k.map fun c => c.decay.toNat) := by
  funext other
  by_cases he : other = consumer
  · subst he
    simp [Ledger.decays]
  · simp [Ledger.decays, Function.update_of_ne he]

-- ---------------------------------------------------------------------------
-- A destination's record under the operations
-- ---------------------------------------------------------------------------

variable {p q : Pools} {dest : Bytes} {stores fresh : Stores} {ok : DirRec → Bool}

theorem recordOf_setDir_self (h : dirFind dest p = some k) (hr : p.dirs[k]? = some r) (hu : (stored stores r).used)
    (hd : (stored stores r).dest = dest) : recordOf dest (setDir k stores p) = some (stored stores r) := by
  rw [recordOf, setDir_eq hr]
  exact Slots.lookup_set_self h hu hd

theorem recordOf_onDir (h : recordOf dest p = some r) (hu : (stored stores r).used)
    (hd : (stored stores r).dest = dest) :
    recordOf dest (onDir dest ok stores p) = some (if ok r then stored stores r else r) := by
  obtain ⟨k, hf, hr⟩ := Slots.lookup_eq_some.1 h
  have hfind : dirFind dest p = some k := hf
  simp only [onDir, hfind, hr, Option.any_some]
  split
  · exact recordOf_setDir_self hfind hr hu hd
  · exact h

theorem onDir_none (h : recordOf dest p = none) : onDir dest ok stores p = p := by
  have hfind : dirFind dest p = none := Slots.lookup_eq_none.1 h
  simp only [onDir, hfind]

theorem recordOf_onDirOrNew (h : recordOf dest p = some r) (hu : (stored stores r).used)
    (hd : (stored stores r).dest = dest) :
    ∃ q, onDirOrNew now dest fresh stores p = some q ∧ recordOf dest q = some (stored stores r) := by
  obtain ⟨k, hf, hr⟩ := Slots.lookup_eq_some.1 h
  have hfind : dirFind dest p = some k := hf
  exact ⟨_, by simp only [onDirOrNew, hfind], recordOf_setDir_self hfind hr hu hd⟩

/-- There is a slot for every record, unless there is none at all. -/
theorem dirAlloc_isSome (hne : p.dirs ≠ []) : ∃ q i, dirAlloc now p = some (q, i) := by
  unfold dirAlloc
  cases hf : Slots.free DirRec.used p.dirs with
  | some i => exact ⟨p, i, rfl⟩
  | none =>
    obtain ⟨r, hr⟩ := List.exists_mem_of_ne_nil p.dirs hne
    cases he : evictOneDir now p with
    | none =>
      have hfree := Slots.victim_eq_none.1 (Option.map_eq_none_iff.1 he) r hr
      have hused := Slots.free_eq_none.1 hf r hr
      simp [hfree] at hused
    | some q =>
      obtain ⟨i, victim, hv, -, -, rfl⟩ := evictOneDir_eq_some he
      have hv' : (freeBlobOf victim.dest p).dirs[i]? = some victim := by
        rw [(freeBlobOf_dirs victim.dest p).1, hv]
      cases hf' : Slots.free DirRec.used (setDir i (written recClear) (freeBlobOf victim.dest p)).dirs with
      | some j =>
        exact ⟨setDir i (written recClear) (freeBlobOf victim.dest p), j,
          by simp only [Option.bind_some, hf', Option.map_some]⟩
      | none =>
        rw [setDir_eq hv', stored_written, stored_recClear] at hf'
        have hused := Slots.free_eq_none.1 hf' .zero
          (List.mem_set (List.getElem?_eq_some_iff.1 hv').1 _)
        simp [dirZero_used] at hused

theorem recordOf_onDirOrNew_new (h : recordOf dest p = none) (hne : p.dirs ≠ [])
    (hm : Makes dest (recClear ++ fresh ++ stores)) :
    ∃ q, onDirOrNew now dest fresh stores p = some q ∧
      recordOf dest q = some (stored stores (stored fresh .zero)) := by
  have hfind : dirFind dest p = none := Slots.lookup_eq_none.1 h
  obtain ⟨q, i, ha⟩ : ∃ q i, dirAlloc now p = some (q, i) := dirAlloc_isSome hne
  obtain ⟨⟨r, hr, -⟩, hcase⟩ := dirAlloc_eq_some ha
  have hnew : dirFind dest q = none := by
    obtain rfl | ⟨-, he⟩ := hcase
    · exact hfind
    · exact dirFind_evicted he hfind
  obtain ⟨hu, hd, -⟩ := hm r
  have hstored : stored (recClear ++ fresh ++ stores) r = stored stores (stored fresh .zero) := by
    rw [stored_append, stored_append, stored_recClear]
  refine ⟨setDir i (recClear ++ fresh ++ stores) q, by simp only [onDirOrNew, hfind, ha, Option.map_some], ?_⟩
  rw [recordOf, setDir_eq hr, ← hstored]
  have hlookup := Slots.lookup_set_new (i := i) (b := stored (recClear ++ fresh ++ stores) r) (hd.symm ▸ hnew)
    (List.getElem?_eq_some_iff.1 hr).1 hu
  rwa [hd] at hlookup

-- ---------------------------------------------------------------------------
-- Runs
-- ---------------------------------------------------------------------------

inductive ClaimOp where
  | claim (now : UInt32) (c : Claim)
  | touch (now : UInt32) (consumer : UInt32)
  | drop (consumer : UInt32)
  deriving DecidableEq, Repr

def ClaimOp.onPools (dest : Bytes) : ClaimOp → PoolOp
  | claim now c => .claim now dest c
  | touch now consumer => .claimTouch now dest consumer
  | drop consumer => .claimDrop dest consumer

/-- A touch is no word about the claim; who is not a consumer has none to say. -/
def ClaimOp.note (l : Ledger) : ClaimOp → Ledger
  | claim _ c => if CONSUMER_COUNT ≤ c.consumer then l else Function.update l c.consumer (some c)
  | touch _ _ => l
  | drop consumer => if CONSUMER_COUNT ≤ consumer then l else Function.update l consumer none

structure Claimed where
  pools : Pools
  ledger : Ledger

def claimStep (dest : Bytes) (s : Claimed) (op : ClaimOp) : Claimed :=
  { pools := poolStep s.pools (op.onPools dest), ledger := op.note s.ledger }

/-- The record reflects the ledger; where there is none nobody claims it. -/
def AsSaid (dest : Bytes) (s : Claimed) : Prop :=
  match recordOf dest s.pools with
  | some r => Reflects s.ledger r
  | none => ∀ consumer, s.ledger consumer = none

/-- No consumer takes back a decay that is longer than all others': by a shorter
one while it or others claim the record, or by a drop while others do. -/
def KeepsLongest (s : Claimed) : ClaimOp → Prop
  | .claim _ c => c.consumer < CONSUMER_COUNT → ∀ d, s.ledger.decays c.consumer = some d →
    d ≤ c.decay.toNat ∨ Peak.Matched s.ledger.decays c.consumer d
  | .touch _ _ => True
  | .drop consumer => consumer < CONSUMER_COUNT → ∀ d, s.ledger.decays consumer = some d →
    d = 0 ∨ (∀ other, other ≠ consumer → s.ledger other = none) ∨ Peak.Matched s.ledger.decays consumer d

/-- The invariant: bit by bit, and a slot to be had for a record that is not there yet. -/
def Mirrored (dest : Bytes) (s : Claimed) : Prop :=
  match recordOf dest s.pools with
  | some r => Mirror s.ledger r ∧ r.Current ∧ Peak.Peak s.ledger.decays r.claimDecay.toNat
  | none => (∀ consumer, s.ledger consumer = none) ∧ s.pools.dirs ≠ []

theorem Mirrored.asSaid {s : Claimed} (h : Mirrored dest s) : AsSaid dest s := by
  unfold Mirrored at h
  unfold AsSaid
  cases hr : recordOf dest s.pools with
  | none =>
    rw [hr] at h
    exact h.1
  | some r =>
    rw [hr] at h
    exact h.1.reflects h.2.1 h.2.2

theorem peak_claim (hp : Peak.Peak l.decays r.claimDecay.toNat) :
    Peak.Peak (Ledger.decays (Function.update l c.consumer (some c)))
        (stored (claimStores c now) r).claimDecay.toNat ↔
      ∀ d, l.decays c.consumer = some d → d ≤ c.decay.toNat ∨ Peak.Matched l.decays c.consumer d := by
  rw [claimStores_decay, decays_update]
  exact hp.raise

theorem peak_drop (h : Mirror l r) (hp : Peak.Peak l.decays r.claimDecay.toNat) (hc : consumer < CONSUMER_COUNT) :
    Peak.Peak (Ledger.decays (Function.update l consumer none))
        (stored (claimDropStores consumer) r).claimDecay.toNat ↔
      ∀ d, l.decays consumer = some d →
        d = 0 ∨ (∀ other, other ≠ consumer → l other = none) ∨ Peak.Matched l.decays consumer d := by
  have hdropped := h.drop hc
  by_cases halone : ∀ other, other ≠ consumer → l other = none
  · have hnone : ∀ other, Function.update l consumer none other = none := by
      intro other
      by_cases he : other = consumer
      · rw [he, Function.update_self]
      · rw [Function.update_of_ne he, halone other he]
    have hmask : (stored (claimDropStores consumer) r).claims &&& CLAIM_PRESENT_MASK = 0 := by
      by_contra hn
      obtain ⟨other, ho, hb⟩ := and_presentMask.1 hn
      rw [hdropped.present other ho, hnone other] at hb
      cases hb
    rw [claimDropStores_decay, if_pos hmask]
    refine ⟨fun _ _ _ => .inr (.inl halone), fun _ => Peak.Peak.empty fun other => ?_⟩
    simp [Ledger.decays, hnone other]
  · obtain ⟨other, hother⟩ := not_forall.1 halone
    obtain ⟨hne, hl⟩ := Classical.not_imp.1 hother
    obtain ⟨k, hk⟩ := Option.ne_none_iff_exists'.1 hl
    have hmask : (stored (claimDropStores consumer) r).claims &&& CLAIM_PRESENT_MASK ≠ 0 := by
      refine and_presentMask.2 ⟨other, h.known other k hk, ?_⟩
      rw [hdropped.present other (h.known other k hk), Function.update_of_ne hne, hk]
      rfl
    rw [claimDropStores_decay, if_neg hmask, decays_update]
    refine hp.drop.trans (forall₂_congr fun d _ => ?_)
    simp [halone]

/-- What an operation does to the ledger and to the record. -/
inductive Spoken (l : Ledger) (r : DirRec) : ClaimOp → Ledger → DirRec → Prop
  | claimed (now : UInt32) (c : Claim) (h : c.consumer < CONSUMER_COUNT) :
    Spoken l r (.claim now c) (Function.update l c.consumer (some c)) (stored (claimStores c now) r)
  | notClaimed (now : UInt32) (c : Claim) (h : CONSUMER_COUNT ≤ c.consumer) : Spoken l r (.claim now c) l r
  | touched (now consumer : UInt32) : Spoken l r (.touch now consumer) l { r with claimTouch := now }
  | notTouched (now consumer : UInt32) : Spoken l r (.touch now consumer) l r
  | dropped (consumer : UInt32) (h : consumer < CONSUMER_COUNT) :
    Spoken l r (.drop consumer) (Function.update l consumer none) (stored (claimDropStores consumer) r)
  | notDropped (consumer : UInt32) (h : CONSUMER_COUNT ≤ consumer) : Spoken l r (.drop consumer) l r

/-- A record that mirrors the ledger still does, and its decay is the longest
exactly where no longest one was taken back. -/
theorem Spoken.mirror {l' : Ledger} {r' : DirRec} {op : ClaimOp} (hs : Spoken l r op l' r') (h : Mirror l r)
    (hp : Peak.Peak l.decays r.claimDecay.toNat) (p : Pools) :
    Mirror l' r' ∧ (Peak.Peak l'.decays r'.claimDecay.toNat ↔ KeepsLongest ⟨p, l⟩ op) := by
  cases hs with
  | claimed now c hc => exact ⟨h.claim hc now, (peak_claim hp).trans ⟨fun hd _ => hd, fun hd => hd hc⟩⟩
  | notClaimed now c hc => exact ⟨h, fun _ hlt => absurd hlt (not_lt_of_count_le hc), fun _ => hp⟩
  | touched now consumer => exact ⟨⟨h.known, h.present, h.persist⟩, fun _ => trivial, fun _ => hp⟩
  | notTouched now consumer => exact ⟨h, fun _ => trivial, fun _ => hp⟩
  | dropped consumer hc => exact ⟨h.drop hc, (peak_drop h hp hc).trans ⟨fun hd _ => hd, fun hd => hd hc⟩⟩
  | notDropped consumer hc => exact ⟨h, fun _ hlt => absurd hlt (not_lt_of_count_le hc), fun _ => hp⟩

variable {s : Claimed}

theorem spoken_of_record (op : ClaimOp) (hr : recordOf dest s.pools = some r) (hcur : r.Current) :
    ∃ r', recordOf dest (claimStep dest s op).pools = some r' ∧
      Spoken s.ledger r op (claimStep dest s op).ledger r' := by
  obtain ⟨-, hu, hd⟩ := Slots.lookup_spec hr
  cases op with
  | claim now c =>
    obtain ⟨hu', hd', -⟩ := claimStores_keeps dest c now r hu hd
    simp only [claimStep, ClaimOp.onPools, ClaimOp.note, poolStep, rdirClaim]
    split
    · next hc => exact ⟨r, hr, .notClaimed now c hc⟩
    · next hc =>
      let fresh : Stores :=
        [.put fun r => { r with dest }, setFlags F_USED, .put fun r => { r with lastHeard := now }]
      obtain ⟨q, hq, hrec⟩ : ∃ q, onDirOrNew now dest fresh (claimStores c now) s.pools = some q ∧
          recordOf dest q = some (stored (claimStores c now) r) := recordOf_onDirOrNew hr hu' hd'
      rw [hq]
      exact ⟨_, hrec, .claimed now c (count_lt_of_not_le hc)⟩
  | touch now consumer =>
    simp only [claimStep, ClaimOp.onPools, ClaimOp.note, poolStep, rdirClaimTouch]
    split
    · exact ⟨r, hr, .notTouched now consumer⟩
    · refine ⟨_, recordOf_onDir hr hu hd, ?_⟩
      split
      · exact .touched now consumer
      · exact .notTouched now consumer
  | drop consumer =>
    obtain ⟨hu', hd', -⟩ := claimDropStores_keeps dest consumer r hu hd hcur
    simp only [claimStep, ClaimOp.onPools, ClaimOp.note, poolStep, rdirClaimDrop]
    split
    · next hc => exact ⟨r, hr, .notDropped consumer hc⟩
    · next hc =>
      exact ⟨_, recordOf_onDir hr hu' hd', .dropped consumer (count_lt_of_not_le hc)⟩

/-- The class is worked out again with every claim and every drop. -/
theorem Spoken.current {l' : Ledger} {r' : DirRec} {op : ClaimOp} (hs : Spoken l r op l' r') (h : r.Current) :
    r'.Current := by
  cases hs with
  | claimed | dropped => rfl
  | notClaimed | touched | notTouched | notDropped => exact h

theorem mirror_unclaimed (hl : ∀ consumer, l consumer = none)
    (hp : r.claims &&& CLAIM_PRESENT_MASK = 0) (hs : r.claims &&& CLAIM_PERSIST_MASK = 0) : Mirror l r := by
  refine ⟨fun consumer c h => by simp [hl consumer] at h, fun consumer h => ?_, fun consumer h => ?_⟩
  · rw [hl consumer, Option.isSome_none, Bool.eq_false_iff]
    exact fun hb => and_presentMask.2 ⟨consumer, h, hb⟩ hp
  · rw [hl consumer, Option.any_none, Bool.eq_false_iff]
    exact fun hb => and_persistMask.2 ⟨consumer, h, hb⟩ hs

theorem peak_unclaimed (hl : ∀ consumer, l consumer = none) : Peak.Peak l.decays 0 :=
  Peak.Peak.empty fun consumer => by simp [Ledger.decays, hl consumer]

/-- What a step does from a mirrored state: nothing, where there is no record
and none is made, or a word about a record that mirrors the ledger. -/
theorem Mirrored.cases (h : Mirrored dest s) (op : ClaimOp) :
    (Mirrored dest (claimStep dest s op) ∧ KeepsLongest s op) ∨
    ∃ r r', Mirror s.ledger r ∧ Peak.Peak s.ledger.decays r.claimDecay.toNat ∧
      recordOf dest (claimStep dest s op).pools = some r' ∧ r'.Current ∧
        Spoken s.ledger r op (claimStep dest s op).ledger r' := by
  unfold Mirrored at h
  cases hr : recordOf dest s.pools with
  | some r =>
    rw [hr] at h
    obtain ⟨hm, hcur, hp⟩ := h
    obtain ⟨r', hr', hs⟩ := spoken_of_record op hr hcur
    exact .inr ⟨r, r', hm, hp, hr', hs.current hcur, hs⟩
  | none =>
    rw [hr] at h
    obtain ⟨hl, hne⟩ := h
    have hstill : Mirrored dest s := by
      unfold Mirrored
      rw [hr]
      exact ⟨hl, hne⟩
    have hquiet : ∀ consumer d, s.ledger.decays consumer ≠ some d := fun consumer d => by
      simp [Ledger.decays, hl consumer]
    cases op with
    | claim now c =>
      by_cases hc : CONSUMER_COUNT ≤ c.consumer
      · have hsame : claimStep dest s (.claim now c) = s := by
          simp [claimStep, ClaimOp.onPools, ClaimOp.note, poolStep, rdirClaim, hc]
        exact .inl ⟨by rwa [hsame], fun _ d hd => absurd hd (hquiet _ d)⟩
      · let fresh : Stores :=
          [.put fun r => { r with dest }, setFlags F_USED, .put fun r => { r with lastHeard := now }]
        obtain ⟨q, hq, hrec⟩ : ∃ q, onDirOrNew now dest fresh (claimStores c now) s.pools = some q ∧
            recordOf dest q = some (stored (claimStores c now) (stored fresh .zero)) :=
          recordOf_onDirOrNew_new hr hne (claim_makes dest c now)
        have hpools : (claimStep dest s (.claim now c)).pools = q := by
          simp only [claimStep, ClaimOp.onPools, poolStep, rdirClaim, if_neg hc]
          rw [hq, Option.getD_some]
        have hledger : (claimStep dest s (.claim now c)).ledger =
            Function.update s.ledger c.consumer (some c) := if_neg hc
        have hclaims : (stored fresh .zero).claims = 0 := rfl
        have hdecay : (stored fresh .zero).claimDecay = 0 := rfl
        have hblank : Mirror s.ledger (stored fresh .zero) :=
          mirror_unclaimed hl (by rw [hclaims]; decide) (by rw [hclaims]; decide)
        have hpeak : Peak.Peak s.ledger.decays (stored fresh .zero).claimDecay.toNat := by
          rw [hdecay]
          exact peak_unclaimed hl
        refine .inr ⟨stored fresh .zero, stored (claimStores c now) (stored fresh .zero), hblank, hpeak, ?_, rfl, ?_⟩
        · rw [hpools]
          exact hrec
        · rw [hledger]
          exact .claimed now c (count_lt_of_not_le hc)
    | touch now consumer =>
      have hsame : claimStep dest s (.touch now consumer) = s := by
        simp only [claimStep, ClaimOp.onPools, ClaimOp.note, poolStep, rdirClaimTouch, onDir_none hr, ite_self]
      exact .inl ⟨by rwa [hsame], trivial⟩
    | drop consumer =>
      have hpools : (claimStep dest s (.drop consumer)).pools = s.pools := by
        simp only [claimStep, ClaimOp.onPools, poolStep, rdirClaimDrop, onDir_none hr, ite_self]
      have hledger : ∀ other, (claimStep dest s (.drop consumer)).ledger other = none := by
        intro other
        simp only [claimStep, ClaimOp.note]
        split
        · exact hl other
        · by_cases he : other = consumer
          · rw [he, Function.update_self]
          · rw [Function.update_of_ne he, hl other]
      refine .inl ⟨?_, fun _ d hd => absurd hd (hquiet _ d)⟩
      unfold Mirrored
      rw [hpools, hr]
      exact ⟨hledger, hne⟩

theorem Mirrored.step (h : Mirrored dest s) {op : ClaimOp} (hok : KeepsLongest s op) :
    Mirrored dest (claimStep dest s op) := by
  obtain ⟨hm, -⟩ | ⟨r, r', hm, hp, hr', hcur, hs⟩ := h.cases op
  · exact hm
  · obtain ⟨hm', hiff⟩ := hs.mirror hm hp s.pools
    unfold Mirrored
    rw [hr']
    exact ⟨hm', hcur, hiff.2 hok⟩

theorem Mirrored.broken (h : Mirrored dest s) {op : ClaimOp} (hbad : ¬ KeepsLongest s op) :
    ¬ AsSaid dest (claimStep dest s op) := by
  obtain ⟨-, hok⟩ | ⟨r, r', hm, hp, hr', -, hs⟩ := h.cases op
  · exact absurd hok hbad
  · obtain ⟨-, hiff⟩ := hs.mirror hm hp s.pools
    unfold AsSaid
    rw [hr']
    exact fun hsaid => hbad (hiff.1 hsaid.decay)

/-- Nobody claims the record yet. -/
def Unclaimed (r : DirRec) : Prop :=
  r.claims &&& CLAIM_PRESENT_MASK = 0 ∧ r.claims &&& CLAIM_PERSIST_MASK = 0 ∧ r.claimDecay = 0

theorem Mirrored.throughout_iff (h : Mirrored dest s) (ops : List ClaimOp) :
    Runs.Throughout (claimStep dest) (AsSaid dest) s ops ↔ Runs.Guarded (claimStep dest) KeepsLongest s ops :=
  Runs.throughout_iff (fun _ _ hm hok => hm.step hok) (fun _ hm => hm.asSaid) (fun _ _ hm hbad => hm.broken hbad) h

/-- From a record nobody claims, or none at all, the record says throughout what
the consumers last said, exactly in the runs in which no longest decay is taken
back. -/
theorem as_said_iff (h : Reachable p) (hne : p.dirs ≠ []) (dest : Bytes)
    (hfree : ∀ r, recordOf dest p = some r → Unclaimed r) (ops : List ClaimOp) :
    Runs.Throughout (claimStep dest) (AsSaid dest) ⟨p, fun _ => none⟩ ops ↔
      Runs.Guarded (claimStep dest) KeepsLongest ⟨p, fun _ => none⟩ ops := by
  refine Mirrored.throughout_iff ?_ ops
  unfold Mirrored
  cases hr : recordOf dest p with
  | none => exact ⟨fun _ => rfl, hne⟩
  | some r =>
    obtain ⟨hmem, hu, -⟩ := Slots.lookup_spec hr
    obtain ⟨hp, hs, hd⟩ := hfree r hr
    refine ⟨mirror_unclaimed (fun _ => rfl) hp hs, h.invariant.1.current r hmem hu, ?_⟩
    rw [hd]
    exact peak_unclaimed fun _ => rfl

/-- Two consumers claim a destination, the first one for the longer time or for
the shorter one, and then it drops its claim. -/
def twoClaims (first second : UInt32) : List ClaimOp :=
  [.claim 10 { consumer := 0, persist := false, blob := false, decay := first },
   .claim 11 { consumer := 1, persist := true, blob := false, decay := second },
   .drop 0]

theorem smallArena_unclaimed (dest : Bytes) : recordOf dest smallArena.empty = none :=
  Slots.lookup_eq_none.2 (Slots.find_eq_none.2 fun _ hr hu => by simp [not_mem_unused hr dirZero_used] at hu)

theorem as_said_shorter_dropped :
    Runs.Throughout (claimStep (.replicate 16 1)) (AsSaid (.replicate 16 1)) ⟨smallArena.empty, fun _ => none⟩
      (twoClaims 10 100) := by
  refine (as_said_iff (.empty smallArena) (by decide) (.replicate 16 1) (fun r hr => ?_) (twoClaims 10 100)).2 ?_
  · rw [smallArena_unclaimed] at hr
    cases hr
  · refine ⟨fun _ d hd => ?_, fun _ d hd => ?_, fun _ d hd => ?_, trivial⟩
    · cases hd
    · cases hd
    · cases hd
      exact .inr (.inr ⟨1, 100, by decide, rfl, by decide⟩)

/-- The longer decay outlives the claim it came with. -/
theorem longer_decay_stays :
    ¬ Runs.Throughout (claimStep (.replicate 16 1)) (AsSaid (.replicate 16 1)) ⟨smallArena.empty, fun _ => none⟩
      (twoClaims 100 10) := by
  have hinit : Mirrored (.replicate 16 1) ⟨smallArena.empty, fun _ => none⟩ := by
    unfold Mirrored
    rw [smallArena_unclaimed]
    exact ⟨fun _ => rfl, by decide⟩
  rw [hinit.throughout_iff]
  rintro ⟨-, -, hdrop, -⟩
  obtain hz | halone | ⟨other, d, hne, hd, hle⟩ := hdrop (by decide) 100 rfl
  · cases hz
  · exact absurd (halone 1 (by decide)) (by decide)
  · have hother : other = 1 := by
      by_contra hn
      have hnone : Ledger.decays (Function.update (Function.update (fun _ => none) 0 _) 1 _) other = some d := hd
      simp [Ledger.decays, Function.update_of_ne hn, Function.update_of_ne hne] at hnone
    subst hother
    cases hd
    exact absurd hle (by decide)

end MicroReticulum.Directory
